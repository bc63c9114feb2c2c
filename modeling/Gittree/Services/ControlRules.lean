import Gittree.Lib.Histories
import Gittree.Services.ControlRequests

/-!
# What requests to the control service may do

What a request to the control service may call, after what it was answered before, and what it may
be answered itself.  A repository is created, and its announcement put into the outbox, for a
request with the token that shows the secret key of the announced key, or for one that this key has
signed; a tenant and its owner are stored for the key that has signed the request.

* `Ask.Rule`, `Ask.Fits`: the calls and the answers;
* `keeps_order`: the creation of a repository;
* `Ask.obeys_serve`: every handler keeps to the rule.
-/

namespace Gittree

open Rust

namespace Control.Provenance

/-- The control service, and what the coordinator runs in. -/
structure Config where
  state : ControlAppState
  coordinator : ServiceEnv

/-- The requests, by the route that they take; those that announce a repository come with the time,
those for a tenant with the random key and nonce. -/
inductive Ask
  | createUser (headers : GitHttp.HeaderMap) (payload : Forgejo.CreateUser)
  | createOrg (headers : GitHttp.HeaderMap) (payload : ControlCreateOrgRequest)
  | createRepo (headers : GitHttp.HeaderMap) (payload : ControlCreateRepoRequest) (now : ℤ)
  | createRepoNostr (request : HttpRequest)
  | createTenant (request : HttpRequest) (secretKey nonce : List UInt8)
  | createPull (headers : GitHttp.HeaderMap) (payload : ControlCreatePullRequest)
  | event (headers : GitHttp.HeaderMap) (payload : ControlEventRequest) (now : ℤ)

/-- What is answered. -/
inductive Reply
  | user (result : Except ControlHttpError Forgejo.User)
  | org (result : Except ControlHttpError Forgejo.Org)
  | repo (result : Except ControlHttpError Forgejo.Repo)
  | nostrRepo (result : Except ControlHttpError RepoCreateResponse)
  | tenant (result : Except ControlHttpError ControlCreateTenantResponse)
  | pull (result : Except ControlHttpError Forgejo.PullRequest)
  | event (result : Except ControlHttpError ControlEventResponse)
  deriving DecidableEq

/-- The handler of a route of `build_router`. -/
def Ask.serve (c : Config) : Ask → Prog ControlCall ControlCall.Answer Reply
  | .createUser headers payload => do
    return .user (← (createUserHandler c.state headers payload).run)
  | .createOrg headers payload => do
    return .org (← (createOrgHandler c.state headers payload).run)
  | .createRepo headers payload now => do
    return .repo (← (createRepoHandler c.state headers payload now).run)
  | .createRepoNostr request => do
    return .nostrRepo (← (createRepoNostrHandler c.state request).run)
  | .createTenant request secretKey nonce => do
    return .tenant (← (tenantHandler c.state request secretKey nonce).run)
  | .createPull headers payload => do
    return .pull (← (createPullHandler c.state headers payload).run)
  | .event headers payload now => do
    return .event (← (controlEventHandler c.state headers payload now).run)

/-! ### Who may ask -/

/-- The request carries the control token; an event also names the key of an administrator. -/
def Ask.Trusted (c : Config) : Ask → Prop
  | .createUser headers _ | .createOrg headers _
  | .createRepo headers _ _ | .createPull headers _ => HasToken headers c.state.auth.token
  | .event headers payload _ => HasToken headers c.state.auth.token ∧
    (c.state.auth.adminKeys = [] ∨ payload.pubkey ∈ c.state.auth.adminKeys)
  | _ => False

/-- The request is signed by a key, together with its body. -/
def Ask.SignedBy (c : Config) (ask : Ask) (auth : Nip98Auth) : Prop :=
  ∃ request, (ask = .createRepoNostr request ∨
      ∃ secretKey nonce, ask = .createTenant request secretKey nonce) ∧
    request.AuthorisedBy c.state.nostr (nip98PayloadHash c.state.nip98 request.body) auth

/-- What a holder of the token asks for in the name of a key, whose secret key comes with it. -/
def Ask.Inputs (c : Config) (ask : Ask) (input : CreateRepoInput) (now : ℤ) : Prop :=
  (∃ headers payload, ask = .createRepo headers payload now ∧
      repoInput c.state headers payload = .ok input) ∨
    ∃ headers payload name owner identifier description isPrivate pubkey privkey,
      ask = .event headers payload now ∧ eventAction c.state headers payload =
          .ok (.createRepo name owner identifier description isPrivate pubkey privkey) ∧
        input = ⟨owner, name, identifier, description, isPrivate, none, pubkey, privkey⟩

/-- A repository that is asked for: its announcement, its owner and name on the Forgejo server and
its identifier. -/
structure Order where
  event : NostrEvent
  owner : String
  name : String
  identifier : String

/-- What a request was answered about repositories. -/
abbrev Saw : Type := (call : Call) → call.Answer → Prop

/-- The repositories that a request asks for: with the token and the secret key of the announced
key, or signed by that key, which has an account. -/
inductive Ask.Orders (c : Config) (ask : Ask) (saw : Saw) : Order → Prop
  | keyed {input : CreateRepoInput} {now : ℤ} {owner identifier : String} {event : NostrEvent}
      (hinput : ask.Inputs c input now)
      (hprepared : prepareAnnouncement c.state.env c.state.signing c.state.config now input =
        .ok (owner, identifier, event)) :
    Orders c ask saw ⟨event, owner, input.name, identifier⟩
  | signed {request : HttpRequest} {auth : Nip98Auth} {payload : RepoCreateRequest}
      {valid : ValidAnnouncement} {account : AccountRecord}
      (hask : ask = .createRepoNostr request)
      (hauth : request.AuthorisedBy c.state.nostr
        (nip98PayloadHash c.state.nip98 request.body) auth)
      (hpayload : readRepoRequest c.state request.body = .ok payload)
      (hvalid : validateRepoAnnouncementEvent c.state.env.host c.state.signing.toCrypto
        payload.event auth.pubkey c.state.config.relayUrls c.state.config.publicGitUrl = .ok valid)
      (haccount : saw (.accountByPubkey valid.pubkey) (.ok (some account))) :
    Orders c ask saw ⟨payload.event, account.forgejoUsername, valid.identifier, valid.identifier⟩

/-- The Forgejo server has answered with the repository, as one of the owner under the name. -/
inductive Answered (saw : Saw) (owner name : String) (repo : Forgejo.Repo) : Prop
  | made (payload : Forgejo.CreateAdminRepoPayload) (response : Forgejo.Response Forgejo.Repo)
      (hname : payload.name = name)
      (hsaw : saw (.forgejo (.createAdminRepo owner payload)) (.ok response))
      (hparse : response.parse = .ok repo)
  | found (response : Forgejo.Response Forgejo.Repo)
      (hsaw : saw (.forgejo (.getRepo owner name)) (.ok response))
      (hparse : response.parse = .ok repo)

/-- The request that puts the announcement of an order into the outbox. -/
def Order.publication (order : Order) (repo : Forgejo.Repo) (relayUrl : String) :
    RelayPublishRequest :=
  publishRequest order.event order.owner repo.name order.identifier relayUrl

/-- The calls that an order needs. -/
def Order.Needs (c : Config) (saw : Saw) (order : Order) : Call → Prop
  | .forgejo (.createAdminRepo owner payload) => owner = order.owner ∧ payload.name = order.name
  | .forgejo (.getRepo owner name) => owner = order.owner ∧ name = order.name
  | .enqueueRelayPublish request => ∃ repo, Answered saw order.owner order.name repo ∧
    ∃ relayUrl ∈ c.state.config.relayUrls, request = order.publication repo relayUrl
  | _ => False

/-- The calls of a request. -/
abbrev Past : Type := Prog.History ControlCall ControlCall.Answer

/-- What a request was answered about repositories, up to a call. -/
def Past.saw (past : Past) : Saw := fun call answer => ⟨.repos call, answer⟩ ∈ past

/-- The calls of a request for a tenant, once its key has signed. -/
def TenantRule (key : List UInt8) (past : Past) : TenantCall → Prop
  | .tenantByHost _ => True
  | .upsertTenant record => ⟨.tenants (.tenantByHost record.id), .ok none⟩ ∈ past
  | .upsertMembership membership => membership.pubkey = key ∧ membership.role = "owner" ∧ ∃ record,
    record.id = membership.tenantId ∧ ⟨.tenants (.upsertTenant record), .ok ()⟩ ∈ past

/-- The calls that a request may make. -/
def Ask.Rule (c : Config) (ask : Ask) (past : Past) : ControlCall → Prop
  | .repos call => (∃ auth, ask.SignedBy c auth ∧ call = .accountByPubkey auth.pubkeyBytes) ∨
    ∃ order, ask.Orders c past.saw order ∧ order.Needs c past.saw call
  | .tenants call => ∃ auth, ask.SignedBy c auth ∧ TenantRule auth.pubkeyBytes past call
  | .createUser _ | .createOrg _ _ | .createPullRequest _ _ _ => ask.Trusted c

/-- The repository was asked for, and its announcement put into the outbox for every relay. -/
def Ask.Ordered (c : Config) (ask : Ask) (past : Past) : Prop :=
  ∃ order repo, ask.Orders c past.saw order ∧ Answered past.saw order.owner order.name repo ∧
    ∀ relayUrl ∈ c.state.config.relayUrls,
      past.saw (.enqueueRelayPublish (order.publication repo relayUrl)) (.ok ())

/-- The tenant and the membership of its owner were stored. -/
def Ask.Founded (c : Config) (ask : Ask) (past : Past) (tenantId : String) : Prop :=
  ∃ auth record membership, ask.SignedBy c auth ∧ record.id = tenantId ∧
    membership.tenantId = tenantId ∧ membership.pubkey = auth.pubkeyBytes ∧
      membership.role = "owner" ∧ ⟨.tenants (.upsertTenant record), .ok ()⟩ ∈ past ∧
        ⟨.tenants (.upsertMembership membership), .ok ()⟩ ∈ past

/-- The answers that a request may have. -/
def Ask.Fits (c : Config) (ask : Ask) (past : Past) : Reply → Prop
  | .repo (.ok _) | .nostrRepo (.ok _) | .event (.ok (.createRepo _)) => ask.Ordered c past
  | .tenant (.ok response) => ask.Founded c past response.tenantId
  | _ => True

/-! ### The creation of a repository -/

section

variable {c : Config} {ask : Ask} {past later : Past} {order : Order} {saw saw' : Saw}
  {owner name : String} {repo : Forgejo.Repo}

theorem Ask.Orders.mono (h : ask.Orders c saw order)
    (hsaw : ∀ call answer, saw call answer → saw' call answer) : ask.Orders c saw' order := by
  cases h with
  | keyed hinput hprepared => exact .keyed hinput hprepared
  | signed hask hauth hpayload hvalid haccount =>
    exact .signed hask hauth hpayload hvalid (hsaw _ _ haccount)

theorem Answered.mono (h : Answered saw owner name repo)
    (hsaw : ∀ call answer, saw call answer → saw' call answer) : Answered saw' owner name repo := by
  cases h with
  | made payload response hname hmade hparse =>
    exact .made payload response hname (hsaw _ _ hmade) hparse
  | found response hfound hparse => exact .found response (hsaw _ _ hfound) hparse

end

section

variable {P : Prog.History Call Call.Answer → Call → Prop} {past : Prog.History Call Call.Answer}
  {owner name : String}

/-- What was answered to the calls of the creation of a repository. -/
def answers (past : Prog.History Call Call.Answer) : Saw := fun call answer => ⟨call, answer⟩ ∈ past

theorem answers_mono {later : Prog.History Call Call.Answer} (h : past <+: later) (call : Call)
    (answer : call.Answer) (hsaw : answers past call answer) : answers later call answer :=
  h.subset hsaw

theorem keeps_ask (call : Call) (hcall : P past call) :
    Prog.Keeps P (fun later a => answers later call (.ok a)) past (Gittree.ask call) :=
  Prog.keeps_attempt ⟨hcall, fun _ _ ha => List.mem_append_right _ (ha ▸ List.mem_cons_self)⟩

theorem keeps_getExisting (hget : P past (.forgejo (.getRepo owner name))) :
    Prog.Keeps P (fun later repo => Answered (answers later) owner name repo) past
      (Forgejo.getExisting owner name) := by
  unfold Forgejo.getExisting Forgejo.getRepoForOwner
  refine Prog.Keeps.bind (G := fun later found => ∀ repo, found = some repo →
    Answered (answers later) owner name repo) ?_ fun later found _ hfound => ?_
  · refine (keeps_ask (.forgejo (.getRepo owner name)) hget).bind
      fun later response _ hresponse => ?_
    split_ifs
    · cases hparse : response.parse with
      | error err => exact Prog.keeps_throw
      | ok repo =>
        refine Prog.keeps_pure fun found hfound => ?_
        cases hfound
        exact .found response hresponse hparse
    · exact Prog.keeps_pure fun repo hrepo => by cases hrepo
    · exact Prog.keeps_throw
  · exact Prog.keeps_ofExcept fun repo hrepo => hfound repo (Result.okOr_eq_ok.1 hrepo)

/-- The repository is answered by the server, as one of the owner under the name. -/
theorem keeps_createRepoForOwner (config : Forgejo.Config) (description : Option String)
    (isPrivate autoInit : Option Bool)
    (hcreate : ∀ payload, payload.name = name → P past (.forgejo (.createAdminRepo owner payload)))
    (hget : ∀ later, past <+: later → P later (.forgejo (.getRepo owner name))) :
    Prog.Keeps P (fun later repo => Answered (answers later) owner name repo) past
      (Forgejo.createRepoForOwner config owner name description isPrivate autoInit) := by
  unfold Forgejo.createRepoForOwner
  refine (keeps_ask (.forgejo (.createAdminRepo owner _)) (hcreate _ rfl)).bind
    fun later response hlater hresponse => ?_
  unfold Forgejo.created
  split_ifs
  · refine Prog.keeps_ofExcept fun repo hparse => ?_
    exact .made _ response rfl hresponse hparse
  · exact Prog.keeps_throw
  · exact keeps_getExisting (hget later hlater)
  · exact Prog.keeps_throw

/-- The loop over the relays asks for an announcement on each of them. -/
theorem keeps_enqueueAll {event : NostrEvent} {repo identifier : String} {relayUrls : List String}
    (h : ∀ later, past <+: later → ∀ relayUrl ∈ relayUrls,
      P later (.enqueueRelayPublish (publishRequest event owner repo identifier relayUrl))) :
    Prog.Keeps P (fun later _ => ∀ relayUrl ∈ relayUrls, answers later
        (.enqueueRelayPublish (publishRequest event owner repo identifier relayUrl)) (.ok ())) past
      (enqueueAll event owner repo identifier relayUrls) := by
  induction relayUrls generalizing past with
  | nil => exact Prog.keeps_pure fun relayUrl hmem => by cases hmem
  | cons relayUrl rest ih =>
    refine (keeps_ask (.enqueueRelayPublish _) (h past List.prefix_rfl relayUrl
      List.mem_cons_self)).bind fun later _ hlater hanswer => ?_
    refine (ih fun last hlast url hurl => h last (hlater.trans hlast) url
      (List.mem_cons_of_mem _ hurl)).mono fun last _ hlast hrest url hurl => ?_
    rcases List.mem_cons.1 hurl with rfl | hurl
    · exact answers_mono hlast _ _ hanswer
    · exact hrest url hurl

end

/-! ### Handlers keep to the rule -/

section

variable {c : Config} {ask : Ask} {past before : Past} {order : Order}

/-- The calls before the creation of a repository, and those of it. -/
def onward (before : Past) (repos : Prog.History Call Call.Answer) : Past :=
  before ++ Prog.embedded ControlCall.repos repos

theorem onward_mono {repos later : Prog.History Call Call.Answer} (h : repos <+: later) :
    onward before repos <+: onward before later :=
  Prog.embedded_prefix (S := ControlCall.Answer) before h

theorem saw_onward {repos : Prog.History Call Call.Answer} (call : Call) (answer : call.Answer)
    (h : answers repos call answer) : (onward before repos).saw call answer :=
  List.mem_append_right _ (Prog.mem_embedded (S := ControlCall.Answer) h)

theorem Past.saw_mono {later : Past} (h : past <+: later) (call : Call) (answer : call.Answer)
    (hsaw : past.saw call answer) : later.saw call answer :=
  h.subset hsaw

/-- The repository of an order is created, and its announcement put into the outbox. -/
theorem keeps_order {γ : Type} {repos : Prog.History Call Call.Answer}
    (horder : ask.Orders c (onward before repos).saw order) (config : Forgejo.Config)
    (description : Option String) (isPrivate autoInit : Option Bool) (result : Forgejo.Repo → γ) :
    Prog.Keeps (fun later call => ask.Rule c (onward before later) (.repos call))
      (fun later _ => ask.Ordered c (onward before later)) repos (do
        let repo ← ExceptT.adapt mapForgejoError (Forgejo.createRepoForOwner config order.owner
          order.name description isPrivate autoInit)
        ExceptT.adapt mapStorageError (enqueueAll order.event order.owner repo.name
          order.identifier c.state.config.relayUrls)
        return result repo) := by
  have hneeds : ∀ later call, repos <+: later → order.Needs c (onward before later).saw call →
      ask.Rule c (onward before later) (.repos call) := fun later call hlater hcall =>
    .inr ⟨order, horder.mono (Past.saw_mono (onward_mono hlater)), hcall⟩
  refine ((keeps_createRepoForOwner config description isPrivate autoInit
    (fun payload hname => hneeds repos (.forgejo (.createAdminRepo _ payload)) List.prefix_rfl
      ⟨rfl, hname⟩)
    fun later hlater => hneeds later (.forgejo (.getRepo _ _)) hlater ⟨rfl, rfl⟩).adapt _).bind
      fun later repo hlater hrepo => ?_
  have hrepo : Answered (onward before later).saw order.owner order.name repo :=
    hrepo.mono saw_onward
  refine ((keeps_enqueueAll fun last hlast relayUrl hurl => ?_).adapt _).bind
    fun last _ hlast hall => ?_
  · exact hneeds last (.enqueueRelayPublish _) (hlater.trans hlast)
      ⟨repo, hrepo.mono (Past.saw_mono (onward_mono hlast)), relayUrl, hurl, rfl⟩
  · exact Prog.keeps_pure ⟨order, repo,
      horder.mono (Past.saw_mono (onward_mono (hlater.trans hlast))),
      hrepo.mono (Past.saw_mono (onward_mono hlast)),
      fun relayUrl hurl => saw_onward _ _ (hall relayUrl hurl)⟩

theorem keeps_onRepos {α : Type} {x : Service ControlHttpError α}
    (h : Prog.Keeps (fun later call => ask.Rule c (onward before later) (.repos call))
      (fun later _ => ask.Ordered c (onward before later)) [] x) :
    Prog.Keeps (ask.Rule c) (fun later _ => ask.Ordered c later) before (onRepos x) :=
  Prog.Keeps.embed h

theorem keeps_createRepoWithAnnouncement {input : CreateRepoInput} {now : ℤ}
    (hinput : ask.Inputs c input now) :
    Prog.Keeps (ask.Rule c) (fun later _ => ask.Ordered c later) before
      (onRepos (createRepoWithAnnouncement c.state.env c.state.signing c.state.config now
        input)) := by
  refine keeps_onRepos ?_
  unfold createRepoWithAnnouncement
  generalize hresult :
    prepareAnnouncement c.state.env c.state.signing c.state.config now input = result
  refine Prog.Keeps.bind (Prog.keeps_ofExcept (G := fun _ prepared => result = .ok prepared)
    fun prepared h => h) fun later prepared _ hprepared => ?_
  obtain ⟨owner, identifier, event⟩ := prepared
  rw [hprepared] at hresult
  have horder : ask.Orders c (onward before later).saw ⟨event, owner, input.name, identifier⟩ :=
    .keyed hinput hresult
  exact keeps_order horder c.state.env.forgejo.config input.description input.isPrivate
    input.autoInit id

/-- An announcement that is accepted is signed by the key of the request. -/
theorem genuine_of_validate {request : HttpRequest} {payload : Option String} {auth : Nip98Auth}
    {event : NostrEvent} {valid : ValidAnnouncement}
    (hauth : request.AuthorisedBy c.state.nostr payload auth)
    (hvalid : validateRepoAnnouncementEvent c.state.env.host c.state.signing.toCrypto event
      auth.pubkey c.state.config.relayUrls c.state.config.publicGitUrl = .ok valid) :
    Genuine c.state.signing.toCrypto event valid.pubkey ∧ valid.pubkey = auth.pubkeyBytes := by
  have haccepts := validateRepoAnnouncementEvent_eq_ok.1 hvalid
  have hgenuine := genuine_of_verifySignedEvent haccepts.signed
  have hdecode := hgenuine.pubkey
  rw [haccepts.author, hauth.decode] at hdecode
  exact ⟨hgenuine, (Option.some.inj hdecode).symm⟩

theorem keeps_createRepoFromSignedEvent {request : HttpRequest} {auth : Nip98Auth}
    {payload : RepoCreateRequest} (hask : ask = .createRepoNostr request)
    (hauth : request.AuthorisedBy c.state.nostr (nip98PayloadHash c.state.nip98 request.body) auth)
    (hpayload : readRepoRequest c.state request.body = .ok payload) :
    Prog.Keeps (ask.Rule c) (fun later _ => ask.Ordered c later) before
      (onRepos (createRepoFromSignedEvent c.state.env c.state.signing.toCrypto c.state.config
        auth.pubkey payload.event payload.isPrivate)) := by
  refine keeps_onRepos ?_
  unfold createRepoFromSignedEvent
  refine Prog.Keeps.bind (Prog.keeps_ofExcept (G := fun _ valid => validateRepoAnnouncementEvent
    c.state.env.host c.state.signing.toCrypto payload.event auth.pubkey c.state.config.relayUrls
      c.state.config.publicGitUrl = .ok valid) fun _ h => h) fun later valid _ hvalid => ?_
  have hkey := (genuine_of_validate hauth hvalid).2
  have hrule : ask.Rule c (onward before later) (.repos (.accountByPubkey valid.pubkey)) :=
    .inl ⟨auth, ⟨request, .inl hask, hauth⟩, by rw [hkey]⟩
  refine Prog.Keeps.bind ((keeps_ask (.accountByPubkey valid.pubkey) hrule).adapt _)
    fun later found _ hfound => ?_
  refine Prog.Keeps.bind (Prog.keeps_ofExcept (G := fun _ account => found = some account)
    fun account haccount => Result.okOr_eq_ok.1 haccount) fun last account hlast haccount => ?_
  rw [haccount] at hfound
  have horder : ask.Orders c (onward before last).saw
      ⟨payload.event, account.forgejoUsername, valid.identifier, valid.identifier⟩ :=
    .signed hask hauth hpayload hvalid (saw_onward _ _ (answers_mono hlast _ _ hfound))
  exact keeps_order horder c.state.env.forgejo.config valid.announcement.description
    (some (payload.isPrivate.getD c.state.config.repoPrivateDefault)) none
    fun repo => (⟨account.forgejoUsername, repo.name, repo.htmlUrl⟩ : RepoCreateResponse)

/-! ### The creation of a tenant -/

/-- The calls before the creation of a tenant, and those of it. -/
def founding (before : Past) (tenants : Prog.History TenantCall TenantCall.Answer) : Past :=
  before ++ Prog.embedded ControlCall.tenants tenants

theorem mem_founding {tenants : Prog.History TenantCall TenantCall.Answer} {call : TenantCall}
    {answer : call.Answer} (h : ⟨call, answer⟩ ∈ tenants) :
    (⟨.tenants call, answer⟩ : Σ call, ControlCall.Answer call) ∈ founding before tenants :=
  List.mem_append_right _ (Prog.mem_embedded (S := ControlCall.Answer) h)

theorem keeps_tenantCall {P : Prog.History TenantCall TenantCall.Answer → TenantCall → Prop}
    {tenants : Prog.History TenantCall TenantCall.Answer} (call : TenantCall)
    (hcall : P tenants call) :
    Prog.Keeps P (fun later a => ⟨call, .ok a⟩ ∈ later) tenants call.run := by
  have hask : Prog.Keeps P (fun later a => ⟨call, .ok a⟩ ∈ later) tenants
      (Prog.attempt (Prog.ask call)) := Prog.keeps_attempt
    ⟨hcall, fun _ _ ha => List.mem_append_right _ (ha ▸ List.mem_cons_self)⟩
  exact hask.adapt _

theorem keeps_onTenants {α : Type} {x : TenantProg α} {G : Past → α → Prop}
    (h : Prog.Keeps (fun later call => ask.Rule c (founding before later) (.tenants call))
      (fun later a => G (founding before later) a) [] x) :
    Prog.Keeps (ask.Rule c) G before (onTenants x) :=
  Prog.Keeps.embed h

/-- A tenant is founded by the key that has signed the request. -/
theorem keeps_createTenantHandler {auth : Nip98Auth} {request : TenantRequest}
    (hby : ask.SignedBy c auth) (hkey : Hex.decode request.ownerPubkey = some auth.pubkeyBytes) :
    Prog.Keeps (ask.Rule c) (fun later response => ask.Founded c later response.tenantId) before
      (onTenants (createTenantHandler c.state.signing request)) := by
  refine keeps_onTenants ?_
  unfold createTenantHandler
  refine Prog.Keeps.bind (Prog.keeps_ofExcept (G := fun _ owner => owner = auth.pubkeyBytes)
    fun owner howner => ?_) fun later owner _ howner => ?_
  · rw [Result.okOr_eq_ok, hkey, Option.some.injEq] at howner
    exact howner.symm
  subst howner
  refine Prog.Keeps.bind (Prog.keeps_ofExcept (G := fun _ _ => True) fun _ _ => trivial)
    fun later host _ _ => ?_
  have hasks : ask.Rule c (founding before later) (.tenants (.tenantByHost host)) :=
    ⟨auth, hby, trivial⟩
  refine Prog.Keeps.bind (keeps_tenantCall (.tenantByHost host) hasks)
    fun later existing _ hasked => ?_
  refine Prog.Keeps.bind (Prog.keeps_ofExcept (G := fun _ _ => existing = none)
    fun _ h => Result.ensure_eq_ok.1 h) fun later' _ hlater hnone => ?_
  rw [hnone] at hasked
  refine Prog.Keeps.bind (Prog.keeps_ofExcept (G := fun _ record => record.id = host)
    fun record hrecord => ?_) fun last record hlast hrecord => ?_
  · exact (fields_of_new (Result.mapError_eq_ok.1 hrecord)).1
  subst hrecord
  have hstores : ask.Rule c (founding before last) (.tenants (.upsertTenant record)) :=
    ⟨auth, hby, mem_founding ((hlater.trans hlast).subset hasked)⟩
  refine Prog.Keeps.bind (keeps_tenantCall (.upsertTenant record) hstores)
    fun later' _ hlater' hstored => ?_
  have henrols : ask.Rule c (founding before later')
      (.tenants (.upsertMembership (request.ownership auth.pubkeyBytes record.id))) :=
    ⟨auth, hby, rfl, rfl, record, rfl, mem_founding hstored⟩
  refine Prog.Keeps.bind (keeps_tenantCall (.upsertMembership _) henrols)
    fun last' _ hlast' henrolled => ?_
  exact Prog.keeps_pure ⟨auth, record, request.ownership auth.pubkeyBytes record.id, hby, rfl, rfl,
    rfl, rfl, mem_founding (hlast'.subset hstored), mem_founding henrolled⟩

/-! ### Handlers -/

theorem keeps_createUser (user : Forgejo.CreateUser) (h : ask.Trusted c) :
    Prog.Keeps (ask.Rule c) (fun _ _ => True) past (createUser user) :=
  Prog.keeps_asking h fun _ _ _ => trivial

theorem keeps_createOrg (owner : String) (org : Forgejo.CreateOrg) (h : ask.Trusted c) :
    Prog.Keeps (ask.Rule c) (fun _ _ => True) past (createOrg owner org) :=
  Prog.keeps_asking h fun _ _ _ => trivial

theorem keeps_createPullRequest (owner repo : String) (request : Forgejo.CreatePullRequest)
    (h : ask.Trusted c) :
    Prog.Keeps (ask.Rule c) (fun _ _ => True) past (createPullRequest owner repo request) :=
  Prog.keeps_asking h fun _ _ _ => trivial

/-- Checks that begin with the token, and a program that needs it. -/
theorem keeps_trusted {α β : Type} {headers : GitHttp.HeaderMap}
    {checks : Unit → Except ControlHttpError α} {x : α → ControlProg β}
    (hask : HasToken headers c.state.auth.token → ask.Trusted c)
    (h : ask.Trusted c → ∀ later a, Prog.Keeps (ask.Rule c) (fun _ _ => True) later (x a)) :
    Prog.Keeps (ask.Rule c) (fun _ _ => True) past
      (Prog.ofExcept (authorize headers c.state.auth.token >>= checks) >>= x) := by
  refine Prog.Keeps.bind (Prog.keeps_ofExcept (G := fun _ _ => ask.Trusted c) fun a ha => ?_)
    fun later a _ htrusted => h htrusted later a
  obtain ⟨_, htoken, -⟩ := Result.bind_eq_ok.1 ha
  exact hask (authorize_eq_ok.1 htoken)

theorem keeps_createUserHandler {headers : GitHttp.HeaderMap} {payload : Forgejo.CreateUser}
    (hask : ask = .createUser headers payload) :
    Prog.Keeps (ask.Rule c) (fun _ _ => True) past (createUserHandler c.state headers payload) :=
  keeps_trusted (fun h => hask ▸ h) fun h _ _ => keeps_createUser payload h

theorem keeps_createOrgHandler {headers : GitHttp.HeaderMap} {payload : ControlCreateOrgRequest}
    (hask : ask = .createOrg headers payload) :
    Prog.Keeps (ask.Rule c) (fun _ _ => True) past (createOrgHandler c.state headers payload) :=
  keeps_trusted (fun h => hask ▸ h) fun h _ _ => keeps_createOrg _ _ h

theorem keeps_createPullHandler {headers : GitHttp.HeaderMap} {payload : ControlCreatePullRequest}
    (hask : ask = .createPull headers payload) :
    Prog.Keeps (ask.Rule c) (fun _ _ => True) past (createPullHandler c.state headers payload) :=
  keeps_trusted (fun h => hask ▸ h) fun h _ _ => keeps_createPullRequest _ _ _ h

theorem keeps_createRepoHandler {headers : GitHttp.HeaderMap} {payload : ControlCreateRepoRequest}
    {now : ℤ} (hask : ask = .createRepo headers payload now) :
    Prog.Keeps (ask.Rule c) (fun later _ => ask.Ordered c later) past
      (createRepoHandler c.state headers payload now) := by
  refine Prog.Keeps.bind (Prog.keeps_ofExcept (G := fun _ input => ask.Inputs c input now)
    fun input hinput => ?_) fun later input _ hinput => keeps_createRepoWithAnnouncement hinput
  exact .inl ⟨headers, payload, hask, hinput⟩

theorem keeps_createRepoNostrHandler {request : HttpRequest}
    (hask : ask = .createRepoNostr request) :
    Prog.Keeps (ask.Rule c) (fun later _ => ask.Ordered c later) past
      (createRepoNostrHandler c.state request) := by
  refine Prog.Keeps.bind (Prog.keeps_ofExcept (G := fun _ auth => request.AuthorisedBy c.state.nostr
    (nip98PayloadHash c.state.nip98 request.body) auth)
      fun auth hauth => HttpRequest.authenticate_eq_ok.1 hauth) fun later auth _ hauth => ?_
  refine Prog.Keeps.bind (Prog.keeps_ofExcept (G := fun _ payload =>
    readRepoRequest c.state request.body = .ok payload) fun _ h => h)
      fun last payload _ hpayload => ?_
  exact keeps_createRepoFromSignedEvent hask hauth hpayload

theorem keeps_tenantHandler {request : HttpRequest} {secretKey nonce : List UInt8}
    (hask : ask = .createTenant request secretKey nonce) :
    Prog.Keeps (ask.Rule c) (fun later response => ask.Founded c later response.tenantId) past
      (tenantHandler c.state request secretKey nonce) := by
  refine Prog.Keeps.bind (Prog.keeps_ofExcept (G := fun _ tenant =>
    tenantRequest c.state request secretKey nonce = .ok tenant) fun _ h => h)
      fun later tenant _ htenant => ?_
  obtain ⟨auth, hauth, hkey⟩ := authorised_of_tenantRequest htenant
  exact keeps_createTenantHandler ⟨request, .inr ⟨secretKey, nonce, hask⟩, hauth⟩ hkey

/-- The one who sends an event holds the token, and names an administrator. -/
theorem trusted_of_eventAction {headers : GitHttp.HeaderMap} {payload : ControlEventRequest}
    {now : ℤ} {action : ControlAction} (h : eventAction c.state headers payload = .ok action) :
    (Ask.event headers payload now).Trusted c := by
  unfold eventAction at h
  simp only [Result.bind_eq_ok] at h
  obtain ⟨_, htoken, _, -, _, -, _, hadmin, -⟩ := h
  exact ⟨authorize_eq_ok.1 htoken, authorizeAdminPubkey_eq_ok.1 hadmin⟩

/-- The repository of an event was asked for. -/
def EventFits (c : Config) (ask : Ask) (past : Past) : ControlEventResponse → Prop
  | .createRepo _ => ask.Ordered c past
  | _ => True

theorem keeps_controlEventHandler {headers : GitHttp.HeaderMap} {payload : ControlEventRequest}
    {now : ℤ} (hask : ask = .event headers payload now) :
    Prog.Keeps (ask.Rule c) (fun later response => EventFits c ask later response) past
      (controlEventHandler c.state headers payload now) := by
  refine Prog.Keeps.bind (Prog.keeps_ofExcept (G := fun _ action =>
    eventAction c.state headers payload = .ok action) fun _ h => h) fun later action _ haction => ?_
  have htrusted : ask.Trusted c := hask ▸ trusted_of_eventAction haction
  cases action with
  | createUser username email password admin mustChangePassword =>
    exact (keeps_createUser _ htrusted).bind fun _ _ _ _ => Prog.keeps_pure trivial
  | createOrg name fullName description =>
    exact (keeps_createOrg _ _ htrusted).bind fun _ _ _ _ => Prog.keeps_pure trivial
  | createRepo name owner identifier description isPrivate pubkey privkey =>
    have hinput : ask.Inputs c
        ⟨owner, name, identifier, description, isPrivate, none, pubkey, privkey⟩ now :=
      .inr ⟨headers, payload, _, _, _, _, _, _, _, hask, haction, rfl⟩
    exact (keeps_createRepoWithAnnouncement hinput).bind fun _ _ _ h => Prog.keeps_pure h
  | createPullRequest owner repo head base title body draft =>
    exact (keeps_createPullRequest _ _ _ htrusted).bind fun _ _ _ _ => Prog.keeps_pure trivial

/-- What a request calls, and is answered, rests on what it was answered before. -/
theorem Ask.obeys_serve (ask : Ask) : Prog.Obeys (ask.Rule c) (ask.Fits c) [] (ask.serve c) := by
  cases hask : ask with
  | createUser headers payload =>
    exact (keeps_createUserHandler rfl).reply (fun _ _ _ => trivial) fun _ _ => trivial
  | createOrg headers payload =>
    exact (keeps_createOrgHandler rfl).reply (fun _ _ _ => trivial) fun _ _ => trivial
  | createRepo headers payload now =>
    exact (keeps_createRepoHandler rfl).reply (fun _ _ h => h) fun _ _ => trivial
  | createRepoNostr request =>
    exact (keeps_createRepoNostrHandler rfl).reply (fun _ _ h => h) fun _ _ => trivial
  | createTenant request secretKey nonce =>
    exact (keeps_tenantHandler rfl).reply (fun _ _ h => h) fun _ _ => trivial
  | createPull headers payload =>
    exact (keeps_createPullHandler rfl).reply (fun _ _ _ => trivial) fun _ _ => trivial
  | event headers payload now =>
    refine (keeps_controlEventHandler rfl).reply (fun later response h => ?_)
      fun _ _ => trivial
    cases response with
    | createRepo repo => exact h
    | _ => trivial

end

end Control.Provenance
end Gittree
