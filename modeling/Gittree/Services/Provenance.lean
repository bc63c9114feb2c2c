import Gittree.Dispatch.Redelivery
import Gittree.Services.ControlRules
import Gittree.Services.Sources

/-!
# Who has asked for an announcement

The requests to the control service and the workers of the coordinator, which share the outbox, in
any interleaving of their calls.  Calls of the storage may fail or lose their answers, and the
Forgejo server answers anything; the accounts, which other services store, are any.

* `Ask.Orders.speaksFor`: a key speaks for the announcements that are ordered;
* `Inv.step`: what is numbered, published, announced and mapped is kept to what was ordered;
* `authorised_of_reach`: nothing is announced in the name of a key that has not asked for it.
-/

namespace Gittree

open Rust

namespace Control.Provenance

/-! ### The system -/

/-- The outbox with its workers and what they store, and the tables of the tenants. -/
structure Tables where
  publisher : Publisher
  tenants : TenantTables

/-- How a call goes: a failure of the storage, the answers of the Forgejo server and of the
accounts, and the time. -/
structure Weather where
  fault : Option StoreFault
  answer : (call : Call) → call.Answer
  user : Except Forgejo.Error (Forgejo.Response Forgejo.UserResponse)
  org : Except Forgejo.Error (Forgejo.Response Forgejo.Org)
  pull : Except Forgejo.Error (Forgejo.Response Forgejo.PullRequestResponse)
  now : ℤ

/-- `enqueue_relay_publish`, up to the number of the entry. -/
def Tables.enqueue (c : Config) (s : Tables) (request : RelayPublishRequest) (now : ℤ) :
    Except StorageError Unit × Tables :=
  match request.decode, Publisher.step c.coordinator s.publisher (.number request now) with
  | .ok _, some (publisher, _) => (.ok (), { s with publisher })
  | .error err, _ => (.error err, s)
  | .ok _, none => (.ok (), s)

/-- A call of the repositories of the tenants. -/
def Tables.perform (s : Tables) (call : TenantCall) : call.Answer × Tables :=
  let performed := call.perform s.tenants
  (performed.1, { s with tenants := performed.2 })

/-- How a call is answered. -/
def respond (c : Config) (weather : Weather) : (call : ControlCall) → Tables → call.Answer × Tables
  | .repos (.enqueueRelayPublish request), s =>
    faulty weather.fault s (s.enqueue c request weather.now)
  | .repos call, s => (weather.answer call, s)
  | .tenants call, s => faulty weather.fault s (s.perform call)
  | .createUser _, s => (weather.user, s)
  | .createOrg _ _, s => (weather.org, s)
  | .createPullRequest _ _ _, s => (weather.pull, s)

/-- The requests, whose calls are interleaved. -/
abbrev System : Type := Pool Tables ControlCall ControlCall.Answer Reply

/-- What happens next. -/
inductive Action
  /-- The next call of a request. -/
  | request (number : ℕ) (weather : Weather)
  /-- The coordinator moves on, or an entry that has its number is inserted. -/
  | coordinator (action : Publisher.Action)

/-- One step; numbers are taken by requests alone. -/
def step (c : Config) (x : System) : Action → Option (System × Unit)
  | .request number weather => (Pool.step (respond c) x (number, weather)).map fun r => (r.1, ())
  | .coordinator (.number _ _) => none
  | .coordinator action => (Publisher.step c.coordinator x.shared.publisher action).map fun r =>
    ({ x with shared := { x.shared with publisher := r.1 } }, ())

/-- The requests before their first calls; nothing is stored. -/
def start (c : Config) (asks : List Ask) : System :=
  Pool.ofPrograms ⟨.empty, ⟨∅, ∅⟩⟩ (asks.map fun ask => ask.serve c)

/-- The answer to the request of a number. -/
def System.answer (x : System) (i : ℕ) : Option Reply := x.tasks[i]?.bind Task.result

/-- What the request of a number was answered about repositories. -/
def System.saw (x : System) (i : ℕ) : Saw := fun call answer => x.Called i (.repos call) answer

/-! ### Where things come from -/

/-- The key of an event has asked for it: a holder of the token has shown its secret key, or it has
signed the event and the request. -/
inductive Ask.SpeaksFor (c : Config) (ask : Ask) (event : NostrEvent) : Prop
  | keyed (input : CreateRepoInput) (now : ℤ) (secretKey : List UInt8) (htrusted : ask.Trusted c)
      (hinput : ask.Inputs c input now)
      (hsecret : parseSecretKey c.state.signing.toCrypto input.privkey = .ok secretKey)
      (hkey : event.pubkey = Hex.encode (c.state.signing.publicKey secretKey))
  | signed (auth : Nip98Auth) (hsigned : ask.SignedBy c auth) (hauthor : event.pubkey = auth.pubkey)
      (hgenuine : Genuine c.state.signing.toCrypto event auth.pubkeyBytes)

section

variable (c : Config) (asks : List Ask) (x : System)

/-- The entry is the announcement of an order, put into the outbox for a relay. -/
inductive Sourced (entry : RelayPublishEntry) : Prop
  | intro {i : ℕ} {ask : Ask} {order : Order} {repo : Forgejo.Repo} {relayUrl : String}
      {answer : Call.Answer (.enqueueRelayPublish (order.publication repo relayUrl))}
      (hask : asks[i]? = some ask) (horder : ask.Orders c (x.saw i) order)
      (hanswered : Answered (x.saw i) order.owner order.name repo)
      (hurl : relayUrl ∈ c.state.config.relayUrls)
      (hcalled : x.saw i (.enqueueRelayPublish (order.publication repo relayUrl)) answer)
      (hentry : (order.publication repo relayUrl).decode = .ok entry)

/-- The calls that are made, and what comes of them. -/
structure Inv : Prop where
  lawful : x.Lawful (fun i past call => ∀ ask ∈ asks[i]?, ask.Rule c past call)
    fun i past reply => ∀ ask ∈ asks[i]?, ask.Fits c past reply
  known : ∀ (i : ℕ) (task : Task ControlCall ControlCall.Answer Reply), x.tasks[i]? = some task →
    ∃ ask, asks[i]? = some ask
  sources : x.shared.publisher.From (Sourced c asks x) c.coordinator
  held : ∀ i request, x.saw i (.enqueueRelayPublish request) (.ok ()) →
    ∃ entry, request.decode = .ok entry ∧ x.shared.publisher.Holds entry
  tenants : ∀ id record, x.shared.tenants.tenants.tenantById id = some record →
    record.id = id ∧ ∃ i answer, x.Called i (.tenants (.upsertTenant record)) answer
  members : ∀ id pubkey membership,
    x.shared.tenants.memberships.membershipByPubkey id pubkey = some membership →
      ∃ i answer, x.Called i (.tenants (.upsertMembership membership)) answer
  founded : ∀ i record, x.Called i (.tenants (.upsertTenant record)) (.ok ()) →
    ∃ found, x.shared.tenants.tenants.tenantById record.id = some found
  enrolled : ∀ i membership, x.Called i (.tenants (.upsertMembership membership)) (.ok ()) →
    ∃ found, x.shared.tenants.memberships.membershipByPubkey membership.tenantId
      membership.pubkey = some found

end

section

variable {c : Config} {asks : List Ask} {x y : System} {ask : Ask} {saw : Saw} {order : Order}
  {entry : RelayPublishEntry}

/-! ### Keys -/

/-- The one who hands over a secret key holds the token. -/
theorem Ask.Inputs.trusted {input : CreateRepoInput} {now : ℤ} (h : ask.Inputs c input now) :
    ask.Trusted c := by
  rcases h with ⟨headers, payload, rfl, hinput⟩ |
    ⟨headers, payload, _, _, _, _, _, _, _, rfl, haction, -⟩
  · obtain ⟨_, htoken, -⟩ := Result.bind_eq_ok.1 hinput
    exact authorize_eq_ok.1 htoken
  · exact trusted_of_eventAction haction

/-- The announcement that is prepared is one of the key of the secret key. -/
theorem key_of_prepareAnnouncement {input : CreateRepoInput} {now : ℤ} {owner identifier : String}
    {event : NostrEvent}
    (h : prepareAnnouncement c.state.env c.state.signing c.state.config now input =
      .ok (owner, identifier, event)) :
    ∃ secretKey, parseSecretKey c.state.signing.toCrypto input.privkey = .ok secretKey ∧
      event.pubkey = Hex.encode (c.state.signing.publicKey secretKey) := by
  unfold prepareAnnouncement fromAnnouncement signed at h
  simp only [Result.bind_eq_ok, Result.mapError_eq_ok, Result.pure_eq_ok] at h
  obtain ⟨_, -, _, -, _, -, _, -, _, -, _, -, secretKey, hsecret, _, -, event', ⟨_, -, _, -, rfl⟩,
    _, -, heq⟩ := h
  cases heq
  exact ⟨secretKey, hsecret, rfl⟩

/-- A key speaks for the announcements that are ordered. -/
theorem Ask.Orders.speaksFor (h : ask.Orders c saw order) : ask.SpeaksFor c order.event := by
  cases h with
  | keyed hinput hprepared =>
    obtain ⟨secretKey, hsecret, hkey⟩ := key_of_prepareAnnouncement hprepared
    exact .keyed _ _ secretKey hinput.trusted hinput hsecret hkey
  | @signed request auth payload valid account hask hauth hpayload hvalid haccount =>
    obtain ⟨hgenuine, hkey⟩ := genuine_of_validate hauth hvalid
    have hauthor := (validateRepoAnnouncementEvent_eq_ok.1 hvalid).author
    exact .signed auth ⟨request, .inl hask, hauth⟩ hauthor (hkey ▸ hgenuine)

/-! ### Answers -/

/-- The outbox and its workers after a call. -/
theorem publisher_respond (c : Config) (weather : Weather) (call : ControlCall) (s : Tables) :
    (respond c weather call s).2.publisher = s.publisher ∨
      ∃ request, call = .repos (.enqueueRelayPublish request) ∧
        Publisher.step c.coordinator s.publisher (.number request weather.now) =
          some ((respond c weather call s).2.publisher, ()) := by
  cases call with
  | repos call =>
    cases call with
    | enqueueRelayPublish request =>
      rcases faulty_snd weather.fault s (s.enqueue c request weather.now) with h | h
      · exact .inl (congrArg Tables.publisher h)
      · rw [show (respond c weather (.repos (.enqueueRelayPublish request)) s).2 = _ from h]
        unfold Tables.enqueue
        split
        · exact .inr ⟨request, rfl, ‹_›⟩
        · exact .inl rfl
        · exact .inl rfl
    | _ => exact .inl rfl
  | tenants call =>
    rcases faulty_snd weather.fault s (s.perform call) with h | h
    · exact .inl (congrArg Tables.publisher h)
    · exact .inl ((congrArg Tables.publisher h).trans rfl)
  | _ => exact .inl rfl

/-- The tables of the tenants after a call. -/
theorem tenants_respond (c : Config) (weather : Weather) (call : ControlCall) (s : Tables) :
    (respond c weather call s).2.tenants = s.tenants ∨ ∃ tenantCall, call = .tenants tenantCall ∧
      (respond c weather call s).2.tenants = (tenantCall.perform s.tenants).2 := by
  cases call with
  | repos call =>
    cases call with
    | enqueueRelayPublish request =>
      refine .inl ?_
      rcases faulty_snd weather.fault s (s.enqueue c request weather.now) with h | h
      · exact congrArg Tables.tenants h
      · refine (congrArg Tables.tenants h).trans ?_
        unfold Tables.enqueue
        split <;> rfl
    | _ => exact .inl rfl
  | tenants call =>
    rcases faulty_snd weather.fault s (s.perform call) with h | h
    · exact .inl (congrArg Tables.tenants h)
    · exact .inr ⟨call, rfl, congrArg Tables.tenants h⟩
  | _ => exact .inl rfl

/-- A request to publish that is answered has its entry in the outbox. -/
theorem holds_of_respond {weather : Weather} {request : RelayPublishRequest} {s : Tables}
    (h : (respond c weather (.repos (.enqueueRelayPublish request)) s).1 = .ok ()) :
    ∃ entry, request.decode = .ok entry ∧
      (respond c weather (.repos (.enqueueRelayPublish request)) s).2.publisher.Holds entry := by
  obtain ⟨hfault, henqueued⟩ := faulty_ok h
  have heq : respond c weather (.repos (.enqueueRelayPublish request)) s =
      s.enqueue c request weather.now := by
    unfold respond
    rw [hfault]
    rfl
  rw [heq]
  cases hdecode : request.decode with
  | error err =>
    unfold Tables.enqueue at henqueued
    rw [hdecode] at henqueued
    cases henqueued
  | ok entry =>
    obtain ⟨publisher, hstep, hholds⟩ := Publisher.exists_number s.publisher weather.now hdecode
    refine ⟨entry, rfl, ?_⟩
    unfold Tables.enqueue
    rw [hdecode, hstep]
    exact hholds

/-- A call of the tenants that is answered was carried out. -/
theorem performed_of_respond {weather : Weather} {call : TenantCall} {s : Tables}
    {found : call.Result} (h : (respond c weather (.tenants call) s).1 = .ok found) :
    (respond c weather (.tenants call) s).2.tenants = (call.perform s.tenants).2 := by
  obtain ⟨hfault, -⟩ := faulty_ok h
  unfold respond
  rw [hfault]
  rfl

/-- The tenants after a call are those before it and the one that it stores. -/
theorem tenant_of_perform {t : TenantTables} {call : TenantCall} {id : String}
    {record : StoredTenant} (h : (call.perform t).2.tenants.tenantById id = some record) :
    t.tenants.tenantById id = some record ∨ record.id = id ∧ call = .upsertTenant record := by
  cases call with
  | upsertTenant written =>
    rw [TenantCall.perform, Tenants.tenantById_upsertTenant] at h
    split_ifs at h with hid
    · cases h
      exact .inr ⟨hid, rfl⟩
    · exact .inl h
  | _ => exact .inl h

/-- The members after a call are those before it and the one that it stores. -/
theorem member_of_perform {t : TenantTables} {call : TenantCall} {id : String} {key : List UInt8}
    {membership : RelayMembershipRecord}
    (h : (call.perform t).2.memberships.membershipByPubkey id key = some membership) :
    t.memberships.membershipByPubkey id key = some membership ∨
      call = .upsertMembership membership := by
  cases call with
  | upsertMembership written =>
    rw [TenantCall.perform, Memberships.membershipByPubkey_upsert] at h
    split_ifs at h with hkey
    · cases h
      exact .inr rfl
    · exact .inl h
  | _ => exact .inl h

/-- A tenant that is stored stays so. -/
theorem exists_tenant_perform {t : TenantTables} {id : String} (call : TenantCall)
    (h : ∃ record, t.tenants.tenantById id = some record) :
    ∃ record, (call.perform t).2.tenants.tenantById id = some record := by
  cases call with
  | upsertTenant written =>
    simp only [TenantCall.perform, Tenants.tenantById_upsertTenant]
    split_ifs
    · exact ⟨written, rfl⟩
    · exact h
  | _ => exact h

/-- A key that is a member stays so. -/
theorem exists_member_perform {t : TenantTables} {id : String} {key : List UInt8}
    (call : TenantCall)
    (h : ∃ membership, t.memberships.membershipByPubkey id key = some membership) :
    ∃ membership, (call.perform t).2.memberships.membershipByPubkey id key = some membership := by
  cases call with
  | upsertMembership written =>
    simp only [TenantCall.perform, Memberships.membershipByPubkey_upsert]
    split_ifs
    · exact ⟨written, rfl⟩
    · exact h
  | _ => exact h

/-! ### Steps -/

theorem Sourced.mono (h : Sourced c asks x entry)
    (hxy : ∀ {i call r}, x.Called i call r → y.Called i call r) : Sourced c asks y entry := by
  obtain ⟨hask, horder, hanswered, hurl, hcalled, hentry⟩ := h
  exact .intro hask (horder.mono fun _ _ => hxy) (hanswered.mono fun _ _ => hxy) hurl (hxy hcalled)
    hentry

/-- What takes a number was ordered. -/
theorem Ask.Rule.sourced {i : ℕ} {task : Task ControlCall ControlCall.Answer Reply}
    {request : RelayPublishRequest} {answer : Call.Answer (.enqueueRelayPublish request)}
    (hrule : ask.Rule c task.past (.repos (.enqueueRelayPublish request)))
    (hask : asks[i]? = some ask)
    (hsaw : ∀ call answer, Past.saw task.past call answer → x.saw i call answer)
    (hcalled : x.saw i (.enqueueRelayPublish request) answer)
    (hentry : request.decode = .ok entry) : Sourced c asks x entry := by
  rcases hrule with ⟨auth, -, heq⟩ | ⟨order, horder, repo, hanswered, relayUrl, hurl, rfl⟩
  · cases heq
  · exact .intro hask (horder.mono hsaw) (hanswered.mono hsaw) hurl hcalled hentry

/-- A step of the coordinator. -/
theorem Inv.attend (hinv : Inv c asks x) {action : Publisher.Action} {publisher : Publisher}
    {u : Unit}
    (hstep : Publisher.step c.coordinator x.shared.publisher action = some (publisher, u))
    (hnumber : ∀ request now, action ≠ .number request now) :
    Inv c asks { x with shared := { x.shared with publisher } } where
  lawful := hinv.lawful
  known := hinv.known
  sources := (hinv.sources.step hstep fun request now _ heq =>
    absurd heq (hnumber request now)).mono fun _ hsourced => hsourced.mono id
  held i request hsaw := by
    obtain ⟨entry, hentry, hholds⟩ := hinv.held i request hsaw
    exact ⟨entry, hentry, hholds.step hinv.sources.inv hstep⟩
  tenants := hinv.tenants
  members := hinv.members
  founded := hinv.founded
  enrolled := hinv.enrolled

/-- A call of a request. -/
theorem Inv.call (hinv : Inv c asks x) {number : ℕ} {weather : Weather} {call : ControlCall}
    (h : Pool.step (respond c) x (number, weather) = some (y, call)) : Inv c asks y := by
  obtain ⟨past, next, htask, hshared, htasks⟩ := Pool.step_eq_some h
  have hcalled : ∀ {i call' r}, y.Called i call' r ↔ x.Called i call' r ∨
      number = i ∧ (⟨call', r⟩ : Σ call, ControlCall.Answer call) =
        ⟨call, (respond c weather call x.shared).1⟩ := Pool.called_step h
  have hxy : ∀ {i call' r}, x.Called i call' r → y.Called i call' r := fun hold =>
    hcalled.2 (.inl hold)
  obtain ⟨ask, hask⟩ := hinv.known number _ htask
  obtain ⟨task, htask', hrule⟩ := Pool.allowed_of_step hinv.lawful h
  replace hrule := hrule ask hask
  have hnew : y.Called number call (respond c weather call x.shared).1 :=
    hcalled.2 (.inr ⟨rfl, rfl⟩)
  refine ⟨Pool.lawful_step hinv.lawful h, Pool.known_step hinv.known h, ?_, ?_, ?_, ?_, ?_, ?_⟩
  · rw [hshared]
    have hsources := hinv.sources.mono fun _ hsourced => hsourced.mono hxy
    rcases publisher_respond c weather call x.shared with heq | ⟨request, rfl, hstep⟩
    · rw [heq]
      exact hsources
    · refine hsources.step hstep fun request' now entry heq hentry => ?_
      cases heq
      exact hrule.sourced hask (fun _ _ hsaw => hxy ⟨task, htask', hsaw⟩) hnew hentry
  · intro i request hsaw
    rw [hshared]
    rcases hcalled.1 hsaw with hold | ⟨-, heq⟩
    · obtain ⟨entry, hentry, hholds⟩ := hinv.held i request hold
      refine ⟨entry, hentry, ?_⟩
      rcases publisher_respond c weather call x.shared with heq | ⟨request', -, hstep⟩
      · rw [heq]
        exact hholds
      · exact hholds.step hinv.sources.inv hstep
    · obtain ⟨rfl, hanswer⟩ := Sigma.mk.inj heq
      exact holds_of_respond (eq_of_heq hanswer).symm
  · intro id record hrecord
    rw [hshared] at hrecord
    rcases tenants_respond c weather call x.shared with heq | ⟨tenantCall, rfl, heq⟩
    · rw [heq] at hrecord
      obtain ⟨hid, i, answer, hold⟩ := hinv.tenants id record hrecord
      exact ⟨hid, i, answer, hxy hold⟩
    · rw [heq] at hrecord
      rcases tenant_of_perform hrecord with hrecord | ⟨hid, rfl⟩
      · obtain ⟨hid, i, answer, hold⟩ := hinv.tenants id record hrecord
        exact ⟨hid, i, answer, hxy hold⟩
      · exact ⟨hid, number, _, hnew⟩
  · intro id key membership hmember
    rw [hshared] at hmember
    rcases tenants_respond c weather call x.shared with heq | ⟨tenantCall, rfl, heq⟩
    · rw [heq] at hmember
      obtain ⟨i, answer, hold⟩ := hinv.members id key membership hmember
      exact ⟨i, answer, hxy hold⟩
    · rw [heq] at hmember
      rcases member_of_perform hmember with hmember | rfl
      · obtain ⟨i, answer, hold⟩ := hinv.members id key membership hmember
        exact ⟨i, answer, hxy hold⟩
      · exact ⟨number, _, hnew⟩
  · intro i record hstored
    rw [hshared]
    rcases hcalled.1 hstored with hold | ⟨-, heq⟩
    · have hfound := hinv.founded i record hold
      rcases tenants_respond c weather call x.shared with heq | ⟨tenantCall, -, heq⟩
      · rw [heq]
        exact hfound
      · rw [heq]
        exact exists_tenant_perform tenantCall hfound
    · obtain ⟨rfl, hanswer⟩ := Sigma.mk.inj heq
      rw [performed_of_respond (eq_of_heq hanswer).symm]
      exact ⟨record, by rw [TenantCall.perform, Tenants.tenantById_upsertTenant, if_pos rfl]⟩
  · intro i membership hstored
    rw [hshared]
    rcases hcalled.1 hstored with hold | ⟨-, heq⟩
    · have hfound := hinv.enrolled i membership hold
      rcases tenants_respond c weather call x.shared with heq | ⟨tenantCall, -, heq⟩
      · rw [heq]
        exact hfound
      · rw [heq]
        exact exists_member_perform tenantCall hfound
    · obtain ⟨rfl, hanswer⟩ := Sigma.mk.inj heq
      rw [performed_of_respond (eq_of_heq hanswer).symm]
      exact ⟨membership, by
        rw [TenantCall.perform, Memberships.membershipByPubkey_upsert, if_pos ⟨rfl, rfl⟩]⟩

theorem Inv.step {action : Action} {u : Unit} (hinv : Inv c asks x)
    (h : step c x action = some (y, u)) : Inv c asks y := by
  cases action with
  | request number weather =>
    obtain ⟨⟨moved, call⟩, hstep, heq⟩ := Option.map_eq_some_iff.1 h
    cases heq
    exact hinv.call hstep
  | coordinator action =>
    cases action with
    | number request now => cases h
    | _ =>
      obtain ⟨⟨publisher, _⟩, hstep, heq⟩ := Option.map_eq_some_iff.1 h
      cases heq
      exact hinv.attend hstep fun _ _ heq => by cases heq

theorem inv_start : Inv c asks (start c asks) where
  lawful := Pool.lawful_serve Ask.obeys_serve
  known := Pool.known_ofPrograms
  sources := Publisher.from_empty
  held _ _ hcalled := absurd hcalled Pool.not_called_ofPrograms
  tenants id record hrecord := by
    have hnone : (∅ : Tenants).tenantById id = none := Std.ExtTreeMap.getElem?_empty
    cases hnone.symm.trans hrecord
  members id pubkey membership hmember := by
    have hnone : (∅ : Memberships).membershipByPubkey id pubkey = none :=
      Std.ExtTreeMap.getElem?_empty
    cases hnone.symm.trans hmember
  founded _ _ hcalled := absurd hcalled Pool.not_called_ofPrograms
  enrolled _ _ hcalled := absurd hcalled Pool.not_called_ofPrograms

end

/-! ### What was asked for -/

/-- A repository is answered as created. -/
def Reply.creates : Reply → Bool
  | .repo (.ok _) | .nostrRepo (.ok _) | .event (.ok (.createRepo _)) => true
  | _ => false

section

variable (c : Config) (asks : List Ask) (x : System)

/-- The entry was ordered, and the key of its event has asked for it. -/
def Spoken (entry : RelayPublishEntry) : Prop :=
  Sourced c asks x entry ∧ ∃ (ask : Ask) (event : NostrEvent), ask ∈ asks ∧ ask.SpeaksFor c event ∧
    Hex.decode event.id = some entry.eventId ∧ Hex.decode event.pubkey = some entry.pubkey

/-- The record is that of an announcement which its key has asked for. -/
def Announced (record : RepoAnnouncementRecord) : Prop :=
  ∃ job, Spoken c asks x job.toRelayPublishEntry ∧ recordOf c.coordinator job = some record ∧
    record.pubkey = job.pubkey

/-- Nothing is announced in the name of a key that has not asked for it, and what is answered as
created is stored. -/
structure Authorised : Prop where
  calls : ∀ i call answer, x.Called i call answer →
    ∃ ask, asks[i]? = some ask ∧ (ask.Trusted c ∨ ∃ auth, ask.SignedBy c auth)
  entries : ∀ entry, x.shared.publisher.Holds entry → Spoken c asks x entry
  sent : ∀ worker now job, x.shared.publisher.phase worker = .publishing now job →
    Spoken c asks x job.toRelayPublishEntry
  announced : ∀ record, x.shared.publisher.Stored record → Announced c asks x record
  mapped : ∀ key identifier mapping,
    x.shared.publisher.mappings.mappingByRepo key identifier = some mapping →
      ∃ record, Announced c asks x record ∧ record.pubkey = key ∧ record.identifier = identifier
  ordered : ∀ i reply, x.answer i = some reply → reply.creates = true →
    ∃ ask order repo, asks[i]? = some ask ∧ ask.Orders c (x.saw i) order ∧
      Answered (x.saw i) order.owner order.name repo ∧ ∀ relayUrl ∈ c.state.config.relayUrls,
        ∃ entry, (order.publication repo relayUrl).decode = .ok entry ∧
          x.shared.publisher.Holds entry
  tenants : ∀ id record, x.shared.tenants.tenants.tenantById id = some record →
    record.id = id ∧ ∃ i ask auth answer, asks[i]? = some ask ∧ ask.SignedBy c auth ∧
      x.Called i (.tenants (.upsertTenant record)) answer
  owners : ∀ id key membership,
    x.shared.tenants.memberships.membershipByPubkey id key = some membership →
      membership.role = "owner" ∧ ∃ i ask auth record, asks[i]? = some ask ∧
        ask.SignedBy c auth ∧ auth.pubkeyBytes = key ∧ record.id = id ∧
          x.Called i (.tenants (.upsertTenant record)) (.ok ())
  founded : ∀ i response, x.answer i = some (.tenant (.ok response)) →
    ∃ ask auth record membership, asks[i]? = some ask ∧ ask.SignedBy c auth ∧
      x.shared.tenants.tenants.tenantById response.tenantId = some record ∧
        x.shared.tenants.memberships.membershipByPubkey response.tenantId auth.pubkeyBytes =
          some membership ∧ membership.role = "owner"

end

section

variable {c : Config} {asks : List Ask} {x : System} {ask : Ask}

/-- A call was asked for by a holder of the token, or by a key. -/
theorem Ask.Rule.authorised {past : Past} {call : ControlCall} (h : ask.Rule c past call) :
    ask.Trusted c ∨ ∃ auth, ask.SignedBy c auth := by
  cases call with
  | repos call =>
    rcases h with ⟨auth, hsigned, -⟩ | ⟨order, horder, -⟩
    · exact .inr ⟨auth, hsigned⟩
    · cases horder with
      | keyed hinput hprepared => exact .inl hinput.trusted
      | signed hask hauth hpayload hvalid haccount => exact .inr ⟨_, _, .inl hask, hauth⟩
  | tenants call =>
    obtain ⟨auth, hsigned, -⟩ := h
    exact .inr ⟨auth, hsigned⟩
  | createUser user => exact .inl h
  | createOrg owner org => exact .inl h
  | createPullRequest owner repo request => exact .inl h

theorem Sourced.spoken {entry : RelayPublishEntry} (h : Sourced c asks x entry) :
    Spoken c asks x entry := by
  refine ⟨h, ?_⟩
  obtain ⟨hask, horder, -, -, -, hentry⟩ := h
  obtain ⟨⟨-, hid⟩, ⟨-, hkey⟩, -⟩ := RelayPublishRequest.decode_eq_ok hentry
  exact ⟨_, _, List.mem_of_getElem? hask, horder.speaksFor, hid, hkey⟩

/-- The record of a job names the key of its event. -/
theorem pubkey_of_recordOf {env : ServiceEnv} {job : RelayPublishJob}
    {record : RepoAnnouncementRecord} (h : recordOf env job = some record) :
    record.pubkey = job.pubkey := by
  obtain ⟨a, hplan⟩ := recordOf_eq_some.1 h
  have hkey := (RepoAnnouncementRecord.madeOf (LoopProg.finalPlan_eq_some.1 hplan).2).pubkey
  rw [relayEventFromJob, Hex.decode_encode] at hkey
  exact (Option.some.inj hkey).symm

/-- The rule that a call has kept to. -/
theorem Inv.ruled (hinv : Inv c asks x) {i : ℕ} {call : ControlCall} {answer : call.Answer}
    (h : x.Called i call answer) : ∃ ask task before, asks[i]? = some ask ∧
      x.tasks[i]? = some task ∧ before <+: task.past ∧ ask.Rule c before call := by
  obtain ⟨task, before, htask, hprefix, hrule⟩ := Pool.allowed_of_called hinv.lawful h
  obtain ⟨ask, hask⟩ := hinv.known i task htask
  exact ⟨ask, task, before, hask, htask, hprefix, hrule ask hask⟩

/-- What is answered has kept to the rule. -/
theorem Inv.fits (hinv : Inv c asks x) {i : ℕ} {reply : Reply} (h : x.answer i = some reply) :
    ∃ ask task, asks[i]? = some ask ∧ x.tasks[i]? = some task ∧ ask.Fits c task.past reply := by
  obtain ⟨task, htask, hresult⟩ := Option.bind_eq_some_iff.1 h
  obtain ⟨ask, hask⟩ := hinv.known i task htask
  exact ⟨ask, task, hask, htask, (hinv.lawful i task htask).result hresult ask hask⟩

/-- The members are the owners who have signed. -/
theorem Inv.owners (hinv : Inv c asks x) {id : String} {key : List UInt8}
    {membership : RelayMembershipRecord}
    (h : x.shared.tenants.memberships.membershipByPubkey id key = some membership) :
    membership.role = "owner" ∧ ∃ i ask auth record, asks[i]? = some ask ∧
      ask.SignedBy c auth ∧ auth.pubkeyBytes = key ∧ record.id = id ∧
        x.Called i (.tenants (.upsertTenant record)) (.ok ()) := by
  obtain ⟨rfl, rfl⟩ := Memberships.of_membershipByPubkey h
  obtain ⟨i, answer, hcalled⟩ := hinv.members _ _ _ h
  obtain ⟨ask, task, before, hask, htask, hprefix, auth, hsigned, hkey, hrole, record, hid, hmem⟩ :=
    hinv.ruled hcalled
  exact ⟨hrole, i, ask, auth, record, hask, hsigned, hkey.symm, hid, task, htask,
    hprefix.subset hmem⟩

/-- What is answered as created was ordered. -/
theorem Ask.Fits.ordered {past : Past} {reply : Reply} (h : ask.Fits c past reply)
    (hcreates : reply.creates = true) : ask.Ordered c past := by
  unfold Reply.creates at hcreates
  split at hcreates
  · exact h
  · exact h
  · exact h
  · cases hcreates

theorem Inv.authorised (hinv : Inv c asks x) : Authorised c asks x where
  calls := by
    intro i call answer hcalled
    obtain ⟨ask, task, before, hask, -, -, hrule⟩ := hinv.ruled hcalled
    exact ⟨ask, hask, hrule.authorised⟩
  entries := by
    rintro entry (⟨draft, hdraft, rfl⟩ | ⟨numbered, hnumbered, rfl⟩)
    · exact (hinv.sources.drafts draft hdraft).spoken
    · exact (hinv.sources.enqueued numbered hnumbered).spoken
  sent worker now job hphase := (hinv.sources.publishing hphase).spoken
  announced := by
    intro record hstored
    obtain ⟨job, hjob, hrecord⟩ := hinv.sources.announced record hstored
    exact ⟨job, hjob.spoken, hrecord, pubkey_of_recordOf hrecord⟩
  mapped := by
    intro key identifier mapping hmapping
    obtain ⟨hkey, hidentifier⟩ := Mappings.of_mappingByRepo hmapping
    obtain ⟨job, record, hjob, hrecord, hpubkey, hidentifier'⟩ :=
      hinv.sources.mapped key identifier mapping hmapping
    exact ⟨record, ⟨job, hjob.spoken, hrecord, pubkey_of_recordOf hrecord⟩,
      hpubkey.symm.trans hkey, hidentifier'.symm.trans hidentifier⟩
  ordered := by
    intro i reply hanswered hcreates
    obtain ⟨ask, task, hask, htask, hfits⟩ := hinv.fits hanswered
    obtain ⟨order, repo, horder, hrepo, hall⟩ := hfits.ordered hcreates
    have hsaw : ∀ call answer, Past.saw task.past call answer → x.saw i call answer :=
      fun call answer hmem => ⟨task, htask, hmem⟩
    refine ⟨ask, order, repo, hask, horder.mono hsaw, hrepo.mono hsaw, fun relayUrl hurl => ?_⟩
    exact hinv.held i _ (hsaw _ _ (hall relayUrl hurl))
  tenants := by
    intro id record hrecord
    obtain ⟨hid, i, answer, hcalled⟩ := hinv.tenants id record hrecord
    obtain ⟨ask, task, before, hask, -, -, auth, hsigned, -⟩ := hinv.ruled hcalled
    exact ⟨hid, i, ask, auth, answer, hask, hsigned, hcalled⟩
  owners id key membership hmember := hinv.owners hmember
  founded := by
    intro i response hanswered
    obtain ⟨ask, task, hask, htask, hfits⟩ := hinv.fits hanswered
    obtain ⟨auth, record, membership, hsigned, hid, htenant, hkey, -, hstored, henrolled⟩ := hfits
    obtain ⟨found, hfound⟩ := hinv.founded i record ⟨task, htask, hstored⟩
    obtain ⟨member, hmember⟩ := hinv.enrolled i membership ⟨task, htask, henrolled⟩
    rw [hid] at hfound
    rw [htenant, hkey] at hmember
    exact ⟨ask, auth, found, member, hask, hsigned, hfound, hmember, (hinv.owners hmember).1⟩

/-- In every interleaving of any requests with the workers of the coordinator, nothing is announced
in the name of a key that has not asked for it. -/
theorem authorised_of_reach
    (h : Runs.Reach (step c) (fun _ _ => True) (fun x => x = start c asks) x) :
    Authorised c asks x := by
  refine Inv.authorised (h.invariant (I := Inv c asks) ?_ ?_)
  · rintro x rfl
    exact inv_start
  · exact fun x a y call hinv _ hstep => hinv.step hstep

end

/-! ### A repository that is created and announced -/

/-- The control service and the coordinator of the signer, with a token. -/
def sampleServices : Config where
  state := {
    env := signerEnv
    signing := signerSigning
    config := signerConfig
    auth := ⟨"token", []⟩
    nip98 := ⟨id, fun _ => false, id, fun _ => id, fun _ => false, fun _ _ _ => false⟩
    decodeBase64 := fun _ => none
    eventFromSlice := fun _ => none
    actionFromStr := fun _ => none
    repoRequestFromSlice := fun _ => .error ""
    tenantRequestFromSlice := fun _ => .error "" }
  coordinator := signerEnv

/-- A request with the token, for the repository of the signer, who shows the secret key 3. -/
def sampleAsk : Ask :=
  .createRepo [("authorization", [66, 101, 97, 114, 101, 114, 32, 116, 111, 107, 101, 110])]
    ⟨"alice", "repo", none, none, none, none, signedAnnouncement.pubkey,
      "0000000000000000000000000000000000000000000000000000000000000003"⟩ 1700000000

/-- Calls that are carried out, by a server that makes the repositories that it is asked for. -/
def calm : Weather where
  fault := none
  answer
    | .forgejo (.createAdminRepo owner payload) =>
      .ok (Forgejo.Response.carrying 201 (Forgejo.Server.newRepo owner payload.name))
    | .forgejo _ => .error (Forgejo.Error.request "")
    | .accountByPubkey _ => .ok (none : Option AccountRecord)
    | .provision _ => .ok CoordinatorAction.ignored
    | .insertAnnouncement _ | .upsertMapping _ | .enqueueRelayPublish _ => .ok ()
  user := .error (.request "")
  org := .error (.request "")
  pull := .error (.request "")
  now := 0

/-- The request is answered, and the first worker publishes and stores the announcement. -/
def announcing : List Action :=
  [.request 0 calm, .request 0 calm, .coordinator (.insert 0)] ++
    (Publisher.iteration 1 (Publisher.published ++ [.served, .served])).map .coordinator

theorem authorised_of_reach_sample : ∃ x : System,
    Runs.Reach (step sampleServices) (fun _ _ => True)
      (fun x => x = start sampleServices [sampleAsk]) x ∧
    x.answer 0 = some (.repo (.ok ⟨"alice", "repo", "alice/repo", none⟩)) ∧
    (x.shared.publisher.announcements.listAnnouncements signerKey "repo").map
      RepoAnnouncementRecord.createdAt = [1700000000] ∧
    Authorised sampleServices [sampleAsk] x := by
  have hrun : (Runs.exec (step sampleServices) (start sampleServices [sampleAsk]) announcing).map
      (fun r => (r.1.answer 0, (r.1.shared.publisher.announcements.listAnnouncements signerKey
        "repo").map RepoAnnouncementRecord.createdAt)) =
      some (some (.repo (.ok ⟨"alice", "repo", "alice/repo", none⟩)), [1700000000]) := by
    decide +kernel
  obtain ⟨⟨x, outputs⟩, hexec, hx⟩ := Option.map_eq_some_iff.1 hrun
  simp only [Prod.mk.injEq] at hx
  have hreach : Runs.Reach (step sampleServices) (fun _ _ => True)
      (fun x => x = start sampleServices [sampleAsk]) x :=
    .of_exec (.start rfl) (fun _ _ _ => trivial) hexec
  exact ⟨x, hreach, hx.1, hx.2, authorised_of_reach hreach⟩

end Control.Provenance
end Gittree
