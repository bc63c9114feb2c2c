import Gittree.Services.Admission
import Gittree.Services.AuthProfiles
import Gittree.Services.Control
import Gittree.Services.TenantCreation

/-!
# The requests to the control service

The handlers of `services/control/src/lib.rs`, and the actions of `control_action.rs`.  Users,
organisations and pull requests are created for those who know the control token; repositories for
them too, if the key is one of an administrator, and for a key that has signed the announcement and
the request; tenants for any key that has signed the request.  Reading JSON is a parameter.

* `Control.authorize_eq_ok`, `Control.authorizeAdminPubkey_eq_ok`: who is let in;
* `ControlAction.parse_eq_ok`: the actions that are carried out;
* `Control.genuine_of_verifySignedEvent`: what is signed by the key of an event.
-/

namespace Gittree

open Rust

/-! ### Organisations and pull requests of a Forgejo server -/

namespace Forgejo

/-- `ForgejoOrg`, and the `ForgejoOrgResponse` that it is read from. -/
structure Org where
  name : String
  fullName : Option String
  deriving DecidableEq, Repr

/-- `ForgejoCreateOrg`. -/
structure CreateOrg where
  username : String
  fullName : Option String
  description : Option String
  visibility : Option String
  deriving DecidableEq, Repr

/-- `ForgejoPullRequest`. -/
structure PullRequest where
  number : ℕ
  url : String
  htmlUrl : Option String
  deriving DecidableEq, Repr

/-- `ForgejoPullRequestResponse`. -/
structure PullRequestResponse where
  number : ℤ
  url : String
  htmlUrl : Option String

/-- `ForgejoCreatePullRequest`. -/
structure CreatePullRequest where
  head : String
  base : String
  title : String
  body : Option String
  deriving DecidableEq, Repr

/-- `into_pull_request`. -/
def PullRequestResponse.intoPullRequest (response : PullRequestResponse) :
    Except Error PullRequest :=
  if 0 ≤ response.number then .ok ⟨response.number.toNat, response.url, response.htmlUrl⟩
  else .error (.parse ("invalid pull request number: " ++ toString response.number))

/-- What `create_org` makes of a response. -/
def readCreatedOrg (response : Response Org) : Except Error Org :=
  if response.status = 200 ∨ response.status = 201 then response.parse
  else .error (.response response.status response.body)

/-- What `create_pull_request` makes of a response. -/
def readPullRequest (response : Response PullRequestResponse) : Except Error PullRequest :=
  if response.status = 201 then response.parse >>= PullRequestResponse.intoPullRequest
  else .error (.response response.status response.body)

end Forgejo

/-! ### Actions -/

/-- `ControlAction`. -/
inductive ControlAction
  | createUser (username email password : String) (admin mustChangePassword : Option Bool)
  | createOrg (name : String) (fullName description : Option String)
  | createRepo (name : String) (owner identifier description : Option String)
    (isPrivate : Option Bool) (pubkey privkey : String)
  | createPullRequest (owner repo head base title : String) (body : Option String)
    (draft : Option Bool)
  deriving DecidableEq, Repr

namespace ControlAction

/-- `require_non_empty` of `control_action.rs`. -/
def requireNonEmpty (field value : String) : Except CoreError Unit :=
  Result.ensure (Str.trim value ≠ "") (.invalidField field "")

/-- A field that is not empty if it is there. -/
def requireSome (field : String) : Option String → Except CoreError Unit
  | some value => requireNonEmpty field value
  | none => .ok ()

/-- `require_hex64` of `control_action.rs`. -/
def requireHex64 (field value : String) : Except CoreError Unit :=
  Result.ensure (Str.isHexLen value 64 = true) (.invalidField field value)

/-- `ControlAction::validate`. -/
def validate : ControlAction → Except CoreError Unit
  | .createUser username email password _ _ => do
    requireNonEmpty "username" username
    requireNonEmpty "email" email
    requireNonEmpty "password" password
  | .createOrg name fullName _ => do
    requireNonEmpty "name" name
    requireSome "full_name" fullName
  | .createRepo name owner identifier _ _ pubkey privkey => do
    requireNonEmpty "name" name
    requireSome "owner" owner
    requireSome "identifier" identifier
    requireHex64 "pubkey" pubkey
    requireHex64 "privkey" privkey
  | .createPullRequest owner repo head base title _ _ => do
    requireNonEmpty "owner" owner
    requireNonEmpty "repo" repo
    requireNonEmpty "head" head
    requireNonEmpty "base" base
    requireNonEmpty "title" title

/-- `ControlAction::parse`, with the `serde_json` reading of an action. -/
def parse (actionFromStr : String → Option ControlAction) (kind : ℕ) (content : String)
    (expectedKind : ℕ) : Except CoreError ControlAction := do
  Result.ensure (kind = expectedKind) (.invalidField "kind" (toString kind))
  Result.ensure (Str.trim content ≠ "") (.missingField "content")
  let action ← Result.okOr (actionFromStr content) (.invalidField "content" "invalid json")
  action.validate
  return action

/-- The actions that are carried out are those that are read and valid. -/
theorem parse_eq_ok {actionFromStr : String → Option ControlAction} {kind expectedKind : ℕ}
    {content : String} {action : ControlAction} :
    parse actionFromStr kind content expectedKind = .ok action ↔
      kind = expectedKind ∧ Str.trim content ≠ "" ∧ actionFromStr content = some action ∧
        action.validate = .ok () := by
  unfold parse
  simp only [Result.bind_eq_ok, Result.ensure_eq_ok, Result.okOr_eq_ok, Result.pure_eq_ok]
  constructor
  · rintro ⟨_, hkind, _, hcontent, found, hfound, _, hvalid, rfl⟩
    exact ⟨hkind, hcontent, hfound, hvalid⟩
  · rintro ⟨hkind, hcontent, hfound, hvalid⟩
    exact ⟨(), hkind, (), hcontent, action, hfound, (), hvalid, rfl⟩

end ControlAction

/-! ### Requests -/

/-- `ControlAuthConfig`. -/
structure ControlAuthConfig where
  token : String
  adminKeys : List String

/-- `ControlCreateOrgRequest`. -/
structure ControlCreateOrgRequest where
  owner : String
  name : String
  fullName : Option String
  description : Option String
  visibility : Option String

/-- `ControlCreateRepoRequest`. -/
structure ControlCreateRepoRequest where
  owner : String
  name : String
  identifier : Option String
  description : Option String
  isPrivate : Option Bool
  autoInit : Option Bool
  pubkey : String
  privkey : String

/-- `ControlCreatePullRequest`. -/
structure ControlCreatePullRequest where
  owner : String
  repo : String
  head : String
  base : String
  title : String
  body : Option String

/-- `ControlEventRequest`, whose kind is any `u64`. -/
structure ControlEventRequest where
  kind : ℕ
  pubkey : String
  content : String

/-- `RepoCreateRequest`. -/
structure RepoCreateRequest where
  event : NostrEvent
  isPrivate : Option Bool

/-- `ControlEventResponse`; the responses about users, organisations, repositories and pull requests
have the fields of those of Forgejo. -/
inductive ControlEventResponse
  | createUser (user : Forgejo.User)
  | createOrg (org : Forgejo.Org)
  | createRepo (repo : Forgejo.Repo)
  | createPullRequest (pull : Forgejo.PullRequest)
  deriving DecidableEq, Repr

/-- `ControlAppState`, with the host, the cryptography and the readings of JSON. -/
structure ControlAppState where
  env : ServiceEnv
  signing : Signing
  config : ControlConfig
  auth : ControlAuthConfig
  nip98 : Nip98Crypto
  decodeBase64 : String → Option (List UInt8)
  eventFromSlice : List UInt8 → Option Nip98Event
  actionFromStr : String → Option ControlAction
  repoRequestFromSlice : List UInt8 → Except String RepoCreateRequest
  tenantRequestFromSlice : List UInt8 → Except String ControlCreateTenantRequest

/-- What authorisations are read with; the skew is `DEFAULT_CONTROL_MAX_SKEW_SECONDS`. -/
def ControlAppState.nostr (state : ControlAppState) : NostrEnv :=
  ⟨300, state.nip98, state.decodeBase64, state.eventFromSlice⟩

/-! ### Calls -/

/-- The calls of the handlers: those of the creation of repositories and of tenants, and the other
requests to the Forgejo server. -/
inductive ControlCall
  | repos (call : Call)
  | tenants (call : TenantCall)
  | createUser (user : Forgejo.CreateUser)
  | createOrg (owner : String) (org : Forgejo.CreateOrg)
  | createPullRequest (owner repo : String) (request : Forgejo.CreatePullRequest)

/-- Their answers; a request to the Forgejo server that is not sent is an error. -/
abbrev ControlCall.Answer : ControlCall → Type
  | .repos call => call.Answer
  | .tenants call => call.Answer
  | .createUser _ => Except Forgejo.Error (Forgejo.Response Forgejo.UserResponse)
  | .createOrg _ _ => Except Forgejo.Error (Forgejo.Response Forgejo.Org)
  | .createPullRequest _ _ _ =>
    Except Forgejo.Error (Forgejo.Response Forgejo.PullRequestResponse)

/-- A program with these calls. -/
abbrev ControlProg (α : Type) : Type :=
  ExceptT ControlHttpError (Prog ControlCall ControlCall.Answer) α

namespace Control

/-- A program that creates a repository. -/
def onRepos {α : Type} (x : Service ControlHttpError α) : ControlProg α :=
  ExceptT.mk (Prog.embed (S := ControlCall.Answer) ControlCall.repos x.run)

/-- A program that creates a tenant. -/
def onTenants {α : Type} (x : TenantProg α) : ControlProg α :=
  ExceptT.mk (Prog.embed (S := ControlCall.Answer) ControlCall.tenants x.run)

/-- `ForgejoClient::create_user`. -/
def createUser (user : Forgejo.CreateUser) : ControlProg Forgejo.User :=
  Prog.asking (.createUser user) fun answer =>
    (answer >>= Forgejo.readCreatedUser).mapError mapForgejoError

/-- `ForgejoClient::create_org`. -/
def createOrg (owner : String) (org : Forgejo.CreateOrg) : ControlProg Forgejo.Org :=
  Prog.asking (.createOrg owner org) fun answer =>
    (answer >>= Forgejo.readCreatedOrg).mapError mapForgejoError

/-- `ForgejoClient::create_pull_request`. -/
def createPullRequest (owner repo : String) (request : Forgejo.CreatePullRequest) :
    ControlProg Forgejo.PullRequest :=
  Prog.asking (.createPullRequest owner repo request) fun answer =>
    (answer >>= Forgejo.readPullRequest).mapError mapForgejoError

/-! ### Authorisation -/

/-- `authorize`. -/
def authorize (headers : GitHttp.HeaderMap) (token : String) : Except ControlHttpError Unit := do
  let value ← Result.okOr ((GitHttp.getHeader headers "authorization").bind GitHttp.headerText)
    (.unauthorized "missing authorization")
  let value ← Result.okOr (Str.stripPrefix (Str.trim value) "Bearer ")
    (.unauthorized "invalid authorization header")
  Result.ensure (value = token) (.unauthorized "invalid control token")

/-- `authorize_admin_pubkey`. -/
def authorizeAdminPubkey (pubkey : String) (auth : ControlAuthConfig) :
    Except ControlHttpError Unit :=
  Result.ensure (auth.adminKeys = [] ∨ pubkey ∈ auth.adminKeys)
    (.unauthorized "control pubkey not authorized")

/-- `parse_nostr_auth`. -/
def parseNostrAuth (env : NostrEnv) (headers : GitHttp.HeaderMap) :
    Except ControlHttpError Nip98Event :=
  (nostrEvent env headers).mapError .unauthorized

/-- The authorisation by `validate_nip98`, with `build_request_url` and `parse_nostr_auth`. -/
def authenticate (state : ControlAppState) (request : HttpRequest) :
    Except ControlHttpError Nip98Auth :=
  request.authenticate .unauthorized .badRequest state.nostr
    (nip98PayloadHash state.nip98 request.body)

/-- `ensure_action_pubkey_matches`. -/
def ensureActionPubkeyMatches (requestPubkey : String) :
    ControlAction → Except ControlHttpError Unit
  | .createRepo _ _ _ _ _ pubkey _ =>
    Result.ensure (pubkey = requestPubkey) (.badRequest "pubkey does not match control request")
  | _ => .ok ()

/-! ### Handlers -/

/-- `create_user_handler`; `ControlCreateUserRequest` has the fields of `ForgejoCreateUser`. -/
def createUserHandler (state : ControlAppState) (headers : GitHttp.HeaderMap)
    (payload : Forgejo.CreateUser) : ControlProg Forgejo.User := do
  Prog.ofExcept do
    authorize headers state.auth.token
    requireNonEmpty "username" payload.username
    requireNonEmpty "email" payload.email
    requireNonEmpty "password" payload.password
  createUser payload

/-- `create_org_handler`. -/
def createOrgHandler (state : ControlAppState) (headers : GitHttp.HeaderMap)
    (payload : ControlCreateOrgRequest) : ControlProg Forgejo.Org := do
  Prog.ofExcept do
    authorize headers state.auth.token
    requireNonEmpty "owner" payload.owner
    requireNonEmpty "name" payload.name
  createOrg payload.owner
    ⟨payload.name, payload.fullName, payload.description, payload.visibility⟩

/-- The checks of `create_repo_handler`, and what it goes on with. -/
def repoInput (state : ControlAppState) (headers : GitHttp.HeaderMap)
    (payload : ControlCreateRepoRequest) : Except ControlHttpError CreateRepoInput := do
  authorize headers state.auth.token
  requireNonEmpty "owner" payload.owner
  requireNonEmpty "name" payload.name
  requireNonEmpty "pubkey" payload.pubkey
  requireNonEmpty "privkey" payload.privkey
  match payload.identifier with
  | some identifier => requireNonEmpty "identifier" identifier
  | none => pure ()
  requireHex64 "pubkey" payload.pubkey
  requireHex64 "privkey" payload.privkey
  authorizeAdminPubkey payload.pubkey state.auth
  return {
    owner := some payload.owner
    name := payload.name
    identifier := payload.identifier
    description := payload.description
    isPrivate := payload.isPrivate
    autoInit := payload.autoInit
    pubkey := payload.pubkey
    privkey := payload.privkey }

/-- `create_repo_handler`, at a given time. -/
def createRepoHandler (state : ControlAppState) (headers : GitHttp.HeaderMap)
    (payload : ControlCreateRepoRequest) (now : ℤ) : ControlProg Forgejo.Repo := do
  let input ← Prog.ofExcept (repoInput state headers payload)
  onRepos (createRepoWithAnnouncement state.env state.signing state.config now input)

/-- The body of a request to create a repository. -/
def readRepoRequest (state : ControlAppState) (body : List UInt8) :
    Except ControlHttpError RepoCreateRequest := do
  Result.ensure (body ≠ []) (.badRequest "missing repo create body")
  (state.repoRequestFromSlice body).mapError
    fun err => .badRequest ("invalid repo create request: " ++ err)

/-- `create_repo_nostr_handler`. -/
def createRepoNostrHandler (state : ControlAppState) (request : HttpRequest) :
    ControlProg RepoCreateResponse := do
  let auth ← Prog.ofExcept (authenticate state request)
  let payload ← Prog.ofExcept (readRepoRequest state request.body)
  onRepos (createRepoFromSignedEvent state.env state.signing.toCrypto state.config auth.pubkey
    payload.event payload.isPrivate)

/-- The body of a request to create a tenant. -/
def readTenantRequest (state : ControlAppState) (body : List UInt8) :
    Except ControlHttpError ControlCreateTenantRequest := do
  Result.ensure (body ≠ []) (.badRequest "missing tenant create body")
  (state.tenantRequestFromSlice body).mapError
    fun err => .badRequest ("invalid tenant create request: " ++ err)

/-- The checks of `create_tenant_handler`, which decodes the key before it authenticates the
request, and what it goes on with. -/
def tenantRequest (state : ControlAppState) (request : HttpRequest) (secretKey nonce : List UInt8) :
    Except ControlHttpError TenantRequest := do
  let event ← parseNostrAuth state.nostr request.headers
  let _ ← Result.okOr (Hex.decode event.pubkey) (.unauthorized "invalid nostr auth pubkey")
  let _ ← authenticate state request
  let payload ← readTenantRequest state request.body
  return ⟨event.pubkey, payload, request.now, secretKey, nonce⟩

/-- `create_tenant_handler`, with the random key and nonce. -/
def tenantHandler (state : ControlAppState) (request : HttpRequest) (secretKey nonce : List UInt8) :
    ControlProg ControlCreateTenantResponse := do
  let request ← Prog.ofExcept (tenantRequest state request secretKey nonce)
  onTenants (createTenantHandler state.signing request)

/-- `create_pull_handler`. -/
def createPullHandler (state : ControlAppState) (headers : GitHttp.HeaderMap)
    (payload : ControlCreatePullRequest) : ControlProg Forgejo.PullRequest := do
  Prog.ofExcept do
    authorize headers state.auth.token
    requireNonEmpty "owner" payload.owner
    requireNonEmpty "repo" payload.repo
    requireNonEmpty "head" payload.head
    requireNonEmpty "base" payload.base
    requireNonEmpty "title" payload.title
  createPullRequest payload.owner payload.repo
    ⟨payload.head, payload.base, payload.title, payload.body⟩

/-- `apply_control_action`, at a given time. -/
def applyControlAction (state : ControlAppState) (now : ℤ) :
    ControlAction → ControlProg ControlEventResponse
  | .createUser username email password _ mustChangePassword => do
    return .createUser (← createUser ⟨username, email, password, none, mustChangePassword, none⟩)
  | .createOrg name fullName description => do
    return .createOrg
      (← createOrg state.config.forgejoOwner ⟨name, fullName, description, none⟩)
  | .createRepo name owner identifier description isPrivate pubkey privkey => do
    return .createRepo (← onRepos (createRepoWithAnnouncement state.env state.signing state.config
      now ⟨owner, name, identifier, description, isPrivate, none, pubkey, privkey⟩))
  | .createPullRequest owner repo head base title body _ => do
    return .createPullRequest (← createPullRequest owner repo ⟨head, base, title, body⟩)

/-- The checks of `control_event_handler`, and the action that it goes on with. -/
def eventAction (state : ControlAppState) (headers : GitHttp.HeaderMap)
    (payload : ControlEventRequest) : Except ControlHttpError ControlAction := do
  authorize headers state.auth.token
  requireNonEmpty "pubkey" payload.pubkey
  requireNonEmpty "content" payload.content
  authorizeAdminPubkey payload.pubkey state.auth
  Result.ensure (payload.kind < 2 ^ 32) (.badRequest "invalid kind")
  let action ← (ControlAction.parse state.actionFromStr payload.kind payload.content
    Admission.kindGittreeControl).mapError fun err => .badRequest err.display
  ensureActionPubkeyMatches payload.pubkey action
  return action

/-- `control_event_handler`, at a given time. -/
def controlEventHandler (state : ControlAppState) (headers : GitHttp.HeaderMap)
    (payload : ControlEventRequest) (now : ℤ) : ControlProg ControlEventResponse := do
  let action ← Prog.ofExcept (eventAction state headers payload)
  applyControlAction state now action

/-! ### Who is let in -/

/-- The headers carry the token, behind the word `Bearer`. -/
def HasToken (headers : GitHttp.HeaderMap) (token : String) : Prop :=
  ∃ bytes value, GitHttp.getHeader headers "authorization" = some bytes ∧
    GitHttp.headerText bytes = some value ∧ Str.stripPrefix (Str.trim value) "Bearer " = some token

theorem authorize_eq_ok {headers : GitHttp.HeaderMap} {token : String} :
    authorize headers token = .ok () ↔ HasToken headers token := by
  unfold authorize HasToken
  simp only [Result.bind_eq_ok, Result.okOr_eq_ok, Result.ensure_eq_ok, Option.bind_eq_some_iff]
  constructor
  · rintro ⟨value, ⟨bytes, hbytes, hvalue⟩, found, hfound, rfl⟩
    exact ⟨bytes, value, hbytes, hvalue, hfound⟩
  · rintro ⟨bytes, value, hbytes, hvalue, hfound⟩
    exact ⟨value, ⟨bytes, hbytes, hvalue⟩, token, hfound, rfl⟩

/-- Without a list of administrators every key is one. -/
theorem authorizeAdminPubkey_eq_ok {pubkey : String} {auth : ControlAuthConfig} :
    authorizeAdminPubkey pubkey auth = .ok () ↔ auth.adminKeys = [] ∨ pubkey ∈ auth.adminKeys :=
  Result.ensure_eq_ok

/-- The event has the id of its contents, which the key in it has signed. -/
structure Genuine (crypto : Crypto) (event : NostrEvent) (pubkey : List UInt8) : Prop where
  pubkey : Hex.decode event.pubkey = some pubkey
  id : event.computeId crypto = event.id
  verifies : ∃ digest, Hex.decode event.id = some digest ∧
    crypto.verifySchnorr event.sig digest event.pubkey = true

theorem genuine_of_verifySignedEvent {crypto : Crypto} {event : NostrEvent} {pubkey : List UInt8}
    (h : verifySignedEvent crypto event = .ok pubkey) : Genuine crypto event pubkey := by
  unfold verifySignedEvent at h
  simp only [Result.bind_eq_ok, Result.okOr_eq_ok, Result.ensure_eq_ok, Result.pure_eq_ok] at h
  obtain ⟨digest, hdigest, _, -, _, hid, _, -, key, hkey, _, -, _, -, _, hverifies, rfl⟩ := h
  exact ⟨hkey, hid, digest, hdigest, hverifies⟩

/-- A request for a tenant is authorised by the key that becomes its owner. -/
theorem authorised_of_tenantRequest {state : ControlAppState} {request : HttpRequest}
    {secretKey nonce : List UInt8} {tenant : TenantRequest}
    (h : tenantRequest state request secretKey nonce = .ok tenant) :
    ∃ auth, request.AuthorisedBy state.nostr (nip98PayloadHash state.nip98 request.body) auth ∧
      Hex.decode tenant.ownerPubkey = some auth.pubkeyBytes := by
  unfold tenantRequest parseNostrAuth authenticate at h
  simp only [Result.bind_eq_ok, Result.mapError_eq_ok, HttpRequest.authenticate_eq_ok,
    Result.pure_eq_ok] at h
  obtain ⟨event, hevent, _, -, auth, hauth, payload, -, rfl⟩ := h
  refine ⟨auth, hauth, ?_⟩
  obtain ⟨event', url, hevent', -, hsigned⟩ := hauth.exists_event
  obtain rfl : event = event' := Except.ok.inj (hevent.symm.trans hevent')
  rw [← hsigned.pubkey]
  exact hauth.decode

end Control
end Gittree
