import Gittree.Lib.Runs
import Gittree.Services.Hosts
import Gittree.Storage.Memberships

/-!
# Creation of tenants

`create_tenant_handler` of `services/control/src/lib.rs`, as the program of its repository calls: it
asks whether the host is taken, stores the tenant with a new key of its relay, and makes the user who
asked for it the owner.  Any number of requests are under way, interleaved at their calls; any call
may fail.  The requests are those that have passed the authentication, which calls no repository.

* `Creations`: the tables and the requests, with one step for each repository call;
* `CreatePhase`: how far a request has come, and what is left of its program;
* `Creations.Inv`: the invariant, when a host is still free as its tenant is stored and no tenant is
  left without its owner;
* `oneCreator_of_reach`: every tenant has one creator, who owns it.
-/

namespace Gittree

open Rust

/-- `ControlCreateTenantRequest`. -/
structure ControlCreateTenantRequest where
  host : String
  name : Option String := none
  description : Option String := none
  icon : Option String := none
  banner : Option String := none
  contact : Option String := none
  authRequired : Option Bool := none
  publicRead : Option Bool := none
  publicWrite : Option Bool := none

/-- `ControlCreateTenantResponse`. -/
structure ControlCreateTenantResponse where
  tenantId : String
  host : String
  relayPubkey : String
  relayUrl : String
  ownerPubkey : String
  status : String
  deriving DecidableEq, Repr

/-- What `create_tenant_handler` works on once the request is authenticated: the key of the user, the
body, the time, and the random secret key and nonce. -/
structure TenantRequest where
  ownerPubkey : String
  payload : ControlCreateTenantRequest
  now : ℤ
  secretKey : List UInt8
  nonce : List UInt8

/-- The repository calls of `create_tenant_handler`. -/
inductive TenantCall
  | tenantByHost (host : String)
  | upsertTenant (record : StoredTenant)
  | upsertMembership (record : RelayMembershipRecord)

/-- The results of a call. -/
@[reducible] def TenantCall.Result : TenantCall → Type
  | .tenantByHost _ => Option StoredTenant
  | .upsertTenant _ => Unit
  | .upsertMembership _ => Unit

/-- The answers to a call. -/
abbrev TenantCall.Answer (call : TenantCall) : Type := Except StorageError call.Result

/-- The tables of `InMemoryRepositories` that the calls use. -/
structure TenantTables where
  tenants : Tenants
  memberships : Memberships

/-- A call that does not fail. -/
def TenantCall.perform : (call : TenantCall) → TenantTables → call.Answer × TenantTables
  | .tenantByHost host, t => (.ok (t.tenants.tenantByHost host), t)
  | .upsertTenant record, t => (.ok (), { t with tenants := t.tenants.upsertTenant record })
  | .upsertMembership record, t =>
    (.ok (), { t with memberships := t.memberships.upsertMembership record })

/-- A call, with the error that it meets. -/
def TenantCall.attempt (call : TenantCall) (fault : Option StorageError) (t : TenantTables) :
    call.Answer × TenantTables :=
  match fault with
  | some err => (.error err, t)
  | none => call.perform t

/-- Programs with these calls. -/
abbrev TenantProg (α : Type) : Type := ExceptT ControlHttpError (Prog TenantCall TenantCall.Answer) α

/-- A call whose errors become internal errors. -/
def TenantCall.run (call : TenantCall) : TenantProg call.Result :=
  ExceptT.adapt Control.mapStorageError (Prog.attempt (Prog.ask call))

namespace TenantRequest

/-- The key of the relay of the new tenant. -/
def relayPubkeyHex (signing : Signing) (request : TenantRequest) : String :=
  Hex.encode (signing.publicKey request.secretKey)

/-- The record of the new tenant. -/
def record (signing : Signing) (request : TenantRequest) (host : String) :
    Except StorageError StoredTenant :=
  RelayTenantRecord.new host host (request.relayPubkeyHex signing) request.secretKey request.nonce
    "local" request.payload.name request.payload.description request.payload.icon
    request.payload.banner request.payload.contact (request.payload.authRequired.getD true)
    (request.payload.publicRead.getD false) (request.payload.publicWrite.getD false) request.now
    request.now

/-- The membership of the user who asked for the tenant. -/
def ownership (request : TenantRequest) (owner : List UInt8) (host : String) :
    RelayMembershipRecord where
  tenantId := host
  pubkey := owner
  role := "owner"
  status := "active"
  createdAt := request.now
  updatedAt := request.now

/-- The answer to a request that succeeds. -/
def response (signing : Signing) (request : TenantRequest) (host : String) :
    ControlCreateTenantResponse where
  tenantId := host
  host := host
  relayPubkey := request.relayPubkeyHex signing
  relayUrl := "wss://" ++ host
  ownerPubkey := request.ownerPubkey
  status := "created"

/-- The end of `create_tenant_handler`: the membership of the owner. -/
def enrol (signing : Signing) (request : TenantRequest) (owner : List UInt8) (host : String) :
    TenantProg ControlCreateTenantResponse := do
  (TenantCall.upsertMembership (request.ownership owner host)).run
  return request.response signing host

/-- The part of `create_tenant_handler` that writes. -/
def store (signing : Signing) (request : TenantRequest) (owner : List UInt8) (host : String)
    (record : StoredTenant) : TenantProg ControlCreateTenantResponse := do
  (TenantCall.upsertTenant record).run
  request.enrol signing owner host

/-- The part of `create_tenant_handler` that follows the normalisation of the host. -/
def create (signing : Signing) (request : TenantRequest) (owner : List UInt8) (host : String) :
    TenantProg ControlCreateTenantResponse := do
  let existing ← (TenantCall.tenantByHost host).run
  Prog.ofExcept (Result.ensure (existing = none) (.badRequest "tenant host already exists"))
  let record ← Prog.ofExcept
    ((request.record signing host).mapError fun err => .badRequest err.display)
  request.store signing owner host record

end TenantRequest

/-- `create_tenant_handler`. -/
def createTenantHandler (signing : Signing) (request : TenantRequest) :
    TenantProg ControlCreateTenantResponse := do
  let owner ← Prog.ofExcept
    (Result.okOr (Hex.decode request.ownerPubkey) (.unauthorized "invalid nostr auth pubkey"))
  let host ← Prog.ofExcept (Control.normalizeHost request.payload.host)
  request.create signing owner host

/-! ### Requests under way -/

/-- A request, and what is left of its program. -/
structure Creation where
  request : TenantRequest
  program : Prog TenantCall TenantCall.Answer (Except ControlHttpError ControlCreateTenantResponse)

/-- The tables, and the requests in the order in which they arrived. -/
structure Creations where
  tables : TenantTables
  requests : List Creation

namespace Creations

/-- A new request, or the next call of the request with an index. -/
inductive Action
  | begin (request : TenantRequest)
  | advance (index : ℕ) (fault : Option StorageError)

/-- Nothing is stored and nothing has begun. -/
def empty : Creations := ⟨⟨∅, ∅⟩, []⟩

/-- One step. -/
def step (signing : Signing) (s : Creations) : Action → Option (Creations × Unit)
  | .begin request =>
    some ({ s with requests := s.requests ++ [⟨request, (createTenantHandler signing request).run⟩] },
      ())
  | .advance index fault =>
    match s.requests[index]? with
    | some ⟨request, .call call next⟩ =>
      let answered := call.attempt fault s.tables
      some (⟨answered.2, s.requests.set index ⟨request, next answered.1⟩⟩, ())
    | _ => none

/-- The steps that keep a tenant with its creator: when a tenant is stored its host is still free,
and the membership of an owner is written without an error. -/
def orderly (s : Creations) : Action → Bool
  | .begin _ => true
  | .advance index fault =>
    match s.requests[index]? with
    | some ⟨_, .call (.upsertTenant record) _⟩ =>
      fault.isSome || (s.tables.tenants.tenantByHost record.host).isNone
    | some ⟨_, .call (.upsertMembership _) _⟩ => fault.isNone
    | _ => true

/-- The request is answered with a new tenant. -/
def Created (creation : Creation) (answer : ControlCreateTenantResponse) : Prop :=
  creation.program = .done (.ok answer)

/-- A key that owns a tenant. -/
def Owns (s : Creations) (tenantId : String) (pubkey : List UInt8) : Prop :=
  ∃ membership, s.tables.memberships.membershipByPubkey tenantId pubkey = some membership ∧
    membership.role = "owner"

/-- The next call of the request makes an owner of the tenant. -/
def Enrols (creation : Creation) (tenantId : String) : Prop :=
  ∃ membership next, creation.program = .call (.upsertMembership membership) next ∧
    membership.tenantId = tenantId ∧ membership.role = "owner"

/-- A tenant host has one creator. -/
structure OneCreator (s : Creations) : Prop where
  /-- At most one request for a host is answered with a new tenant. -/
  unique : ∀ (i j : ℕ) (a b : Creation) (x y : ControlCreateTenantResponse),
    s.requests[i]? = some a → s.requests[j]? = some b → Created a x → Created b y →
      Control.normalizeHost a.request.payload.host = Control.normalizeHost b.request.payload.host →
        i = j
  /-- The key in the answer is the key of the tenant that is stored. -/
  key : ∀ a ∈ s.requests, ∀ x, Created a x → ∃ record,
    s.tables.tenants.tenantById x.tenantId = some record ∧
      s.tables.tenants.tenantByHost record.host = some record ∧
      Hex.decode x.relayPubkey = some record.relayPubkey
  /-- The one who created the tenant owns it, and nobody else does. -/
  owner : ∀ a ∈ s.requests, ∀ x, Created a x →
    ∀ pubkey, Owns s x.tenantId pubkey ↔ Hex.decode a.request.ownerPubkey = some pubkey
  /-- A tenant has an owner, or is about to be given one. -/
  owned : ∀ tenantId record, s.tables.tenants.tenantById tenantId = some record →
    (∃ pubkey, Owns s tenantId pubkey) ∨ ∃ a ∈ s.requests, Enrols a tenantId

end Creations

/-! ### Phases -/

/-- How far a request has come. -/
inductive CreatePhase
  | asking (owner : List UInt8) (host : String)
  | storing (owner : List UInt8) (host : String) (record : StoredTenant)
  | enrolling (owner : List UInt8) (host : String) (record : StoredTenant)
  | created (owner : List UInt8) (host : String) (record : StoredTenant)
  | refused (err : ControlHttpError)

namespace CreatePhase

variable (signing : Signing) (request : TenantRequest)

/-- What is left of the program in a phase. -/
def program :
    CreatePhase → Prog TenantCall TenantCall.Answer (Except ControlHttpError ControlCreateTenantResponse)
  | .asking owner host => (request.create signing owner host).run
  | .storing owner host record => (request.store signing owner host record).run
  | .enrolling owner host _ => (request.enrol signing owner host).run
  | .created _ host _ => .done (.ok (request.response signing host))
  | .refused err => .done (.error err)

/-- The phase in which a request begins. -/
def start : CreatePhase :=
  match Hex.decode request.ownerPubkey with
  | none => .refused (.unauthorized "invalid nostr auth pubkey")
  | some owner =>
    match Control.normalizeHost request.payload.host with
    | .error err => .refused err
    | .ok host => .asking owner host

/-- The phase after the question whether the host is taken. -/
def afterAsking (owner : List UInt8) (host : String) :
    Except StorageError (Option StoredTenant) → CreatePhase
  | .error err => .refused (Control.mapStorageError err)
  | .ok (some _) => .refused (.badRequest "tenant host already exists")
  | .ok none =>
    match request.record signing host with
    | .error err => .refused (.badRequest err.display)
    | .ok record => .storing owner host record

/-- The phase after a call that answers nothing. -/
def afterWriting (next : CreatePhase) : Except StorageError Unit → CreatePhase
  | .error err => .refused (Control.mapStorageError err)
  | .ok _ => next

/-- What a phase says about its request. -/
def Fits : CreatePhase → Prop
  | .asking owner host =>
    Hex.decode request.ownerPubkey = some owner ∧
      Control.normalizeHost request.payload.host = .ok host
  | .storing owner host record | .enrolling owner host record | .created owner host record =>
    Hex.decode request.ownerPubkey = some owner ∧
      Control.normalizeHost request.payload.host = .ok host ∧
      request.record signing host = .ok record
  | .refused _ => True

/-- The record that the request has stored. -/
def held : CreatePhase → Option StoredTenant
  | .enrolling _ _ record | .created _ _ record => some record
  | _ => none

variable {signing request}

theorem program_start :
    (createTenantHandler signing request).run = (start request).program signing request := by
  unfold createTenantHandler start
  cases Hex.decode request.ownerPubkey with
  | none => rfl
  | some owner =>
    cases hhost : Control.normalizeHost request.payload.host with
    | error err => rfl
    | ok host => rfl

theorem program_asking (owner : List UInt8) (host : String) :
    (asking owner host).program signing request = .call (.tenantByHost host)
      fun answer => (afterAsking signing request owner host answer).program signing request := by
  refine congrArg (Prog.call _) (funext fun answer => ?_)
  rcases answer with err | _ | record
  · rfl
  · unfold afterAsking
    have hnone : Result.ensure ((none : Option StoredTenant) = none)
        (ControlHttpError.badRequest "tenant host already exists") = .ok () := rfl
    change (Prog.ofExcept (Result.ensure ((none : Option StoredTenant) = none) _) >>= fun _ =>
      Prog.ofExcept ((request.record signing host).mapError _) >>= fun record =>
        request.store signing owner host record).run = _
    rw [hnone]
    cases request.record signing host with
    | error err => rfl
    | ok record => rfl
  · rfl

theorem program_storing (owner : List UInt8) (host : String) (record : StoredTenant) :
    (storing owner host record).program signing request = .call (.upsertTenant record)
      fun answer => (afterWriting (.enrolling owner host record) answer).program signing request := by
  refine congrArg (Prog.call _) (funext fun answer => ?_)
  cases answer with
  | error err => rfl
  | ok _ => rfl

theorem program_enrolling (owner : List UInt8) (host : String) (record : StoredTenant) :
    (enrolling owner host record).program signing request =
      .call (.upsertMembership (request.ownership owner host))
        fun answer => (afterWriting (.created owner host record) answer).program signing request := by
  refine congrArg (Prog.call _) (funext fun answer => ?_)
  cases answer with
  | error err => rfl
  | ok _ => rfl

theorem fits_start : (start request).Fits signing request := by
  unfold start
  cases howner : Hex.decode request.ownerPubkey with
  | none => trivial
  | some owner =>
    cases hhost : Control.normalizeHost request.payload.host with
    | error err => trivial
    | ok host => exact ⟨howner, hhost⟩

theorem held_start : (start request).held = none := by
  unfold start
  cases Hex.decode request.ownerPubkey with
  | none => rfl
  | some owner => cases Control.normalizeHost request.payload.host <;> rfl

theorem fits_afterAsking {owner : List UInt8} {host : String}
    (h : (asking owner host).Fits signing request)
    (answer : Except StorageError (Option StoredTenant)) :
    (afterAsking signing request owner host answer).Fits signing request := by
  rcases answer with err | _ | found
  · trivial
  · unfold afterAsking
    cases hrecord : request.record signing host with
    | error err => trivial
    | ok record => exact ⟨h.1, h.2, hrecord⟩
  · trivial

theorem held_afterAsking (owner : List UInt8) (host : String)
    (answer : Except StorageError (Option StoredTenant)) :
    (afterAsking signing request owner host answer).held = none := by
  rcases answer with err | _ | found
  · rfl
  · unfold afterAsking
    cases request.record signing host <;> rfl
  · rfl

/-- The record that a request stores is made for its host. -/
theorem held_eq_some {phase : CreatePhase} {record : StoredTenant}
    (hfits : phase.Fits signing request) (h : phase.held = some record) :
    Control.normalizeHost request.payload.host = .ok record.id ∧
      record.host = Str.toAsciiLowercase (Str.trim record.id) := by
  cases phase with
  | asking | storing | refused => cases h
  | enrolling owner host record | created owner host record =>
    cases h
    obtain ⟨hid, hhost, -⟩ := fields_of_new hfits.2.2
    rw [hid]
    exact ⟨hfits.2.1, hhost⟩

end CreatePhase

namespace Creations

variable {signing : Signing} {s t : Creations} {phase : ℕ → CreatePhase}

/-- The programs follow the phases, and the tables hold what the requests have written. -/
structure Inv (signing : Signing) (s : Creations) (phase : ℕ → CreatePhase) : Prop where
  follows : ∀ i a, s.requests[i]? = some a →
    a.program = (phase i).program signing a.request ∧ (phase i).Fits signing a.request
  beyond : ∀ i, s.requests[i]? = none → (phase i).held = none
  stored : ∀ id record, s.tables.tenants.tenantById id = some record ↔
    ∃ i, (phase i).held = some record ∧ record.id = id
  distinct : ∀ i j record record', (phase i).held = some record → (phase j).held = some record' →
    record.id = record'.id → i = j
  hosts : ∀ id record, s.tables.tenants.tenantById id = some record →
    s.tables.tenants.byHost[record.host]? = some id
  members : ∀ id pubkey membership,
    s.tables.memberships.membershipByPubkey id pubkey = some membership ↔
      ∃ i a record, s.requests[i]? = some a ∧ phase i = .created pubkey id record ∧
        membership = a.request.ownership pubkey id

namespace Inv

theorem exists_request (hinv : Inv signing s phase) {i : ℕ} {record : StoredTenant}
    (h : (phase i).held = some record) : ∃ a, s.requests[i]? = some a := by
  cases ha : s.requests[i]? with
  | some a => exact ⟨a, rfl⟩
  | none =>
    rw [hinv.beyond i ha] at h
    cases h

/-- The host of a stored tenant is a function of its id. -/
theorem host_of_held (hinv : Inv signing s phase) {i : ℕ} {record : StoredTenant}
    (h : (phase i).held = some record) :
    record.host = Str.toAsciiLowercase (Str.trim record.id) := by
  obtain ⟨a, ha⟩ := hinv.exists_request h
  exact (CreatePhase.held_eq_some (hinv.follows i a ha).2 h).2

section

variable {i : ℕ} {p : CreatePhase} {a : Creation}

/-- One request goes on to a phase that fits it. -/
theorem follows_update (hinv : Inv signing s phase)
    (hother : ∀ j, j ≠ i → t.requests[j]? = s.requests[j]?) (ha : t.requests[i]? = some a)
    (hprogram : a.program = p.program signing a.request) (hfits : p.Fits signing a.request) :
    ∀ j b, t.requests[j]? = some b →
      b.program = (Function.update phase i p j).program signing b.request ∧
        (Function.update phase i p j).Fits signing b.request := by
  intro j b hb
  by_cases hj : j = i
  · subst hj
    rw [ha] at hb
    cases hb
    rw [Function.update_self]
    exact ⟨hprogram, hfits⟩
  · rw [Function.update_of_ne hj]
    exact hinv.follows j b (hother j hj ▸ hb)

theorem beyond_update (hinv : Inv signing s phase)
    (hother : ∀ j, j ≠ i → t.requests[j]? = s.requests[j]?) (ha : t.requests[i]? = some a) :
    ∀ j, t.requests[j]? = none → (Function.update phase i p j).held = none := by
  intro j hj
  by_cases hi : j = i
  · rw [hi, ha] at hj
    cases hj
  · rw [Function.update_of_ne hi]
    exact hinv.beyond j (hother j hi ▸ hj)

/-- The created requests are the same as long as the request that goes on is not one of them. -/
theorem created_update (hother : ∀ j, j ≠ i → t.requests[j]? = s.requests[j]?)
    (hbefore : ∀ owner host record, phase i ≠ .created owner host record)
    (hafter : ∀ owner host record, p ≠ .created owner host record) {id : String}
    {pubkey : List UInt8} {membership : RelayMembershipRecord} :
    (∃ j b record, s.requests[j]? = some b ∧ phase j = .created pubkey id record ∧
        membership = b.request.ownership pubkey id) ↔
      ∃ j b record, t.requests[j]? = some b ∧
        Function.update phase i p j = .created pubkey id record ∧
          membership = b.request.ownership pubkey id := by
  refine exists_congr fun j => ?_
  by_cases hj : j = i
  · subst hj
    rw [Function.update_self]
    constructor
    · rintro ⟨b, record, -, hphase, -⟩
      exact absurd hphase (hbefore _ _ _)
    · rintro ⟨b, record, -, hphase, -⟩
      exact absurd hphase (hafter _ _ _)
  · rw [hother j hj, Function.update_of_ne hj]

/-- A step of one request that neither had a tenant nor has one afterwards. -/
theorem quiet (hinv : Inv signing s phase) (htables : t.tables = s.tables)
    (hother : ∀ j, j ≠ i → t.requests[j]? = s.requests[j]?) (ha : t.requests[i]? = some a)
    (hprogram : a.program = p.program signing a.request) (hfits : p.Fits signing a.request)
    (hbefore : (phase i).held = none) (hafter : p.held = none) :
    Inv signing t (Function.update phase i p) := by
  have hheld : ∀ j, (Function.update phase i p j).held = (phase j).held := by
    intro j
    by_cases hj : j = i
    · rw [hj, Function.update_self, hbefore, hafter]
    · rw [Function.update_of_ne hj]
  have hcreated : ∀ q : CreatePhase, q.held = none →
      ∀ owner host record, q ≠ .created owner host record := by
    rintro q hq owner host record rfl
    cases hq
  refine ⟨hinv.follows_update hother ha hprogram hfits, hinv.beyond_update hother ha, ?_, ?_, ?_,
    fun id pubkey membership => ?_⟩
  · simpa only [htables, hheld] using hinv.stored
  · simpa only [hheld] using hinv.distinct
  · simpa only [htables] using hinv.hosts
  · rw [htables, hinv.members]
    exact created_update hother (hcreated _ hbefore) (hcreated _ hafter)

end

section

variable {i : ℕ} {a : Creation} {owner : List UInt8} {host : String} {record : StoredTenant}
  {program : Prog TenantCall TenantCall.Answer (Except ControlHttpError ControlCreateTenantResponse)}

theorem requests_set (ha : s.requests[i]? = some a) (b : Creation) :
    (s.requests.set i b)[i]? = some b ∧
      ∀ j, j ≠ i → (s.requests.set i b)[j]? = s.requests[j]? := by
  have hi : i < s.requests.length := (List.getElem?_eq_some_iff.1 ha).1
  exact ⟨List.getElem?_set_self hi, fun j hj => List.getElem?_set_ne (Ne.symm hj)⟩

/-- No request has stored the id or the host of a tenant whose host is free. -/
theorem fresh_of_free (hinv : Inv signing s phase) (ha : s.requests[i]? = some a)
    (hphase : phase i = .storing owner host record)
    (hfree : s.tables.tenants.tenantByHost record.host = none) {j : ℕ} {record' : StoredTenant}
    (hj : (phase j).held = some record') : record'.id ≠ record.id ∧ record'.host ≠ record.host := by
  have hfits : (phase i).Fits signing a.request := (hinv.follows i a ha).2
  rw [hphase] at hfits
  obtain ⟨hid, hhost, -⟩ := fields_of_new hfits.2.2
  have hlink := hinv.hosts record'.id record' ((hinv.stored _ _).2 ⟨j, hj, rfl⟩)
  have hne : record'.host ≠ record.host := by
    intro h
    rw [h, Tenants.byHost_of_tenantByHost hfree] at hlink
    cases hlink
  refine ⟨fun h => hne ?_, hne⟩
  rw [hinv.host_of_held hj, h, hhost, hid]

/-- The tenant of a free host is stored. -/
theorem store (hinv : Inv signing s phase) (ha : s.requests[i]? = some a)
    (hphase : phase i = .storing owner host record)
    (hfree : s.tables.tenants.tenantByHost record.host = none)
    (hprogram : program = (CreatePhase.enrolling owner host record).program signing a.request) :
    Inv signing
      ⟨{ s.tables with tenants := s.tables.tenants.upsertTenant record },
        s.requests.set i ⟨a.request, program⟩⟩
      (Function.update phase i (.enrolling owner host record)) := by
  obtain ⟨hset, hother⟩ := requests_set ha ⟨a.request, program⟩
  have hfits : (phase i).Fits signing a.request := (hinv.follows i a ha).2
  rw [hphase] at hfits
  have hfresh : ∀ j record', (phase j).held = some record' →
      record'.id ≠ record.id ∧ record'.host ≠ record.host :=
    fun _ _ hj => hinv.fresh_of_free ha hphase hfree hj
  -- the requests that have a tenant are those from before and this one
  have hheld : ∀ j r, (Function.update phase i (.enrolling owner host record) j).held = some r ↔
      j = i ∧ r = record ∨ (phase j).held = some r := by
    intro j r
    by_cases hj : j = i
    · rw [hj, Function.update_self, hphase]
      simp [CreatePhase.held, eq_comm]
    · rw [Function.update_of_ne hj]
      simp [hj]
  refine ⟨hinv.follows_update hother hset hprogram hfits, hinv.beyond_update hother hset,
    fun id found => ?_, fun j k r r' hj hk hids => ?_, fun id found hfound => ?_,
    fun id pubkey membership => ?_⟩
  · rw [Tenants.tenantById_upsertTenant]
    simp only [hheld]
    split_ifs with hid
    · constructor
      · rintro ⟨⟩
        exact ⟨i, .inl ⟨rfl, rfl⟩, hid⟩
      · rintro ⟨j, ⟨-, rfl⟩ | hj, hfound⟩
        · rfl
        · exact absurd (hfound.trans hid.symm) (hfresh j found hj).1
    · rw [hinv.stored]
      constructor
      · rintro ⟨j, hj, hfound⟩
        exact ⟨j, .inr hj, hfound⟩
      · rintro ⟨j, ⟨-, rfl⟩ | hj, hfound⟩
        · exact absurd hfound hid
        · exact ⟨j, hj, hfound⟩
  · rw [hheld] at hj hk
    rcases hj with ⟨rfl, rfl⟩ | hj <;> rcases hk with ⟨rfl, rfl⟩ | hk
    · rfl
    · exact absurd hids.symm (hfresh k r' hk).1
    · exact absurd hids (hfresh j r hj).1
    · exact hinv.distinct j k r r' hj hk hids
  · rw [Tenants.tenantById_upsertTenant] at hfound
    change (s.tables.tenants.byHost.insert record.host record.id)[found.host]? = some id
    rw [Map.get_insert]
    split_ifs at hfound with hid
    · cases hfound
      rw [if_pos rfl, hid]
    · obtain ⟨j, hj, -⟩ := (hinv.stored id found).1 hfound
      rw [if_neg (hfresh j found hj).2.symm]
      exact hinv.hosts id found hfound
  · rw [hinv.members]
    refine created_update hother ?_ ?_
    · rw [hphase]
      intro _ _ _ h
      cases h
    · intro _ _ _ h
      cases h

/-- The owner of a new tenant is enrolled. -/
theorem enrol (hinv : Inv signing s phase) (ha : s.requests[i]? = some a)
    (hphase : phase i = .enrolling owner host record)
    (hprogram : program = (CreatePhase.created owner host record).program signing a.request) :
    Inv signing
      ⟨{ s.tables with memberships :=
          s.tables.memberships.upsertMembership (a.request.ownership owner host) },
        s.requests.set i ⟨a.request, program⟩⟩
      (Function.update phase i (.created owner host record)) := by
  obtain ⟨hset, hother⟩ := requests_set ha ⟨a.request, program⟩
  have hfits : (phase i).Fits signing a.request := (hinv.follows i a ha).2
  rw [hphase] at hfits
  have hheld : ∀ j, (Function.update phase i (.created owner host record) j).held =
      (phase j).held := by
    intro j
    by_cases hj : j = i
    · rw [hj, Function.update_self, hphase]
      rfl
    · rw [Function.update_of_ne hj]
  refine ⟨hinv.follows_update hother hset hprogram hfits, hinv.beyond_update hother hset, ?_, ?_,
    hinv.hosts, fun id pubkey membership => ?_⟩
  · simpa only [hheld] using hinv.stored
  · simpa only [hheld] using hinv.distinct
  · rw [Memberships.membershipByPubkey_upsert]
    split_ifs with hkey
    · obtain ⟨rfl, rfl⟩ : host = id ∧ owner = pubkey := hkey
      constructor
      · rintro ⟨⟩
        exact ⟨i, _, record, hset, Function.update_self _ _ _, rfl⟩
      · rintro ⟨j, b, found, hb, hj, rfl⟩
        have hji : j = i := by
          by_contra hne
          rw [Function.update_of_ne hne] at hj
          -- the tenant of another request has another id
          refine hne (hinv.distinct j i found record ?_ ?_ ?_)
          · rw [hj]
            rfl
          · rw [hphase]
            rfl
          · obtain ⟨c, hc⟩ := hinv.exists_request (show (phase j).held = some found by rw [hj]; rfl)
            have hfound := (hinv.follows j c hc).2
            rw [hj] at hfound
            rw [(fields_of_new hfound.2.2).1, (fields_of_new hfits.2.2).1]
        subst hji
        rw [hset] at hb
        cases hb
        rfl
    · rw [hinv.members]
      refine exists_congr fun j => ?_
      by_cases hj : j = i
      · subst hj
        rw [Function.update_self, hphase]
        constructor
        · rintro ⟨b, found, -, hcreated, -⟩
          cases hcreated
        · rintro ⟨b, found, -, hcreated, -⟩
          cases hcreated
          exact absurd ⟨rfl, rfl⟩ hkey
      · rw [hother j hj, Function.update_of_ne hj]

end

/-- One step. -/
theorem step {action : Action} {o : Unit} (hinv : Inv signing s phase)
    (hok : orderly s action = true) (h : Creations.step signing s action = some (t, o)) :
    ∃ phase', Inv signing t phase' := by
  cases action with
  | begin request =>
    cases h
    refine ⟨_, hinv.quiet (i := s.requests.length) rfl (fun j hj => ?_) List.getElem?_concat_length
      CreatePhase.program_start CreatePhase.fits_start (hinv.beyond _ ?_) CreatePhase.held_start⟩
    · rcases Nat.lt_or_gt_of_ne hj with hlt | hgt
      · exact List.getElem?_append_left hlt
      · rw [List.getElem?_eq_none hgt.le, List.getElem?_eq_none]
        rw [List.length_append, List.length_singleton]
        omega
    · exact List.getElem?_eq_none le_rfl
  | advance i fault =>
    unfold Creations.step at h
    unfold orderly at hok
    cases ha : s.requests[i]? with
    | none =>
      simp only [ha] at h
      cases h
    | some a =>
      obtain ⟨request, program⟩ := a
      obtain ⟨hprogram, hfits⟩ := hinv.follows i _ ha
      simp only [ha] at h hok
      simp only at hprogram hfits
      cases hphase : phase i with
      | created owner host record =>
        rw [hphase] at hprogram
        subst hprogram
        cases h
      | refused err =>
        rw [hphase] at hprogram
        subst hprogram
        cases h
      | asking owner host =>
        rw [hphase, CreatePhase.program_asking] at hprogram
        rw [hphase] at hfits
        subst hprogram
        obtain ⟨hset, hother⟩ := requests_set ha
          ⟨request, (CreatePhase.afterAsking signing request owner host
            ((TenantCall.tenantByHost host).attempt fault s.tables).1).program signing request⟩
        cases h
        refine ⟨_, hinv.quiet ?_ hother hset rfl (CreatePhase.fits_afterAsking hfits _) ?_
          (CreatePhase.held_afterAsking _ _ _)⟩
        · cases fault <;> rfl
        · rw [hphase]
          rfl
      | storing owner host record =>
        rw [hphase, CreatePhase.program_storing] at hprogram
        subst hprogram
        cases fault with
        | none =>
          cases h
          exact ⟨_, hinv.store ha hphase (Option.isNone_iff_eq_none.1 hok) rfl⟩
        | some err =>
          obtain ⟨hset, hother⟩ := requests_set ha
            ⟨request, (CreatePhase.refused (Control.mapStorageError err)).program signing request⟩
          cases h
          have hbefore : (phase i).held = none := by
            rw [hphase]
            rfl
          exact ⟨_, hinv.quiet (p := .refused (Control.mapStorageError err)) rfl hother hset rfl
            trivial hbefore rfl⟩
      | enrolling owner host record =>
        rw [hphase, CreatePhase.program_enrolling] at hprogram
        subst hprogram
        cases fault with
        | none =>
          cases h
          exact ⟨_, hinv.enrol ha hphase rfl⟩
        | some err => cases hok

theorem empty (signing : Signing) :
    Inv signing Creations.empty fun _ => .refused (.internal "") := by
  have htenants : ∀ id, Creations.empty.tables.tenants.tenantById id = none := fun id => by
    simp [Creations.empty, Tenants.tenantById]
  have hmembers : ∀ id pubkey,
      Creations.empty.tables.memberships.membershipByPubkey id pubkey = none := fun id pubkey => by
    simp [Creations.empty, Memberships.membershipByPubkey]
  refine ⟨fun i a ha => ?_, fun _ _ => rfl, fun id record => ?_, fun i j r r' hi => ?_,
    fun id record h => ?_, fun id pubkey membership => ?_⟩
  · cases ha
  · rw [htenants]
    constructor
    · rintro ⟨⟩
    · rintro ⟨i, hi, -⟩
      cases hi
  · cases hi
  · rw [htenants] at h
    cases h
  · rw [hmembers]
    constructor
    · rintro ⟨⟩
    · rintro ⟨i, a, record, ha, -⟩
      cases ha

/-- A request that is answered with a new tenant. -/
theorem of_created (hinv : Inv signing s phase) {i : ℕ} {a : Creation}
    {answer : ControlCreateTenantResponse} (ha : s.requests[i]? = some a)
    (hcreated : Created a answer) :
    ∃ owner host record, phase i = .created owner host record ∧
      answer = a.request.response signing host ∧
      (phase i).Fits signing a.request := by
  obtain ⟨hprogram, hfits⟩ := hinv.follows i a ha
  rw [Created, hprogram] at hcreated
  cases hphase : phase i with
  | asking owner host =>
    rw [hphase, CreatePhase.program_asking] at hcreated
    cases hcreated
  | storing owner host record =>
    rw [hphase, CreatePhase.program_storing] at hcreated
    cases hcreated
  | enrolling owner host record =>
    rw [hphase, CreatePhase.program_enrolling] at hcreated
    cases hcreated
  | created owner host record =>
    rw [hphase] at hcreated hfits
    cases hcreated
    exact ⟨owner, host, record, rfl, rfl, hfits⟩
  | refused err =>
    rw [hphase] at hcreated
    cases hcreated

theorem oneCreator (hinv : Inv signing s phase) : OneCreator s := by
  constructor
  · intro i j a b x y ha hb hx hy hhosts
    obtain ⟨owner, host, record, hi, -, hfits⟩ := hinv.of_created ha hx
    obtain ⟨owner', host', record', hj, -, hfits'⟩ := hinv.of_created hb hy
    have hheld : (phase i).held = some record := by rw [hi]; rfl
    have hheld' : (phase j).held = some record' := by rw [hj]; rfl
    refine hinv.distinct i j record record' hheld hheld' ?_
    have hsame := (CreatePhase.held_eq_some hfits hheld).1.symm.trans
      (hhosts.trans (CreatePhase.held_eq_some hfits' hheld').1)
    exact Except.ok.inj hsame
  · intro a ha x hx
    obtain ⟨i, ha⟩ := List.getElem?_of_mem ha
    obtain ⟨owner, host, record, hi, rfl, hfits⟩ := hinv.of_created ha hx
    rw [hi] at hfits
    obtain ⟨hid, -, hkey⟩ := fields_of_new hfits.2.2
    have hstored : s.tables.tenants.tenantById host = some record :=
      (hinv.stored host record).2 ⟨i, by rw [hi]; rfl, hid⟩
    refine ⟨record, hstored, ?_, hkey⟩
    unfold Tenants.tenantByHost
    rw [hinv.hosts host record hstored]
    exact hstored
  · intro a ha x hx pubkey
    obtain ⟨i, ha⟩ := List.getElem?_of_mem ha
    obtain ⟨owner, host, record, hi, rfl, hfits⟩ := hinv.of_created ha hx
    rw [hi] at hfits
    rw [hfits.1, Option.some.injEq]
    constructor
    · rintro ⟨membership, hmember, -⟩
      obtain ⟨j, b, record', hb, hj, -⟩ := (hinv.members host pubkey membership).1 hmember
      have hji : i = j := by
        refine hinv.distinct i j record record' (by rw [hi]; rfl) (by rw [hj]; rfl) ?_
        have hfits' := (hinv.follows j b hb).2
        rw [hj] at hfits'
        rw [(fields_of_new hfits.2.2).1, (fields_of_new hfits'.2.2).1]
      subst hji
      rw [hi] at hj
      cases hj
      rfl
    · rintro rfl
      exact ⟨_, (hinv.members host owner _).2 ⟨i, a, record, ha, hi, rfl⟩, rfl⟩
  · intro tenantId record hstored
    obtain ⟨i, hheld, rfl⟩ := (hinv.stored tenantId record).1 hstored
    obtain ⟨a, ha⟩ := hinv.exists_request hheld
    obtain ⟨hprogram, hfits⟩ := hinv.follows i a ha
    cases hi : phase i with
    | asking | storing | refused =>
      rw [hi] at hheld
      cases hheld
    | enrolling owner host found =>
      rw [hi] at hheld hprogram hfits
      cases hheld
      rw [CreatePhase.program_enrolling] at hprogram
      refine .inr ⟨a, List.mem_of_getElem? ha, _, _, hprogram, ?_, rfl⟩
      exact (fields_of_new hfits.2.2).1.symm
    | created owner host found =>
      rw [hi] at hheld hfits
      cases hheld
      have hid := (fields_of_new hfits.2.2).1
      rw [← hid] at hi
      exact .inl ⟨owner, _, (hinv.members record.id owner _).2 ⟨i, a, record, ha, hi, rfl⟩, rfl⟩

end Inv

/-- However the requests are interleaved and whichever calls fail, a tenant has one creator, as long
as a host is still free when its tenant is stored and the membership of its owner is written. -/
theorem oneCreator_of_reach {signing : Signing} {s : Creations}
    (h : Runs.Reach (step signing) (fun s a => orderly s a = true) (· = empty) s) :
    OneCreator s := by
  obtain ⟨phase, hinv⟩ : ∃ phase, Inv signing s phase := by
    refine h.invariant (I := fun s => ∃ phase, Inv signing s phase) ?_ ?_
    · rintro s rfl
      exact ⟨_, Inv.empty signing⟩
    · rintro s a t o ⟨phase, hinv⟩ hok hstep
      exact hinv.step hok hstep
  exact hinv.oneCreator

/-! ### Instances -/

/-- Two relay keys. -/
def relaySigning : Signing where
  toCrypto := signerSigning.toCrypto
  publicKey := fun secretKey =>
    (Hex.decode (if secretKey.getLast? = some 1 then
        "79be667ef9dcbbac55a06295ce870b07029bfcdb2dce28d959f2815b16f81798"
      else "c6047f9441ed7d6d3045406e95c07cd85c778e4b8cef3ca7abac09b95c709ee5")).getD []

/-- Two users who ask for the same host. -/
def alice : TenantRequest where
  ownerPubkey := "e493dbf1c10d80f3581e4904930b1404cc6c13900ee0758474fa94abe8c4cd13"
  payload := { host := "org.example" }
  now := 1700000000
  secretKey := List.replicate 31 0 ++ [1]
  nonce := List.replicate 24 7

@[inherit_doc alice]
def bob : TenantRequest where
  ownerPubkey := "2f8bde4d1a07209355b4a7250a5c5128e88b84bddc619ab7cba8d569b240efe4"
  payload := { host := "https://Org.Example:443" }
  now := 1700000000
  secretKey := List.replicate 31 0 ++ [2]
  nonce := List.replicate 24 9

/-- The answers so far, by request. -/
def answers (s : Creations) : List (Option ControlCreateTenantResponse) :=
  s.requests.map fun a =>
    match a.program with
    | .done (.ok answer) => some answer
    | _ => none

theorem created_of_answers {s : Creations} {i : ℕ} {answer : ControlCreateTenantResponse}
    (h : (answers s)[i]? = some (some answer)) :
    ∃ a, s.requests[i]? = some a ∧ Created a answer := by
  rw [answers, List.getElem?_map, Option.map_eq_some_iff] at h
  obtain ⟨⟨request, program⟩, ha, hprogram⟩ := h
  refine ⟨_, ha, ?_⟩
  rcases program with (err | found) | ⟨call, next⟩
  · cases hprogram
  · cases hprogram
    rfl
  · cases hprogram

/-- One user is served before the other asks. -/
theorem oneCreator_of_reach_inTurn : ∃ s : Creations,
    Runs.Reach (step relaySigning) (fun s a => orderly s a = true) (· = empty) s ∧
      answers s = [some (alice.response relaySigning "org.example"), none] ∧ OneCreator s := by
  have hrun : ((Runs.exec (Runs.guarded (step relaySigning) fun s a => orderly s a = true) empty
      [.begin alice, .begin bob, .advance 0 none, .advance 0 none, .advance 0 none,
        .advance 1 none]).map fun r => answers r.1) =
      some [some (alice.response relaySigning "org.example"), none] := by
    decide +kernel
  obtain ⟨⟨s, outputs⟩, hexec, hs⟩ := Option.map_eq_some_iff.1 hrun
  have hreach : Runs.Reach (step relaySigning) (fun s a => orderly s a = true) (· = empty) s :=
    .of_exec_guarded rfl hexec
  exact ⟨s, hreach, hs, oneCreator_of_reach hreach⟩

/-- Both users are told that they have created the tenant when both ask before either stores it; and
a tenant is left without an owner when the membership cannot be written. -/
theorem not_oneCreator :
    (∃ s : Creations, Runs.Reach (step relaySigning) (fun _ _ => True) (· = empty) s ∧
      answers s = [some (alice.response relaySigning "org.example"),
        some (bob.response relaySigning "org.example")] ∧ ¬ OneCreator s) ∧
    ∃ s : Creations, Runs.Reach (step relaySigning) (fun _ _ => True) (· = empty) s ∧
      (s.tables.tenants.tenantById "org.example").isSome = true ∧ ¬ OneCreator s := by
  constructor
  · have hrun : ((Runs.exec (step relaySigning) empty
        [.begin alice, .begin bob, .advance 0 none, .advance 1 none, .advance 0 none,
          .advance 0 none, .advance 1 none, .advance 1 none]).map fun r =>
            (answers r.1, r.1.requests.map fun a => a.request.payload.host)) =
        some ([some (alice.response relaySigning "org.example"),
          some (bob.response relaySigning "org.example")],
            ["org.example", "https://Org.Example:443"]) := by
      decide +kernel
    obtain ⟨⟨s, outputs⟩, hexec, hs⟩ := Option.map_eq_some_iff.1 hrun
    obtain ⟨hanswers, hhosts⟩ := Prod.mk.inj hs
    refine ⟨s, .of_exec (.start rfl) (fun _ _ _ => trivial) hexec, hanswers, fun h => ?_⟩
    obtain ⟨a, ha, hcreated⟩ := created_of_answers (s := s) (i := 0) (by rw [hanswers]; rfl)
    obtain ⟨b, hb, hcreated'⟩ := created_of_answers (s := s) (i := 1) (by rw [hanswers]; rfl)
    have hhost : a.request.payload.host = "org.example" := by
      have := congrArg (fun l => l[0]?) hhosts
      simpa [ha] using this
    have hhost' : b.request.payload.host = "https://Org.Example:443" := by
      have := congrArg (fun l => l[1]?) hhosts
      simpa [hb] using this
    refine absurd (h.unique 0 1 a b _ _ ha hb hcreated hcreated' ?_) (by decide)
    rw [hhost, hhost']
    decide +kernel
  · have hrun : ((Runs.exec (step relaySigning) empty
        [.begin alice, .advance 0 none, .advance 0 none,
          .advance 0 (some (.internal "connection lost"))]).map fun r =>
            ((r.1.tables.tenants.tenantById "org.example").isSome,
              r.1.tables.memberships.members.isEmpty,
              r.1.requests.all fun a => match a.program with | .done _ => true | _ => false)) =
        some (true, true, true) := by
      decide +kernel
    obtain ⟨⟨s, outputs⟩, hexec, hs⟩ := Option.map_eq_some_iff.1 hrun
    simp only [Prod.mk.injEq] at hs
    obtain ⟨htenant, hmembers, hdone⟩ := hs
    refine ⟨s, .of_exec (.start rfl) (fun _ _ _ => trivial) hexec, htenant, fun h => ?_⟩
    obtain ⟨record, hrecord⟩ := Option.isSome_iff_exists.1 htenant
    rcases h.owned "org.example" record hrecord with
      ⟨pubkey, membership, hmember, -⟩ | ⟨a, ha, henrols⟩
    · rw [Memberships.membershipByPubkey, Std.ExtTreeMap.isEmpty_iff.1 hmembers] at hmember
      simp at hmember
    · obtain ⟨membership, next, hprogram, -⟩ := henrols
      have hprogram' := List.all_eq_true.1 hdone a ha
      rw [hprogram] at hprogram'
      cases hprogram'

end Creations

end Gittree
