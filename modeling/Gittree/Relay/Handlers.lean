import Gittree.Relay.Session

/-!
# Message handlers of a session

`services/relay/src/session.rs`, the handlers.  Every early return of the source sends one message,
so the gates of a handler are computations that fail with that message.

* `dispatchEvent`, `handleMembershipEvent`, `handleEvent`, `handleAuth`, `handleReq`,
  `handleCount`, `handleMessage`: the handlers;
* `applyRetention_of_delete`: what every deletion keeps is kept by the retention of events;
* `Effect`, `effect_handleMessage`: everything that one message can do;
* `Submits`, `idle_of_not_submits`: the messages that reach `store.insert`, and that no other
  message touches the store.
-/

namespace Gittree

open Rust
open Rust.Json (Value)

/-- An event that is refused. -/
def refused (eventId message : String) : ServerMessage := .ok eventId false message

/-- The error texts that begin with `RESTRICTED_PREFIX`. -/
def restricted (message : String) : String := "restricted: " ++ message

namespace Session

/-- `authenticated_pubkey`. -/
def authenticatedPubkey (s : Session) : Option String := s.auth.bind AuthState.authenticatedPubkey

/-- The membership table key that `require_membership` looks up: the authenticated key, decoded. -/
def requireMember (s : Session) (m : Memberships) : Except String Unit := do
  Result.ensure (s.membership = true) (restricted "relay does not support membership")
  let tenantId ← Result.okOr s.tenantId (restricted "relay does not support membership")
  let pubkey ← Result.okOr s.authenticatedPubkey authRequiredReason
  let bytes ← Result.okOr (Hex.decode pubkey) (restricted "invalid pubkey")
  let member ← Result.okOr (m.membershipByPubkey tenantId bytes) (restricted "membership required")
  Result.ensure (member.status = "active") (restricted "membership required")

/-- What the check of membership has found where it succeeds. -/
theorem requireMember_eq_ok {s : Session} {m : Memberships} {tenantId : String}
    (ht : s.tenantId = some tenantId) (h : s.requireMember m = .ok ()) :
    ∃ pubkey bytes record, s.authenticatedPubkey = some pubkey ∧ Hex.decode pubkey = some bytes ∧
      m.membershipByPubkey tenantId bytes = some record ∧ record.status = "active" := by
  unfold requireMember at h
  simp only [Result.bind_eq_ok, Result.ensure_eq_ok, Result.okOr_eq_ok, exists_const] at h
  obtain ⟨-, t, ht', pubkey, hp, bytes, hb, record, hr, ha⟩ := h
  obtain rfl : tenantId = t := Option.some.inj (ht.symm.trans ht')
  exact ⟨pubkey, bytes, record, hp, hb, hr, ha⟩

/-- `ensure_read_membership`. -/
def ensureReadMembership (s : Session) (m : Memberships) : Except String Unit :=
  if s.readMembershipRequired then s.requireMember m else .ok ()

/-- `ensure_write_membership`. -/
def ensureWriteMembership (s : Session) (m : Memberships) : Except String Unit :=
  if s.writeMembershipRequired then s.requireMember m else .ok ()

/-- `dispatch_event`. -/
def dispatchEvent (s : Session) (event : NostrEvent) : List ServerMessage :=
  match TagIndex.fromTags event.tags with
  | .error _ => [.notice "invalid event tags"]
  | .ok tags =>
    (s.registry.toList.filter fun entry =>
      entry.2.filters.any fun filter => filter.matches event tags).map fun entry =>
        .event entry.1 event

/-- `rate_limit_event`. -/
def rateLimitEvent (s : Session) (instant : ℕ) : Bool × Session :=
  match s.rateLimiter with
  | none => (false, s)
  | some limiter =>
    ((limiter.checkEvent instant).1,
      { s with rateLimiter := some (limiter.checkEvent instant).2 })

/-- `rate_limit_request`. -/
def rateLimitRequest (s : Session) (instant : ℕ) : Bool × Session :=
  match s.rateLimiter with
  | none => (false, s)
  | some limiter =>
    ((limiter.checkRequest instant).1,
      { s with rateLimiter := some (limiter.checkRequest instant).2 })

/-! ### Join and leave -/

/-- The checks of a join on the invite that `invite_by_code` found. -/
def checkInvite (event : NostrEvent) (pubkey : List UInt8) (now : ℤ)
    (invite : Option RelayInviteRecord) : Except ServerMessage RelayInviteRecord := do
  let invite ← Result.okOr invite (refused event.id (restricted "that is an invalid invite code."))
  Result.ensure (∀ t ∈ invite.expiresAt, now ≤ t)
    (refused event.id (restricted "that invite code is expired."))
  Result.ensure (∀ invitee ∈ invite.inviteePubkey, invitee = pubkey)
    (refused event.id (restricted "invite code does not match pubkey."))
  return invite

/-- The membership that a join writes, from the one that `membership_by_pubkey` found. -/
def joinRecord (event : NostrEvent) (tenantId : String) (pubkey : List UInt8) (now : ℤ)
    (invite : RelayInviteRecord) (existing : Option RelayMembershipRecord) :
    Except ServerMessage RelayMembershipRecord := do
  Result.ensure (∀ record ∈ existing, record.status ≠ "active")
    (.ok event.id true "duplicate: you are already a member of this relay.")
  return {
    tenantId, pubkey
    role := invite.role
    status := "active"
    createdAt := (existing.map RelayMembershipRecord.createdAt).getD now
    updatedAt := now }

def welcome (event : NostrEvent) : ServerMessage := .ok event.id true "info: welcome to the relay."

/-- The join branch of `handle_membership_event`, from the invite code on. -/
def handleJoin (event : NostrEvent) (tenantId : String) (pubkey : List UInt8) (now : ℤ)
    (code : String) (m : Memberships) : ServerMessage × Memberships :=
  match checkInvite event pubkey now (m.inviteByCode tenantId code) with
  | .error message => (message, m)
  | .ok invite =>
    match joinRecord event tenantId pubkey now invite (m.membershipByPubkey tenantId pubkey) with
    | .error message => (message, m)
    | .ok record => (welcome event, (m.upsertMembership record).deleteInvite tenantId code)

/-- The leave branch of `handle_membership_event`. -/
def handleLeave (event : NostrEvent) (tenantId : String) (pubkey : List UInt8) (now : ℤ)
    (m : Memberships) : ServerMessage × Memberships :=
  match m.membershipByPubkey tenantId pubkey with
  | none => (refused event.id (restricted "not a member of this relay."), m)
  | some record =>
    if record.status ≠ "active" then
      (refused event.id (restricted "not a member of this relay."), m)
    else
      (.ok event.id true "info: access revoked.",
        m.upsertMembership { record with status := "left", updatedAt := now })

/-- `handle_membership_event` on a join or leave event. -/
def membershipAnswer (s : Session) (event : NostrEvent) (now : ℤ) (m : Memberships) :
    ServerMessage × Memberships :=
  if s.membership = false then
    (refused event.id (restricted "relay does not support membership"), m)
  else
    match s.tenantId with
    | none => (refused event.id (restricted "relay does not support membership"), m)
    | some tenantId =>
      if hasTag event.tags "-" = false then
        (refused event.id (restricted "missing nip-70 tag"), m)
      else
        match Hex.decode event.pubkey with
        | none => (refused event.id (restricted "invalid pubkey"), m)
        | some pubkey =>
          if event.kind = nip43JoinKind then
            match findTagValue event.tags "claim" with
            | none => (refused event.id (restricted "missing invite code"), m)
            | some code => handleJoin event tenantId pubkey now code m
          else handleLeave event tenantId pubkey now m

/-- `handle_membership_event`; `none` for events of other kinds. -/
def handleMembershipEvent (s : Session) (event : NostrEvent) (now : ℤ) (m : Memberships) :
    Option (ServerMessage × Memberships) :=
  if event.kind = nip43JoinKind ∨ event.kind = nip43LeaveKind then
    some (s.membershipAnswer event now m)
  else none

/-! ### Events -/

/-- The gates of `handle_event` before the membership events. -/
def checkEvent (s : Session) (env : Env) (event : NostrEvent) : Except ServerMessage Unit := do
  (event.verify env.crypto).mapError fun err => refused event.id err.display
  (s.policy.validateEvent event env.now).mapError fun err => refused event.id err.display
  Result.ensure (event.kind ≠ authKind) (refused event.id "auth event must use AUTH")

/-- The `write_auth_required` gate of `handle_event`. -/
def checkWriteAuth (s : Session) (event : NostrEvent) : Except ServerMessage Unit :=
  if s.writeAuthRequired then do
    let pubkey ← Result.okOr s.authenticatedPubkey (refused event.id authRequiredReason)
    Result.ensure (pubkey = event.pubkey) (refused event.id authPubkeyMismatchReason)
  else .ok ()

/-- The related events that the admission service asks for. -/
def checkRelated {σ : Type} (store : EventStore σ) (state : σ) (event : NostrEvent) :
    List EventFilter → Except ServerMessage Unit
  | [] => .ok ()
  | filter :: rest => do
    let related ← (store.query state [filterFromEventFilter filter]).mapError StoreError.notice
    Result.ensure (related ≠ []) (refused event.id "missing related events")
    checkRelated store state event rest

/-- The admission gate of `handle_event`. -/
def checkAdmission {σ : Type} (s : Session) (store : EventStore σ) (env : Env) (state : σ)
    (event : NostrEvent) : Except ServerMessage Unit :=
  if s.admission then
    match env.decide ⟨event.kind, event.pubkey, event.id, event.tags, s.relayUrl⟩ with
    | .accept => .ok ()
    | .reject reason => .error (refused event.id reason)
    | .requiresRelatedEvents filters => checkRelated store state event filters
  else .ok ()

/-- The gates of `handle_event` between the membership events and the store. -/
def checkWrite {σ : Type} (s : Session) (store : EventStore σ) (env : Env) (repos : Repos σ)
    (event : NostrEvent) : Except ServerMessage Unit := do
  s.checkWriteAuth event
  (s.ensureWriteMembership repos.memberships).mapError fun message => refused event.id message
  s.checkAdmission store env repos.store event

/-- The inner loop of `apply_retention`; a failing deletion ends it. -/
def deleteEvents {σ : Type} (store : EventStore σ) : σ → List NostrEvent → Bool × σ
  | state, [] => (true, state)
  | state, event :: rest =>
    match store.delete state event.id with
    | .error _ => (false, state)
    | .ok r => deleteEvents store r.2 rest

/-- The filter of `apply_retention`. -/
def retentionFilter (cutoff : ℤ) : Filter := { «until» := some cutoff, limit := some 100 }

/-- The loop of `apply_retention`, for a number of rounds. -/
def retentionLoop {σ : Type} (store : EventStore σ) (cutoff : ℤ) : ℕ → σ → σ
  | 0, state => state
  | rounds + 1, state =>
    match store.query state [retentionFilter cutoff] with
    | .error _ => state
    | .ok [] => state
    | .ok events =>
      match deleteEvents store state events with
      | (false, state) => state
      | (true, state) => retentionLoop store cutoff rounds state

/-- `apply_retention`; its answer is ignored.  Every round removes an event, so the number of
stored events bounds the rounds. -/
def applyRetention {σ : Type} (s : Session) (store : EventStore σ) (now : ℤ) (state : σ) : σ :=
  match s.policy.retentionMaxAgeSeconds with
  | none => state
  | some maxAge =>
    if maxAge ≤ 0 then state
    else retentionLoop store (max i64Min (now - maxAge)) (store.size state + 1) state

/-- The end of `handle_event`, from the call of `store.insert` on. -/
def storeEvent {σ : Type} (s : Session) (store : EventStore σ) (env : Env) (repos : Repos σ)
    (event : NostrEvent) : Reaction σ :=
  match store.insert repos.store event with
  | (.error err, state) =>
    { session := s, repos := { repos with store := state }, replies := [err.notice] }
  | (.ok .inserted, state) =>
    { session := s
      repos := { repos with store := s.applyRetention store env.now state }
      replies := [.ok event.id true "saved"]
      dispatched := s.dispatchEvent event
      insertion := some (event, .inserted)
      published := if s.broadcast then some event else none }
  | (.ok .duplicate, state) =>
    { session := s
      repos := { repos with store := state }
      replies := [.ok event.id true "duplicate"]
      dispatched := s.dispatchEvent event
      insertion := some (event, .duplicate) }

/-- `handle_event`, after the event is read and the rate limit is passed. -/
def acceptEvent {σ : Type} (s : Session) (store : EventStore σ) (env : Env) (repos : Repos σ)
    (event : NostrEvent) : Reaction σ :=
  match s.checkEvent env event with
  | .error message => { session := s, repos, replies := [message] }
  | .ok () =>
    match s.handleMembershipEvent event env.now repos.memberships with
    | some (message, memberships) =>
      { session := s, repos := { repos with memberships }, replies := [message] }
    | none =>
      match s.checkWrite store env repos event with
      | .error message => { session := s, repos, replies := [message] }
      | .ok () => s.storeEvent store env repos event

/-- `handle_event`. -/
def handleEvent {σ : Type} (s : Session) (store : EventStore σ) (env : Env) (repos : Repos σ)
    (value : Value) : Reaction σ :=
  match NostrEvent.fromValue value with
  | none => { session := s, repos, replies := [.notice "invalid event"] }
  | some event =>
    match s.rateLimitEvent env.instant with
    | (true, s) => { session := s, repos, replies := [.notice "rate limited"] }
    | (false, s) => s.acceptEvent store env repos event

/-! ### Authentication -/

/-- The gates of `handle_auth`, up to the new authentication state. -/
def checkAuth (s : Session) (env : Env) (event : NostrEvent) : Except ServerMessage AuthState := do
  Result.ensure (event.kind = authKind) (refused event.id "invalid auth kind")
  (event.verify env.crypto).mapError fun err => refused event.id err.display
  let auth ← Result.okOr s.auth (refused event.id "auth not enabled")
  let challenge ← Result.okOr (findTagValue event.tags "challenge")
    (refused event.id "missing challenge tag")
  Result.ensure (challenge = auth.challenge) (refused event.id "invalid challenge")
  let relayTag ← Result.okOr (findTagValue event.tags "relay")
    (refused event.id "missing relay tag")
  checkRelayTag event relayTag
  Result.ensure (wrapI64 |wrapI64 (env.now - event.createdAt)| ≤ authMaxSkewSecs)
    (refused event.id "auth event timestamp out of range")
  return { auth with authenticatedPubkey := some event.pubkey }
where
  checkRelayTag (event : NostrEvent) (relayTag : String) : Except ServerMessage Unit :=
    match s.relayUrl.bind relayHostFromUrl with
    | none => .ok ()
    | some expected => do
      let actual ← Result.okOr (relayHostFromUrl relayTag)
        (refused event.id "invalid relay tag")
      Result.ensure (actual = expected) (refused event.id "relay tag mismatch")

/-- `handle_auth`. -/
def handleAuth {σ : Type} (s : Session) (env : Env) (repos : Repos σ) (value : Value) : Reaction σ :=
  match NostrEvent.fromValue value with
  | none => { session := s, repos, replies := [.notice "invalid auth event"] }
  | some event =>
    match s.checkAuth env event with
    | .error message => { session := s, repos, replies := [message] }
    | .ok auth =>
      { session := { s with auth := some auth }
        repos, replies := [.ok event.id true "authenticated"] }

/-! ### Requests -/

/-- `build_membership_list_event`. -/
def buildMembershipListEvent (s : Session) (env : Env) (m : Memberships) : Option NostrEvent :=
  match s.membership, s.tenantId, s.tenantSigner with
  | true, some tenantId, some signer =>
    let active := (m.listMemberships tenantId).filter fun record => record.status == "active"
    some (signEvent env.crypto signer {
      id := ""
      pubkey := signer.pubkey
      createdAt := env.now
      kind := nip43MembershipKind
      tags := ["-"] :: active.map fun record => ["member", Hex.encode record.pubkey]
      content := ""
      sig := "" })
  | _, _, _ => none

/-- The invite that `build_invite_event` stores. -/
def newInvite (env : Env) (tenantId : String) (inviter : List UInt8) : RelayInviteRecord where
  tenantId := tenantId
  inviteCode := env.inviteCode
  role := "member"
  inviterPubkey := inviter
  inviteePubkey := none
  expiresAt := some (min i64Max (env.now + inviteTtlSecs))
  createdAt := env.now

/-- `build_invite_event`. -/
def buildInviteEvent (s : Session) (env : Env) (m : Memberships) :
    Except String (NostrEvent × Memberships) := do
  Result.ensure (s.membership = true) (restricted "relay does not support invites")
  let tenantId ← Result.okOr s.tenantId (restricted "relay does not support invites")
  let signer ← Result.okOr s.tenantSigner (restricted "relay does not support invites")
  let pubkey ← Result.okOr s.authenticatedPubkey authRequiredReason
  let bytes ← Result.okOr (Hex.decode pubkey) (restricted "invalid pubkey")
  let member ← Result.okOr (m.membershipByPubkey tenantId bytes) (restricted "membership required")
  Result.ensure (member.status = "active") (restricted "membership required")
  let event := signEvent env.crypto signer {
    id := ""
    pubkey := signer.pubkey
    createdAt := env.now
    kind := nip43InviteKind
    tags := [["-"], ["claim", env.inviteCode]]
    content := ""
    sig := "" }
  return (event, m.insertInvite (newInvite env tenantId bytes))

/-- The membership list of `virtual_events`. -/
def virtualMembershipList (s : Session) (env : Env) (m : Memberships) (filters : List Filter) :
    List NostrEvent :=
  if filtersRequestKind filters nip43MembershipKind then
    (s.buildMembershipListEvent env m).toList.filter fun event => eventMatchesFilters event filters
  else []

/-- `virtual_events`. -/
def virtualEvents (s : Session) (env : Env) (m : Memberships) (filters : List Filter) :
    Except String (List NostrEvent × Memberships) :=
  let listed := s.virtualMembershipList env m filters
  if filtersRequestKind filters nip43InviteKind then do
    let (event, m) ← s.buildInviteEvent env m
    return (listed ++ [event].filter fun event => eventMatchesFilters event filters, m)
  else .ok (listed, m)

/-- `validate_filter_limits`, as a check. -/
def filterLimitsOk (s : Session) (filters : List Filter) : Bool :=
  s.policy.maxLimit.all fun maxLimit =>
    filters.all fun filter => filter.limit.all fun limit => decide (limit ≤ maxLimit)

/-- The gates that `REQ` and `COUNT` share, up to the parsed filters. -/
def checkRead (s : Session) (m : Memberships) (subscriptionId : String) (filters : List Value) :
    Except ServerMessage (List Filter) := do
  Result.ensure (s.readAuthRequired = true → s.authenticatedPubkey.isSome = true)
    (.closed subscriptionId authRequiredReason)
  (s.ensureReadMembership m).mapError fun message => .closed subscriptionId message
  let parsed ← (parseFilters filters).mapError FilterError.notice
  Result.ensure (s.filterLimitsOk parsed = true) (.notice "limit too large")
  return parsed

/-- The gates and look-ups of `REQ`: the filters, the events to send and the memberships. -/
def checkReq {σ : Type} (s : Session) (store : EventStore σ) (env : Env) (repos : Repos σ)
    (subscriptionId : String) (filters : List Value) :
    Except ServerMessage (List Filter × List NostrEvent × Memberships) := do
  let parsed ← s.checkRead repos.memberships subscriptionId filters
  Result.ensure (subscriptionId ∈ s.registry ∨
    ∀ max ∈ s.policy.maxSubscriptions, s.registry.size < max) (.notice "too many subscriptions")
  let events ← (store.query repos.store parsed).mapError StoreError.notice
  let (virtual, memberships) ← (s.virtualEvents env repos.memberships parsed).mapError
    fun message => .closed subscriptionId message
  return (parsed, events ++ virtual, memberships)

/-- The `REQ` branch of `handle_message`, after the rate limit. -/
def acceptReq {σ : Type} (s : Session) (store : EventStore σ) (env : Env) (repos : Repos σ)
    (subscriptionId : String) (filters : List Value) : Reaction σ :=
  match s.checkReq store env repos subscriptionId filters with
  | .error message => { session := s, repos, replies := [message] }
  | .ok (parsed, events, memberships) =>
    let registry := s.registry.insert subscriptionId ⟨false, parsed⟩
    { session := { s with registry := SubscriptionRegistry.markEose registry subscriptionId }
      repos := { repos with memberships }
      replies := events.map (.event subscriptionId) ++ [.eose subscriptionId] }

/-- The `REQ` branch of `handle_message`. -/
def handleReq {σ : Type} (s : Session) (store : EventStore σ) (env : Env) (repos : Repos σ)
    (subscriptionId : String) (filters : List Value) : Reaction σ :=
  match s.rateLimitRequest env.instant with
  | (true, s) => { session := s, repos, replies := [.notice "rate limited"] }
  | (false, s) => s.acceptReq store env repos subscriptionId filters

/-- The gates and the answer of `COUNT`. -/
def checkCount {σ : Type} (s : Session) (store : EventStore σ) (repos : Repos σ)
    (subscriptionId : String) (filters : List Value) : Except ServerMessage ServerMessage := do
  let parsed ← s.checkRead repos.memberships subscriptionId filters
  let events ← (store.query repos.store parsed).mapError StoreError.notice
  return .count subscriptionId events.length

/-- The `COUNT` branch of `handle_message`. -/
def handleCount {σ : Type} (s : Session) (store : EventStore σ) (env : Env) (repos : Repos σ)
    (subscriptionId : String) (filters : List Value) : Reaction σ :=
  match s.rateLimitRequest env.instant with
  | (true, s) => { session := s, repos, replies := [.notice "rate limited"] }
  | (false, s) =>
    match s.checkCount store repos subscriptionId filters with
    | .error message => { session := s, repos, replies := [message] }
    | .ok message => { session := s, repos, replies := [message] }

/-- `handle_message`. -/
def handleMessage {σ : Type} (s : Session) (store : EventStore σ) (env : Env) (repos : Repos σ) :
    ClientMessage → Reaction σ
  | .req subscriptionId filters => s.handleReq store env repos subscriptionId filters
  | .close subscriptionId => { session := { s with registry := s.registry.erase subscriptionId }, repos }
  | .event value => s.handleEvent store env repos value
  | .auth value => s.handleAuth env repos value
  | .count subscriptionId filters => s.handleCount store env repos subscriptionId filters

/-- A request leaves the memberships as they are. -/
theorem members_of_checkReq {σ : Type} {s : Session} {store : EventStore σ} {env : Env}
    {repos : Repos σ} {id : String} {filters : List Value} {parsed : List Filter}
    {events : List NostrEvent} {m : Memberships}
    (h : s.checkReq store env repos id filters = .ok (parsed, events, m)) :
    m.members = repos.memberships.members := by
  unfold checkReq at h
  simp only [Result.bind_eq_ok, Result.pure_eq_ok, Result.mapError_eq_ok, Prod.mk.injEq] at h
  obtain ⟨parsed', -, -, -, found, -, ⟨listed, m'⟩, hvirtual, -, -, rfl⟩ := h
  unfold virtualEvents at hvirtual
  simp only at hvirtual
  split_ifs at hvirtual
  · unfold buildInviteEvent at hvirtual
    simp only [Result.bind_eq_ok, Result.pure_eq_ok, Prod.mk.injEq] at hvirtual
    obtain ⟨⟨event, m''⟩, hbuild, -, rfl⟩ := hvirtual
    obtain ⟨-, -, tenantId, -, signer, -, pubkey, -, bytes, -, member, -, -, -, -, rfl⟩ := hbuild
    rfl
  · cases hvirtual
    rfl

/-! ### Retention -/

section Retention

variable {σ : Type} {store : EventStore σ} {P : σ → Prop}
  (hdelete : ∀ state id r, P state → store.delete state id = .ok r → P r.2)

include hdelete

theorem deleteEvents_of_delete (l : List NostrEvent) {state : σ} (h : P state) :
    P (deleteEvents store state l).2 := by
  induction l generalizing state with
  | nil => exact h
  | cons event rest ih =>
    unfold deleteEvents
    cases hd : store.delete state event.id with
    | error err => exact h
    | ok r => exact ih (hdelete state event.id r h hd)

theorem retentionLoop_of_delete (cutoff : ℤ) (rounds : ℕ) {state : σ} (h : P state) :
    P (retentionLoop store cutoff rounds state) := by
  induction rounds generalizing state with
  | zero => exact h
  | succ rounds ih =>
    unfold retentionLoop
    split
    · exact h
    · exact h
    · rename_i expired _ _
      have hdeleted := deleteEvents_of_delete hdelete expired h
      split
      · rename_i heq
        rwa [heq] at hdeleted
      · rename_i heq
        rw [heq] at hdeleted
        exact ih hdeleted

/-- What every deletion keeps is kept by `apply_retention`. -/
theorem applyRetention_of_delete (s : Session) (now : ℤ) {state : σ} (h : P state) :
    P (s.applyRetention store now state) := by
  unfold applyRetention
  split
  · exact h
  · split_ifs
    · exact h
    · exact retentionLoop_of_delete hdelete _ _ h

end Retention

/-! ### What is dispatched -/

/-- Some open subscription matches the event. -/
def Subscribed (s : Session) (event : NostrEvent) : Prop :=
  ∃ (id : String) (state : SubscriptionState) (tags : TagIndex), s.registry[id]? = some state ∧
    TagIndex.fromTags event.tags = .ok tags ∧ ∃ filter ∈ state.filters, filter.matches event tags

/-- Only the event itself is delivered, and only to a subscription that matches it. -/
theorem of_mem_dispatchEvent {s : Session} {event delivered : NostrEvent} {message : ServerMessage}
    (hm : message ∈ s.dispatchEvent event) (hd : message.delivered = some delivered) :
    delivered = event ∧ s.Subscribed event := by
  unfold dispatchEvent at hm
  cases htags : TagIndex.fromTags event.tags with
  | error err =>
    rw [htags] at hm
    rw [List.mem_singleton.1 hm] at hd
    cases hd
  | ok tags =>
    rw [htags] at hm
    obtain ⟨entry, hentry, rfl⟩ := List.mem_map.1 hm
    obtain ⟨hmem, hany⟩ := List.mem_filter.1 hentry
    cases hd
    obtain ⟨filter, hf, hmatch⟩ := List.any_eq_true.1 hany
    exact ⟨rfl, entry.1, entry.2, tags, Std.ExtTreeMap.mem_toList_iff_getElem?_eq_some.1 hmem, htags,
      filter, hf, hmatch⟩

/-- Handing an event to the store changes neither the session nor the memberships, and delivers it
only to a subscription of the session itself. -/
theorem storeEvent_frame {σ : Type} (s : Session) (store : EventStore σ) (env : Env)
    (repos : Repos σ) (event : NostrEvent) :
    (s.storeEvent store env repos event).session = s ∧
      (s.storeEvent store env repos event).repos.memberships = repos.memberships ∧
      ∀ message ∈ (s.storeEvent store env repos event).responses, ∀ delivered,
        message.delivered = some delivered → s.Subscribed event := by
  have hsent : ∀ (reply : ServerMessage), reply.delivered = none →
      ∀ message ∈ [reply] ++ s.dispatchEvent event, ∀ delivered,
        message.delivered = some delivered → s.Subscribed event := by
    intro reply hreply message hm delivered hd
    rcases List.mem_cons.1 hm with rfl | hm
    · rw [hreply] at hd
      cases hd
    · exact (of_mem_dispatchEvent hm hd).2
  unfold storeEvent
  split
  · refine ⟨rfl, rfl, ?_⟩
    intro message hm delivered hd
    rw [Reaction.responses, List.append_nil, List.mem_singleton] at hm
    rw [hm] at hd
    cases hd
  · exact ⟨rfl, rfl, hsent _ rfl⟩
  · exact ⟨rfl, rfl, hsent _ rfl⟩

section StoreAnswer

variable {σ : Type} {store : EventStore σ} {repos : Repos σ} {event : NostrEvent}
  {outcome : StoreOutcome} {state : σ} (h : store.insert repos.store event = (.ok outcome, state))

include h

theorem insertion_storeEvent (s : Session) (env : Env) :
    (s.storeEvent store env repos event).insertion = some (event, outcome) := by
  unfold storeEvent
  rw [h]
  cases outcome <;> rfl

/-- The store keeps what `store.insert` has left, but for the retention of events. -/
theorem store_storeEvent (s : Session) (env : Env) {P : σ → Prop} (hstate : P state)
    (hretention : P (s.applyRetention store env.now state)) :
    P (s.storeEvent store env repos event).repos.store := by
  unfold storeEvent
  rw [h]
  cases outcome with
  | inserted => exact hretention
  | duplicate => exact hstate

end StoreAnswer

/-- What the gates of `handle_auth` ask of an event, at a time. -/
structure AuthGates (s : Session) (env : Env) (event : NostrEvent) : Prop where
  kind : event.kind = authKind
  verified : event.verify env.crypto = .ok ()
  challenge : ∃ auth, s.auth = some auth ∧
    findTagValue event.tags "challenge" = some auth.challenge
  relay : ∃ relayTag, findTagValue event.tags "relay" = some relayTag ∧
    ∀ expected, s.relayUrl.bind relayHostFromUrl = some expected →
      relayHostFromUrl relayTag = some expected

/-- A session is authenticated with the key of an event that passes the gates and the clock. -/
theorem checkAuth_eq_ok_iff {s : Session} {env : Env} {event : NostrEvent} {auth : AuthState} :
    s.checkAuth env event = .ok auth ↔ s.AuthGates env event ∧
      wrapI64 |wrapI64 (env.now - event.createdAt)| ≤ authMaxSkewSecs ∧
      ∃ old, s.auth = some old ∧ { old with authenticatedPubkey := some event.pubkey } = auth := by
  unfold checkAuth checkAuth.checkRelayTag
  simp only [Result.bind_eq_ok, Result.pure_eq_ok, Result.ensure_eq_ok, Result.okOr_eq_ok,
    Result.mapError_eq_ok, exists_const]
  constructor
  · rintro ⟨hkind, _, hverify, old, hold, challenge, hchallenge, rfl, relayTag, hrelay, _, hhost,
      hclock, rfl⟩
    refine ⟨⟨hkind, hverify, ⟨old, hold, hchallenge⟩, relayTag, hrelay, ?_⟩, hclock, old, hold, rfl⟩
    intro expected hexpected
    rw [hexpected] at hhost
    simp only [Result.bind_eq_ok, Result.ensure_eq_ok, Result.okOr_eq_ok] at hhost
    obtain ⟨actual, hactual, rfl⟩ := hhost
    exact hactual
  · rintro ⟨⟨hkind, hverify, ⟨old, hold, hchallenge⟩, relayTag, hrelay, hhost⟩, hclock, old', hold',
      rfl⟩
    obtain rfl : old = old' := Option.some.inj (hold.symm.trans hold')
    refine ⟨hkind, (), hverify, old, hold, old.challenge, hchallenge, rfl, relayTag, hrelay, (), ?_,
      hclock, rfl⟩
    cases hexpected : s.relayUrl.bind relayHostFromUrl with
    | none => rfl
    | some expected =>
      simp only [Result.bind_eq_ok, Result.ensure_eq_ok, Result.okOr_eq_ok]
      exact ⟨expected, hhost expected hexpected, rfl⟩

theorem checkAuth_eq_ok {s : Session} {env : Env} {event : NostrEvent} {auth : AuthState}
    (h : s.checkAuth env event = .ok auth) : auth.authenticatedPubkey = some event.pubkey := by
  obtain ⟨-, -, old, -, rfl⟩ := checkAuth_eq_ok_iff.1 h
  rfl

/-- The parts of a session that no message changes: all but the subscriptions, the rate limiter and
the key that it is authenticated with. -/
def frame (s : Session) : Session :=
  { s with
    registry := ∅
    rateLimiter := none
    auth := s.auth.map fun auth => { auth with authenticatedPubkey := none } }

/-! ### Gates deliver nothing -/

/-- A computation that, where it fails, fails with a message of some kind. -/
def FailsWith {α : Type} (P : ServerMessage → Prop) (x : Except ServerMessage α) : Prop :=
  ∀ message, x = .error message → P message

/-- A computation that, where it fails, fails with a message that delivers no event. -/
def Quiet {α : Type} (x : Except ServerMessage α) : Prop :=
  ∀ message, x = .error message → message.delivered = none

section FailsWith

variable {P : ServerMessage → Prop} {α β ε : Type}

theorem failsWith_ok (a : α) : FailsWith P (.ok a) := fun _ h => by cases h

theorem failsWith_bind {x : Except ServerMessage α} {f : α → Except ServerMessage β}
    (hx : FailsWith P x) (hf : ∀ a, FailsWith P (f a)) : FailsWith P (x >>= f) := by
  intro message h
  cases x with
  | error e =>
    cases h
    exact hx _ rfl
  | ok a => exact hf a message h

theorem failsWith_ensure {c : Prop} [Decidable c] {m : ServerMessage} (hm : P m) :
    FailsWith P (Result.ensure c m) := by
  intro message h
  unfold Result.ensure at h
  split_ifs at h
  cases h
  exact hm

theorem failsWith_okOr {o : Option α} {m : ServerMessage} (hm : P m) :
    FailsWith P (Result.okOr o m) := by
  intro message h
  cases o with
  | none =>
    cases h
    exact hm
  | some a => cases h

theorem failsWith_mapError {x : Except ε α} {f : ε → ServerMessage} (hf : ∀ e, P (f e)) :
    FailsWith P (x.mapError f) := by
  intro message h
  cases x with
  | error e =>
    cases h
    exact hf e
  | ok a => cases h

theorem FailsWith.quiet {x : Except ServerMessage α} (h : FailsWith ServerMessage.IsAnswer x) :
    Quiet x :=
  fun message hm => (h message hm).delivered

end FailsWith

theorem failsWith_checkEvent (s : Session) (env : Env) (event : NostrEvent) :
    FailsWith ServerMessage.IsAnswer (s.checkEvent env event) :=
  failsWith_bind (failsWith_mapError fun _ => trivial) fun _ =>
    failsWith_bind (failsWith_mapError fun _ => trivial) fun _ => failsWith_ensure trivial

theorem failsWith_checkWriteAuth (s : Session) (event : NostrEvent) :
    FailsWith ServerMessage.IsAnswer (s.checkWriteAuth event) := by
  unfold checkWriteAuth
  split_ifs
  · exact failsWith_bind (failsWith_okOr trivial) fun _ => failsWith_ensure trivial
  · exact failsWith_ok ()

theorem failsWith_checkRelated {σ : Type} (store : EventStore σ) (state : σ) (event : NostrEvent)
    (filters : List EventFilter) :
    FailsWith ServerMessage.IsAnswer (checkRelated store state event filters) := by
  induction filters with
  | nil => exact failsWith_ok ()
  | cons filter rest ih =>
    exact failsWith_bind (failsWith_mapError fun _ => trivial) fun _ =>
      failsWith_bind (failsWith_ensure trivial) fun _ => ih

theorem failsWith_checkAdmission {σ : Type} (s : Session) (store : EventStore σ) (env : Env)
    (state : σ) (event : NostrEvent) :
    FailsWith ServerMessage.IsAnswer (s.checkAdmission store env state event) := by
  unfold checkAdmission
  split_ifs
  · split
    · exact failsWith_ok ()
    · rintro message ⟨⟩
      trivial
    · exact failsWith_checkRelated store state event _
  · exact failsWith_ok ()

theorem failsWith_checkWrite {σ : Type} (s : Session) (store : EventStore σ) (env : Env)
    (repos : Repos σ) (event : NostrEvent) :
    FailsWith ServerMessage.IsAnswer (s.checkWrite store env repos event) :=
  failsWith_bind (failsWith_checkWriteAuth s event) fun _ =>
    failsWith_bind (failsWith_mapError fun _ => trivial) fun _ =>
      failsWith_checkAdmission s store env _ event

theorem failsWith_checkRelayTag (s : Session) (event : NostrEvent) (relayTag : String) :
    FailsWith ServerMessage.IsAnswer (checkAuth.checkRelayTag s event relayTag) := by
  unfold checkAuth.checkRelayTag
  split
  · exact failsWith_ok ()
  · exact failsWith_bind (failsWith_okOr trivial) fun _ => failsWith_ensure trivial

theorem failsWith_checkAuth (s : Session) (env : Env) (event : NostrEvent) :
    FailsWith ServerMessage.IsAnswer (s.checkAuth env event) :=
  failsWith_bind (failsWith_ensure trivial) fun _ =>
    failsWith_bind (failsWith_mapError fun _ => trivial) fun _ =>
      failsWith_bind (failsWith_okOr trivial) fun _ =>
        failsWith_bind (failsWith_okOr trivial) fun _ =>
          failsWith_bind (failsWith_ensure trivial) fun _ =>
            failsWith_bind (failsWith_okOr trivial) fun _ =>
              failsWith_bind (failsWith_checkRelayTag s event _) fun _ =>
                failsWith_bind (failsWith_ensure trivial) fun _ => failsWith_ok _

theorem quiet_checkRead (s : Session) (m : Memberships) (id : String) (filters : List Value) :
    Quiet (s.checkRead m id filters) :=
  failsWith_bind (failsWith_ensure rfl) fun _ =>
    failsWith_bind (failsWith_mapError fun _ => rfl) fun _ =>
      failsWith_bind (failsWith_mapError fun _ => rfl) fun _ =>
        failsWith_bind (failsWith_ensure rfl) fun _ => failsWith_ok _

theorem quiet_checkReq {σ : Type} (s : Session) (store : EventStore σ) (env : Env)
    (repos : Repos σ) (id : String) (filters : List Value) :
    Quiet (s.checkReq store env repos id filters) :=
  failsWith_bind (quiet_checkRead s _ id filters) fun _ =>
    failsWith_bind (failsWith_ensure rfl) fun _ =>
      failsWith_bind (failsWith_mapError fun _ => rfl) fun _ =>
        failsWith_bind (failsWith_mapError fun _ => rfl) fun _ => failsWith_ok _

theorem quiet_checkCount {σ : Type} (s : Session) (store : EventStore σ) (repos : Repos σ)
    (id : String) (filters : List Value) : Quiet (s.checkCount store repos id filters) :=
  failsWith_bind (quiet_checkRead s _ id filters) fun _ =>
    failsWith_bind (failsWith_mapError fun _ => rfl) fun _ => failsWith_ok _

theorem isAnswer_handleJoin (event : NostrEvent) (tenantId : String) (pubkey : List UInt8) (now : ℤ)
    (code : String) (m : Memberships) :
    (handleJoin event tenantId pubkey now code m).1.IsAnswer := by
  have hinvite : ∀ invite,
      FailsWith ServerMessage.IsAnswer (checkInvite event pubkey now invite) := fun invite =>
    failsWith_bind (failsWith_okOr trivial) fun _ =>
      failsWith_bind (failsWith_ensure trivial) fun _ =>
        failsWith_bind (failsWith_ensure trivial) fun _ => failsWith_ok _
  have hrecord : ∀ invite existing, FailsWith ServerMessage.IsAnswer
      (joinRecord event tenantId pubkey now invite existing) :=
    fun invite existing => failsWith_bind (failsWith_ensure trivial) fun _ => failsWith_ok _
  unfold handleJoin
  split
  · rename_i h
    exact hinvite _ _ h
  · split
    · rename_i h
      exact hrecord _ _ _ h
    · trivial

theorem isAnswer_handleLeave (event : NostrEvent) (tenantId : String) (pubkey : List UInt8)
    (now : ℤ) (m : Memberships) : (handleLeave event tenantId pubkey now m).1.IsAnswer := by
  unfold handleLeave
  split
  · trivial
  · split_ifs
    · trivial
    · trivial

/-- A join or leave event is refused at once, joins, or leaves. -/
theorem membershipAnswer_cases (s : Session) (event : NostrEvent) (now : ℤ) (m : Memberships) :
    (∃ text, s.membershipAnswer event now m = (refused event.id text, m)) ∨
      (∃ tenantId pubkey code, s.tenantId = some tenantId ∧ Hex.decode event.pubkey = some pubkey ∧
        event.kind = nip43JoinKind ∧ findTagValue event.tags "claim" = some code ∧
        s.membershipAnswer event now m = handleJoin event tenantId pubkey now code m) ∨
      ∃ tenantId pubkey, s.tenantId = some tenantId ∧ Hex.decode event.pubkey = some pubkey ∧
        event.kind ≠ nip43JoinKind ∧
        s.membershipAnswer event now m = handleLeave event tenantId pubkey now m := by
  unfold membershipAnswer
  by_cases hm : s.membership = false
  · exact Or.inl ⟨_, if_pos hm⟩
  rw [if_neg hm]
  cases ht : s.tenantId with
  | none => exact Or.inl ⟨_, rfl⟩
  | some tenantId =>
    by_cases htag : hasTag event.tags "-" = false
    · exact Or.inl ⟨_, if_pos htag⟩
    simp only [if_neg htag]
    cases hp : Hex.decode event.pubkey with
    | none => exact Or.inl ⟨_, rfl⟩
    | some pubkey =>
      by_cases hk : event.kind = nip43JoinKind
      · simp only [if_pos hk]
        cases hc : findTagValue event.tags "claim" with
        | none => exact Or.inl ⟨_, rfl⟩
        | some code => exact Or.inr (Or.inl ⟨tenantId, pubkey, code, rfl, rfl, hk, rfl, rfl⟩)
      · simp only [if_neg hk]
        exact Or.inr (Or.inr ⟨tenantId, pubkey, rfl, rfl, hk, rfl⟩)

/-- A join or leave event is answered as an event. -/
theorem isAnswer_membershipAnswer (s : Session) (event : NostrEvent) (now : ℤ) (m : Memberships) :
    (s.membershipAnswer event now m).1.IsAnswer := by
  rcases s.membershipAnswer_cases event now m with
    ⟨text, h⟩ | ⟨tenantId, pubkey, code, -, -, -, -, h⟩ | ⟨tenantId, pubkey, -, -, -, h⟩
  · rw [h]
    trivial
  · rw [h]
    exact isAnswer_handleJoin _ _ _ _ _ _
  · rw [h]
    exact isAnswer_handleLeave _ _ _ _ _

/-! ### Everything a message can do -/

/-- What a session does with a message. -/
inductive Effect {σ : Type} (s : Session) (store : EventStore σ) (env : Env) (repos : Repos σ)
    (msg : ClientMessage) : Reaction σ → Prop
  /-- One answer, and nothing changes but the rate limiter. -/
  | answered (limiter : Option RateLimiter) (message : ServerMessage)
    (hquiet : message.delivered = none) :
    Effect s store env repos msg
      { session := { s with rateLimiter := limiter }, repos, replies := [message] }
  /-- A subscription is closed. -/
  | closed (id : String) (hmsg : msg = .close id) :
    Effect s store env repos msg
      { session := { s with registry := s.registry.erase id }, repos }
  /-- A subscription is opened and the stored events are sent. -/
  | opened (limiter : Option RateLimiter) (id : String) (filters : List Value)
    (parsed : List Filter) (events : List NostrEvent) (memberships : Memberships)
    (hmsg : msg = .req id filters)
    (hcheck : checkReq { s with rateLimiter := limiter } store env repos id filters =
      .ok (parsed, events, memberships)) :
    Effect s store env repos msg
      { session := { s with
          rateLimiter := limiter
          registry := SubscriptionRegistry.markEose (s.registry.insert id ⟨false, parsed⟩) id }
        repos := { repos with memberships }
        replies := events.map (.event id) ++ [.eose id] }
  /-- A join or leave event is handled. -/
  | membership (limiter : Option RateLimiter) (value : Value) (event : NostrEvent)
    (hmsg : msg = .event value) (hread : NostrEvent.fromValue value = some event)
    (hcheck : checkEvent s env event = .ok ())
    (hkind : event.kind = nip43JoinKind ∨ event.kind = nip43LeaveKind) :
    Effect s store env repos msg
      { session := { s with rateLimiter := limiter }
        repos := { repos with
          memberships := (s.membershipAnswer event env.now repos.memberships).2 }
        replies := [(s.membershipAnswer event env.now repos.memberships).1] }
  /-- An event passes the gates and is handed to the store. -/
  | stored (limiter : Option RateLimiter) (value : Value) (event : NostrEvent)
    (hmsg : msg = .event value) (hread : NostrEvent.fromValue value = some event)
    (hcheck : checkEvent s env event = .ok ())
    (hother : ¬ (event.kind = nip43JoinKind ∨ event.kind = nip43LeaveKind))
    (hwrite : checkWrite s store env repos event = .ok ()) :
    Effect s store env repos msg (storeEvent { s with rateLimiter := limiter } store env repos event)
  /-- The session is authenticated. -/
  | authenticated (value : Value) (event : NostrEvent) (auth : AuthState)
    (hmsg : msg = .auth value) (hread : NostrEvent.fromValue value = some event)
    (hauth : checkAuth s env event = .ok auth) :
    Effect s store env repos msg
      { session := { s with auth := some auth }
        repos, replies := [.ok event.id true "authenticated"] }

/-- A rate limit changes the limiter of the session only. -/
theorem exists_rateLimitEvent (s : Session) (instant : ℕ) :
    ∃ hit limiter, s.rateLimitEvent instant = (hit, { s with rateLimiter := limiter }) := by
  unfold rateLimitEvent
  split
  · exact ⟨_, s.rateLimiter, rfl⟩
  · exact ⟨_, _, rfl⟩

theorem exists_rateLimitRequest (s : Session) (instant : ℕ) :
    ∃ hit limiter, s.rateLimitRequest instant = (hit, { s with rateLimiter := limiter }) := by
  unfold rateLimitRequest
  split
  · exact ⟨_, s.rateLimiter, rfl⟩
  · exact ⟨_, _, rfl⟩

section

variable {σ : Type} (s : Session) (store : EventStore σ) (env : Env) (repos : Repos σ)

theorem effect_handleEvent (value : Value) :
    Effect s store env repos (.event value) (s.handleEvent store env repos value) := by
  unfold handleEvent
  cases hread : NostrEvent.fromValue value with
  | none => exact .answered s.rateLimiter _ rfl
  | some event =>
    obtain ⟨hit, limiter, hlimit⟩ := s.exists_rateLimitEvent env.instant
    rw [hlimit]
    cases hit with
    | true => exact .answered limiter _ rfl
    | false =>
      simp only
      unfold acceptEvent handleMembershipEvent
      have hcheck : checkEvent { s with rateLimiter := limiter } env event =
          checkEvent s env event := rfl
      have hwrite : checkWrite { s with rateLimiter := limiter } store env repos event =
          checkWrite s store env repos event := rfl
      rw [hcheck, hwrite]
      cases hc : checkEvent s env event with
      | error message => exact .answered limiter _ ((failsWith_checkEvent s env event).quiet _ hc)
      | ok u =>
        simp only
        split_ifs with hkind
        · exact .membership limiter value event rfl hread hc hkind
        · cases hw : checkWrite s store env repos event with
          | error message =>
            exact .answered limiter _ ((failsWith_checkWrite s store env repos event).quiet _ hw)
          | ok u => exact .stored limiter value event rfl hread hc hkind hw

theorem effect_handleAuth (value : Value) :
    Effect s store env repos (.auth value) (s.handleAuth env repos value) := by
  unfold handleAuth
  cases hread : NostrEvent.fromValue value with
  | none => exact .answered s.rateLimiter _ rfl
  | some event =>
    simp only
    cases hauth : checkAuth s env event with
    | error message => exact .answered s.rateLimiter _ ((failsWith_checkAuth s env event).quiet _ hauth)
    | ok auth => exact .authenticated value event auth rfl hread hauth

theorem effect_handleReq (id : String) (filters : List Value) :
    Effect s store env repos (.req id filters) (s.handleReq store env repos id filters) := by
  unfold handleReq
  obtain ⟨hit, limiter, hlimit⟩ := s.exists_rateLimitRequest env.instant
  rw [hlimit]
  cases hit with
  | true => exact .answered limiter _ rfl
  | false =>
    simp only
    unfold acceptReq
    cases hc : checkReq { s with rateLimiter := limiter } store env repos id filters with
    | error message => exact .answered limiter _ (quiet_checkReq _ store env repos id filters _ hc)
    | ok r => exact .opened limiter id filters r.1 r.2.1 r.2.2 rfl hc

theorem effect_handleCount (id : String) (filters : List Value) :
    Effect s store env repos (.count id filters) (s.handleCount store env repos id filters) := by
  unfold handleCount
  obtain ⟨hit, limiter, hlimit⟩ := s.exists_rateLimitRequest env.instant
  rw [hlimit]
  cases hit with
  | true => exact .answered limiter _ rfl
  | false =>
    simp only
    cases hc : checkCount { s with rateLimiter := limiter } store repos id filters with
    | error message => exact .answered limiter _ (quiet_checkCount _ store repos id filters _ hc)
    | ok message =>
      refine .answered limiter message ?_
      unfold checkCount at hc
      simp only [Result.bind_eq_ok, Result.pure_eq_ok] at hc
      obtain ⟨-, -, -, -, rfl⟩ := hc
      rfl

/-- Every message has one of the effects. -/
theorem effect_handleMessage (msg : ClientMessage) :
    Effect s store env repos msg (s.handleMessage store env repos msg) := by
  cases msg with
  | event value => exact effect_handleEvent s store env repos value
  | req id filters => exact effect_handleReq s store env repos id filters
  | close id => exact .closed id rfl
  | auth value => exact effect_handleAuth s store env repos value
  | count id filters => exact effect_handleCount s store env repos id filters

theorem frame_handleMessage (msg : ClientMessage) :
    (s.handleMessage store env repos msg).session.frame = s.frame := by
  have heff := effect_handleMessage s store env repos msg
  generalize s.handleMessage store env repos msg = r at heff
  cases heff with
  | stored limiter value event hmsg hread hcheck hother hwrite =>
    rw [(storeEvent_frame _ store env repos event).1]
    rfl
  | authenticated value event auth hmsg hread hauth =>
    obtain ⟨-, -, old, hold, rfl⟩ := checkAuth_eq_ok_iff.1 hauth
    simp [frame, hold]
  | answered => rfl
  | closed => rfl
  | opened => rfl
  | membership => rfl

/-- The events that a message hands to `store.insert`. -/
structure Submits (msg : ClientMessage) (event : NostrEvent) : Prop where
  read : ∃ value, msg = .event value ∧ NostrEvent.fromValue value = some event
  limit : (s.rateLimitEvent env.instant).1 = false
  check : s.checkEvent env event = .ok ()
  other : ¬ (event.kind = nip43JoinKind ∨ event.kind = nip43LeaveKind)
  write : s.checkWrite store env repos event = .ok ()

/-- A rate limit ends the handling of an event. -/
theorem handleEvent_of_limited {value : Value} {event : NostrEvent}
    (hread : NostrEvent.fromValue value = some event)
    (hlimit : (s.rateLimitEvent env.instant).1 = true) :
    s.handleEvent store env repos value =
      { session := (s.rateLimitEvent env.instant).2, repos, replies := [.notice "rate limited"] } := by
  unfold handleEvent
  rw [hread]
  cases hhit : s.rateLimitEvent env.instant with
  | mk hit s' =>
    rw [hhit] at hlimit
    obtain rfl : hit = true := hlimit
    rfl

variable {s store env repos}

theorem Submits.handleMessage_eq {msg : ClientMessage} {event : NostrEvent}
    (h : s.Submits store env repos msg event) :
    ∃ limiter, s.handleMessage store env repos msg =
      storeEvent { s with rateLimiter := limiter } store env repos event := by
  obtain ⟨⟨value, rfl, hread⟩, hlimit, hcheck, hother, hwrite⟩ := h
  obtain ⟨hit, limiter, hhit⟩ := s.exists_rateLimitEvent env.instant
  refine ⟨limiter, ?_⟩
  show s.handleEvent store env repos value = _
  unfold handleEvent
  rw [hhit] at hlimit
  obtain rfl : hit = false := hlimit
  rw [hread, hhit]
  show acceptEvent { s with rateLimiter := limiter } store env repos event = _
  have hcheck' : checkEvent { s with rateLimiter := limiter } env event = .ok () := hcheck
  have hwrite' : checkWrite { s with rateLimiter := limiter } store env repos event = .ok () :=
    hwrite
  unfold acceptEvent handleMembershipEvent
  simp only [hcheck', if_neg hother, hwrite']

/-- A message that hands no event to the store neither touches it nor dispatches. -/
theorem idle_of_not_submits {msg : ClientMessage}
    (h : ∀ event, ¬ s.Submits store env repos msg event) :
    (s.handleMessage store env repos msg).repos.store = repos.store ∧
      (s.handleMessage store env repos msg).dispatched = [] ∧
      (s.handleMessage store env repos msg).insertion = none ∧
      (s.handleMessage store env repos msg).published = none := by
  have heff := effect_handleMessage s store env repos msg
  generalize hr : s.handleMessage store env repos msg = r at heff
  cases heff with
  | stored limiter value event hmsg hread hcheck hother hwrite =>
    subst hmsg
    -- the event passes the other gates, so the rate limit stops it
    have hlimit : (s.rateLimitEvent env.instant).1 = true := by
      by_contra hfalse
      exact h event ⟨⟨value, rfl, hread⟩, Bool.eq_false_iff.2 hfalse, hcheck, hother, hwrite⟩
    have hlimited : s.handleMessage store env repos (.event value) = _ :=
      handleEvent_of_limited s store env repos hread hlimit
    rw [← hr, hlimited]
    exact ⟨rfl, rfl, rfl, rfl⟩
  | answered => exact ⟨rfl, rfl, rfl, rfl⟩
  | closed => exact ⟨rfl, rfl, rfl, rfl⟩
  | opened => exact ⟨rfl, rfl, rfl, rfl⟩
  | membership => exact ⟨rfl, rfl, rfl, rfl⟩
  | authenticated => exact ⟨rfl, rfl, rfl, rfl⟩

end

end Session
end Gittree
