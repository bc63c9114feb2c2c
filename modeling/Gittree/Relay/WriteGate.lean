import Gittree.Relay.FailingCalls
import Gittree.Relay.MemorySession
import Gittree.Relay.Subscriptions

/-!
# The write gate of a session

The gates that `handle_event` passes an event through before it calls `store.insert`, over whole
runs of a session that `handle_socket` has built for a tenant.  A call of `store.insert` shows in
the reaction to a message only through the answer, so that no call is made, or none for another
event, is said of the function `insert` of the store: the reaction is the same with any other.
An insertion that fails is answered by a notice, also where it has deleted something before.

* `Gated`: what the gates ask of an event;
* `insertsOnly_of_submits`, `insertsNothing_of_not_submits`: which calls a message makes;
* `rejectsCleanly_iff`: when a message that accepts no event leaves the store unchanged;
* `write_gate`: every event that is handed to the store has passed the gates.
-/

namespace Gittree

open Rust
open Rust.Json (Value)

namespace Session

variable {σ : Type}

/-! ### Calls of the store -/

section Calls

variable (s : Session) (store : EventStore σ) (env : Env) (repos : Repos σ) (msg : ClientMessage)

/-- The reaction does not depend on what `store.insert` does with other events. -/
def InsertsOnly (event : NostrEvent) : Prop :=
  ∀ insert, insert repos.store event = store.insert repos.store event →
    s.handleMessage { store with insert } env repos msg = s.handleMessage store env repos msg

/-- The reaction does not depend on what `store.insert` does. -/
def InsertsNothing : Prop :=
  ∀ insert, s.handleMessage { store with insert } env repos msg = s.handleMessage store env repos msg

variable {s store env repos msg}

section Congruence

variable (insert : σ → NostrEvent → Except StoreError StoreOutcome × σ)

theorem checkRelated_with_insert (state : σ) (event : NostrEvent) (filters : List EventFilter) :
    checkRelated { store with insert } state event filters =
      checkRelated store state event filters := by
  induction filters with
  | nil => rfl
  | cons filter rest ih => simp only [checkRelated, ih]

theorem checkWrite_with_insert (event : NostrEvent) :
    s.checkWrite { store with insert } env repos event = s.checkWrite store env repos event := by
  unfold checkWrite checkAdmission
  simp only [checkRelated_with_insert]

theorem deleteEvents_with_insert (state : σ) (l : List NostrEvent) :
    deleteEvents { store with insert } state l = deleteEvents store state l := by
  induction l generalizing state with
  | nil => rfl
  | cons event rest ih => simp only [deleteEvents, ih]

theorem retentionLoop_with_insert (cutoff : ℤ) (rounds : ℕ) (state : σ) :
    retentionLoop { store with insert } cutoff rounds state =
      retentionLoop store cutoff rounds state := by
  induction rounds generalizing state with
  | zero => rfl
  | succ rounds ih => simp only [retentionLoop, deleteEvents_with_insert, ih]

/-- The end of `handle_event` calls `store.insert` for its event only. -/
theorem storeEvent_with_insert {event : NostrEvent}
    (h : insert repos.store event = store.insert repos.store event) :
    s.storeEvent { store with insert } env repos event = s.storeEvent store env repos event := by
  unfold storeEvent applyRetention
  simp only [h, retentionLoop_with_insert]

/-- The reaction depends on what `store.insert` does with the submitted event only. -/
theorem handleMessage_with_insert (h : ∀ event, s.Submits store env repos msg event →
      insert repos.store event = store.insert repos.store event) :
    s.handleMessage { store with insert } env repos msg = s.handleMessage store env repos msg := by
  cases msg with
  | req id filters => rfl
  | close id => rfl
  | auth value => rfl
  | count id filters => rfl
  | event value =>
    show s.handleEvent _ env repos value = s.handleEvent store env repos value
    obtain ⟨hit, limiter, hhit⟩ := s.exists_rateLimitEvent env.instant
    unfold handleEvent
    rw [hhit]
    cases hread : NostrEvent.fromValue value with
    | none => rfl
    | some event =>
      cases hit with
      | true => rfl
      | false =>
        simp only
        unfold acceptEvent handleMembershipEvent
        cases hcheck : checkEvent { s with rateLimiter := limiter } env event with
        | error message => rfl
        | ok u =>
          simp only
          split_ifs with hkind
          · rfl
          · rw [checkWrite_with_insert]
            cases hwrite : checkWrite { s with rateLimiter := limiter } store env repos event with
            | error message => rfl
            | ok u =>
              refine storeEvent_with_insert insert (h event ?_)
              exact ⟨⟨value, rfl, hread⟩, by rw [hhit], hcheck, hkind, hwrite⟩

end Congruence

theorem Submits.unique {event event' : NostrEvent} (h : s.Submits store env repos msg event)
    (h' : s.Submits store env repos msg event') : event = event' := by
  obtain ⟨value, rfl, hread⟩ := h.read
  obtain ⟨value', hmsg, hread'⟩ := h'.read
  cases hmsg
  exact Option.some.inj (hread.symm.trans hread')

theorem insertsOnly_of_submits {event : NostrEvent} (h : s.Submits store env repos msg event) :
    s.InsertsOnly store env repos msg event := by
  intro insert heq
  refine handleMessage_with_insert insert fun event' h' => ?_
  rw [← h.unique h']
  exact heq

theorem insertsNothing_of_not_submits (h : ∀ event, ¬ s.Submits store env repos msg event) :
    s.InsertsNothing store env repos msg :=
  fun insert => handleMessage_with_insert insert fun event h' => absurd h' (h event)

end Calls

/-! ### The gates -/

/-- What `handle_event` asks of an event for a session with the given requirements, at the time of
the message. -/
structure Gated (s : Session) (store : EventStore σ) (env : Env) (repos : Repos σ)
    (tenantId : String) (authRequired membershipRequired : Bool) (event : NostrEvent) : Prop where
  verified : event.verify env.crypto = .ok ()
  policy : s.policy.validateEvent event env.now = .ok ()
  kind : event.kind ≠ authKind ∧ event.kind ≠ nip43JoinKind ∧ event.kind ≠ nip43LeaveKind
  auth : authRequired = true → s.authenticatedPubkey = some event.pubkey
  member : membershipRequired = true → s.authenticatedPubkey = some event.pubkey ∧
    ∃ bytes record, Hex.decode event.pubkey = some bytes ∧
      repos.memberships.membershipByPubkey tenantId bytes = some record ∧ record.status = "active"
  admission : s.admission = true →
    env.decide ⟨event.kind, event.pubkey, event.id, event.tags, s.relayUrl⟩ = .accept ∨
      ∃ filters, env.decide ⟨event.kind, event.pubkey, event.id, event.tags, s.relayUrl⟩ =
          .requiresRelatedEvents filters ∧
        ∀ filter ∈ filters, ∃ found,
          store.query repos.store [filterFromEventFilter filter] = .ok found ∧ found ≠ []

theorem checkRelated_eq_ok {store : EventStore σ} {state : σ} {event : NostrEvent}
    {filters : List EventFilter} (h : checkRelated store state event filters = .ok ()) :
    ∀ filter ∈ filters, ∃ found,
      store.query state [filterFromEventFilter filter] = .ok found ∧ found ≠ [] := by
  induction filters with
  | nil => simp
  | cons filter rest ih =>
    simp only [checkRelated, Result.bind_eq_ok, Result.mapError_eq_ok, Result.ensure_eq_ok,
      exists_const] at h
    obtain ⟨found, hfound, hne, hrest⟩ := h
    exact List.forall_mem_cons.2 ⟨⟨found, hfound, hne⟩, ih hrest⟩

theorem checkAdmission_eq_ok {s : Session} {store : EventStore σ} {env : Env} {state : σ}
    {event : NostrEvent} (h : s.checkAdmission store env state event = .ok ())
    (hadmission : s.admission = true) :
    env.decide ⟨event.kind, event.pubkey, event.id, event.tags, s.relayUrl⟩ = .accept ∨
      ∃ filters, env.decide ⟨event.kind, event.pubkey, event.id, event.tags, s.relayUrl⟩ =
          .requiresRelatedEvents filters ∧
        ∀ filter ∈ filters, ∃ found,
          store.query state [filterFromEventFilter filter] = .ok found ∧ found ≠ [] := by
  unfold checkAdmission at h
  rw [if_pos hadmission] at h
  cases hd : env.decide ⟨event.kind, event.pubkey, event.id, event.tags, s.relayUrl⟩ with
  | accept => exact Or.inl rfl
  | reject reason =>
    rw [hd] at h
    cases h
  | requiresRelatedEvents filters =>
    rw [hd] at h
    exact Or.inr ⟨filters, rfl, checkRelated_eq_ok h⟩

theorem checkWriteAuth_eq_ok {s : Session} {event : NostrEvent}
    (h : s.checkWriteAuth event = .ok ()) (hrequired : s.writeAuthRequired = true) :
    s.authenticatedPubkey = some event.pubkey := by
  unfold checkWriteAuth at h
  rw [if_pos hrequired] at h
  simp only [Result.bind_eq_ok, Result.ensure_eq_ok, Result.okOr_eq_ok] at h
  obtain ⟨pubkey, hp, rfl⟩ := h
  exact hp

/-- A submitted event has passed the gates, where membership is asked only of sessions that are
authenticated. -/
theorem Submits.gated {s : Session} {store : EventStore σ} {env : Env} {repos : Repos σ}
    {msg : ClientMessage} {event : NostrEvent} (h : s.Submits store env repos msg event)
    {tenantId : String} (ht : s.tenantId = some tenantId)
    (hauth : s.writeMembershipRequired = true → s.writeAuthRequired = true) :
    s.Gated store env repos tenantId s.writeAuthRequired s.writeMembershipRequired event := by
  have hcheck := h.check
  unfold checkEvent at hcheck
  simp only [Result.bind_eq_ok, Result.mapError_eq_ok, Result.ensure_eq_ok] at hcheck
  obtain ⟨_, hverify, _, hpolicy, hkind⟩ := hcheck
  have hwrite := h.write
  unfold checkWrite at hwrite
  simp only [Result.bind_eq_ok, Result.mapError_eq_ok] at hwrite
  obtain ⟨_, hwriteAuth, _, hmember, hadmission⟩ := hwrite
  obtain ⟨hjoin, hleave⟩ := not_or.1 h.other
  refine ⟨hverify, hpolicy, ⟨hkind, hjoin, hleave⟩, checkWriteAuth_eq_ok hwriteAuth, ?_,
    checkAdmission_eq_ok hadmission⟩
  intro hrequired
  have hown := checkWriteAuth_eq_ok hwriteAuth (hauth hrequired)
  unfold ensureWriteMembership at hmember
  rw [if_pos hrequired] at hmember
  obtain ⟨pubkey, bytes, record, hp, hb, hr, ha⟩ := requireMember_eq_ok ht hmember
  obtain rfl : event.pubkey = pubkey := Option.some.inj (hown.symm.trans hp)
  exact ⟨hown, bytes, record, hb, hr, ha⟩

/-! ### Runs -/

/-- No step changes the fixed parts of a session. -/
theorem frame_of_reach {store : EventStore σ} {start s : Session}
    (hreach : Runs.Reach (exchange store) (fun _ _ => True) (fun s => s = start) s) :
    s.frame = start.frame := by
  refine hreach.invariant (I := fun s => s.frame = start.frame) ?_ ?_
  · rintro _ rfl
    rfl
  · rintro s action t x h - hstep
    cases action with
    | message msg env repos =>
      cases hstep
      rw [frame_handleMessage, h]
    | dispatch event =>
      cases hstep
      exact h

/-- A message that accepts no event leaves the store as it is. -/
def RejectsCleanly (s : Session) (store : EventStore σ) (env : Env) (repos : Repos σ)
    (msg : ClientMessage) : Prop :=
  (∀ id text, .ok id true text ∉ (s.handleMessage store env repos msg).replies) →
    (s.handleMessage store env repos msg).repos.store = repos.store

/-- An insertion of the submitted event that fails changes nothing. -/
theorem rejectsCleanly_iff (s : Session) (store : EventStore σ) (env : Env) (repos : Repos σ)
    (msg : ClientMessage) :
    s.RejectsCleanly store env repos msg ↔ ∀ event, s.Submits store env repos msg event →
      ∀ err state, store.insert repos.store event = (.error err, state) → state = repos.store := by
  unfold RejectsCleanly
  constructor
  · intro h event hsub err state hinsert
    obtain ⟨limiter, hr⟩ := hsub.handleMessage_eq
    have hnotice : s.handleMessage store env repos msg =
        { session := { s with rateLimiter := limiter }
          repos := { repos with store := state }, replies := [err.notice] } := by
      rw [hr, storeEvent, hinsert]
    rw [hnotice] at h
    exact h fun id text hm => by cases List.mem_singleton.1 hm
  · intro h hrejects
    by_cases hsub : ∃ event, s.Submits store env repos msg event
    · obtain ⟨event, hsub⟩ := hsub
      obtain ⟨limiter, hr⟩ := hsub.handleMessage_eq
      rw [hr] at hrejects ⊢
      unfold storeEvent at hrejects ⊢
      -- only an insertion that fails is not answered by an OK that accepts
      split at hrejects
      · rename_i err state hinsert
        exact h event hsub err state hinsert
      · exact absurd (List.mem_singleton.2 rfl) (hrejects event.id "saved")
      · exact absurd (List.mem_singleton.2 rfl) (hrejects event.id "duplicate")
    · exact (idle_of_not_submits (not_exists.1 hsub)).1

/-- A message hands to `store.insert` only the event that it carries, and that has passed the gates
of the tenant; every other message leaves the store alone. -/
def Guarded (relay : Relay) (tenant : TenantContext) (s : Session) (store : EventStore σ)
    (env : Env) (repos : Repos σ) (msg : ClientMessage) : Prop :=
  (∃ value event, msg = .event value ∧ NostrEvent.fromValue value = some event ∧
      s.Gated store env repos tenant.tenantId
        (tenantAuthRequirements tenant.tenant relay.authRequired).2.1
        (tenantAuthRequirements tenant.tenant relay.authRequired).2.2.2 event ∧
      s.InsertsOnly store env repos msg event) ∨
    s.InsertsNothing store env repos msg ∧
      (s.handleMessage store env repos msg).repos.store = repos.store

theorem guarded_of_reach {store : EventStore σ} {relay : Relay} {tenant : TenantContext}
    {challenge : String} {start : Env} {s : Session}
    (hreach : Runs.Reach (exchange store) (fun _ _ => True)
      (fun s => s = relay.newSession tenant challenge start) s)
    (msg : ClientMessage) (env : Env) (repos : Repos σ) :
    Guarded relay tenant s store env repos msg := by
  have hframe := frame_of_reach hreach
  have ht : s.tenantId = some tenant.tenantId := congrArg Session.tenantId hframe
  have hauth : s.writeAuthRequired = (tenantAuthRequirements tenant.tenant relay.authRequired).2.1 :=
    congrArg Session.writeAuthRequired hframe
  have hmember : s.writeMembershipRequired =
      (tenantAuthRequirements tenant.tenant relay.authRequired).2.2.2 :=
    congrArg Session.writeMembershipRequired hframe
  -- a tenant that asks for membership to write asks for authentication, too
  have himp : s.writeMembershipRequired = true → s.writeAuthRequired = true := by
    rw [hauth, hmember]
    cases tenant.tenant with
    | none => simp [tenantAuthRequirements]
    | some record =>
      intro h
      simp only [tenantAuthRequirements] at h ⊢
      rw [h, Bool.or_true]
  by_cases hsub : ∃ event, s.Submits store env repos msg event
  · obtain ⟨event, hsub⟩ := hsub
    obtain ⟨value, hmsg, hread⟩ := hsub.read
    have hgated := hsub.gated ht himp
    rw [hauth, hmember] at hgated
    exact Or.inl ⟨value, event, hmsg, hread, hgated, insertsOnly_of_submits hsub⟩
  · have hnone := not_exists.1 hsub
    exact Or.inr ⟨insertsNothing_of_not_submits hnone, (idle_of_not_submits hnone).1⟩

/-- In every run of a session that `handle_socket` has built for a tenant, over any store, a message
hands to `store.insert` only the event that it carries, and that has passed the gates of the tenant;
every other message leaves the store alone.  A memory store is unchanged by an event that is
rejected; a repository store is, exactly when no repository call of its insertion fails after one
that has removed a record. -/
theorem write_gate (relay : Relay) (tenant : TenantContext) (challenge : String) (start : Env) :
    (∀ (σ : Type) (store : EventStore σ) (s : Session),
      Runs.Reach (exchange store) (fun _ _ => True)
        (fun s => s = relay.newSession tenant challenge start) s →
      ∀ (msg : ClientMessage) (env : Env) (repos : Repos σ),
        Guarded relay tenant s store env repos msg) ∧
    (∀ (s : Session) (env : Env) (repos : Repos MemoryStore) (msg : ClientMessage),
      s.RejectsCleanly MemoryStore.eventStore env repos msg) ∧
    ∀ (others : EventStore FaultyEvents) (s : Session) (env : Env) (repos : Repos FaultyEvents)
      (msg : ClientMessage),
      s.RejectsCleanly (RepositoryStore.faultyStore tenant.tenantId others) env repos msg ↔
        ∀ event, s.Submits (RepositoryStore.faultyStore tenant.tenantId others) env repos msg event →
          RepositoryStore.Unbroken tenant.tenantId repos.store event := by
  refine ⟨fun σ store s hreach msg env repos => guarded_of_reach hreach msg env repos,
    fun s env repos msg => ?_, fun others s env repos msg => ?_⟩
  · exact (rejectsCleanly_iff s _ env repos msg).2 fun event _ err state hinsert =>
      MemoryStore.atomic_eventStore _ _ _ _ hinsert
  · rw [rejectsCleanly_iff]
    exact forall_congr' fun event => imp_congr_right fun _ =>
      RepositoryStore.insertFaulty_atomic_iff

/-- The session of a public tenant. -/
def publicSession : Session :=
  Relay.emptyRelay.newSession (Relay.publicTenant "alpha") "" Relay.noteEnv

/-- The message that publishes a note. -/
def publishNote : ClientMessage := .event Relay.note.toValue

/-- The note is stored, so it has passed the gates; a public tenant asks for no key. -/
theorem write_gate_note :
    (publicSession.handleMessage (RepositoryStore.eventStore "alpha") Relay.noteEnv ⟨∅, ∅⟩
        publishNote).insertion = some (Relay.note, .inserted) ∧
      publicSession.Gated (RepositoryStore.eventStore "alpha") Relay.noteEnv ⟨∅, ∅⟩ "alpha" false
        false Relay.note := by
  have hstored : (publicSession.handleMessage (RepositoryStore.eventStore "alpha") Relay.noteEnv
      ⟨∅, ∅⟩ publishNote).insertion = some (Relay.note, .inserted) := by decide +kernel
  have hfailed : (publicSession.handleMessage { RepositoryStore.eventStore "alpha" with
      insert := fun events _ => (.error (.backend ""), events) } Relay.noteEnv ⟨∅, ∅⟩
        publishNote).insertion = none := by decide +kernel
  have hgate := write_gate Relay.emptyRelay (Relay.publicTenant "alpha") "" Relay.noteEnv
  refine ⟨hstored, ?_⟩
  rcases hgate.1 _ (RepositoryStore.eventStore "alpha") publicSession (.start rfl) publishNote
    Relay.noteEnv ⟨∅, ∅⟩ with ⟨value, event, hmsg, hread, hgated, -⟩ | ⟨hnothing, -⟩
  · have hnote : NostrEvent.fromValue Relay.note.toValue = some Relay.note := by decide +kernel
    cases hmsg
    obtain rfl : Relay.note = event := Option.some.inj (hnote.symm.trans hread)
    exact hgated
  · rw [hnothing, hstored] at hfailed
    cases hfailed

/-- A profile of the author of the note, and a newer one. -/
def oldProfile : NostrEvent :=
  { Relay.note with
    id := "a000000000000000000000000000000000000000000000000000000000000000", kind := 0 }

def newProfile : NostrEvent :=
  { oldProfile with
    id := "b000000000000000000000000000000000000000000000000000000000000000", createdAt := 2 }

/-- The two profiles are signed. -/
def profileEnv : Env :=
  { Relay.noteEnv with crypto := NostrEvent.signedBy [oldProfile, newProfile] }

/-- A repository store whose other operations do not fail. -/
def othersOf (tenantId : String) : EventStore FaultyEvents where
  insert s _ := (.error (.backend ""), s)
  get s := RepositoryStore.get tenantId s.events
  delete s id := (RepositoryStore.delete tenantId s.events id).map fun r =>
    (r.1, { s with events := r.2 })
  query s := RepositoryStore.query tenantId s.events
  size s := s.events.table.size

/-- The newer profile, whose record cannot be inserted: the fourth call fails. -/
def rejectedProfile (events : Events) : Reaction FaultyEvents :=
  publicSession.handleMessage
    (RepositoryStore.faultyStore (Relay.publicTenant "alpha").tenantId (othersOf "alpha"))
    profileEnv ⟨⟨events, some (3, .backend "connection closed")⟩, ∅⟩ (.event newProfile.toValue)

/-- The newer profile is rejected, and the older one is gone. -/
theorem not_write_gate : ¬ ∀ (relay : Relay) (tenant : TenantContext) (challenge : String)
    (start : Env) (others : EventStore FaultyEvents) (s : Session),
    Runs.Reach (exchange (RepositoryStore.faultyStore tenant.tenantId others)) (fun _ _ => True)
        (fun s => s = relay.newSession tenant challenge start) s →
      ∀ env repos msg,
        s.RejectsCleanly (RepositoryStore.faultyStore tenant.tenantId others) env repos msg := by
  intro h
  have hrun : (Result.toOption (RepositoryStore.insert "alpha" ∅ oldProfile)).map (fun r =>
      ((rejectedProfile r.2).replies, (rejectedProfile r.2).repos.store.events.table.size,
        r.2.table.size)) = some ([StoreError.notice (.backend "connection closed")], 0, 1) := by
    decide +kernel
  obtain ⟨⟨outcome, events⟩, -, hrun⟩ := Option.map_eq_some_iff.1 hrun
  simp only [Prod.mk.injEq] at hrun
  obtain ⟨hreplies, hgone, hsize⟩ := hrun
  have hrejects : ∀ id text, .ok id true text ∉ (rejectedProfile events).replies := by
    intro id text hm
    rw [hreplies] at hm
    simp [StoreError.notice] at hm
  have hclean : publicSession.RejectsCleanly
      (RepositoryStore.faultyStore (Relay.publicTenant "alpha").tenantId (othersOf "alpha")) profileEnv
      ⟨⟨events, some (3, .backend "connection closed")⟩, ∅⟩ (.event newProfile.toValue) :=
    h Relay.emptyRelay (Relay.publicTenant "alpha") "" Relay.noteEnv (othersOf "alpha")
      publicSession (.start rfl) _ _ _
  unfold RejectsCleanly at hclean
  rw [← rejectedProfile] at hclean
  have hsame : (rejectedProfile events).repos.store.events.table.size = events.table.size := by
    rw [hclean hrejects]
  rw [hgone, hsize] at hsame
  cases hsame

end Session
end Gittree
