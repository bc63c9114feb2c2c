import Gittree.Relay.Tenancy

/-!
# Single use of invite codes

The join branch of `handle_membership_event` makes four repository calls, each under a lock of its
own: `invite_by_code`, `membership_by_pubkey`, `upsert_membership` and `delete_invite`.  Here the
calls of any number of join handlers interleave with one another, with new invites and with the
membership writes of other handlers, and every call may fail.

* `run_joinTask`: a handler that is not interrupted gives the answer of `membershipAnswer`;
* `moved_to_active_recorded`: what is recorded as an activation is every change of a membership to
  `active` by a join;
* `invite_activates_one_key`: a code activates one key only, in every run where the invite is still
  stored when a join activates its key, no other join with the code stands between its two writes
  there, and no failing `delete_invite` leaves a used invite behind;
* `invite_activates_two_keys`: without these conditions one code activates two keys.
-/

namespace Gittree

open Rust Session

/-- Where a join handler stands: before which repository call, or at its answer. -/
inductive JoinPhase
  /-- Before `invite_by_code`. -/
  | claiming
  /-- Before `membership_by_pubkey`, with the invite that passed the checks. -/
  | claimed (invite : RelayInviteRecord)
  /-- Before `upsert_membership`, with the record to write. -/
  | admitted (record : RelayMembershipRecord)
  /-- Before `delete_invite`. -/
  | joined
  | answered (message : ServerMessage)
  deriving DecidableEq

/-- A join handler, from the invite code on. -/
structure JoinTask where
  event : NostrEvent
  tenantId : String
  pubkey : List UInt8
  now : ℤ
  code : String
  phase : JoinPhase
  /-- The record it is about to write makes its own key an active member. -/
  sound : ∀ record, phase = .admitted record →
    record.tenantId = tenantId ∧ record.pubkey = pubkey ∧ record.status = "active"

theorem joinRecord_eq_ok {event : NostrEvent} {tenantId : String} {pubkey : List UInt8} {now : ℤ}
    {invite : RelayInviteRecord} {existing : Option RelayMembershipRecord}
    {record : RelayMembershipRecord}
    (h : joinRecord event tenantId pubkey now invite existing = .ok record) :
    record.tenantId = tenantId ∧ record.pubkey = pubkey ∧ record.status = "active" := by
  obtain ⟨u, -, h⟩ := Result.bind_eq_ok.1 h
  rw [← Result.pure_eq_ok.1 h]
  exact ⟨rfl, rfl, rfl⟩

namespace JoinTask

/-- The handler answers. -/
def answer (task : JoinTask) (message : ServerMessage) : JoinTask :=
  { task with phase := .answered message, sound := fun _ h => nomatch h }

/-- The handler goes on with an invite. -/
def claim (task : JoinTask) (invite : RelayInviteRecord) : JoinTask :=
  { task with phase := .claimed invite, sound := fun _ h => nomatch h }

/-- The handler's next repository call, and what it does with the answer. -/
def advance (task : JoinTask) (m : Memberships) : JoinTask × Memberships :=
  match task.phase with
  | .claiming =>
    match checkInvite task.event task.pubkey task.now (m.inviteByCode task.tenantId task.code) with
    | .error message => (task.answer message, m)
    | .ok invite => (task.claim invite, m)
  | .claimed invite =>
    match h : joinRecord task.event task.tenantId task.pubkey task.now invite
        (m.membershipByPubkey task.tenantId task.pubkey) with
    | .error message => (task.answer message, m)
    | .ok record =>
      ({ task with
          phase := .admitted record
          sound := fun _ hr => JoinPhase.admitted.inj hr ▸ joinRecord_eq_ok h }, m)
  | .admitted record =>
    ({ task with phase := .joined, sound := fun _ h => nomatch h }, m.upsertMembership record)
  | .joined => (task.answer (welcome task.event), m.deleteInvite task.tenantId task.code)
  | .answered _ => (task, m)

/-- The next repository call fails. -/
def fail (task : JoinTask) (err : StorageError) : JoinTask :=
  match task.phase with
  | .answered _ => task
  | _ => task.answer (.notice err.display)

end JoinTask

/-- The join handler that a session starts for an event: the gates before the invite code. -/
def Session.joinTask (s : Session) (env : Env) (event : NostrEvent) : Option JoinTask := do
  Result.toOption (s.checkEvent env event)
  let tenantId ← s.tenantId
  let pubkey ← Hex.decode event.pubkey
  let code ← findTagValue event.tags "claim"
  if s.membership && hasTag event.tags "-" && event.kind == nip43JoinKind then
    return {
      event, tenantId, pubkey, code
      now := env.now
      phase := .claiming
      sound := fun _ h => nomatch h }
  else none

namespace JoinTask

/-- The tenant and the code of the invite that the handler uses. -/
def invite (task : JoinTask) : String × String := (task.tenantId, task.code)

/-- The next call moves the handler's key to `active`. -/
def activates (task : JoinTask) (m : Memberships) : Bool :=
  match task.phase with
  | .admitted _ =>
    decide (∀ record ∈ m.membershipByPubkey task.tenantId task.pubkey, record.status ≠ "active")
  | _ => false

/-- A number of calls in a row. -/
def run (task : JoinTask) (m : Memberships) : ℕ → JoinTask × Memberships
  | 0 => (task, m)
  | n + 1 => run (task.advance m).1 (task.advance m).2 n

end JoinTask

theorem JoinTask.run_answered {task : JoinTask} {message : ServerMessage}
    (h : task.phase = .answered message) (m : Memberships) (n : ℕ) : task.run m n = (task, m) := by
  have hstay : task.advance m = (task, m) := by
    unfold advance
    rw [h]
  induction n with
  | zero => rfl
  | succ n ih => rw [run, hstay, ih]

theorem JoinTask.advance_claimed_error {task : JoinTask} {invite : RelayInviteRecord}
    {message : ServerMessage} {m : Memberships} (hphase : task.phase = .claimed invite)
    (h : joinRecord task.event task.tenantId task.pubkey task.now invite
      (m.membershipByPubkey task.tenantId task.pubkey) = .error message) :
    task.advance m = (task.answer message, m) := by
  unfold advance
  rw [hphase]
  simp only
  split
  · rename_i h'
    cases h.symm.trans h'
    rfl
  · rename_i h'
    cases h.symm.trans h'

theorem JoinTask.advance_claimed_ok {task : JoinTask} {invite : RelayInviteRecord}
    {record : RelayMembershipRecord} {m : Memberships} (hphase : task.phase = .claimed invite)
    (h : joinRecord task.event task.tenantId task.pubkey task.now invite
      (m.membershipByPubkey task.tenantId task.pubkey) = .ok record) :
    task.advance m = ({ task with
      phase := .admitted record
      sound := fun _ hr => JoinPhase.admitted.inj hr ▸ joinRecord_eq_ok h }, m) := by
  unfold advance
  rw [hphase]
  simp only
  split
  · rename_i h'
    cases h.symm.trans h'
  · rename_i h'
    cases h.symm.trans h'
    rfl

theorem JoinTask.run_claimed {task : JoinTask} {invite : RelayInviteRecord} {m : Memberships}
    (h : task.phase = .claimed invite)
    (hinvite : checkInvite task.event task.pubkey task.now
      (m.inviteByCode task.tenantId task.code) = .ok invite) :
    (task.run m 3).1.phase = .answered
        (handleJoin task.event task.tenantId task.pubkey task.now task.code m).1 ∧
      (task.run m 3).2 = (handleJoin task.event task.tenantId task.pubkey task.now task.code m).2 := by
  unfold handleJoin
  rw [run, hinvite]
  cases hrecord : joinRecord task.event task.tenantId task.pubkey task.now invite
      (m.membershipByPubkey task.tenantId task.pubkey) with
  | error message =>
    rw [advance_claimed_error h hrecord, run_answered rfl]
    simp [hrecord, answer]
  | ok record =>
    rw [advance_claimed_ok h hrecord]
    simp only [hrecord]
    exact ⟨rfl, rfl⟩

/-- The four calls in a row are `handleJoin`. -/
theorem JoinTask.run_claiming {task : JoinTask} (h : task.phase = .claiming) (m : Memberships) :
    (task.run m 4).1.phase = .answered
        (handleJoin task.event task.tenantId task.pubkey task.now task.code m).1 ∧
      (task.run m 4).2 = (handleJoin task.event task.tenantId task.pubkey task.now task.code m).2 := by
  rw [run]
  cases hinvite : checkInvite task.event task.pubkey task.now
      (m.inviteByCode task.tenantId task.code) with
  | error message =>
    have hstep : task.advance m = (task.answer message, m) := by
      unfold advance
      simp only [h, hinvite]
    rw [hstep, run_answered rfl]
    unfold handleJoin
    rw [hinvite]
    exact ⟨rfl, rfl⟩
  | ok invite =>
    have hstep : task.advance m = (task.claim invite, m) := by
      unfold advance
      simp only [h, hinvite]
    have hphase : (task.claim invite).phase = .claimed invite := rfl
    rw [hstep]
    exact run_claimed hphase hinvite

/-- A handler that is not interrupted answers and writes as `membershipAnswer` does. -/
theorem run_joinTask {s : Session} {env : Env} {event : NostrEvent} {task : JoinTask}
    (h : s.joinTask env event = some task) (m : Memberships) :
    (task.run m 4).1.phase = .answered (s.membershipAnswer event env.now m).1 ∧
      (task.run m 4).2 = (s.membershipAnswer event env.now m).2 := by
  obtain ⟨u, -, h⟩ := Option.bind_eq_some_iff.1 h
  obtain ⟨tenantId, htenant, h⟩ := Option.bind_eq_some_iff.1 h
  obtain ⟨pubkey, hpubkey, h⟩ := Option.bind_eq_some_iff.1 h
  obtain ⟨code, hcode, h⟩ := Option.bind_eq_some_iff.1 h
  split_ifs at h with hgate
  cases h
  simp only [Bool.and_eq_true, beq_iff_eq] at hgate
  have hanswer : s.membershipAnswer event env.now m =
      handleJoin event tenantId pubkey env.now code m := by
    unfold membershipAnswer
    simp only [hgate.1.1, hgate.1.2, hgate.2, htenant, hpubkey, hcode, Bool.true_eq_false, if_false,
      if_true]
  rw [hanswer]
  exact JoinTask.run_claiming rfl m

/-! ### Interleaved joins -/

/-- The repositories and the join handlers at work on them.  Two fields serve the specifications
only: the invites that were ever stored, and the keys that a join moved to `active`. -/
structure JoinSystem where
  memberships : Memberships
  tasks : List JoinTask
  issued : List (String × String)
  activations : List ((String × String) × List UInt8)

/-- What happens next. -/
inductive JoinAction
  /-- A session starts to handle a join event. -/
  | begin (s : Session) (env : Env) (event : NostrEvent)
  /-- A handler's next repository call succeeds. -/
  | call (i : ℕ)
  /-- A handler's next repository call fails. -/
  | fail (i : ℕ) (err : StorageError)
  /-- `insert_invite`. -/
  | issue (record : RelayInviteRecord)
  /-- `upsert_membership` of another handler. -/
  | write (record : RelayMembershipRecord)

namespace JoinSystem

/-- The system after a handler's call. -/
def called (sys : JoinSystem) (i : ℕ) (task : JoinTask) : JoinSystem where
  memberships := (task.advance sys.memberships).2
  tasks := sys.tasks.set i (task.advance sys.memberships).1
  issued := sys.issued
  activations :=
    if task.activates sys.memberships then sys.activations ++ [(task.invite, task.pubkey)]
    else sys.activations

/-- One step; `none` where the action is not possible. -/
def step (sys : JoinSystem) : JoinAction → Option (JoinSystem × Unit)
  | .begin s env event =>
    (s.joinTask env event).map fun task => ({ sys with tasks := sys.tasks ++ [task] }, ())
  | .call i => sys.tasks[i]?.map fun task => (sys.called i task, ())
  | .fail i err =>
    sys.tasks[i]?.map fun task => ({ sys with tasks := sys.tasks.set i (task.fail err) }, ())
  | .issue record =>
    some ({ sys with
      memberships := sys.memberships.insertInvite record
      issued := sys.issued ++ [(record.tenantId, record.inviteCode)] }, ())
  | .write record =>
    some ({ sys with memberships := sys.memberships.upsertMembership record }, ())

/-- No invite is in use twice: a join moves its key to `active` only while the invite is stored and
no other join with it stands before `delete_invite`, and `delete_invite` does not fail while the
invite is stored. -/
def KeepsSingleUse (sys : JoinSystem) : JoinAction → Prop
  | .call i => ∀ task ∈ sys.tasks[i]?, task.activates sys.memberships = true →
    (sys.memberships.inviteByCode task.tenantId task.code).isSome = true ∧
      ∀ other ∈ sys.tasks, other.phase = .joined → other.invite ≠ task.invite
  | .fail i _ => ∀ task ∈ sys.tasks[i]?, task.phase = .joined →
    sys.memberships.inviteByCode task.tenantId task.code = none
  | _ => True

instance (sys : JoinSystem) (action : JoinAction) : Decidable (sys.KeepsSingleUse action) :=
  match action with
  | .call i => inferInstanceAs (Decidable (∀ task ∈ sys.tasks[i]?,
      task.activates sys.memberships = true →
      (sys.memberships.inviteByCode task.tenantId task.code).isSome = true ∧
        ∀ other ∈ sys.tasks, other.phase = .joined → other.invite ≠ task.invite))
  | .fail i _ => inferInstanceAs (Decidable (∀ task ∈ sys.tasks[i]?, task.phase = .joined →
      sys.memberships.inviteByCode task.tenantId task.code = none))
  | .begin _ _ _ | .issue _ | .write _ => .isTrue trivial

/-- No join has started, and the stored invites count as issued. -/
structure Fresh (sys : JoinSystem) : Prop where
  tasks : sys.tasks = []
  activations : sys.activations = []
  issued : ∀ t c, (sys.memberships.inviteByCode t c).isSome = true → (t, c) ∈ sys.issued

/-! ### The invariant -/

/-- An invite that was issued once has activated one key at most; once it has, it is no longer
stored or its `delete_invite` is still to come. -/
structure Spent (sys : JoinSystem) (k : String × String) : Prop where
  stored : (sys.memberships.inviteByCode k.1 k.2).isSome = true → k ∈ sys.issued
  used : ∀ p, (k, p) ∈ sys.activations → k ∈ sys.issued
  deleting : ∀ p, (k, p) ∈ sys.activations →
    (sys.memberships.inviteByCode k.1 k.2).isSome = true →
      ∃ task ∈ sys.tasks, task.phase = .joined ∧ task.invite = k
  one : ∀ p q, (k, p) ∈ sys.activations → (k, q) ∈ sys.activations → p = q


theorem invite_advance (task : JoinTask) (m : Memberships) :
    (task.advance m).1.invite = task.invite := by
  unfold JoinTask.advance
  split
  · split
    · rfl
    · rfl
  · split
    · rfl
    · rfl
  · rfl
  · rfl
  · rfl

/-- A call writes the membership, deletes the invite, or changes nothing in the repositories. -/
theorem advance_cases (task : JoinTask) (m : Memberships) :
    (∃ record, task.phase = .admitted record ∧ (task.advance m).1.phase = .joined ∧
        (task.advance m).2 = m.upsertMembership record) ∨
      (task.phase = .joined ∧ (task.advance m).2 = m.deleteInvite task.tenantId task.code) ∨
      (task.phase ≠ .joined ∧ task.activates m = false ∧ (task.advance m).2 = m) := by
  cases hphase : task.phase with
  | claiming =>
    refine Or.inr (Or.inr ⟨nofun, by simp [JoinTask.activates, hphase], ?_⟩)
    unfold JoinTask.advance
    simp only [hphase]
    split
    · rfl
    · rfl
  | claimed invite =>
    refine Or.inr (Or.inr ⟨nofun, by simp [JoinTask.activates, hphase], ?_⟩)
    unfold JoinTask.advance
    simp only [hphase]
    split
    · rfl
    · rfl
  | admitted record =>
    refine Or.inl ⟨record, rfl, ?_⟩
    unfold JoinTask.advance
    simp only [hphase, and_self]
  | joined =>
    refine Or.inr (Or.inl ⟨rfl, ?_⟩)
    unfold JoinTask.advance
    simp only [hphase]
  | answered message =>
    refine Or.inr (Or.inr ⟨nofun, by simp [JoinTask.activates, hphase], ?_⟩)
    unfold JoinTask.advance
    simp only [hphase]

/-- Whenever a call makes a key an active member that was not one before, this is recorded as an
activation by the invite of the handler. -/
theorem moved_to_active_recorded {sys : JoinSystem} {i : ℕ} {task : JoinTask} {t : String}
    {p : List UInt8} {record : RelayMembershipRecord}
    (hbefore : ∀ old ∈ sys.memberships.membershipByPubkey t p, old.status ≠ "active")
    (hafter : (sys.called i task).memberships.membershipByPubkey t p = some record)
    (hactive : record.status = "active") :
    t = task.tenantId ∧ p = task.pubkey ∧
      (task.invite, task.pubkey) ∈ (sys.called i task).activations := by
  simp only [called] at hafter
  rcases advance_cases task sys.memberships with
    ⟨written, hphase, -, hm⟩ | ⟨-, hm⟩ | ⟨-, -, hm⟩
  · obtain ⟨ht, hp, -⟩ := task.sound written hphase
    rw [hm, Memberships.membershipByPubkey_upsert] at hafter
    split_ifs at hafter with hkey
    · obtain ⟨rfl, rfl⟩ := hkey
      refine ⟨ht, hp, ?_⟩
      have hact : task.activates sys.memberships = true := by
        rw [ht, hp] at hbefore
        simpa [JoinTask.activates, hphase] using hbefore
      simp [called, hact]
    · exact absurd hactive (hbefore record hafter)
  · rw [hm, Memberships.membershipByPubkey_deleteInvite] at hafter
    exact absurd hactive (hbefore record hafter)
  · rw [hm] at hafter
    exact absurd hactive (hbefore record hafter)

/-- A handler that still has to delete an invite is still there after another handler's step. -/
theorem exists_mem_set {tasks : List JoinTask} {i : ℕ} {task task' : JoinTask} {k : String × String}
    (hi : tasks[i]? = some task) (hkeep : task.phase = .joined → task.invite ≠ k)
    (h : ∃ other ∈ tasks, other.phase = .joined ∧ other.invite = k) :
    ∃ other ∈ tasks.set i task', other.phase = .joined ∧ other.invite = k := by
  obtain ⟨other, hmem, hphase, hinvite⟩ := h
  obtain ⟨j, hj⟩ := List.mem_iff_getElem?.1 hmem
  have hne : i ≠ j := by
    rintro rfl
    cases hi.symm.trans hj
    exact hkeep hphase hinvite
  refine ⟨other, List.mem_iff_getElem?.2 ⟨j, ?_⟩, hphase, hinvite⟩
  rw [List.getElem?_set_ne hne, hj]

theorem mem_activations_called {sys : JoinSystem} {i : ℕ} {task : JoinTask} {k : String × String}
    {p : List UInt8} (h : (k, p) ∈ (sys.called i task).activations) :
    (k, p) ∈ sys.activations ∨
      task.activates sys.memberships = true ∧ k = task.invite ∧ p = task.pubkey := by
  simp only [called] at h
  split_ifs at h with hact
  · rcases List.mem_append.1 h with h | h
    · exact Or.inl h
    · obtain ⟨rfl, rfl⟩ := Prod.mk.inj (List.mem_singleton.1 h)
      exact Or.inr ⟨hact, rfl, rfl⟩
  · exact Or.inl h

/-- A call that activates a key finds the invite unused. -/
theorem not_used_of_activates {sys : JoinSystem} {i : ℕ} {task : JoinTask}
    (hi : sys.tasks[i]? = some task) (hok : sys.KeepsSingleUse (.call i))
    (hact : task.activates sys.memberships = true) (h : sys.Spent task.invite) (p : List UInt8) :
    (task.invite, p) ∉ sys.activations := by
  intro hp
  obtain ⟨hstored, hothers⟩ := hok task hi hact
  obtain ⟨other, hmem, hphase, hinvite⟩ := h.deleting p hp hstored
  exact hothers other hmem hphase hinvite

theorem spent_upsert {sys : JoinSystem} {i : ℕ} {task : JoinTask} {record : RelayMembershipRecord}
    (hi : sys.tasks[i]? = some task) (hok : sys.KeepsSingleUse (.call i))
    (hphase : task.phase = .admitted record)
    (hphase' : (task.advance sys.memberships).1.phase = .joined)
    (hm : (task.advance sys.memberships).2 = sys.memberships.upsertMembership record)
    {k : String × String} (h : sys.Spent k) : (sys.called i task).Spent k := by
  have hinvite : ∀ t c, (sys.called i task).memberships.inviteByCode t c =
      sys.memberships.inviteByCode t c := by
    intro t c
    simp only [called, hm, Memberships.inviteByCode_upsertMembership]
  have hi' : i < sys.tasks.length := (List.getElem?_eq_some_iff.1 hi).1
  refine ⟨?_, ?_, ?_, ?_⟩
  · intro hs
    rw [hinvite] at hs
    exact h.stored hs
  · intro p hp
    rcases mem_activations_called hp with hp | ⟨hact, rfl, -⟩
    · exact h.used p hp
    · exact h.stored (hok task hi hact).1
  · intro p hp hs
    rw [hinvite] at hs
    rcases mem_activations_called hp with hp | ⟨-, rfl, -⟩
    · refine exists_mem_set hi (fun hj => ?_) (h.deleting p hp hs)
      rw [hphase] at hj
      cases hj
    · exact ⟨_, List.mem_set hi' _, hphase', invite_advance _ _⟩
  · intro p q hp hq
    rcases mem_activations_called hp with hp | ⟨hact, rfl, rfl⟩
    · rcases mem_activations_called hq with hq | ⟨hact, rfl, -⟩
      · exact h.one p q hp hq
      · exact absurd hp (not_used_of_activates hi hok hact h p)
    · rcases mem_activations_called hq with hq | ⟨-, -, rfl⟩
      · exact absurd hq (not_used_of_activates hi hok hact h q)
      · rfl

theorem spent_delete {sys : JoinSystem} {i : ℕ} {task : JoinTask} (hi : sys.tasks[i]? = some task)
    (hphase : task.phase = .joined)
    (hm : (task.advance sys.memberships).2 =
      sys.memberships.deleteInvite task.tenantId task.code)
    {k : String × String} (h : sys.Spent k) : (sys.called i task).Spent k := by
  have hact : task.activates sys.memberships = false := by simp [JoinTask.activates, hphase]
  have hacts : (sys.called i task).activations = sys.activations := by simp [called, hact]
  have hstored : ((sys.called i task).memberships.inviteByCode k.1 k.2).isSome = true →
      task.invite ≠ k ∧ (sys.memberships.inviteByCode k.1 k.2).isSome = true := by
    intro hs
    simp only [called, hm] at hs
    rw [Memberships.inviteByCode_deleteInvite] at hs
    split_ifs at hs with hk
    · cases hs
    · exact ⟨fun hinv => hk (Prod.mk.inj hinv), hs⟩
  refine ⟨fun hs => h.stored (hstored hs).2, ?_, ?_, ?_⟩
  · rw [hacts]
    exact h.used
  · rw [hacts]
    intro p hp hs
    exact exists_mem_set hi (fun _ => (hstored hs).1) (h.deleting p hp (hstored hs).2)
  · rw [hacts]
    exact h.one

/-- A handler's step that changes neither the invites nor the activations. -/
theorem spent_set {sys : JoinSystem} {i : ℕ} {task : JoinTask} (hi : sys.tasks[i]? = some task)
    (hkeep : task.phase = .joined → sys.memberships.inviteByCode task.tenantId task.code = none)
    (task' : JoinTask) {k : String × String} (h : sys.Spent k) :
    Spent { sys with tasks := sys.tasks.set i task' } k := by
  refine ⟨h.stored, h.used, ?_, h.one⟩
  intro p hp hs
  refine exists_mem_set hi (fun hj hk => ?_) (h.deleting p hp hs)
  subst hk
  rw [show sys.memberships.inviteByCode task.invite.1 task.invite.2 = none from hkeep hj] at hs
  cases hs

theorem spent_called {sys : JoinSystem} {i : ℕ} {task : JoinTask} (hi : sys.tasks[i]? = some task)
    (hok : sys.KeepsSingleUse (.call i)) {k : String × String} (h : sys.Spent k) :
    (sys.called i task).Spent k := by
  rcases advance_cases task sys.memberships with
    ⟨record, hphase, hphase', hm⟩ | ⟨hphase, hm⟩ | ⟨hphase, hact, hm⟩
  · exact spent_upsert hi hok hphase hphase' hm h
  · exact spent_delete hi hphase hm h
  · have heq : sys.called i task =
        { sys with tasks := sys.tasks.set i (task.advance sys.memberships).1 } := by
      simp [called, hact, hm]
    rw [heq]
    exact spent_set hi (fun hj => absurd hj hphase) _ h

theorem spent_issue {sys : JoinSystem} {record : RelayInviteRecord} {k : String × String}
    (honce : (sys.issued ++ [(record.tenantId, record.inviteCode)]).count k ≤ 1)
    (h : sys.Spent k) :
    Spent { sys with
      memberships := sys.memberships.insertInvite record
      issued := sys.issued ++ [(record.tenantId, record.inviteCode)] } k := by
  by_cases hk : (record.tenantId, record.inviteCode) = k
  · -- the first issue of this invite: nothing can have been activated with it
    have hnot : k ∉ sys.issued := by
      rw [hk, List.count_append, List.count_singleton_self] at honce
      exact List.count_eq_zero.1 (by omega)
    have hunused : ∀ p, (k, p) ∉ sys.activations := fun p hp => hnot (h.used p hp)
    exact ⟨fun _ => List.mem_append_right _ (List.mem_singleton.2 hk.symm),
      fun p hp => absurd hp (hunused p), fun p hp => absurd hp (hunused p),
      fun p _ hp => absurd hp (hunused p)⟩
  · have hstored : ((sys.memberships.insertInvite record).inviteByCode k.1 k.2).isSome = true →
        (sys.memberships.inviteByCode k.1 k.2).isSome = true := by
      intro hs
      rw [Memberships.inviteByCode_insertInvite] at hs
      split_ifs at hs with hc ht
      · exact absurd (Prod.ext ht hc) hk
      · cases hs
      · exact hs
    exact ⟨fun hs => List.mem_append_left _ (h.stored (hstored hs)),
      fun p hp => List.mem_append_left _ (h.used p hp),
      fun p hp hs => h.deleting p hp (hstored hs), h.one⟩

/-- One step keeps the invariant of every invite that is still issued at most once after it. -/
theorem spent_step {sys sys' : JoinSystem} {action : JoinAction} {o : Unit} {k : String × String}
    (hok : sys.KeepsSingleUse action) (hstep : sys.step action = some (sys', o))
    (honce : sys'.issued.count k ≤ 1) (h : sys.issued.count k ≤ 1 → sys.Spent k) : sys'.Spent k := by
  cases action with
  | begin s env event =>
    obtain ⟨task, -, hr⟩ := Option.map_eq_some_iff.1 hstep
    cases hr
    have h := h honce
    refine ⟨h.stored, h.used, fun p hp hs => ?_, h.one⟩
    obtain ⟨other, hmem, hother⟩ := h.deleting p hp hs
    exact ⟨other, List.mem_append_left _ hmem, hother⟩
  | call i =>
    obtain ⟨task, hi, hr⟩ := Option.map_eq_some_iff.1 hstep
    cases hr
    exact spent_called hi hok (h honce)
  | fail i err =>
    obtain ⟨task, hi, hr⟩ := Option.map_eq_some_iff.1 hstep
    cases hr
    exact spent_set hi (hok task hi) _ (h honce)
  | issue record =>
    cases hstep
    refine spent_issue honce (h ?_)
    rw [List.count_append] at honce
    omega
  | write record =>
    cases hstep
    have h := h honce
    exact ⟨h.stored, h.used, h.deleting, h.one⟩

/-- In every run that keeps single use, an invite that was issued once activates one key at most. -/
theorem invite_activates_one_key {sys : JoinSystem}
    (hreach : Runs.Reach step KeepsSingleUse Fresh sys) {k : String × String}
    (honce : sys.issued.count k ≤ 1) {p q : List UInt8} (hp : (k, p) ∈ sys.activations)
    (hq : (k, q) ∈ sys.activations) : p = q := by
  have hinv : sys.issued.count k ≤ 1 → sys.Spent k := by
    refine hreach.invariant (I := fun sys => sys.issued.count k ≤ 1 → sys.Spent k) ?_ ?_
    · intro start hstart _
      have hnone : ∀ p, (k, p) ∉ start.activations := by simp [hstart.activations]
      exact ⟨hstart.issued k.1 k.2, fun p hp => absurd hp (hnone p),
        fun p hp => absurd hp (hnone p), fun p _ hp => absurd hp (hnone p)⟩
    · intro s action t o hs hok hstep honce
      exact spent_step hok hstep honce hs
  exact (hinv honce).one p q hp hq

/-! ### Two joins with one code -/

/-- The author of the note joins with a code. -/
def joinEvent : NostrEvent where
  id := "c505d7e162118113e33020f5f71702d4b3ffe0a68e034ac2d66d829d22300f7a"
  pubkey := Relay.note.pubkey
  createdAt := 10
  kind := nip43JoinKind
  tags := [["-"], ["claim", "welcome"]]
  content := ""
  sig := "715a69766a40da6acfb730ecb0ef13678dc7205221297d0e7d1f4f8a74a59392" ++
    "05df2636722555b4abea2903a9119963d1a05df8a0682ee4540eb79c4449c6a3"

/-- Another key joins with the same code. -/
def otherJoinEvent : NostrEvent where
  id := "f2e27e78bdedf35a7985920a1e5e12444c3d102657fcc03106c1a90caec7c70d"
  pubkey := "2f8bde4d1a07209355b4a7250a5c5128e88b84bddc619ab7cba8d569b240efe4"
  createdAt := 10
  kind := nip43JoinKind
  tags := [["-"], ["claim", "welcome"]]
  content := ""
  sig := "e134b9c4119df29808a7ae75ae2f67889e6dfce965eb456835b5ccc0544181e7" ++
    "83067ed463d70b03abbddc17d9bb3baf47c7e3c6f19c6d5d773a70225c16dd08"

def joinEnv : Env := { Relay.noteEnv with crypto := NostrEvent.signedBy [joinEvent, otherJoinEvent] }

/-- A session of the tenant `alpha`. -/
def joinSession : Session :=
  Relay.newSession Relay.emptyRelay (Relay.publicTenant "alpha") "" joinEnv

/-- The invite that both use. -/
def sampleInvite : RelayInviteRecord where
  tenantId := "alpha"
  inviteCode := "welcome"
  role := "member"
  inviterPubkey := List.replicate 32 17
  inviteePubkey := none
  expiresAt := some 100
  createdAt := 1

def emptyJoins : JoinSystem := ⟨∅, [], [], []⟩

theorem fresh_emptyJoins : Fresh emptyJoins where
  tasks := rfl
  activations := rfl
  issued := by simp [emptyJoins, Memberships.inviteByCode]

/-- The keys of the two joins. -/
def joinKeys : List (List UInt8) :=
  [joinEvent, otherJoinEvent].map fun event => (Hex.decode event.pubkey).getD []

theorem invite_activates_one_key_sample :
    ∃ sys, Runs.Reach step KeepsSingleUse Fresh sys ∧ sys.issued.count ("alpha", "welcome") ≤ 1 ∧
      ∃ p, (("alpha", "welcome"), p) ∈ sys.activations ∧
        ∀ q, (("alpha", "welcome"), q) ∈ sys.activations → p = q := by
  have hrun : (Runs.exec (Runs.guarded step KeepsSingleUse) emptyJoins
      [.issue sampleInvite, .begin joinSession joinEnv joinEvent,
        .begin joinSession joinEnv otherJoinEvent, .call 0, .call 0, .call 0, .call 0, .call 1]).map
      (fun r => (r.1.issued, r.1.activations)) =
      some ([("alpha", "welcome")], [(("alpha", "welcome"), joinKeys.headD [])]) := by
    decide +kernel
  obtain ⟨⟨sys, outputs⟩, hexec, hfacts⟩ := Option.map_eq_some_iff.1 hrun
  obtain ⟨hissued, hacts⟩ := Prod.mk.inj hfacts
  have hreach : Runs.Reach step KeepsSingleUse Fresh sys :=
    .of_exec_guarded fresh_emptyJoins hexec
  have honce : sys.issued.count ("alpha", "welcome") ≤ 1 := by
    rw [show sys.issued = _ from hissued]
    decide
  have hmem : (("alpha", "welcome"), joinKeys.headD []) ∈ sys.activations := by
    rw [show sys.activations = _ from hacts]
    exact List.mem_singleton.2 rfl
  exact ⟨sys, hreach, honce, _, hmem, fun q hq => invite_activates_one_key hreach honce hmem hq⟩

/-- Two joins that both look the invite up before either deletes it activate two keys. -/
theorem invite_activates_two_keys :
    ¬ ∀ sys, Runs.Reach step (fun _ _ => True) Fresh sys → ∀ k : String × String,
      sys.issued.count k ≤ 1 → ∀ p q, (k, p) ∈ sys.activations → (k, q) ∈ sys.activations →
        p = q := by
  intro hall
  have hrun : (Runs.exec step emptyJoins
      [.issue sampleInvite, .begin joinSession joinEnv joinEvent,
        .begin joinSession joinEnv otherJoinEvent, .call 0, .call 1, .call 0, .call 1, .call 0,
        .call 1, .call 0, .call 1]).map (fun r => (r.1.issued, r.1.activations)) =
      some ([("alpha", "welcome")], joinKeys.map fun key => (("alpha", "welcome"), key)) := by
    decide +kernel
  obtain ⟨⟨sys, outputs⟩, hexec, hfacts⟩ := Option.map_eq_some_iff.1 hrun
  obtain ⟨hissued, hacts⟩ := Prod.mk.inj hfacts
  have hreach : Runs.Reach step (fun _ _ => True) Fresh sys :=
    .of_exec (.start fresh_emptyJoins) (fun _ _ _ => trivial) hexec
  have honce : sys.issued.count ("alpha", "welcome") ≤ 1 := by
    rw [show sys.issued = _ from hissued]
    decide
  have hmem : ∀ key ∈ joinKeys, (("alpha", "welcome"), key) ∈ sys.activations := by
    intro key hkey
    rw [show sys.activations = _ from hacts]
    exact List.mem_map.2 ⟨key, hkey, rfl⟩
  have hsame := hall sys hreach _ honce _ _ (hmem _ List.mem_cons_self)
    (hmem _ (List.mem_cons_of_mem _ List.mem_cons_self))
  exact absurd hsame (by decide +kernel)

end JoinSystem
end Gittree
