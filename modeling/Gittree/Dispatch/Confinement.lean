import Gittree.Dispatch.Subjects

/-!
# What a command can change

Any number of deliveries of one command, whose calls are interleaved in any way and may fail.  The
entry of the command is inserted at most once, whatever the schedule, since the store inserts it
atomically; only the delivery that inserts it goes on to apply the command.

* `Confined`: all rows but those that the actor of a command owns, and all other entries, stay;
* `Applying`: at most one delivery applies the command;
* `deliveries_confined`: what every interleaving keeps.
-/

namespace Gittree

open Rust

/-- The calls that a command may make. -/
def StoreCall.Permitted (input : Command.Input) (call : StoreCall) : Prop :=
  match call with
  | .insertCommandLog record => record.eventId = input.eventId
  | .updateCommandLogOutcome eventId _ _ _ => eventId = input.eventId
  | call => ∃ x, call.subject = some x ∧ x.owner = input.actorPubkey

/-- From `s` to `t` only the entry of a command, the account and profile of its actor and the
repositories that its actor owns have changed, with their maintainers. -/
structure CommandTables.Confined (input : Command.Input) (s t : CommandTables) : Prop where
  log : t.log.filter (fun row => row.eventId != input.eventId) =
    s.log.filter fun row => row.eventId != input.eventId
  accounts : t.accounts.filter (fun row => row.pubkey != input.actorPubkey) =
    s.accounts.filter fun row => row.pubkey != input.actorPubkey
  profiles : t.profiles.filter (fun row => row.pubkey != input.actorPubkey) =
    s.profiles.filter fun row => row.pubkey != input.actorPubkey
  repos : t.repos.filter (fun row => row.ownerPubkey != input.actorPubkey) =
    s.repos.filter fun row => row.ownerPubkey != input.actorPubkey
  maintainers : t.maintainers.filter (fun row => row.ownerPubkey != input.actorPubkey) =
    s.maintainers.filter fun row => row.ownerPubkey != input.actorPubkey

namespace CommandTables

variable {input : Command.Input} {s t u : CommandTables} {call : StoreCall}

theorem Confined.refl (s : CommandTables) : Confined input s s := ⟨rfl, rfl, rfl, rfl, rfl⟩

theorem Confined.trans (h : Confined input s t) (h' : Confined input t u) : Confined input s u :=
  ⟨h'.log.trans h.log, h'.accounts.trans h.accounts, h'.profiles.trans h.profiles,
    h'.repos.trans h.repos, h'.maintainers.trans h.maintainers⟩

/-- A permitted call that is carried out. -/
theorem confined_perform (h : call.Permitted input) : Confined input s (s.perform call).2 := by
  cases call with
  | insertCommandLog record =>
    show Confined input s (s.insertCommandLog record).2
    unfold insertCommandLog
    split
    · exact .refl s
    · split_ifs
      · exact .refl s
      · refine ⟨?_, rfl, rfl, rfl, rfl⟩
        have hid : record.eventId = input.eventId := h
        show (s.log ++ [record]).filter _ = _
        rw [List.filter_append, List.filter_cons_of_neg (by simp [hid]), List.filter_nil,
          List.append_nil]
  | updateCommandLogOutcome eventId status code message =>
    have hid : eventId = input.eventId := h
    refine ⟨?_, rfl, rfl, rfl, rfl⟩
    refine filter_map_of_not _ (fun row => row.eventId == eventId)
      (fun row => { row with status, code, message }) ?_ ?_ s.log
    · intro row hrow
      simp [eq_of_beq hrow, hid]
    · intro row hrow
      simp [eq_of_beq hrow, hid]
  | upsertAccountState record =>
    obtain ⟨x, hx, howner⟩ := h
    obtain rfl := Option.some.inj hx
    have howner : record.pubkey = input.actorPubkey := howner
    show Confined input s (s.upsertAccountState record).2
    unfold upsertAccountState
    simp only
    split
    · exact .refl s
    · refine ⟨rfl, filter_upsertRow_of_not _ _ _ _
        (by simp [howner]) ?_ (by simp [howner]) _, rfl, rfl, rfl⟩
      intro row hrow
      simp [eq_of_beq hrow, howner]
  | upsertProfileState record =>
    obtain ⟨x, hx, howner⟩ := h
    obtain rfl := Option.some.inj hx
    have howner : record.pubkey = input.actorPubkey := howner
    show Confined input s (s.upsertProfileState record).2
    unfold upsertProfileState
    split
    · exact .refl s
    · refine ⟨rfl, rfl, filter_upsertRow_of_not _ _ _ _
        (by simp [howner]) ?_ (by simp [howner]) _, rfl, rfl⟩
      intro row hrow
      simp [eq_of_beq hrow, howner]
  | upsertRepoState record =>
    obtain ⟨x, hx, howner⟩ := h
    obtain rfl := Option.some.inj hx
    have howner : record.ownerPubkey = input.actorPubkey := howner
    show Confined input s (s.upsertRepoState record).2
    unfold upsertRepoState
    split
    · exact .refl s
    · refine ⟨rfl, rfl, rfl, filter_upsertRow_of_not _ _ _ _
        (by simp [howner]) ?_ (by simp [howner]) _, rfl⟩
      intro row hrow
      rw [Bool.and_eq_true] at hrow
      simp [eq_of_beq hrow.1, howner]
  | setRepoMaintainer record =>
    obtain ⟨x, hx, howner⟩ := h
    obtain rfl := Option.some.inj hx
    have howner : record.ownerPubkey = input.actorPubkey := howner
    show Confined input s (s.setRepoMaintainer record).2
    unfold setRepoMaintainer
    split
    · exact .refl s
    · refine ⟨rfl, rfl, rfl, rfl, filter_upsertRow_of_not _ _ _ _
        (by simp [howner]) ?_ (by simp [howner]) _⟩
      intro row hrow
      rw [Bool.and_eq_true, Bool.and_eq_true] at hrow
      simp [eq_of_beq hrow.1.1, howner]
  | _ => exact .refl s

theorem confined_respond {fault : Option StoreFault} (h : call.Permitted input) :
    Confined input s (Command.respond fault call s).2 := by
  rcases Command.respond_snd fault call s with heq | heq
  · rw [heq]
    exact .refl s
  · rw [heq]
    exact confined_perform h

/-- A call that writes nothing but the log. -/
theorem sameState_respond {fault : Option StoreFault} (h : call.writes = false) :
    Command.SameState s (Command.respond fault call s).2 := by
  have hperform : Command.SameState s (s.perform call).2 := by
    cases call with
    | insertCommandLog record =>
      show Command.SameState s (s.insertCommandLog record).2
      unfold insertCommandLog
      split
      · exact ⟨rfl, rfl, rfl, rfl⟩
      · split_ifs
        · exact ⟨rfl, rfl, rfl, rfl⟩
        · exact ⟨rfl, rfl, rfl, rfl⟩
    | upsertAccountState record => cases h
    | upsertProfileState record => cases h
    | upsertRepoState record => cases h
    | setRepoMaintainer record => cases h
    | _ => exact ⟨rfl, rfl, rfl, rfl⟩
  rcases Command.respond_snd fault call s with heq | heq
  · rw [heq]
    exact ⟨rfl, rfl, rfl, rfl⟩
  · rw [heq]
    exact hperform

end CommandTables

namespace Command

variable {b : Bech32} {input : Input} {s : CommandTables}

theorem SameState.trans {t u : CommandTables} (h : SameState s t) (h' : SameState t u) :
    SameState s u :=
  ⟨h.1.trans h'.1, h.2.1.trans h'.2.1, h.2.2.1.trans h'.2.2.1, h.2.2.2.trans h'.2.2.2⟩

/-! ### Calls and results of a delivery -/

/-- The calls of a delivery: two on the log, and those that apply the command. -/
theorem calls_executeCommand {P : StoreCall → Prop} (hinsert : P (.insertCommandLog (logRecord input)))
    (hupdate : ∀ status code message,
      P (.updateCommandLogOutcome input.eventId status code message))
    (happly : (applyCommand b input).run.Calls Honest P) :
    (executeCommand b input).run.Calls Honest P := by
  refine calls_ask hinsert fun inserted _ => ?_
  cases inserted with
  | false => trivial
  | true =>
    refine Prog.calls_bind ?_ fun applied => calls_ask (hupdate _ _ _) fun _ _ => trivial
    exact Prog.Calls.bind happly fun _ => trivial

/-- The calls of a delivery are permitted. -/
theorem permitted_executeCommand :
    (executeCommand b input).run.Calls Honest (StoreCall.Permitted input) := by
  refine calls_executeCommand rfl (fun _ _ _ => rfl) (calls_applyCommand.mono ?_)
  rintro call ⟨x, hcall, hinput⟩
  have howner := owner_of_subject hinput
  cases call with
  | insertCommandLog record => cases hcall
  | updateCommandLogOutcome eventId status code message => cases hcall
  | _ => exact ⟨x, hcall, howner⟩

/-- An outcome that is an error is an internal one. -/
def Settled (outcome : Output) : Prop := outcome.status = .error → outcome.code = "internal"

theorem settled_ok (code message : String) : Settled (ok code message) := nofun

theorem settled_internal (message : String) : Settled (err "internal" message) := fun _ => rfl

section EndsAfter

variable {α : Type} {call : StoreCall} {f : call.Answer → Command Output}

/-- A call that writes, after which the program ends well. -/
theorem endsAfter_write (hf : ∀ answer, (f answer).run.Ends fun r => Settled (caught r)) :
    (ask call >>= f).run.EndsAfter (fun call => call.writes = true) fun r => Settled (caught r) :=
  Prog.endsAfter_of_ends (Prog.ends_bind (fun _ => settled_internal _) hf)

/-- A call that does not write. -/
theorem endsAfter_ask (hcall : call.writes = false)
    (hf : ∀ answer, (f answer).run.EndsAfter (fun call => call.writes = true)
      fun r => Settled (caught r)) :
    (ask call >>= f).run.EndsAfter (fun call => call.writes = true) fun r => Settled (caught r) :=
  Prog.endsAfter_bind ⟨ne_true_of_eq_false hcall, fun _ _ => trivial⟩ hf

theorem endsAfter_applyAccount : (applyAccount input).run.EndsAfter
    (fun call => call.writes = true) fun r => Settled (caught r) := by
  refine endsAfter_ask rfl fun existing => ?_
  split_ifs
  · cases existing with
    | none => exact endsAfter_write fun _ => settled_ok _ _
    | some record => trivial
  · exact endsAfter_write fun _ => settled_ok _ _
  · trivial
  · trivial

theorem endsAfter_applyProfile : (applyProfile input).run.EndsAfter
    (fun call => call.writes = true) fun r => Settled (caught r) := by
  refine endsAfter_ask rfl fun profile => ?_
  split_ifs
  · exact endsAfter_write fun _ => settled_ok _ _
  · split
    · exact endsAfter_write fun _ => settled_ok _ _
    · trivial
  · trivial

theorem endsAfter_actorIsMaintainer {repoName : String} {f : Bool → Command Output}
    (hf : ∀ isMaintainer, (f isMaintainer).run.EndsAfter (fun call => call.writes = true)
      fun r => Settled (caught r)) :
    (actorIsMaintainer input.actorPubkey repoName >>= f).run.EndsAfter
      (fun call => call.writes = true) fun r => Settled (caught r) :=
  Prog.endsAfter_bind ⟨Bool.false_ne_true, fun r _ => by cases r with | _ => trivial⟩ hf

theorem endsAfter_changeRepo {repoName : String} {change : RepoStateV1Record → RepoStateV1Record}
    {done : Output} (hdone : Settled done) : (changeRepo input repoName change done).run.EndsAfter
      (fun call => call.writes = true) fun r => Settled (caught r) := by
  refine endsAfter_ask rfl fun existing => ?_
  cases existing with
  | none => trivial
  | some state =>
    refine endsAfter_actorIsMaintainer fun isMaintainer => ?_
    cases isMaintainer with
    | false => trivial
    | true => exact endsAfter_write fun _ => hdone

theorem endsAfter_applyRepo : (applyRepo b input).run.EndsAfter
    (fun call => call.writes = true) fun r => Settled (caught r) := by
  unfold applyRepo
  split
  · trivial
  · simp only
    split_ifs
    · refine endsAfter_ask rfl fun existing => ?_
      cases existing with
      | some state => trivial
      | none =>
        exact endsAfter_write fun _ =>
          Prog.ends_bind (fun _ => settled_internal _) fun _ => settled_ok _ _
    · exact endsAfter_changeRepo (settled_ok _ _)
    · exact endsAfter_changeRepo (settled_ok _ _)
    · refine endsAfter_actorIsMaintainer fun isMaintainer => ?_
      cases isMaintainer with
      | false => trivial
      | true =>
        simp only [if_true]
        split
        · split
          · trivial
          · exact endsAfter_write fun _ => settled_ok _ _
        · trivial
    · trivial
    · trivial
    · trivial

/-- Once it has written something, a command is not answered with an error of its own. -/
theorem endsAfter_applyCommand : (applyCommand b input).run.EndsAfter
    (fun call => call.writes = true) fun r => Settled (caught r) := by
  unfold applyCommand
  cases input.parsed.ns with
  | account => exact endsAfter_applyAccount
  | profile => exact endsAfter_applyProfile
  | repo => exact endsAfter_applyRepo

/-- The same of a delivery. -/
theorem endsAfter_executeCommand : (executeCommand b input).run.EndsAfter
    (fun call => call.writes = true) fun r => ∀ output, r = .ok output → Settled output := by
  refine Prog.endsAfter_bind ⟨Bool.false_ne_true, fun _ _ => trivial⟩ fun inserted => ?_
  cases inserted with
  | false => trivial
  | true =>
    refine Prog.EndsAfter.bind (G := fun r => ∀ applied, r = .ok applied → Settled (caught applied))
      (Prog.EndsAfter.bind endsAfter_applyCommand ?_ fun _ => trivial) ?_ ?_
    · rintro applied h _ ⟨⟩
      exact h
    · rintro (failure | applied) h
      · nofun
      · refine Prog.ends_bind (fun _ => nofun) fun _ => ?_
        rintro _ ⟨⟩
        exact h _ rfl
    · rintro (failure | applied)
      · trivial
      · exact Prog.endsAfter_bind ⟨Bool.false_ne_true, fun _ _ => trivial⟩ fun _ => trivial

end EndsAfter

/-! ### Interleaved deliveries -/

/-- Deliveries in progress. -/
abbrev Deliveries : Type :=
  Pool CommandTables StoreCall StoreCall.Response (Except DispatchError Output)

/-- A delivery in progress. -/
abbrev Delivery : Type := Task StoreCall StoreCall.Response (Except DispatchError Output)

/-- Deliveries of one command, none of which has made a call. -/
def deliveries (b : Bech32) (input : Input) (s : CommandTables) (n : ℕ) : Deliveries :=
  .ofPrograms s (List.replicate n (executeCommand b input).run)

/-- One of the deliveries makes its next call, which is carried out or fails. -/
def advance : Deliveries → ℕ × Option StoreFault → Option (Deliveries × StoreCall) :=
  Pool.step respond

/-- One of the calls writes something but the log. -/
def HasWritten (past : List (Σ call : StoreCall, call.Response)) : Prop :=
  ∃ e ∈ past, e.1.writes = true

/-- A delivery that does not apply the command: it has not begun, or it is over. -/
def Idle (b : Bech32) (input : Input) (task : Delivery) : Prop :=
  ¬ HasWritten task.past ∧ (task.rest = (executeCommand b input).run ∨
    ∃ r, task.rest = .done r ∧ ∀ output, r = .ok output → output.status = .ok)

/-- No delivery applies the command, or the entry is there and one delivery at most applies it. -/
def Applying (b : Bech32) (input : Input) (pool : Deliveries) : Prop :=
  (∀ (i : ℕ) (task : Delivery), pool.tasks[i]? = some task → Idle b input task) ∨
    pool.shared.logged input.eventId = true ∧
      ∃ j, ∀ (i : ℕ) (task : Delivery), pool.tasks[i]? = some task → i ≠ j → Idle b input task

section Interleaving

variable {fault : Option StoreFault} {pool pool' : Deliveries} {n : ℕ}

theorem hasWritten_append {past : List (Σ call : StoreCall, call.Response)} {call : StoreCall}
    {response : call.Response} :
    HasWritten (past ++ [⟨call, response⟩]) ↔ HasWritten past ∨ call.writes = true := by
  unfold HasWritten
  simp only [List.mem_append, List.mem_singleton]
  constructor
  · rintro ⟨e, he | rfl, hwrites⟩
    · exact .inl ⟨e, he, hwrites⟩
    · exact .inr hwrites
  · rintro (⟨e, he, hwrites⟩ | hwrites)
    · exact ⟨e, .inl he, hwrites⟩
    · exact ⟨_, .inr rfl, hwrites⟩

theorem logged_respond (h : s.logged input.eventId = true) (call : StoreCall) :
    (respond fault call s).2.logged input.eventId = true := by
  rcases respond_snd fault call s with heq | heq
  · rw [heq]
    exact h
  · rw [heq]
    exact CommandTables.logged_perform h call

/-- The entry is inserted once. -/
theorem respond_insert
    (h : (respond fault (.insertCommandLog (logRecord input)) s).1 = .ok true) :
    s.logged input.eventId = false ∧
      (respond fault (.insertCommandLog (logRecord input)) s).2.logged input.eventId = true := by
  rcases fault with _ | ⟨err⟩ | ⟨err⟩
  · unfold respond at h ⊢
    simp only [perform_insert] at h ⊢
    cases htime : toOffsetDatetime input.createdAt with
    | error err =>
      rw [htime] at h
      cases h
    | ok time =>
      rw [htime] at h
      cases hlogged : s.logged input.eventId with
      | true =>
        simp only [hlogged, if_true] at h
        cases h
      | false =>
        refine ⟨rfl, ?_⟩
        simp only [Bool.false_eq_true, if_false]
        rw [CommandTables.logged_append]
        simp [logRecord]
  · cases h
  · cases h

/-- The first call of a delivery: it goes on only if it has inserted the entry. -/
theorem idle_first {past : List (Σ call : StoreCall, call.Response)} {call : StoreCall}
    {next : call.Response → Prog StoreCall StoreCall.Response (Except DispatchError Output)}
    (h : Idle b input ⟨past, .call call next⟩) :
    (s.logged input.eventId = false ∧ (respond fault call s).2.logged input.eventId = true) ∨
      Idle b input ⟨past ++ [⟨call, (respond fault call s).1⟩], next (respond fault call s).1⟩ := by
  obtain ⟨hwritten, hrest | ⟨r, hrest, -⟩⟩ := h
  · have hcall : (executeCommand b input).run =
        .call (.insertCommandLog (logRecord input)) _ := rfl
    rw [hcall] at hrest
    cases hrest
    have hnot : ¬ (HasWritten past ∨ (StoreCall.insertCommandLog (logRecord input)).writes = true) :=
      not_or_intro hwritten Bool.false_ne_true
    rcases hresponse : (respond fault (.insertCommandLog (logRecord input)) s).1 with err | (_ | _)
    · exact .inr ⟨hasWritten_append.not.2 hnot, .inr ⟨_, rfl, nofun⟩⟩
    · refine .inr ⟨hasWritten_append.not.2 hnot, .inr ⟨_, rfl, ?_⟩⟩
      rintro _ ⟨⟩
      rfl
    · exact .inl (respond_insert hresponse)
  · cases hrest

/-- A call keeps that at most one delivery applies the command. -/
theorem applying_advance {a : ℕ × Option StoreFault} {call : StoreCall} (h : Applying b input pool)
    (hstep : advance pool a = some (pool', call)) : Applying b input pool' := by
  obtain ⟨past, next, hmoved, hshared, htasks⟩ := Pool.step_eq_some hstep
  have hothers := Pool.getElem?_step hmoved htasks
  by_cases hidle : Idle b input ⟨past, .call call next⟩
  · have hfirst : pool.shared.logged input.eventId = false ∧
        (respond a.2 call pool.shared).2.logged input.eventId = true ∨ Idle b input
          ⟨past ++ [⟨call, (respond a.2 call pool.shared).1⟩],
            next (respond a.2 call pool.shared).1⟩ :=
      idle_first hidle
    rcases hfirst with ⟨hnew, hlogged⟩ | hidle'
    · -- the delivery has inserted the entry, so that no other one has
      rcases h with hall | ⟨hold, -⟩
      · refine .inr ⟨hshared ▸ hlogged, a.1, fun i task htask hi => ?_⟩
        rw [hothers, if_neg (Ne.symm hi)] at htask
        exact hall i task htask
      · exact absurd hold (ne_true_of_eq_false hnew)
    · refine h.imp (fun hall i task htask => ?_) fun hone =>
        ⟨hshared ▸ logged_respond hone.1 call, ?_⟩
      · rw [hothers] at htask
        split_ifs at htask
        · exact Option.some.inj htask ▸ hidle'
        · exact hall i task htask
      · obtain ⟨j, hj⟩ := hone.2
        refine ⟨j, fun i task htask hi => ?_⟩
        rw [hothers] at htask
        split_ifs at htask
        · exact Option.some.inj htask ▸ hidle'
        · exact hj i task htask hi
  · rcases h with hall | ⟨hlogged, j, hj⟩
    · exact absurd (hall _ _ hmoved) hidle
    · -- it is the delivery that applies the command
      have hmover : a.1 = j := by
        by_contra hne
        exact hidle (hj _ _ hmoved hne)
      refine .inr ⟨hshared ▸ logged_respond hlogged call, j, fun i task htask hi => ?_⟩
      rw [hothers, if_neg (by rw [hmover]; exact Ne.symm hi)] at htask
      exact hj i task htask hi

theorem idle_deliveries {i : ℕ} {task : Delivery}
    (h : (deliveries b input s n).tasks[i]? = some task) : Idle b input task := by
  obtain ⟨program, hprogram, rfl⟩ := Pool.getElem?_ofPrograms h
  refine ⟨?_, .inl (List.eq_of_mem_replicate (List.mem_of_getElem? hprogram))⟩
  rintro ⟨e, he, -⟩
  cases he

variable (h : Runs.Reach advance (fun _ _ => True) (fun pool => pool = deliveries b input s n) pool)

include h

/-- At most one delivery applies the command. -/
theorem applying_of_reach : Applying b input pool := by
  refine h.invariant ?_ fun pool a pool' call hpool _ hstep => applying_advance hpool hstep
  rintro _ rfl
  exact .inl fun i task => idle_deliveries

/-- The calls still to come are permitted. -/
theorem permitted_of_reach {i : ℕ} {task : Delivery} (htask : pool.tasks[i]? = some task) :
    task.rest.Calls Honest (StoreCall.Permitted input) := by
  refine Pool.tasks_invariant (J := fun _ task => task.rest.Calls Honest (StoreCall.Permitted input))
    honest_respond ?_ (fun i past call next r hcalls hr => hcalls.2 r hr) h i task htask
  rintro _ rfl i task htask
  obtain ⟨program, hprogram, rfl⟩ := Pool.getElem?_ofPrograms htask
  rw [List.eq_of_mem_replicate (List.mem_of_getElem? hprogram)]
  exact permitted_executeCommand

/-- A delivery that has written something is not answered with an error of its own. -/
theorem settled_of_reach {i : ℕ} {task : Delivery} (htask : pool.tasks[i]? = some task)
    {output : Output} (hrest : task.rest = .done (.ok output)) (hwritten : HasWritten task.past) :
    Settled output := by
  have hends : task.rest.EndsAfter (fun call => call.writes = true)
      (fun r => ∀ output, r = .ok output → Settled output) ∧
      (HasWritten task.past → task.rest.Ends fun r => ∀ output, r = .ok output → Settled output) := by
    refine Pool.tasks_invariant (Q := fun _ _ => True)
      (J := fun _ task => task.rest.EndsAfter (fun call => call.writes = true)
        (fun r => ∀ output, r = .ok output → Settled output) ∧
        (HasWritten task.past → task.rest.Ends fun r => ∀ output, r = .ok output → Settled output))
      (fun _ _ _ => trivial) ?_ ?_ h i task htask
    · rintro _ rfl i task htask
      obtain ⟨program, hprogram, rfl⟩ := Pool.getElem?_ofPrograms htask
      rw [List.eq_of_mem_replicate (List.mem_of_getElem? hprogram)]
      refine ⟨endsAfter_executeCommand, ?_⟩
      rintro ⟨e, he, -⟩
      cases he
    · rintro i past call next r ⟨hafter, hends⟩ -
      refine ⟨(hafter r).2, fun hwritten => ?_⟩
      rcases hasWritten_append.1 hwritten with hbefore | hcall
      · exact hends hbefore r
      · exact (hafter r).1 hcall
  rw [hrest] at hends
  exact hends.2 hwritten output rfl

/-- What the deliveries have changed is confined. -/
theorem confined_of_reach : CommandTables.Confined input s pool.shared := by
  induction h with
  | start hpool =>
    subst hpool
    exact .refl s
  | step hreach _ hstep ih =>
    obtain ⟨past, next, hmoved, hshared, -⟩ := Pool.step_eq_some hstep
    rw [hshared]
    exact ih.trans (CommandTables.confined_respond (permitted_of_reach hreach hmoved).1)

/-- As long as no delivery has written anything, only the log has changed. -/
theorem sameState_of_reach
    (hnot : ∀ (i : ℕ) (task : Delivery), pool.tasks[i]? = some task → ¬ HasWritten task.past) :
    SameState s pool.shared := by
  induction h with
  | start hpool =>
    subst hpool
    exact ⟨rfl, rfl, rfl, rfl⟩
  | @step _ _ a _ hreach _ hstep ih =>
    obtain ⟨past, next, hmoved, hshared, htasks⟩ := Pool.step_eq_some hstep
    have hothers := Pool.getElem?_step hmoved htasks
    have hmover := hnot _ _ ((hothers _).trans (if_pos rfl))
    rw [hasWritten_append, not_or] at hmover
    rw [hshared]
    refine (ih fun i task htask => ?_).trans
      (CommandTables.sameState_respond (eq_false_of_ne_true hmover.2))
    by_cases hi : a.1 = i
    · subst hi
      rw [hmoved] at htask
      exact Option.some.inj htask ▸ hmover.1
    · exact hnot i task (((hothers i).trans (if_neg hi)).trans htask)

omit h

/-- In every interleaving of deliveries of a command, whose calls may fail: only the entry of the
command and rows of its actor have changed; one delivery at most has made a call that writes
anything else; and an answer that is an error, but not an internal one, means that none has. -/
theorem deliveries_confined
    (h : Runs.Reach advance (fun _ _ => True) (fun pool => pool = deliveries b input s n) pool) :
    CommandTables.Confined input s pool.shared ∧
      (∃ j, ∀ (i : ℕ) (task : Delivery), pool.tasks[i]? = some task → HasWritten task.past → i = j) ∧
      ∀ (i : ℕ) (task : Delivery) (output : Output), pool.tasks[i]? = some task →
        task.rest = .done (.ok output) → output.status = .error → output.code ≠ "internal" →
          SameState s pool.shared := by
  refine ⟨confined_of_reach h, ?_, ?_⟩
  · rcases applying_of_reach h with hall | ⟨-, j, hj⟩
    · exact ⟨0, fun i task htask hwritten => absurd hwritten (hall i task htask).1⟩
    · refine ⟨j, fun i task htask hwritten => ?_⟩
      by_contra hi
      exact (hj i task htask hi).1 hwritten
  · intro i task output htask hrest herror hcode
    have hmover : ¬ HasWritten task.past := fun hwritten =>
      hcode (settled_of_reach h htask hrest hwritten herror)
    refine sameState_of_reach h fun k other hother => ?_
    rcases applying_of_reach h with hall | ⟨-, j, hj⟩
    · exact (hall k other hother).1
    · by_cases hk : k = j
      · -- the delivery with this answer is not idle, so that it is the one that applies the command
        have hi : i = j := by
          by_contra hi
          obtain ⟨-, hbegun | ⟨r, hdone, hok⟩⟩ := hj i task htask hi
          · rw [hrest] at hbegun
            cases hbegun
          · rw [hrest] at hdone
            cases hdone
            rw [hok output rfl] at herror
            cases herror
        subst hi
        rw [hk, htask] at hother
        exact Option.some.inj hother ▸ hmover
      · exact (hj k other hother hk).1

/-- Two deliveries of a command that creates a repository: the second one comes too late, the first
one goes on and creates it. -/
theorem deliveries_confined_createDemo : ∃ pool : Deliveries,
    pool.shared.repos.map RepoStateV1Record.repoName = ["demo"] ∧
      CommandTables.Confined createDemo .empty pool.shared ∧
      ∃ j, ∀ (i : ℕ) (task : Delivery), pool.tasks[i]? = some task → HasWritten task.past → i = j := by
  have hrun : ((Runs.exec advance (deliveries sampleBech32 createDemo .empty 2)
      [(0, none), (1, none), (0, none), (0, none)]).map fun r =>
        r.1.shared.repos.map RepoStateV1Record.repoName) = some ["demo"] := by
    decide +kernel
  obtain ⟨⟨pool, outputs⟩, hexec, hrepos⟩ := Option.map_eq_some_iff.1 hrun
  have hreach : Runs.Reach advance (fun _ _ => True)
      (fun pool => pool = deliveries sampleBech32 createDemo .empty 2) pool :=
    .of_exec (.start rfl) (fun _ _ _ => trivial) hexec
  obtain ⟨hconfined, hone, -⟩ := deliveries_confined hreach
  exact ⟨pool, hrepos, hconfined, hone⟩

end Interleaving

end Command

end Gittree
