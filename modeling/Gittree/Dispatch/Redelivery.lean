import Gittree.Dispatch.Handlers

/-!
# Commands that are delivered again

The command tables of `crates/storage/src/postgres.rs`, and deliveries of one command to
`execute_command`.  Any call of a delivery may fail: without having been carried out, or carried out
but without its answer.

The entry that marks a command as processed is written before the command is applied, and stays when
applying it fails.

* `run_executeCommand`: the three ways a delivery can take;
* `applies_iff`: a command that was only delivered in vain is applied by the next delivery exactly if
  no delivery has written its entry.
-/

namespace Gittree

open Rust

/-! ### The tables -/

/-- `to_offset_datetime`: the years that a time stamp can have. -/
def toOffsetDatetime (createdAt : ℤ) : Except StorageError ℤ := do
  Result.ensure (-377705116800 ≤ createdAt ∧ createdAt ≤ 253402300799)
    (.invalidField "created_at" (toString createdAt))
  return createdAt

/-- `INSERT … ON CONFLICT … DO UPDATE`: the row with the key of a record is merged with it, or the
record becomes a row. -/
def upsertRow {α : Type} (same : α → Bool) (merge : α → α) (record : α) (rows : List α) : List α :=
  if rows.any same then rows.map fun row => if same row then merge row else row
  else rows ++ [record]

/-- The tables that commands read and write. -/
structure CommandTables where
  log : List CommandLogRecord
  accounts : List AccountStateRecord
  profiles : List ProfileStateRecord
  repos : List RepoStateV1Record
  maintainers : List RepoMaintainerV1Record

namespace CommandTables

/-- Nothing is stored. -/
def empty : CommandTables := ⟨[], [], [], [], []⟩

/-- The event of a command has an entry. -/
def logged (s : CommandTables) (eventId : List UInt8) : Bool :=
  s.log.any fun record => record.eventId == eventId

/-- `v1_insert_command_log`. -/
def insertCommandLog (s : CommandTables) (record : CommandLogRecord) :
    Except StorageError Bool × CommandTables :=
  match toOffsetDatetime record.createdAt with
  | .error err => (.error err, s)
  | .ok _ =>
    if s.logged record.eventId then (.ok false, s)
    else (.ok true, { s with log := s.log ++ [record] })

/-- `v1_update_command_log_outcome`. -/
def updateCommandLogOutcome (s : CommandTables) (eventId : List UInt8) (status : CommandStatus)
    (code message : String) : CommandTables :=
  { s with log := s.log.map fun record =>
      if record.eventId == eventId then { record with status, code, message } else record }

/-- `v1_upsert_account_state`, which keeps the first `created_at`. -/
def upsertAccountState (s : CommandTables) (record : AccountStateRecord) :
    Except StorageError Unit × CommandTables :=
  let checked := do
    let _ ← toOffsetDatetime record.createdAt
    let _ ← toOffsetDatetime record.updatedAt
    let _ ← record.deletedAt.mapM toOffsetDatetime
    return ()
  match checked with
  | .error err => (.error err, s)
  | .ok _ => (.ok (), { s with
      accounts := upsertRow (fun row => row.pubkey == record.pubkey)
        (fun row => { record with createdAt := row.createdAt }) record s.accounts })

/-- `v1_upsert_profile_state`. -/
def upsertProfileState (s : CommandTables) (record : ProfileStateRecord) :
    Except StorageError Unit × CommandTables :=
  match toOffsetDatetime record.updatedAt with
  | .error err => (.error err, s)
  | .ok _ => (.ok (), { s with
      profiles := upsertRow (fun row => row.pubkey == record.pubkey) (fun _ => record) record
        s.profiles })

/-- `v1_upsert_repo_state`. -/
def upsertRepoState (s : CommandTables) (record : RepoStateV1Record) :
    Except StorageError Unit × CommandTables :=
  match toOffsetDatetime record.updatedAt with
  | .error err => (.error err, s)
  | .ok _ => (.ok (), { s with
      repos := upsertRow
        (fun row => row.ownerPubkey == record.ownerPubkey && row.repoName == record.repoName)
        (fun _ => record) record s.repos })

/-- `v1_set_repo_maintainer`. -/
def setRepoMaintainer (s : CommandTables) (record : RepoMaintainerV1Record) :
    Except StorageError Unit × CommandTables :=
  match toOffsetDatetime record.updatedAt with
  | .error err => (.error err, s)
  | .ok _ => (.ok (), { s with
      maintainers := upsertRow
        (fun row => row.ownerPubkey == record.ownerPubkey && row.repoName == record.repoName &&
          row.maintainerPubkey == record.maintainerPubkey)
        (fun _ => record) record s.maintainers })

/-- A call that is carried out. -/
def perform (s : CommandTables) : (call : StoreCall) → Except StorageError call.Answer × CommandTables
  | .insertCommandLog record => s.insertCommandLog record
  | .updateCommandLogOutcome eventId status code message =>
    (.ok (), s.updateCommandLogOutcome eventId status code message)
  | .accountState pubkey => (.ok (s.accounts.find? fun row => row.pubkey == pubkey), s)
  | .upsertAccountState record => s.upsertAccountState record
  | .profileState pubkey => (.ok (s.profiles.find? fun row => row.pubkey == pubkey), s)
  | .upsertProfileState record => s.upsertProfileState record
  | .repoState ownerPubkey repoName => (.ok (s.repos.find? fun row =>
      row.ownerPubkey == ownerPubkey && row.repoName == repoName), s)
  | .upsertRepoState record => s.upsertRepoState record
  | .setRepoMaintainer record => s.setRepoMaintainer record
  | .listActiveRepoMaintainers ownerPubkey repoName =>
    (.ok ((s.maintainers.filter fun row => row.ownerPubkey == ownerPubkey &&
      row.repoName == repoName && row.active).map RepoMaintainerV1Record.maintainerPubkey), s)

end CommandTables

/-! ### Deliveries -/

/-- How a call fails: it is not carried out, or its answer is lost. -/
inductive StoreFault
  | refused (err : StorageError)
  | unanswered (err : StorageError)
  deriving DecidableEq, Repr

/-- A call of a storage that is carried out, or fails. -/
def faulty {α σ : Type} (fault : Option StoreFault) (s : σ) (result : Except StorageError α × σ) :
    Except StorageError α × σ :=
  match fault with
  | none => result
  | some (.refused err) => (.error err, s)
  | some (.unanswered err) => (.error err, result.2)

theorem faulty_ok {α σ : Type} {fault : Option StoreFault} {s : σ}
    {result : Except StorageError α × σ} {found : α} (h : (faulty fault s result).1 = .ok found) :
    fault = none ∧ result.1 = .ok found := by
  unfold faulty at h
  split at h
  · exact ⟨rfl, h⟩
  · cases h
  · cases h

theorem faulty_snd {α σ : Type} (fault : Option StoreFault) (s : σ)
    (result : Except StorageError α × σ) :
    (faulty fault s result).2 = s ∨ (faulty fault s result).2 = result.2 := by
  unfold faulty
  split
  · exact .inr rfl
  · exact .inl rfl
  · exact .inr rfl

namespace Command

/-- The failures of the calls of a delivery, by their number. -/
abbrev Faults : Type := ℕ → Option StoreFault

/-- The calls of a delivery; the number counts them. -/
def handle (faults : Faults) (call : StoreCall) (w : CommandTables × ℕ) :
    call.Response × (CommandTables × ℕ) :=
  match faults w.2 with
  | none => ((w.1.perform call).1.mapError .storage, ((w.1.perform call).2, w.2 + 1))
  | some (.refused err) => (.error (.storage err), (w.1, w.2 + 1))
  | some (.unanswered err) => (.error (.storage err), ((w.1.perform call).2, w.2 + 1))

/-- A delivery of a command. -/
def deliver (b : Bech32) (input : Input) (faults : Faults) (s : CommandTables) :
    Except DispatchError Output × CommandTables :=
  let r := (executeCommand b input).run.run (handle faults) (s, 0)
  (r.1, r.2.1)

/-- The delivery ended in a storage error. -/
def isFailure : Except DispatchError Output → Bool
  | .error _ => true
  | .ok output => output.code == "internal"

/-- Deliveries one after the other, each of which ended in a storage error. -/
def deliverInVain (b : Bech32) (input : Input) (s : CommandTables) :
    List Faults → Option CommandTables
  | [] => some s
  | faults :: rest =>
    if isFailure (deliver b input faults s).1 then
      deliverInVain b input (deliver b input faults s).2 rest
    else none

/-- The tables hold the same accounts, profiles, repositories and maintainers. -/
def SameState (s t : CommandTables) : Prop :=
  s.accounts = t.accounts ∧ s.profiles = t.profiles ∧ s.repos = t.repos ∧
    s.maintainers = t.maintainers

/-- A delivery without errors applies the command: it is not taken for a repetition, and leaves the
tables as the first delivery would have left them. -/
def Applies (b : Bech32) (input : Input) (first s : CommandTables) : Prop :=
  (∀ output, (deliver b input (fun _ => none) s).1 = .ok output → output.code ≠ "duplicate") ∧
    SameState (deliver b input (fun _ => none) s).2 (deliver b input (fun _ => none) first).2

end Command

/-! ### Entries of the log -/

namespace CommandTables

variable {s : CommandTables} {eventId : List UInt8}

theorem logged_append {record : CommandLogRecord} :
    { s with log := s.log ++ [record] }.logged eventId =
      (s.logged eventId || record.eventId == eventId) := by
  simp [logged]

/-- An entry is never removed. -/
theorem logged_perform (h : s.logged eventId = true) (call : StoreCall) :
    (s.perform call).2.logged eventId = true := by
  cases call with
  | insertCommandLog record =>
    show (s.insertCommandLog record).2.logged eventId = true
    unfold insertCommandLog
    split
    · exact h
    · split_ifs
      · exact h
      · rw [logged_append, h, Bool.true_or]
  | updateCommandLogOutcome id status code message =>
    obtain ⟨record, hrecord, hid⟩ := List.any_eq_true.1 h
    refine List.any_eq_true.2 ⟨_, List.mem_map_of_mem hrecord, ?_⟩
    split_ifs
    · exact hid
    · exact hid
  | upsertAccountState record =>
    show (s.upsertAccountState record).2.logged eventId = true
    unfold upsertAccountState
    simp only
    split
    · exact h
    · exact h
  | upsertProfileState record =>
    show (s.upsertProfileState record).2.logged eventId = true
    unfold upsertProfileState
    split
    · exact h
    · exact h
  | upsertRepoState record =>
    show (s.upsertRepoState record).2.logged eventId = true
    unfold upsertRepoState
    split
    · exact h
    · exact h
  | setRepoMaintainer record =>
    show (s.setRepoMaintainer record).2.logged eventId = true
    unfold setRepoMaintainer
    split
    · exact h
    · exact h
  | _ => exact h

end CommandTables

namespace Command

variable {b : Bech32} {input : Input} {faults : Faults} {s t : CommandTables} {eventId : List UInt8}

/-- A call of a delivery removes no entry. -/
theorem logged_handle {w : CommandTables × ℕ} (h : w.1.logged eventId = true) (call : StoreCall) :
    (handle faults call w).2.1.logged eventId = true := by
  unfold handle
  split
  · exact CommandTables.logged_perform h call
  · exact h
  · exact CommandTables.logged_perform h call

/-- A delivery removes no entry. -/
theorem logged_run {α : Type} (program : Command α) {w : CommandTables × ℕ}
    (h : w.1.logged eventId = true) :
    (program.run.run (handle faults) w).2.1.logged eventId = true :=
  Prog.run_invariant (I := fun w : CommandTables × ℕ => w.1.logged eventId = true)
    (fun call _ hw => logged_handle hw call) program.run h

/-- The three ways that an execution can take. -/
theorem run_executeCommand {σ : Type} (handler : (call : StoreCall) → σ → call.Response × σ) (w : σ) :
    (executeCommand b input).run.run handler w =
      match handler (.insertCommandLog (logRecord input)) w with
      | (.error err, w) => (.error err, w)
      | (.ok false, w) => (.ok (ok "duplicate" "already processed"), w)
      | (.ok true, w) =>
        let outcome := caught ((applyCommand b input).run.run handler w).1
        let updated := handler (.updateCommandLogOutcome input.eventId outcome.status outcome.code
          outcome.message) ((applyCommand b input).run.run handler w).2
        (updated.1.map fun _ => outcome, updated.2) := by
  unfold executeCommand
  rw [ExceptT.run_bind, Prog.run_bind]
  have hinsert : (insertCommandLog (logRecord input)).run.run handler w =
      handler (.insertCommandLog (logRecord input)) w := rfl
  rw [hinsert]
  rcases handler (.insertCommandLog (logRecord input)) w with ⟨err | (_ | _), w⟩
  · rfl
  · rfl
  · simp only [if_true]
    rw [ExceptT.run_bind, Prog.run_bind, Prog.run_lift]
    simp only
    rw [ExceptT.run_bind, Prog.run_bind]
    have hupdate : ∀ status code message w, (updateCommandLogOutcome input.eventId status code
        message).run.run handler w =
          handler (.updateCommandLogOutcome input.eventId status code message) w :=
      fun _ _ _ _ => rfl
    rw [hupdate]
    rcases handler (.updateCommandLogOutcome input.eventId _ _ _) _ with ⟨err | u, w⟩
    · rfl
    · rfl

/-! ### Outputs of an applied command -/

section

variable {σ : Type} {handler : (call : StoreCall) → σ → call.Response × σ} {w : σ}

/-- The output is not that of a repetition. -/
def Fresh (output : Output) (_ : σ) : Prop := output.code ≠ "duplicate"

theorem post_ask {call : StoreCall} {Q : call.Answer → σ → Prop} (h : ∀ answer w, Q answer w) :
    Prog.Post handler (ask call) w Q fun _ => True := by
  refine Prog.Post.attempt (?_ : Prog.Outcome Q _ (handler call w))
  rcases handler call w with ⟨err | answer, w⟩
  · trivial
  · exact h answer w

theorem post_applyAccount :
    Prog.Post handler (applyAccount input) w Fresh fun _ => True := by
  refine Prog.Post.bind (post_ask fun existing w => ?_)
  split_ifs
  · cases existing with
    | none => exact Prog.Post.bind (post_ask fun _ w => Prog.Post.pure (by simp [Fresh, ok]))
    | some record => exact Prog.Post.pure (by simp [Fresh, ok])
  · exact Prog.Post.bind (post_ask fun _ w => Prog.Post.pure (by simp [Fresh, ok]))
  · exact Prog.Post.pure (by simp [Fresh, ok])
  · exact Prog.Post.pure (by simp [Fresh, err])

theorem post_applyProfile :
    Prog.Post handler (applyProfile input) w Fresh fun _ => True := by
  refine Prog.Post.bind (post_ask fun profile w => ?_)
  split_ifs
  · exact Prog.Post.bind (post_ask fun _ w => Prog.Post.pure (by simp [Fresh, ok]))
  · split
    · exact Prog.Post.bind (post_ask fun _ w => Prog.Post.pure (by simp [Fresh, ok]))
    · exact Prog.Post.pure (by simp [Fresh, err])
  · exact Prog.Post.pure (by simp [Fresh, err])

theorem post_actorIsMaintainer {actor : List UInt8} {repoName : String} {Q : Bool → σ → Prop}
    (h : ∀ answer w, Q answer w) :
    Prog.Post handler (actorIsMaintainer actor repoName) w Q fun _ => True :=
  Prog.Post.bind (post_ask fun _ _ => Prog.Post.pure (h _ _))

theorem post_changeRepo {repoName : String} {change : RepoStateV1Record → RepoStateV1Record}
    {done : Output} (hdone : done.code ≠ "duplicate") :
    Prog.Post handler (changeRepo input repoName change done) w Fresh fun _ => True := by
  refine Prog.Post.bind (post_ask fun existing w => ?_)
  cases existing with
  | none => exact Prog.Post.pure (by simp [Fresh, err])
  | some state =>
    refine Prog.Post.bind (post_actorIsMaintainer fun isMaintainer w => ?_)
    cases isMaintainer with
    | true => exact Prog.Post.bind (post_ask fun _ w => Prog.Post.pure hdone)
    | false => exact Prog.Post.pure (by simp [Fresh, err])

theorem post_applyRepo :
    Prog.Post handler (applyRepo b input) w Fresh fun _ => True := by
  unfold applyRepo
  split
  · exact Prog.Post.pure (by simp [Fresh, err])
  · rename_i repoName _
    simp only
    split_ifs
    · refine Prog.Post.bind (post_ask fun existing w => ?_)
      cases existing with
      | some state => exact Prog.Post.pure (by simp [Fresh, ok])
      | none =>
        exact Prog.Post.bind (post_ask fun _ w => Prog.Post.bind (post_ask fun _ w =>
          Prog.Post.pure (by simp [Fresh, ok])))
    · exact post_changeRepo (by simp [ok])
    · exact post_changeRepo (by simp [ok])
    · refine Prog.Post.bind (post_actorIsMaintainer fun isMaintainer w => ?_)
      cases isMaintainer with
      | false => exact Prog.Post.pure (by simp [Fresh, err])
      | true =>
        simp only [if_true]
        split
        · split
          · exact Prog.Post.pure (by simp [Fresh, err])
          · exact Prog.Post.bind (post_ask fun _ w => Prog.Post.pure (by simp [Fresh, ok]))
        · exact Prog.Post.pure (by simp [Fresh, err])
    · exact Prog.Post.pure (by simp [Fresh, ok])
    · exact Prog.Post.pure (by simp [Fresh, ok])
    · exact Prog.Post.pure (by simp [Fresh, err])

/-- What is applied is not taken for a repetition, whether it fails or not. -/
theorem caught_ne_duplicate :
    (caught ((applyCommand b input).run.run handler w).1).code ≠ "duplicate" := by
  have hpost : Prog.Post handler (applyCommand b input) w Fresh fun _ => True := by
    unfold applyCommand
    cases input.parsed.ns with
    | account => exact post_applyAccount
    | profile => exact post_applyProfile
    | repo => exact post_applyRepo
  rcases hrun : (applyCommand b input).run.run handler w with ⟨failure | output, w'⟩
  · simp [caught, err]
  · exact hpost.of_ok hrun

end

/-! ### Repeated deliveries -/

/-- The first call of a delivery, when it is carried out. -/
theorem perform_insert (s : CommandTables) :
    s.perform (.insertCommandLog (logRecord input)) =
      match toOffsetDatetime input.createdAt with
      | .error err => (.error err, s)
      | .ok _ =>
        if s.logged input.eventId then (.ok false, s)
        else (.ok true, { s with log := s.log ++ [logRecord input] }) := rfl

/-- The entry of a command is not written when its first call is refused. -/
theorem deliver_refused {err : StorageError} (h : faults 0 = some (.refused err)) :
    deliver b input faults s = (.error (.storage err), s) := by
  have hhandle : handle faults (.insertCommandLog (logRecord input)) (s, 0) =
      (.error (.storage err), (s, 1)) := by
    unfold handle
    rw [h]
  unfold deliver
  rw [run_executeCommand, hhandle]

/-- Otherwise it is. -/
theorem logged_deliver {time : ℤ} (htime : toOffsetDatetime input.createdAt = .ok time)
    (h : ∀ err, faults 0 ≠ some (.refused err)) :
    (deliver b input faults s).2.logged input.eventId = true := by
  have hperform : (s.perform (.insertCommandLog (logRecord input))).2.logged input.eventId =
      true := by
    rw [perform_insert, htime]
    simp only
    split_ifs with hlogged
    · exact hlogged
    · rw [CommandTables.logged_append]
      simp [logRecord]
  have hfirst : (handle faults (.insertCommandLog (logRecord input)) (s, 0)).2.1.logged
      input.eventId = true := by
    unfold handle
    split
    · exact hperform
    · rename_i err hrefused
      exact absurd hrefused (h err)
    · exact hperform
  unfold deliver
  rw [run_executeCommand]
  revert hfirst
  rcases handle faults (.insertCommandLog (logRecord input)) (s, 0) with ⟨err | (_ | _), w⟩
  · exact id
  · exact id
  · intro hw
    exact logged_handle (logged_run (applyCommand b input) hw) _

/-- A delivery that meets no error has a time stamp in range. -/
theorem exists_time (h : isFailure (deliver b input (fun _ => none) s).1 = false) :
    ∃ time, toOffsetDatetime input.createdAt = .ok time := by
  cases htime : toOffsetDatetime input.createdAt with
  | ok time => exact ⟨time, rfl⟩
  | error err =>
    have hhandle : handle (fun _ => none) (.insertCommandLog (logRecord input)) (s, 0) =
        (.error (.storage err), (s, 1)) := by
      unfold handle
      simp only [perform_insert, htime]
      rfl
    unfold deliver at h
    rw [run_executeCommand, hhandle] at h
    cases h

/-- A command with an entry is taken for a repetition. -/
theorem deliver_logged {time : ℤ} (htime : toOffsetDatetime input.createdAt = .ok time)
    (h : s.logged input.eventId = true) :
    deliver b input (fun _ => none) s = (.ok (ok "duplicate" "already processed"), s) := by
  have hhandle : handle (fun _ => none) (.insertCommandLog (logRecord input)) (s, 0) =
      (.ok false, (s, 1)) := by
    unfold handle
    simp only [perform_insert, htime, h, if_true]
    rfl
  unfold deliver
  rw [run_executeCommand, hhandle]

/-- A command without an entry is not. -/
theorem code_deliver {time : ℤ} (htime : toOffsetDatetime input.createdAt = .ok time)
    (h : s.logged input.eventId = false) {output : Output}
    (houtput : (deliver b input (fun _ => none) s).1 = .ok output) : output.code ≠ "duplicate" := by
  have hhandle : handle (fun _ => none) (.insertCommandLog (logRecord input)) (s, 0) =
      (.ok true, ({ s with log := s.log ++ [logRecord input] }, 1)) := by
    unfold handle
    simp only [perform_insert, htime, h]
    rfl
  unfold deliver at houtput
  rw [run_executeCommand, hhandle] at houtput
  simp only at houtput
  obtain ⟨u, -, rfl⟩ := Result.map_eq_ok.1 houtput
  exact caught_ne_duplicate

/-- Deliveries whose first call is refused leave the tables as they are. -/
theorem deliverInVain_refused {deliveries : List Faults}
    (h : deliverInVain b input s deliveries = some t)
    (hrefused : ∀ faults ∈ deliveries, ∃ err, faults 0 = some (.refused err)) : t = s := by
  induction deliveries generalizing s with
  | nil =>
    cases h
    rfl
  | cons faults rest ih =>
    obtain ⟨err, hfirst⟩ := hrefused faults List.mem_cons_self
    rw [deliverInVain, deliver_refused hfirst] at h
    exact ih h fun other hother => hrefused other (List.mem_cons_of_mem _ hother)

/-- An entry that one of the deliveries has written stays. -/
theorem deliverInVain_logged {time : ℤ} (htime : toOffsetDatetime input.createdAt = .ok time)
    {deliveries : List Faults} (h : deliverInVain b input s deliveries = some t)
    (hwritten : s.logged input.eventId = true ∨
      ∃ faults ∈ deliveries, ∀ err, faults 0 ≠ some (.refused err)) :
    t.logged input.eventId = true := by
  induction deliveries generalizing s with
  | nil =>
    cases h
    rcases hwritten with hlogged | ⟨faults, hfaults, -⟩
    · exact hlogged
    · cases hfaults
  | cons faults rest ih =>
    rw [deliverInVain] at h
    split_ifs at h
    refine ih h ?_
    by_cases hfirst : ∀ err, faults 0 ≠ some (.refused err)
    · exact .inl (logged_deliver htime hfirst)
    · rcases hwritten with hlogged | ⟨other, hother, hnot⟩
      · exact .inl (logged_run (executeCommand b input) (w := (s, 0)) hlogged)
      · rcases List.mem_cons.1 hother with rfl | hrest
        · exact absurd hnot hfirst
        · exact .inr ⟨other, hrest, hnot⟩

/-- A command that was only delivered in vain is applied by the next delivery without errors exactly
if each delivery failed at the call that writes the entry, before it was written. -/
theorem applies_iff {deliveries : List Faults} (hnew : s.logged input.eventId = false)
    (hvain : deliverInVain b input s deliveries = some t)
    (hnext : isFailure (deliver b input (fun _ => none) t).1 = false) :
    Applies b input s t ↔ ∀ faults ∈ deliveries, ∃ err, faults 0 = some (.refused err) := by
  obtain ⟨time, htime⟩ := exists_time hnext
  constructor
  · rintro ⟨hfresh, -⟩
    by_contra hnot
    push Not at hnot
    have hlogged := deliverInVain_logged htime hvain (.inr hnot)
    exact hfresh _ (congrArg Prod.fst (deliver_logged htime hlogged)) rfl
  · intro hrefused
    rw [deliverInVain_refused hvain hrefused]
    exact ⟨fun output => code_deliver htime hnew, rfl, rfl, rfl, rfl⟩

/-- The command that creates a repository. -/
def createDemo : Input where
  eventId := List.replicate 32 17
  actorPubkey := List.replicate 32 34
  parsed := ⟨.repo, "create", some "demo", []⟩
  createdAt := 321

/-- A call of a delivery that is refused. -/
def refusedAt (index : ℕ) : Faults := fun call =>
  if call = index then some (.refused (.internal "connection closed")) else none

/-- The repository cannot be stored at first, and is not stored when the command is delivered again. -/
theorem not_applies_createDemo : ∃ t,
    deliverInVain sampleBech32 createDemo .empty [refusedAt 2] = some t ∧
      (deliver sampleBech32 createDemo (fun _ => none) t).1 =
        .ok (ok "duplicate" "already processed") ∧
      (deliver sampleBech32 createDemo (fun _ => none) t).2.repos = [] ∧
      ¬ Applies sampleBech32 createDemo .empty t := by
  have hrun : ((deliverInVain sampleBech32 createDemo .empty [refusedAt 2]).map fun t =>
      ((deliver sampleBech32 createDemo (fun _ => none) t).1,
        (deliver sampleBech32 createDemo (fun _ => none) t).2.repos)) =
      some (.ok (ok "duplicate" "already processed"), []) := by
    decide +kernel
  obtain ⟨t, hvain, ht⟩ := Option.map_eq_some_iff.1 hrun
  obtain ⟨houtput, hrepos⟩ := Prod.mk.inj ht
  exact ⟨t, hvain, houtput, hrepos, fun happlies => happlies.1 _ houtput rfl⟩

/-- The entry cannot be written twice, and the third delivery creates the repository. -/
theorem applies_iff_createDemo : ∃ t,
    CommandTables.empty.logged createDemo.eventId = false ∧
      deliverInVain sampleBech32 createDemo .empty [refusedAt 0, refusedAt 0] = some t ∧
      (deliver sampleBech32 createDemo (fun _ => none) t).1 =
        .ok (ok "repo_created" "repo created") ∧ Applies sampleBech32 createDemo .empty t := by
  have hrun : ((deliverInVain sampleBech32 createDemo .empty [refusedAt 0, refusedAt 0]).map fun t =>
      (deliver sampleBech32 createDemo (fun _ => none) t).1) =
      some (.ok (ok "repo_created" "repo created")) := by
    decide +kernel
  obtain ⟨t, hvain, houtput⟩ := Option.map_eq_some_iff.1 hrun
  have hnext : isFailure (deliver sampleBech32 createDemo (fun _ => none) t).1 = false := by
    rw [houtput]
    rfl
  refine ⟨t, rfl, hvain, houtput, (applies_iff rfl hvain hnext).2 ?_⟩
  simp [refusedAt]

end Command

end Gittree
