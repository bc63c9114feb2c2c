import Gittree.Services.Coordinator
import Gittree.Storage.OutboxClaims

/-!
# The publishing loop of the coordinator

`publish_outbox_loop` of `services/coordinator/src/lib.rs`: a worker claims a job, publishes its event
on its relay and marks the job; the worker that finds no further job of the repository pending
finalises its own.  Any number of workers run the loop while jobs are enqueued, interleaved at their
calls.  The calls of the storage, of the relays and of the Forgejo server may fail.

The iteration is a program of calls.  A worker is in the phase that the next call of its program
belongs to; `program_advance` says that the phases follow the program.  The outbox is the system of
`OutboxSystem`, which the workers drive by their claims and marks.

* `Publisher.step`: one call of one worker;
* `program_advance`: the phases follow the program;
* `Publisher.Inv`: what the phases of the workers say about the outbox.
-/

namespace Gittree

open Rust

/-! ### The program of an iteration -/

/-- The calls of the loop. -/
inductive LoopCall
  | claim (now : ℤ)
  | publish (job : RelayPublishJob)
  | markSucceeded (id : ℕ)
  | markFailed (id : ℕ) (error : String) (retryAt : ℤ)
  | pending (pubkey : List UInt8) (identifier : String) (kind : ℕ)
  | insertAnnouncement (record : RepoAnnouncementRecord)
  | ensureRepo (owner name : String) (description : Option String)
  | ensureWebhook (owner name : String)
  | upsertMapping (record : RepoMappingRecord)
  | provision (event : RelayEvent)

namespace LoopCall

/-- The errors of a call. -/
@[reducible] def Error : LoopCall → Type
  | .publish _ => String
  | .ensureRepo _ _ _ => Forgejo.Error
  | .ensureWebhook _ _ => Forgejo.Error
  | .provision _ => ProvisionError
  | _ => StorageError

/-- The results of a call. -/
@[reducible] def Result : LoopCall → Type
  | .claim _ => Option RelayPublishJob
  | .pending _ _ _ => ℕ
  | .ensureRepo _ _ _ => Forgejo.Repo
  | .provision _ => CoordinatorAction
  | _ => Unit

/-- The answers to a call. -/
abbrev Answer (call : LoopCall) : Type := Except call.Error call.Result

end LoopCall

/-- Programs of the loop. -/
abbrev LoopProg (α : Type) : Type := Prog LoopCall LoopCall.Answer α

/-- A call whose errors become errors of the coordinator. -/
def LoopCall.run (call : LoopCall) (wrap : call.Error → CoordinatorEventError) :
    ExceptT CoordinatorEventError (Prog LoopCall LoopCall.Answer) call.Result :=
  ExceptT.adapt wrap (Prog.attempt (Prog.ask call))

/-- `retry_after`; times are in seconds. -/
def retryAfter (now : ℤ) (attemptCount : ℕ) : ℤ := now + min (30 * max attemptCount 1) 1800

namespace LoopProg

variable (env : ServiceEnv)

/-- The end of `finalize_outbox_job`: the directory of the repository. -/
def provision (job : RelayPublishJob) :
    ExceptT CoordinatorEventError (Prog LoopCall LoopCall.Answer) Unit := do
  let _ ← (LoopCall.provision (relayEventFromJob job)).run .provision
  return ()

/-- `finalize_outbox_job` from the mapping on. -/
def storeMapping (job : RelayPublishJob) (mapping : RepoMappingRecord) :
    ExceptT CoordinatorEventError (Prog LoopCall LoopCall.Answer) Unit := do
  (LoopCall.upsertMapping mapping).run .storage
  provision job

/-- `finalize_outbox_job` from the web hook on. -/
def storeWebhook (job : RelayPublishJob) (a : RepoAnnouncement) (record : RepoAnnouncementRecord)
    (repo : Forgejo.Repo) : ExceptT CoordinatorEventError (Prog LoopCall LoopCall.Answer) Unit := do
  (LoopCall.ensureWebhook job.forgejoOwner repo.name).run .forgejo
  let mapping ← Prog.ofExcept ((RepoMapping.new repo.owner repo.name (relayEventFromJob job).pubkey
    a.identifier).mapError CoordinatorEventError.mapping)
  storeMapping job (mappingRecord mapping record.pubkey)

/-- `finalize_outbox_job` from the Forgejo repository on. -/
def storeRepo (job : RelayPublishJob) (a : RepoAnnouncement) (record : RepoAnnouncementRecord) :
    ExceptT CoordinatorEventError (Prog LoopCall LoopCall.Answer) Unit := do
  let repo ← (LoopCall.ensureRepo job.forgejoOwner job.forgejoRepo a.description).run .forgejo
  storeWebhook job a record repo

/-- `finalize_outbox_job` from its first call on. -/
def storeAnnouncement (job : RelayPublishJob) (a : RepoAnnouncement)
    (record : RepoAnnouncementRecord) :
    ExceptT CoordinatorEventError (Prog LoopCall LoopCall.Answer) Unit := do
  (LoopCall.insertAnnouncement record).run .storage
  storeRepo job a record

/-- `finalize_outbox_job` up to its first call: the announcement and its record, if the event is
one. -/
def finalPlan (job : RelayPublishJob) :
    Except CoordinatorEventError (Option (RepoAnnouncement × RepoAnnouncementRecord)) := do
  match ← parseEvent env (relayEventFromJob job) with
  | .repoAnnouncement a =>
    let record ← (RepoAnnouncementRecord.new (relayEventFromJob job).eventId
      (relayEventFromJob job).pubkey (relayEventFromJob job).createdAt a).mapError .storage
    return some (a, record)
  | _ => return none

/-- `finalize_outbox_job`. -/
def finalize (job : RelayPublishJob) :
    ExceptT CoordinatorEventError (Prog LoopCall LoopCall.Answer) Unit := do
  match ← Prog.ofExcept (finalPlan env job) with
  | some (a, record) => storeAnnouncement job a record
  | none => return ()

/-- A program whose errors are logged. -/
def logged (program : ExceptT CoordinatorEventError (Prog LoopCall LoopCall.Answer) Unit) :
    LoopProg Unit :=
  program.run >>= fun _ => .done ()

/-- The iteration from the pending count on. -/
def count (job : RelayPublishJob) : LoopProg Unit :=
  .call (.pending job.pubkey job.identifier job.kind) fun
    | .ok 0 => logged (finalize env job)
    | .ok _ => .done ()
    | .error _ => .done ()

/-- The iteration of an event that has been published. -/
def succeed (job : RelayPublishJob) : LoopProg Unit :=
  .call (.markSucceeded job.id) fun
    | .ok _ => count env job
    | .error _ => .done ()

/-- The iteration of an event that has not been published. -/
def fail (now : ℤ) (job : RelayPublishJob) (err : String) : LoopProg Unit :=
  .call (.markFailed job.id err (retryAfter now job.attemptCount)) fun _ => .done ()

/-- The iteration from the publication on. -/
def publish (now : ℤ) (job : RelayPublishJob) : LoopProg Unit :=
  .call (.publish job) fun
    | .ok _ => succeed env job
    | .error err => fail now job err

/-- One iteration of `publish_outbox_loop`. -/
def iteration (now : ℤ) : LoopProg Unit :=
  .call (.claim now) fun
    | .ok (some job) => publish env now job
    | .ok none => .done ()
    | .error _ => .done ()

end LoopProg

/-! ### Phases of a worker -/

/-- Where a worker is in its iteration: which call it makes next, and what it knows. -/
inductive WorkerPhase
  | idle
  | claiming (now : ℤ)
  | publishing (now : ℤ) (job : RelayPublishJob)
  | succeeding (job : RelayPublishJob)
  | failing (now : ℤ) (job : RelayPublishJob) (err : String)
  | counting (job : RelayPublishJob)
  | storing (job : RelayPublishJob) (a : RepoAnnouncement) (record : RepoAnnouncementRecord)
  | ensuring (job : RelayPublishJob) (a : RepoAnnouncement) (record : RepoAnnouncementRecord)
  | hooking (job : RelayPublishJob) (a : RepoAnnouncement) (record : RepoAnnouncementRecord)
    (repo : Forgejo.Repo)
  | linking (job : RelayPublishJob) (record : RepoMappingRecord)
  | provisioning (job : RelayPublishJob)

namespace WorkerPhase

/-- What is left of the iteration in a phase. -/
def program (env : ServiceEnv) : WorkerPhase → LoopProg Unit
  | .idle => .done ()
  | .claiming now => LoopProg.iteration env now
  | .publishing now job => LoopProg.publish env now job
  | .succeeding job => LoopProg.succeed env job
  | .failing now job err => LoopProg.fail now job err
  | .counting job => LoopProg.count env job
  | .storing job a record => LoopProg.logged (LoopProg.storeAnnouncement job a record)
  | .ensuring job a record => LoopProg.logged (LoopProg.storeRepo job a record)
  | .hooking job a record repo => LoopProg.logged (LoopProg.storeWebhook job a record repo)
  | .linking job record => LoopProg.logged (LoopProg.storeMapping job record)
  | .provisioning job => LoopProg.logged (LoopProg.provision job)

/-- The first phase of a finalisation. -/
def finalizing (env : ServiceEnv) (job : RelayPublishJob) : WorkerPhase :=
  match LoopProg.finalPlan env job with
  | .ok (some (a, record)) => .storing job a record
  | .ok none => .idle
  | .error _ => .idle

/-- The phase after the web hook. -/
def linked (job : RelayPublishJob) (a : RepoAnnouncement) (record : RepoAnnouncementRecord)
    (repo : Forgejo.Repo) : WorkerPhase :=
  match RepoMapping.new repo.owner repo.name (relayEventFromJob job).pubkey a.identifier with
  | .ok m => .linking job (mappingRecord m record.pubkey)
  | .error _ => .idle

theorem program_finalizing (env : ServiceEnv) (job : RelayPublishJob) :
    (finalizing env job).program env = LoopProg.logged (LoopProg.finalize env job) := by
  unfold finalizing LoopProg.finalize
  rcases LoopProg.finalPlan env job with err | _ | ⟨a, record⟩
  · rfl
  · rfl
  · rfl

theorem program_linked (env : ServiceEnv) (job : RelayPublishJob) (a : RepoAnnouncement)
    (record : RepoAnnouncementRecord) (repo : Forgejo.Repo) :
    (linked job a record repo).program env = LoopProg.logged (do
      let m ← Prog.ofExcept ((RepoMapping.new repo.owner repo.name
        (relayEventFromJob job).pubkey a.identifier).mapError CoordinatorEventError.mapping)
      LoopProg.storeMapping job (mappingRecord m record.pubkey)) := by
  unfold linked
  cases RepoMapping.new repo.owner repo.name (relayEventFromJob job).pubkey a.identifier with
  | error err => rfl
  | ok m => rfl

/-- A finalisation ends at once, or goes on to store the announcement. -/
theorem finalizing_cases (env : ServiceEnv) (job : RelayPublishJob) :
    finalizing env job = .idle ∧ (∀ plan, LoopProg.finalPlan env job ≠ .ok (some plan)) ∨
      ∃ a record, LoopProg.finalPlan env job = .ok (some (a, record)) ∧
        finalizing env job = .storing job a record := by
  unfold finalizing
  rcases LoopProg.finalPlan env job with err | _ | ⟨a, record⟩
  · exact .inl ⟨rfl, fun _ h => by cases h⟩
  · exact .inl ⟨rfl, fun _ h => by cases h⟩
  · exact .inr ⟨a, record, rfl, rfl⟩

/-- The mapping is stored next, or it cannot be made. -/
theorem linked_cases (job : RelayPublishJob) (a : RepoAnnouncement) (record : RepoAnnouncementRecord)
    (repo : Forgejo.Repo) :
    linked job a record repo = .idle ∧ (∀ m, RepoMapping.new repo.owner repo.name
        (relayEventFromJob job).pubkey a.identifier ≠ .ok m) ∨
      ∃ mapping, linked job a record repo = .linking job mapping ∧
        mapping.pubkey = record.pubkey ∧ mapping.identifier = a.identifier := by
  unfold linked
  cases hmapping : RepoMapping.new repo.owner repo.name (relayEventFromJob job).pubkey
    a.identifier with
  | error err => exact .inl ⟨rfl, fun _ h => by cases h⟩
  | ok m =>
    refine .inr ⟨_, rfl, rfl, ?_⟩
    rw [RepoMapping.new_eq_ok hmapping]
    rfl

/-- The job that a worker holds while its event is published. -/
def holding : WorkerPhase → Option RelayPublishJob
  | .publishing _ job | .succeeding job | .failing _ job _ => some job
  | _ => none

/-- The job that a worker has marked as published and attends to until its mapping is stored. -/
def attending : WorkerPhase → Option RelayPublishJob
  | .counting job | .storing job _ _ | .ensuring job _ _ | .hooking job _ _ _ | .linking job _ =>
    some job
  | _ => none

end WorkerPhase

/-! ### Workers -/

/-- The outbox, the tables that finalisation writes, and the phases of the workers. -/
structure Publisher where
  system : OutboxSystem
  announcements : Announcements
  mappings : Mappings
  phase : ℕ → WorkerPhase

namespace Publisher

/-- What becomes of the next call of a worker: a call of the storage is served or fails, and the
others are answered by the relay, the Forgejo server and the file system. -/
inductive Reply
  | served
  | fault (message : String)
  | published (result : Except String Unit)
  | repo (result : Except Forgejo.Error Forgejo.Repo)
  | webhook (result : Except Forgejo.Error Unit)
  | provisioned (result : Except ProvisionError CoordinatorAction)

/-- What happens next. -/
inductive Action
  /-- A request takes a number. -/
  | number (request : RelayPublishRequest) (now : ℤ)
  /-- A numbered entry is inserted. -/
  | insert (index : ℕ)
  /-- A worker begins an iteration. -/
  | begin (worker : ℕ) (now : ℤ)
  /-- The next call of a worker. -/
  | advance (worker : ℕ) (reply : Reply)

/-- Nothing is stored, and all workers are between iterations. -/
def empty : Publisher := ⟨.empty, ∅, ∅, fun _ => .idle⟩

/-- A worker goes on to a phase. -/
def go (s : Publisher) (worker : ℕ) (phase : WorkerPhase) : Publisher :=
  { s with phase := Function.update s.phase worker phase }

/-- A call of a worker on the outbox. -/
def drive (s : Publisher) (worker : ℕ) (action : OutboxSystem.Action)
    (next : OutboxSystem.Answer → WorkerPhase) : Option (Publisher × Unit) :=
  (s.system.step action).map fun r => ({ s with system := r.1 }.go worker (next r.2), ())

/-- The next call of a worker. -/
def advance (env : ServiceEnv) (s : Publisher) (worker : ℕ) :
    WorkerPhase → Reply → Option (Publisher × Unit)
  | .claiming now, .served =>
    s.drive worker (.claim worker now) fun
      | .claimed (some job) => .publishing now job
      | _ => .idle
  | .claiming _, .fault _ => some (s.go worker .idle, ())
  | .publishing _ job, .published (.ok _) => some (s.go worker (.succeeding job), ())
  | .publishing now job, .published (.error err) => some (s.go worker (.failing now job err), ())
  | .succeeding job, .served =>
    s.drive worker (.succeed worker) fun
      | .done => .counting job
      | _ => .idle
  | .succeeding _, .fault _ => s.drive worker (.lose worker) fun _ => .idle
  | .failing now job err, .served =>
    s.drive worker (.fail worker err (retryAfter now job.attemptCount)) fun _ => .idle
  | .failing _ _ _, .fault _ => s.drive worker (.lose worker) fun _ => .idle
  | .counting job, .served =>
    if s.system.outbox.pendingRelayPublishes job.pubkey job.identifier job.kind = 0 then
      some (s.go worker (.finalizing env job), ())
    else some (s.go worker .idle, ())
  | .counting _, .fault _ => some (s.go worker .idle, ())
  | .storing job a record, .served =>
    some ({ s with announcements := s.announcements.insertAnnouncement record }.go worker
      (.ensuring job a record), ())
  | .storing _ _ _, .fault _ => some (s.go worker .idle, ())
  | .ensuring job a record, .repo (.ok repo) => some (s.go worker (.hooking job a record repo), ())
  | .ensuring _ _ _, .repo (.error _) => some (s.go worker .idle, ())
  | .hooking job a record repo, .webhook (.ok _) =>
    some (s.go worker (.linked job a record repo), ())
  | .hooking _ _ _ _, .webhook (.error _) => some (s.go worker .idle, ())
  | .linking job record, .served =>
    some ({ s with mappings := s.mappings.upsertMapping record }.go worker (.provisioning job), ())
  | .linking _ _, .fault _ => some (s.go worker .idle, ())
  | .provisioning _, .provisioned _ => some (s.go worker .idle, ())
  | _, _ => none

/-- One step. -/
def step (env : ServiceEnv) (s : Publisher) : Action → Option (Publisher × Unit)
  | .number request now =>
    (s.system.step (.number request now)).map fun r => ({ s with system := r.1 }, ())
  | .insert index => (s.system.step (.insert index)).map fun r => ({ s with system := r.1 }, ())
  | .begin worker now =>
    match s.phase worker with
    | .idle => some (s.go worker (.claiming now), ())
    | _ => none
  | .advance worker reply => advance env s worker (s.phase worker) reply

/-- The phases agree with the outbox: a worker in the middle of a publication holds its job, and the
job that a worker attends to is published. -/
structure Inv (s : Publisher) : Prop where
  system : s.system.Inv
  holds : ∀ worker, s.system.holds worker = (s.phase worker).holding
  attended : ∀ worker job, (s.phase worker).attending = some job →
    (job.id, job.toRelayPublishEntry) ∈ s.system.enqueued ∧ job.id ∈ s.system.succeeded

/-- The call has failed. -/
def Reply.isError : Reply → Bool
  | .fault _ | .repo (.error _) | .webhook (.error _) => true
  | _ => false

/-- What the next call of a worker can do, once the outbox is taken apart. -/
inductive Moves (env : ServiceEnv) (s : Publisher) (worker : ℕ) : Reply → Publisher → Prop
  /-- A call before the mark or after the mapping: nothing is marked as published, and no table is
  written. -/
  | before {reply : Reply} {system : OutboxSystem} {p : WorkerPhase}
    (hbefore : (s.phase worker).attending = none) (hafter : p.attending = none)
    (hdrafts : system.drafts = s.system.drafts)
    (henqueued : system.enqueued = s.system.enqueued)
    (hsucceeded : system.succeeded = s.system.succeeded) :
    Moves env s worker reply ({ s with system }.go worker p)
  /-- The job is marked as published. -/
  | mark {job : RelayPublishJob} {system : OutboxSystem} (hphase : s.phase worker = .succeeding job)
    (hdrafts : system.drafts = s.system.drafts)
    (henqueued : system.enqueued = s.system.enqueued)
    (hsucceeded : system.succeeded = s.system.succeeded ++ [job.id]) :
    Moves env s worker .served ({ s with system }.go worker (.counting job))
  /-- No other job of the repository is pending. -/
  | last {job : RelayPublishJob} (hphase : s.phase worker = .counting job)
    (hpending : s.system.outbox.pendingRelayPublishes job.pubkey job.identifier job.kind = 0) :
    Moves env s worker .served (s.go worker (.finalizing env job))
  /-- Another job of the repository is pending. -/
  | more {job : RelayPublishJob} (hphase : s.phase worker = .counting job)
    (hpending : s.system.outbox.pendingRelayPublishes job.pubkey job.identifier job.kind ≠ 0) :
    Moves env s worker .served (s.go worker .idle)
  /-- The announcement is stored. -/
  | store {job : RelayPublishJob} {a : RepoAnnouncement} {record : RepoAnnouncementRecord}
    (hphase : s.phase worker = .storing job a record) :
    Moves env s worker .served
      ({ s with announcements := s.announcements.insertAnnouncement record }.go worker
        (.ensuring job a record))
  /-- The Forgejo repository exists. -/
  | ensure {job : RelayPublishJob} {a : RepoAnnouncement} {record : RepoAnnouncementRecord}
    {repo : Forgejo.Repo} (hphase : s.phase worker = .ensuring job a record) :
    Moves env s worker (.repo (.ok repo)) (s.go worker (.hooking job a record repo))
  /-- Its web hook exists. -/
  | hook {job : RelayPublishJob} {a : RepoAnnouncement} {record : RepoAnnouncementRecord}
    {repo : Forgejo.Repo} {u : Unit} (hphase : s.phase worker = .hooking job a record repo) :
    Moves env s worker (.webhook (.ok u)) (s.go worker (.linked job a record repo))
  /-- The mapping is stored. -/
  | link {job : RelayPublishJob} {record : RepoMappingRecord}
    (hphase : s.phase worker = .linking job record) :
    Moves env s worker .served
      ({ s with mappings := s.mappings.upsertMapping record }.go worker (.provisioning job))
  /-- A call between the mark and the mapping has failed. -/
  | drop {job : RelayPublishJob} {reply : Reply} (hphase : (s.phase worker).attending = some job)
    (herror : reply.isError = true) : Moves env s worker reply (s.go worker .idle)

theorem drive_eq_some {s t : Publisher} {worker : ℕ} {action : OutboxSystem.Action}
    {next : OutboxSystem.Answer → WorkerPhase} {u : Unit}
    (h : s.drive worker action next = some (t, u)) : ∃ system answer,
      s.system.step action = some (system, answer) ∧
        t = { s with system }.go worker (next answer) := by
  unfold drive at h
  obtain ⟨⟨system, answer⟩, hstep, hr⟩ := Option.map_eq_some_iff.1 h
  cases hr
  exact ⟨system, answer, hstep, rfl⟩

namespace Inv

variable {env : ServiceEnv} {s t : Publisher} {worker : ℕ} {p q : WorkerPhase}

theorem empty : Inv Publisher.empty := by
  refine ⟨.empty, fun _ => rfl, ?_⟩
  intro worker job h
  cases h

/-- A worker goes on to a phase that agrees with the outbox. -/
theorem move (h : Inv s) (system : OutboxSystem) (hsystem : system.Inv)
    (hholds : system.holds = Function.update s.system.holds worker p.holding)
    (henqueued : s.system.enqueued ⊆ system.enqueued)
    (hsucceeded : s.system.succeeded ⊆ system.succeeded)
    (hattending : ∀ job, p.attending = some job →
      (job.id, job.toRelayPublishEntry) ∈ system.enqueued ∧ job.id ∈ system.succeeded) :
    Inv ({ s with system }.go worker p) := by
  refine ⟨hsystem, fun w => ?_, fun w job hjob => ?_⟩
  · show system.holds w = (Function.update s.phase worker p w).holding
    rw [hholds]
    by_cases hw : w = worker
    · rw [hw, Function.update_self, Function.update_self]
    · rw [Function.update_of_ne hw, Function.update_of_ne hw]
      exact h.holds w
  · have hjob : (Function.update s.phase worker p w).attending = some job := hjob
    by_cases hw : w = worker
    · rw [hw, Function.update_self] at hjob
      exact hattending job hjob
    · rw [Function.update_of_ne hw] at hjob
      exact ⟨henqueued (h.attended w job hjob).1, hsucceeded (h.attended w job hjob).2⟩

/-- The same when the outbox is not touched. -/
theorem go (h : Inv s) (hphase : s.phase worker = q) (hholds : p.holding = q.holding)
    (hattending : p.attending = q.attending ∨ p.attending = none) : Inv (s.go worker p) := by
  refine h.move s.system h.system ?_ (fun _ => id) (fun _ => id) fun job hjob => ?_
  · rw [hholds, ← hphase, ← h.holds worker, Function.update_eq_self]
  · rcases hattending with hsame | hnone
    · refine h.attended worker job ?_
      rw [hphase, ← hsame, hjob]
    · rw [hnone] at hjob
      cases hjob

/-- The tables that finalisation writes do not matter. -/
theorem tables (h : Inv s) (announcements : Announcements) (mappings : Mappings) :
    Inv { s with announcements, mappings } :=
  ⟨h.system, h.holds, h.attended⟩

/-- A worker without a claimed job goes back to the start. -/
theorem idle (h : Inv s) (hphase : s.phase worker = q) (hholds : q.holding = none) :
    Inv (s.go worker .idle) :=
  h.go hphase hholds.symm (.inr rfl)

/-- A worker goes on while no job is enqueued and none marked as published. -/
theorem keep (h : Inv s) {system : OutboxSystem} (hsystem : system.Inv)
    (hholds : system.holds = Function.update s.system.holds worker p.holding)
    (henqueued : system.enqueued = s.system.enqueued)
    (hsucceeded : system.succeeded = s.system.succeeded) (hp : p.attending = none) :
    Inv ({ s with system }.go worker p) := by
  refine h.move system hsystem hholds ?_ ?_ ?_
  · rw [henqueued]
    exact List.Subset.refl _
  · rw [hsucceeded]
    exact List.Subset.refl _
  · intro job hjob
    rw [hp] at hjob
    cases hjob

/-- A claim that is served. -/
theorem claiming {now : ℤ} {u : Unit} (h : Inv s) (hphase : s.phase worker = .claiming now)
    (hstep : advance env s worker (.claiming now) .served = some (t, u)) :
    Inv t ∧ Moves env s worker .served t := by
  rw [advance] at hstep
  obtain ⟨system, answer, hsystem, rfl⟩ := drive_eq_some hstep
  obtain ⟨rfl, hholds, hdrafts, henqueued, hsucceeded⟩ := OutboxSystem.step_claim hsystem
  have hbefore : (s.phase worker).attending = none := by
    rw [hphase]
    rfl
  have hinv := h.system.step hsystem
  cases hjob : (s.system.outbox.claimRelayPublish now).1 with
  | none =>
    rw [hjob] at hholds
    exact ⟨h.keep hinv hholds henqueued hsucceeded rfl, .before hbefore rfl hdrafts henqueued
      hsucceeded⟩
  | some job =>
    rw [hjob] at hholds
    exact ⟨h.keep hinv hholds henqueued hsucceeded rfl, .before hbefore rfl hdrafts henqueued
      hsucceeded⟩

/-- A mark of a published event that is served. -/
theorem succeeding {job : RelayPublishJob} {u : Unit} (h : Inv s)
    (hphase : s.phase worker = .succeeding job)
    (hstep : advance env s worker (.succeeding job) .served = some (t, u)) :
    Inv t ∧ Moves env s worker .served t := by
  rw [advance] at hstep
  obtain ⟨system, answer, hsystem, rfl⟩ := drive_eq_some hstep
  have hjob : s.system.holds worker = some job := by
    rw [h.holds, hphase]
    rfl
  obtain ⟨rfl, hholds, hdrafts, henqueued, hsucceeded⟩ := OutboxSystem.step_succeed h.system hjob hsystem
  refine ⟨h.move system (h.system.step hsystem) hholds ?_ ?_ ?_, .mark hphase hdrafts henqueued
    hsucceeded⟩
  · rw [henqueued]
    exact List.Subset.refl _
  · rw [hsucceeded]
    exact List.subset_append_left _ _
  · intro other hother
    cases hother
    rw [henqueued, hsucceeded]
    exact ⟨h.system.mem_enqueued hjob, List.mem_append_right _ List.mem_cons_self⟩

/-- A job that is marked as failed, or lost. -/
theorem unpublished {reply : Reply} {action : OutboxSystem.Action} {u : Unit} (h : Inv s)
    (hphase : s.phase worker = q) (hq : q.attending = none)
    (haction : action = .lose worker ∨ ∃ error retryAt, action = .fail worker error retryAt)
    (hstep : s.drive worker action (fun _ => .idle) = some (t, u)) :
    Inv t ∧ Moves env s worker reply t := by
  obtain ⟨system, answer, hsystem, rfl⟩ := drive_eq_some hstep
  obtain ⟨hholds, hdrafts, henqueued, hsucceeded⟩ := OutboxSystem.step_unpublished haction hsystem
  exact ⟨h.keep (h.system.step hsystem) hholds henqueued hsucceeded rfl,
    .before (hphase ▸ hq) rfl hdrafts henqueued hsucceeded⟩

/-- A call before the mark or after the mapping that touches nothing. -/
theorem still {reply : Reply} (h : Inv s) (hphase : s.phase worker = q) (hq : q.attending = none)
    (hholds : p.holding = q.holding) (hp : p.attending = none) :
    Inv (s.go worker p) ∧ Moves env s worker reply (s.go worker p) :=
  ⟨h.go hphase hholds (.inr hp), .before (hphase ▸ hq) hp rfl rfl rfl⟩

/-- A call between the mark and the mapping that fails. -/
theorem dropped {job : RelayPublishJob} {reply : Reply} (h : Inv s)
    (hphase : s.phase worker = q) (hq : q.attending = some job) (hholds : q.holding = none)
    (herror : reply.isError = true) :
    Inv (s.go worker .idle) ∧ Moves env s worker reply (s.go worker .idle) :=
  ⟨h.idle hphase hholds, .drop (hphase ▸ hq) herror⟩

/-- The count of the pending jobs. -/
theorem counting {job : RelayPublishJob} {u : Unit} (h : Inv s)
    (hphase : s.phase worker = .counting job)
    (hstep : advance env s worker (.counting job) .served = some (t, u)) :
    Inv t ∧ Moves env s worker .served t := by
  rw [advance] at hstep
  split_ifs at hstep with hpending
  · cases hstep
    refine ⟨?_, .last hphase hpending⟩
    rcases WorkerPhase.finalizing_cases env job with ⟨hidle, -⟩ | ⟨a, record, -, hstoring⟩
    · rw [hidle]
      exact h.idle hphase rfl
    · rw [hstoring]
      exact h.go hphase rfl (.inl rfl)
  · cases hstep
    exact ⟨h.idle hphase rfl, .more hphase hpending⟩

/-- The phases stay in agreement with the outbox, and the call is one of the moves. -/
theorem advance {reply : Reply} {u : Unit} (h : Inv s)
    (hstep : Publisher.advance env s worker (s.phase worker) reply = some (t, u)) :
    Inv t ∧ Moves env s worker reply t := by
  cases hphase : s.phase worker with
  | idle =>
    rw [hphase] at hstep
    cases hstep
  | claiming now =>
    rw [hphase] at hstep
    rcases reply with _ | message | result | result | result | result <;> try cases hstep
    · exact h.claiming hphase hstep
    · exact h.still hphase rfl rfl rfl
  | publishing now job =>
    rw [hphase] at hstep
    rcases reply with _ | message | (err | _) | result | result | result <;> cases hstep
    · exact h.still hphase rfl rfl rfl
    · exact h.still hphase rfl rfl rfl
  | succeeding job =>
    rw [hphase] at hstep
    rcases reply with _ | message | result | result | result | result <;> try cases hstep
    · exact h.succeeding hphase hstep
    · exact h.unpublished hphase rfl (.inl rfl) hstep
  | failing now job err =>
    rw [hphase] at hstep
    rcases reply with _ | message | result | result | result | result <;> try cases hstep
    · exact h.unpublished hphase rfl (.inr ⟨_, _, rfl⟩) hstep
    · exact h.unpublished hphase rfl (.inl rfl) hstep
  | counting job =>
    rw [hphase] at hstep
    rcases reply with _ | message | result | result | result | result <;> try cases hstep
    · exact h.counting hphase hstep
    · exact h.dropped hphase rfl rfl rfl
  | storing job a record =>
    rw [hphase] at hstep
    rcases reply with _ | message | result | result | result | result <;> cases hstep
    · exact ⟨(h.tables _ s.mappings).go hphase rfl (.inl rfl), .store hphase⟩
    · exact h.dropped hphase rfl rfl rfl
  | ensuring job a record =>
    rw [hphase] at hstep
    rcases reply with _ | message | result | (err | repo) | result | result <;> cases hstep
    · exact h.dropped hphase rfl rfl rfl
    · exact ⟨h.go hphase rfl (.inl rfl), .ensure hphase⟩
  | hooking job a record repo =>
    rw [hphase] at hstep
    rcases reply with _ | message | result | result | (err | _) | result <;> cases hstep
    · exact h.dropped hphase rfl rfl rfl
    · refine ⟨?_, .hook hphase⟩
      rcases WorkerPhase.linked_cases job a record repo with ⟨hidle, -⟩ | ⟨mapping, hlinking, -⟩
      · rw [hidle]
        exact h.idle hphase rfl
      · rw [hlinking]
        exact h.go hphase rfl (.inl rfl)
  | linking job record =>
    rw [hphase] at hstep
    rcases reply with _ | message | result | result | result | result <;> cases hstep
    · exact ⟨(h.tables s.announcements _).go hphase rfl (.inr rfl), .link hphase⟩
    · exact h.dropped hphase rfl rfl rfl
  | provisioning job =>
    rw [hphase] at hstep
    rcases reply with _ | message | result | result | result | result <;> cases hstep
    exact h.still hphase rfl rfl rfl

/-- The outbox takes a step in which no worker claims or marks a job. -/
theorem enqueue {action : OutboxSystem.Action} {system : OutboxSystem}
    {answer : OutboxSystem.Answer} (h : Inv s)
    (haction : (∃ request now, action = .number request now) ∨ ∃ index, action = .insert index)
    (hstep : s.system.step action = some (system, answer)) : Inv { s with system } := by
  obtain ⟨hholds, henqueued, hsucceeded⟩ := OutboxSystem.step_enqueue haction hstep
  refine ⟨h.system.step hstep, fun worker => ?_, fun worker job hjob => ?_⟩
  · exact (congrFun hholds worker).trans (h.holds worker)
  · obtain ⟨hmem, hdone⟩ := h.attended worker job hjob
    exact ⟨henqueued.subset hmem, hsucceeded ▸ hdone⟩

/-- What a step can do: requests are numbered and inserted, a worker begins an iteration, or it makes
one of the moves. -/
theorem step_cases {action : Action} {u : Unit} (h : Inv s)
    (hstep : step env s action = some (t, u)) : Inv t ∧
      ((∃ enqueue answer system, s.system.step enqueue = some (system, answer) ∧
          ((∃ request now, action = .number request now ∧ enqueue = .number request now) ∨
            ∃ index, enqueue = .insert index) ∧ t = { s with system }) ∨
        (∃ worker now, action = .begin worker now ∧ s.phase worker = .idle ∧
          t = s.go worker (.claiming now)) ∨
        ∃ worker reply, action = .advance worker reply ∧ Moves env s worker reply t) := by
  cases action with
  | number request now =>
    rw [step] at hstep
    obtain ⟨⟨system, answer⟩, hsystem, hr⟩ := Option.map_eq_some_iff.1 hstep
    cases hr
    exact ⟨h.enqueue (.inl ⟨request, now, rfl⟩) hsystem,
      .inl ⟨_, answer, system, hsystem, .inl ⟨request, now, rfl, rfl⟩, rfl⟩⟩
  | insert index =>
    rw [step] at hstep
    obtain ⟨⟨system, answer⟩, hsystem, hr⟩ := Option.map_eq_some_iff.1 hstep
    cases hr
    exact ⟨h.enqueue (.inr ⟨index, rfl⟩) hsystem,
      .inl ⟨_, answer, system, hsystem, .inr ⟨index, rfl⟩, rfl⟩⟩
  | begin worker now =>
    rw [step] at hstep
    cases hphase : s.phase worker with
    | idle =>
      rw [hphase] at hstep
      cases hstep
      exact ⟨h.go hphase rfl (.inr rfl), .inr (.inl ⟨worker, now, rfl, hphase, rfl⟩)⟩
    | _ =>
      rw [hphase] at hstep
      cases hstep
  | advance worker reply =>
    obtain ⟨hinv, hmoves⟩ := h.advance hstep
    exact ⟨hinv, .inr (.inr ⟨worker, reply, rfl, hmoves⟩)⟩

end Inv

/-- A call leaves the outbox as it is, drives it without losing a job, or is a mark that fails. -/
theorem advance_system {env : ServiceEnv} {s t : Publisher} {worker : ℕ} {reply : Reply} {u : Unit}
    (hstep : advance env s worker (s.phase worker) reply = some (t, u)) :
    t.system = s.system ∨
      (∃ action answer, s.system.step action = some (t.system, answer) ∧
        ∀ w, action ≠ .lose w) ∨
      (s.phase worker).holding ≠ none ∧ reply.isError = true := by
  cases hphase : s.phase worker with
  | claiming now =>
    rw [hphase] at hstep
    rcases reply with _ | message | result | result | result | result <;> try cases hstep
    · rw [advance] at hstep
      obtain ⟨system, answer, hsystem, rfl⟩ := drive_eq_some hstep
      exact .inr (.inl ⟨_, answer, hsystem, by simp⟩)
    · exact .inl rfl
  | succeeding job =>
    rw [hphase] at hstep
    rcases reply with _ | message | result | result | result | result <;> try cases hstep
    · rw [advance] at hstep
      obtain ⟨system, answer, hsystem, rfl⟩ := drive_eq_some hstep
      exact .inr (.inl ⟨_, answer, hsystem, by simp⟩)
    · exact .inr (.inr ⟨by simp [WorkerPhase.holding], rfl⟩)
  | failing now job err =>
    rw [hphase] at hstep
    rcases reply with _ | message | result | result | result | result <;> try cases hstep
    · rw [advance] at hstep
      obtain ⟨system, answer, hsystem, rfl⟩ := drive_eq_some hstep
      exact .inr (.inl ⟨_, answer, hsystem, by simp⟩)
    · exact .inr (.inr ⟨by simp [WorkerPhase.holding], rfl⟩)
  | counting job =>
    rw [hphase] at hstep
    rcases reply with _ | message | result | result | result | result <;> try cases hstep
    · rw [advance] at hstep
      split_ifs at hstep <;> cases hstep <;> exact .inl rfl
    · exact .inl rfl
  | _ =>
    rw [hphase] at hstep
    rcases reply with _ | message | (err | _) | (err | repo) | (err | _) | result <;> cases hstep <;>
      exact .inl rfl

/-! ### The phases follow the program -/

/-- The answer that a call gets in a state. -/
def answer (s : Publisher) : (call : LoopCall) → Reply → Option call.Answer
  | .claim now, .served => some (.ok (s.system.outbox.claimRelayPublish now).1)
  | .publish _, .published result => some result
  | .markSucceeded id, .served => some ((s.system.outbox.markRelayPublishSucceeded id).map fun _ => ())
  | .markFailed id error retryAt, .served =>
    some ((s.system.outbox.markRelayPublishFailed id error retryAt).map fun _ => ())
  | .pending pubkey identifier kind, .served =>
    some (.ok (s.system.outbox.pendingRelayPublishes pubkey identifier kind))
  | .insertAnnouncement _, .served => some (.ok ())
  | .ensureRepo _ _ _, .repo result => some result
  | .ensureWebhook _ _, .webhook result => some result
  | .upsertMapping _, .served => some (.ok ())
  | .provision _, .provisioned result => some result
  | .claim _, .fault message => some (.error (.internal message))
  | .markSucceeded _, .fault message => some (.error (.internal message))
  | .markFailed _ _ _, .fault message => some (.error (.internal message))
  | .pending _ _ _, .fault message => some (.error (.internal message))
  | .insertAnnouncement _, .fault message => some (.error (.internal message))
  | .upsertMapping _, .fault message => some (.error (.internal message))
  | _, _ => none

/-- A worker makes the next call of its program, and goes on with the answer. -/
def Follows (env : ServiceEnv) (s t : Publisher) (worker : ℕ) (reply : Reply) : Prop :=
  ∃ (call : LoopCall) (next : call.Answer → LoopProg Unit) (result : call.Answer),
    (s.phase worker).program env = .call call next ∧ s.answer call reply = some result ∧
      (t.phase worker).program env = next result

theorem phase_go (s : Publisher) (worker : ℕ) (p : WorkerPhase) : (s.go worker p).phase worker = p := by
  unfold go
  exact Function.update_self worker p s.phase

theorem program_advance {env : ServiceEnv} {s t : Publisher} {worker : ℕ} {reply : Reply} {u : Unit}
    (h : Inv s) (hstep : advance env s worker (s.phase worker) reply = some (t, u)) :
    Follows env s t worker reply := by
  unfold Follows
  cases hphase : s.phase worker with
  | idle =>
    rw [hphase] at hstep
    cases hstep
  | claiming now =>
    rw [hphase] at hstep
    rcases reply with _ | message | result | result | result | result <;> try cases hstep
    · rw [advance] at hstep
      obtain ⟨system, answer, hsystem, rfl⟩ := drive_eq_some hstep
      obtain ⟨rfl, -⟩ := OutboxSystem.step_claim hsystem
      refine ⟨_, _, _, rfl, rfl, ?_⟩
      rw [phase_go]
      cases (s.system.outbox.claimRelayPublish now).1 with
      | none => rfl
      | some job => rfl
    · exact ⟨_, _, _, rfl, rfl, by rw [phase_go]; rfl⟩
  | publishing now job =>
    rw [hphase] at hstep
    rcases reply with _ | message | (err | _) | result | result | result <;> cases hstep
    · exact ⟨_, _, _, rfl, rfl, by rw [phase_go]; rfl⟩
    · exact ⟨_, _, _, rfl, rfl, by rw [phase_go]; rfl⟩
  | succeeding job =>
    have hjob : s.system.holds worker = some job := by
      rw [h.holds, hphase]
      rfl
    rw [hphase] at hstep
    rcases reply with _ | message | result | result | result | result <;> try cases hstep
    · rw [advance] at hstep
      obtain ⟨system, answer, hsystem, rfl⟩ := drive_eq_some hstep
      obtain ⟨rfl, -⟩ := OutboxSystem.step_succeed h.system hjob hsystem
      refine ⟨_, _, _, rfl, rfl, ?_⟩
      rw [phase_go, Outbox.markRelayPublishSucceeded,
        Outbox.modifyExisting_of_mem (h.system.mem_ids_of_held hjob)]
      rfl
    · rw [advance] at hstep
      obtain ⟨system, answer, -, rfl⟩ := drive_eq_some hstep
      exact ⟨_, _, _, rfl, rfl, by rw [phase_go]; rfl⟩
  | failing now job err =>
    rw [hphase] at hstep
    rcases reply with _ | message | result | result | result | result <;> try cases hstep
    · rw [advance] at hstep
      obtain ⟨system, answer, -, rfl⟩ := drive_eq_some hstep
      exact ⟨_, _, _, rfl, rfl, by rw [phase_go]; rfl⟩
    · rw [advance] at hstep
      obtain ⟨system, answer, -, rfl⟩ := drive_eq_some hstep
      exact ⟨_, _, _, rfl, rfl, by rw [phase_go]; rfl⟩
  | counting job =>
    rw [hphase] at hstep
    rcases reply with _ | message | result | result | result | result <;> try cases hstep
    · rw [advance] at hstep
      refine ⟨_, _, _, rfl, rfl, ?_⟩
      split_ifs at hstep with hpending
      · cases hstep
        rw [phase_go, hpending]
        exact WorkerPhase.program_finalizing env job
      · cases hstep
        rw [phase_go]
        obtain ⟨n, hn⟩ := Nat.exists_eq_succ_of_ne_zero hpending
        rw [hn]
        rfl
    · exact ⟨_, _, _, rfl, rfl, by rw [phase_go]; rfl⟩
  | storing job a record =>
    rw [hphase] at hstep
    rcases reply with _ | message | result | result | result | result <;> cases hstep
    · exact ⟨_, _, _, rfl, rfl, by rw [phase_go]; rfl⟩
    · exact ⟨_, _, _, rfl, rfl, by rw [phase_go]; rfl⟩
  | ensuring job a record =>
    rw [hphase] at hstep
    rcases reply with _ | message | result | (err | repo) | result | result <;> cases hstep
    · exact ⟨_, _, _, rfl, rfl, by rw [phase_go]; rfl⟩
    · exact ⟨_, _, _, rfl, rfl, by rw [phase_go]; rfl⟩
  | hooking job a record repo =>
    rw [hphase] at hstep
    rcases reply with _ | message | result | result | (err | _) | result <;> cases hstep
    · exact ⟨_, _, _, rfl, rfl, by rw [phase_go]; rfl⟩
    · refine ⟨_, _, _, rfl, rfl, ?_⟩
      rw [phase_go]
      exact WorkerPhase.program_linked env job a record repo
  | linking job record =>
    rw [hphase] at hstep
    rcases reply with _ | message | result | result | result | result <;> cases hstep
    · exact ⟨_, _, _, rfl, rfl, by rw [phase_go]; rfl⟩
    · exact ⟨_, _, _, rfl, rfl, by rw [phase_go]; rfl⟩
  | provisioning job =>
    rw [hphase] at hstep
    rcases reply with _ | message | result | result | result | (err | done) <;> cases hstep
    · exact ⟨_, _, _, rfl, rfl, by rw [phase_go]; rfl⟩
    · exact ⟨_, _, _, rfl, rfl, by rw [phase_go]; rfl⟩

end Publisher
end Gittree
