import Gittree.Services.Control
import Gittree.Services.Publisher

/-!
# What the publishing loop stores

A worker that has marked its job as published attends to it until the announcement and the mapping
of its event are stored.  It stops earlier if another job of the same key is pending, and if a call
fails.

* `Attended.move`: an event that is attended to stays so, unless its worker stops;
* `retriable_of_reach`: what failed can be retried, if the calls fail only where the outbox makes up
  for it.
-/

namespace Gittree

open Rust

/-- The record that the finalisation of a job stores. -/
def recordOf (env : ServiceEnv) (job : RelayPublishJob) : Option RepoAnnouncementRecord :=
  match LoopProg.finalPlan env job with
  | .ok (some (_, record)) => some record
  | _ => none

theorem recordOf_eq_some {env : ServiceEnv} {job : RelayPublishJob} {record : RepoAnnouncementRecord} :
    recordOf env job = some record ↔ ∃ a, LoopProg.finalPlan env job = .ok (some (a, record)) := by
  unfold recordOf
  rcases LoopProg.finalPlan env job with err | _ | ⟨a, found⟩
  · simp
  · simp
  · simp

/-- Jobs of the same event have the same record. -/
theorem recordOf_congr {env : ServiceEnv} {job other : RelayPublishJob}
    (h : relayEventFromJob other = relayEventFromJob job) :
    recordOf env other = recordOf env job := by
  unfold recordOf LoopProg.finalPlan
  rw [h]

/-- The plan of a finalisation: an announcement, and the record made of it. -/
theorem LoopProg.finalPlan_eq_some {env : ServiceEnv} {job : RelayPublishJob} {a : RepoAnnouncement}
    {record : RepoAnnouncementRecord} :
    LoopProg.finalPlan env job = .ok (some (a, record)) ↔
      parseEvent env (relayEventFromJob job) = .ok (.repoAnnouncement a) ∧
        RepoAnnouncementRecord.new (relayEventFromJob job).eventId (relayEventFromJob job).pubkey
          (relayEventFromJob job).createdAt a = .ok record := by
  unfold LoopProg.finalPlan
  rw [Result.bind_eq_ok]
  constructor
  · rintro ⟨parsed, hparsed, h⟩
    cases parsed with
    | repoAnnouncement b =>
      obtain ⟨found, hfound, h⟩ := Result.bind_eq_ok.1 h
      cases Result.pure_eq_ok.1 h
      exact ⟨hparsed, Result.mapError_eq_ok.1 hfound⟩
    | _ => cases Result.pure_eq_ok.1 h
  · rintro ⟨hparsed, hrecord⟩
    refine ⟨_, hparsed, ?_⟩
    simp only [Result.bind_eq_ok, Result.pure_eq_ok]
    exact ⟨record, Result.mapError_eq_ok.2 hrecord, rfl⟩

namespace Publisher

/-- The announcement of a record is stored. -/
def Stored (s : Publisher) (record : RepoAnnouncementRecord) : Prop :=
  record ∈ s.announcements.listAnnouncements record.pubkey record.identifier

/-- The announcement of a record is stored, and so is a mapping of its repository. -/
def Complete (s : Publisher) (record : RepoAnnouncementRecord) : Prop :=
  s.Stored record ∧ (s.mappings.mappingByRepo record.pubkey record.identifier).isSome = true

/-- The record is complete, or a worker attends to one of the given jobs. -/
def Attended (s : Publisher) (jobs : RelayPublishJob → Prop) (record : RepoAnnouncementRecord) :
    Prop :=
  s.Complete record ∨ ∃ worker job, (s.phase worker).attending = some job ∧ jobs job

/-- A phase carries the announcement and the record of its job. -/
def Planned (env : ServiceEnv) (s : Publisher) : WorkerPhase → Prop
  | .storing job a record => LoopProg.finalPlan env job = .ok (some (a, record))
  | .ensuring job a record | .hooking job a record _ =>
    LoopProg.finalPlan env job = .ok (some (a, record)) ∧ s.Stored record
  | .linking job mapping => ∃ a record, LoopProg.finalPlan env job = .ok (some (a, record)) ∧
    s.Stored record ∧ mapping.pubkey = record.pubkey ∧ mapping.identifier = record.identifier
  | _ => True

/-- The call fails, or Forgejo answers a name that no mapping can have. -/
def Fails (s : Publisher) (worker : ℕ) (reply : Reply) : Prop :=
  reply.isError = true ∨ ∃ job a record repo, s.phase worker = .hooking job a record repo ∧
    ∀ m, RepoMapping.new repo.owner repo.name (relayEventFromJob job).pubkey a.identifier ≠ .ok m

section

variable {env : ServiceEnv} {s t : Publisher} {worker : ℕ} {reply : Reply}
  {record : RepoAnnouncementRecord} {jobs : RelayPublishJob → Prop}

theorem Stored.insert (h : s.Stored record) (other : RepoAnnouncementRecord) :
    { s with announcements := s.announcements.insertAnnouncement other }.Stored record := by
  unfold Stored at h ⊢
  rw [Announcements.listAnnouncements_insert]
  split_ifs
  · exact List.mem_append_left _ h
  · exact h

theorem stored_insert (s : Publisher) (record : RepoAnnouncementRecord) :
    { s with announcements := s.announcements.insertAnnouncement record }.Stored record := by
  unfold Stored
  rw [Announcements.listAnnouncements_insert, if_pos ⟨rfl, rfl⟩]
  exact List.mem_append_right _ List.mem_cons_self

/-- What is stored stays stored. -/
theorem Stored.move (h : s.Stored record) (hmove : Moves env s worker reply t) :
    t.Stored record := by
  cases hmove with
  | store hphase => exact h.insert _
  | _ => exact h

theorem Complete.move (h : s.Complete record) (hmove : Moves env s worker reply t) :
    t.Complete record := by
  refine ⟨h.1.move hmove, ?_⟩
  cases hmove with
  | link hphase =>
    show ((s.mappings.upsertMapping _).mappingByRepo record.pubkey record.identifier).isSome = true
    rw [Mappings.mappingByRepo_upsert]
    split_ifs
    · rfl
    · exact h.2
  | _ => exact h.2

/-- Only the phase of the worker changes. -/
theorem Moves.phase_of_ne (hmove : Moves env s worker reply t) {w : ℕ} (hw : w ≠ worker) :
    t.phase w = s.phase w := by
  cases hmove <;> exact Function.update_of_ne hw _ _

/-- A plan stays as good as it is while the announcements grow. -/
theorem Planned.mono {p : WorkerPhase} (h : Planned env s p)
    (hstored : ∀ record, s.Stored record → t.Stored record) : Planned env t p := by
  cases p with
  | ensuring job a record => exact ⟨h.1, hstored _ h.2⟩
  | hooking job a record repo => exact ⟨h.1, hstored _ h.2⟩
  | linking job mapping =>
    obtain ⟨a, record, hplan, hs, hkey⟩ := h
    exact ⟨a, record, hplan, hstored _ hs, hkey⟩
  | storing job a record => exact h
  | _ => trivial

/-- A phase in which no job is attended to carries no plan. -/
theorem planned_of_attending {p : WorkerPhase} (h : p.attending = none) : Planned env s p := by
  cases p <;> trivial

/-- The next phase of a worker carries the plan on. -/
theorem Planned.move (h : Planned env s (s.phase worker)) (hmove : Moves env s worker reply t) :
    Planned env t (t.phase worker) := by
  cases hmove with
  | before hbefore hafter hdrafts henqueued hsucceeded =>
    rw [phase_go]
    exact planned_of_attending hafter
  | mark hphase hdrafts henqueued hsucceeded =>
    rw [phase_go]
    trivial
  | @last job hphase hpending =>
    rw [phase_go]
    rcases WorkerPhase.finalizing_cases env job with ⟨hidle, -⟩ | ⟨a, record, hplan, hstoring⟩
    · rw [hidle]
      trivial
    · rw [hstoring]
      exact hplan
  | more hphase hpending =>
    rw [phase_go]
    trivial
  | store hphase =>
    rw [hphase] at h
    rw [phase_go]
    exact ⟨h, stored_insert s _⟩
  | ensure hphase =>
    rw [hphase] at h
    rw [phase_go]
    exact h
  | @hook job a record repo u hphase =>
    rw [hphase] at h
    rw [phase_go]
    have hlinked := WorkerPhase.linked_cases job a record repo
    generalize WorkerPhase.linked job a record repo = phase at hlinked ⊢
    rcases hlinked with ⟨rfl, -⟩ | ⟨mapping, rfl, hpubkey, hidentifier⟩
    · trivial
    · refine ⟨a, record, h.1, h.2, hpubkey, hidentifier.trans ?_⟩
      exact (RepoAnnouncementRecord.madeOf (LoopProg.finalPlan_eq_some.1 h.1).2).identifier.symm
  | link hphase =>
    rw [phase_go]
    trivial
  | drop hphase herror =>
    rw [phase_go]
    trivial

/-- An event that is attended to stays so, unless the worker that attends to it stops: because
another job of its key is pending, or because its call fails. -/
theorem Attended.move (h : s.Attended jobs record) (hplanned : Planned env s (s.phase worker))
    (hjobs : ∀ job, jobs job → recordOf env job = some record)
    (hmove : Moves env s worker reply t) :
    t.Attended jobs record ∨ ∃ job, (s.phase worker).attending = some job ∧ jobs job ∧
      (s.Fails worker reply ∨ s.phase worker = .counting job ∧ reply = .served ∧
        s.system.outbox.pendingRelayPublishes job.pubkey job.identifier job.kind ≠ 0) := by
  rcases h with hcomplete | ⟨w, job, hjob, hmine⟩
  · exact .inl (.inl (hcomplete.move hmove))
  by_cases hw : w = worker
  swap
  · refine .inl (.inr ⟨w, job, ?_, hmine⟩)
    rw [hmove.phase_of_ne hw, hjob]
  subst hw
  obtain ⟨a, hplan⟩ := recordOf_eq_some.1 (hjobs job hmine)
  -- the worker itself attends to the event
  cases hmove with
  | before hbefore hafter hdrafts henqueued hsucceeded =>
    rw [hbefore] at hjob
    cases hjob
  | mark hphase hdrafts henqueued hsucceeded =>
    rw [hphase] at hjob
    cases hjob
  | last hphase hpending =>
    rw [hphase] at hjob
    cases hjob
    refine .inl (.inr ⟨w, job, ?_, hmine⟩)
    rw [phase_go, WorkerPhase.finalizing, hplan]
    rfl
  | more hphase hpending =>
    rw [hphase] at hjob
    cases hjob
    refine .inr ⟨job, ?_, hmine, .inr ⟨hphase, rfl, hpending⟩⟩
    rw [hphase]
    rfl
  | store hphase =>
    rw [hphase] at hjob
    cases hjob
    exact .inl (.inr ⟨w, job, by rw [phase_go]; rfl, hmine⟩)
  | ensure hphase =>
    rw [hphase] at hjob
    cases hjob
    exact .inl (.inr ⟨w, job, by rw [phase_go]; rfl, hmine⟩)
  | @hook job' b record' repo u hphase =>
    have hattending := hjob
    rw [hphase] at hjob
    cases hjob
    rcases WorkerPhase.linked_cases job b record' repo with ⟨-, hrejected⟩ | ⟨mapping, hlinking, -⟩
    · exact .inr ⟨job, hattending, hmine, .inl (.inr ⟨job, b, record', repo, hphase, hrejected⟩)⟩
    · refine .inl (.inr ⟨w, job, ?_, hmine⟩)
      rw [phase_go, hlinking]
      rfl
  | @link job' mapping hphase =>
    rw [hphase] at hjob hplanned
    cases hjob
    obtain ⟨b, found, hfound, hstored, hpubkey, hidentifier⟩ := hplanned
    cases hplan.symm.trans hfound
    refine .inl (.inl ⟨hstored, ?_⟩)
    show ((s.mappings.upsertMapping mapping).mappingByRepo record.pubkey record.identifier).isSome = true
    rw [Mappings.mappingByRepo_upsert, if_pos ⟨hpubkey, hidentifier⟩]
    rfl
  | drop hphase herror => exact .inr ⟨job, hjob, hmine, .inl (.inl herror)⟩

end

/-- What a call does to the lists of the outbox. -/
theorem Moves.lists {env : ServiceEnv} {s t : Publisher} {worker : ℕ} {reply : Reply}
    (hmove : Moves env s worker reply t) :
    t.system.drafts = s.system.drafts ∧ t.system.enqueued = s.system.enqueued ∧
      (t.system.succeeded = s.system.succeeded ∨ ∃ job, s.phase worker = .succeeding job ∧
        t.phase worker = .counting job ∧ t.system.succeeded = s.system.succeeded ++ [job.id]) := by
  cases hmove with
  | before hbefore hafter hdrafts henqueued hsucceeded => exact ⟨hdrafts, henqueued, .inl hsucceeded⟩
  | mark hphase hdrafts henqueued hsucceeded =>
    exact ⟨hdrafts, henqueued, .inr ⟨_, hphase, phase_go _ _ _, hsucceeded⟩⟩
  | _ => exact ⟨rfl, rfl, .inl rfl⟩

/-- The phases carry their plans throughout. -/
theorem planned_step {env : ServiceEnv} {s t : Publisher} {action : Action} {u : Unit} (h : Inv s)
    (hplanned : ∀ worker, Planned env s (s.phase worker))
    (hstep : step env s action = some (t, u)) : ∀ worker, Planned env t (t.phase worker) := by
  intro w
  obtain ⟨-, ⟨enqueue, answer, system, -, -, rfl⟩ | ⟨worker, now, -, hphase, rfl⟩ |
    ⟨worker, reply, -, hmove⟩⟩ := h.step_cases hstep
  · exact (hplanned w).mono fun _ => id
  · by_cases hw : w = worker
    · rw [hw, phase_go]
      trivial
    · rw [show (s.go worker (.claiming now)).phase w = s.phase w from Function.update_of_ne hw _ _]
      exact (hplanned w).mono fun _ => id
  · by_cases hw : w = worker
    · rw [hw]
      exact (hplanned worker).move hmove
    · rw [hmove.phase_of_ne hw]
      exact (hplanned w).mono fun _ hstored => hstored.move hmove

/-- A worker that begins an iteration attended to nothing. -/
theorem Attended.begin {s : Publisher} {jobs : RelayPublishJob → Prop} {now : ℤ}
    {record : RepoAnnouncementRecord} {worker : ℕ} (h : s.Attended jobs record)
    (hphase : s.phase worker = .idle) : (s.go worker (.claiming now)).Attended jobs record := by
  rcases h with hcomplete | ⟨w, job, hjob, hmine⟩
  · exact .inl hcomplete
  · refine .inr ⟨w, job, ?_, hmine⟩
    have hw : w ≠ worker := by
      rintro rfl
      rw [hphase] at hjob
      cases hjob
    exact (congrArg WorkerPhase.attending (Function.update_of_ne hw _ _)).trans hjob

/-! ### Runs of one worker -/

section

/-- A request to publish an announcement of the signer's repository. -/
def announceRequest (relayUrl : String) (event : NostrEvent) : RelayPublishRequest where
  relayUrl
  eventId := event.id
  pubkey := event.pubkey
  createdAt := event.createdAt
  kind := event.kind
  tags := event.tags
  content := event.content
  sig := event.sig
  forgejoOwner := "alice"
  forgejoRepo := "repo"
  identifier := "repo"

/-- A request takes a number and is inserted. -/
def enqueue (request : RelayPublishRequest) (now : ℤ) : List Action :=
  [.number request now, .insert 0]

/-- An iteration of the first worker. -/
def iteration (now : ℤ) (replies : List Reply) : List Action :=
  .begin 0 now :: replies.map (.advance 0)

/-- The replies to a claim, a publication and its mark. -/
def published : List Reply := [.served, .published (.ok ()), .served]

/-- The replies to the calls of a finalisation. -/
def finalized : List Reply :=
  [.served, .repo (.ok ⟨"alice", "repo", "alice/repo", none⟩), .webhook (.ok ()), .served,
    .provisioned (.ok .ignored)]

/-- The first worker makes the call. -/
def Action.isFirst : Action → Bool
  | .begin worker _ | .advance worker _ => worker == 0
  | _ => true

/-- The call succeeds, and Forgejo answers the name of a repository. -/
def calm (s : Publisher) : Action → Bool
  | .advance worker reply => !reply.isError && match s.phase worker with
    | .hooking job a _ repo => (RepoMapping.new repo.owner repo.name (relayEventFromJob job).pubkey
        a.identifier).isOk
    | _ => true
  | _ => true

theorem not_fails_of_calm {s : Publisher} {worker : ℕ} {reply : Reply}
    (h : s.calm (.advance worker reply) = true) : ¬ s.Fails worker reply := by
  unfold calm at h
  rw [Bool.and_eq_true, Bool.not_eq_true'] at h
  rintro (herror | ⟨job, a, record, repo, hphase, hrejected⟩)
  · rw [h.1] at herror
    cases herror
  · have hnamed := h.2
    rw [hphase] at hnamed
    simp only at hnamed
    cases hnew : RepoMapping.new repo.owner repo.name (relayEventFromJob job).pubkey a.identifier with
    | ok m => exact hrejected m hnew
    | error err =>
      rw [hnew] at hnamed
      cases hnamed

/-- The first worker is between iterations. -/
def isIdle (s : Publisher) : Bool :=
  match s.phase 0 with
  | .idle => true
  | _ => false

/-- A run of the first worker alone ends between iterations if that worker does. -/
theorem idle_of_reach {env : ServiceEnv} {ok : Publisher → Action → Prop} {s : Publisher}
    (h : Runs.Reach (step env) (fun s action => ok s action ∧ action.isFirst = true) (· = empty) s)
    (hidle : s.isIdle = true) (worker : ℕ) : s.phase worker = .idle := by
  have hothers : s.Inv ∧ ∀ w ≠ 0, s.phase w = .idle := by
    refine h.invariant (I := fun s => s.Inv ∧ ∀ w ≠ 0, s.phase w = .idle) ?_ ?_
    · rintro s rfl
      exact ⟨.empty, fun _ _ => rfl⟩
    · rintro s action t u ⟨hinv, hs⟩ ⟨-, hfirst⟩ hstep
      obtain ⟨ht, ⟨enqueue, answer, system, -, -, rfl⟩ | ⟨worker, now, rfl, -, rfl⟩ |
        ⟨worker, reply, rfl, hmove⟩⟩ := hinv.step_cases hstep
      · exact ⟨ht, hs⟩
      · obtain rfl : worker = 0 := by simpa [Action.isFirst] using hfirst
        exact ⟨ht, fun w hw => (Function.update_of_ne hw _ _).trans (hs w hw)⟩
      · obtain rfl : worker = 0 := by simpa [Action.isFirst] using hfirst
        exact ⟨ht, fun w hw => (hmove.phase_of_ne hw).trans (hs w hw)⟩
  by_cases hw : worker = 0
  · rw [hw]
    unfold isIdle at hidle
    split at hidle
    · assumption
    · cases hidle
  · exact hothers.2 worker hw

theorem reach_of_exec {env : ServiceEnv} {ok : Publisher → Action → Prop}
    [∀ s action, Decidable (ok s action)] {actions : List Action} {s : Publisher}
    {answers : List Unit}
    (h : Runs.exec (Runs.guarded (step env) fun s action => ok s action ∧ action.isFirst = true) empty
      actions = some (s, answers)) (hidle : s.isIdle = true) :
    Runs.Reach (step env) ok (· = empty) s ∧ ∀ worker, s.phase worker = .idle := by
  have hreach : Runs.Reach (step env) (fun s action => ok s action ∧ action.isFirst = true)
      (· = empty) s := .of_exec_guarded rfl h
  exact ⟨hreach.mono fun _ _ hok => hok.1, idle_of_reach hreach hidle⟩

end

/-! ### Calls that fail -/

/-- A call after the claim of a job fails only where the outbox makes up for it: it is not a mark, and
the job is not the last of its key to be published, another job of the key is not published yet, or
the event is stored already. -/
def Recoverable (env : ServiceEnv) (s : Publisher) : Action → Prop
  | .advance worker reply => s.Fails worker reply →
    (s.phase worker).holding = none ∧
      ∀ job, (s.phase worker).attending = some job → s.system.LastPublished job →
        (∃ e ∈ s.system.outbox.entries, e.job.isFor job.pubkey job.identifier job.kind = true ∧
          e.status ≠ .published) ∨
        ∀ record, recordOf env job = some record → s.Complete record
  | _ => True

/-- What failed can be retried: a job in the middle of a publication has a worker, and the last event
of a key all of whose jobs are published is stored once the workers are between iterations. -/
structure Retriable (env : ServiceEnv) (s : Publisher) : Prop where
  held : ∀ e ∈ s.system.outbox.entries, e.status = .publishing →
    ∃ worker job, (s.phase worker).holding = some job ∧ job.id = e.job.id
  complete : (∀ worker, s.phase worker = .idle) → ∀ pubkey identifier kind,
    (∃ e ∈ s.system.outbox.entries, e.job.isFor pubkey identifier kind = true) →
    (∀ e ∈ s.system.outbox.entries, e.job.isFor pubkey identifier kind = true →
      e.status = .published) →
    ∃ e ∈ s.system.outbox.entries, e.job.isFor pubkey identifier kind = true ∧
      s.system.LastPublished e.job ∧ ∀ record, recordOf env e.job = some record → s.Complete record

/-- The jobs with the number and the entry of a job. -/
def SameJob (job other : RelayPublishJob) : Prop :=
  (other.id, other.toRelayPublishEntry) = (job.id, job.toRelayPublishEntry)

namespace SameJob

variable {system : OutboxSystem} {job other : RelayPublishJob}

theorem lastPublished (h : SameJob job other) (hlast : system.LastPublished job) :
    system.LastPublished other := by
  obtain ⟨hid, hentry⟩ := Prod.mk.inj h
  unfold OutboxSystem.LastPublished at hlast ⊢
  rwa [hid, hentry]

theorem waiting (h : SameJob job other) (hwaits : system.Waiting other) : system.Waiting job := by
  obtain ⟨-, hentry⟩ := Prod.mk.inj h
  unfold OutboxSystem.Waiting at hwaits ⊢
  rwa [hentry] at hwaits

theorem recordOf_eq {env : ServiceEnv} (h : SameJob job other) :
    recordOf env other = recordOf env job := by
  obtain ⟨-, hentry⟩ := Prod.mk.inj h
  refine recordOf_congr ?_
  unfold relayEventFromJob
  rw [hentry]

end SameJob

/-- The last job of a key is attended to, or another job of its key waits. -/
structure RetryInv (env : ServiceEnv) (s : Publisher) : Prop where
  inv : s.Inv
  planned : ∀ worker, Planned env s (s.phase worker)
  held : s.system.AllHeld
  kept : ∀ job, (job.id, job.toRelayPublishEntry) ∈ s.system.enqueued →
    s.system.LastPublished job → s.system.Waiting job ∨
      ∀ record, recordOf env job = some record → s.Attended (SameJob job) record

namespace RetryInv

variable {env : ServiceEnv} {s t : Publisher} {worker : ℕ} {reply : Reply}

theorem empty : RetryInv env Publisher.empty := by
  refine ⟨.empty, fun _ => trivial, ?_, ?_⟩
  · intro e he
    cases he
  · intro job hjob
    cases hjob

/-- No job is left in the middle of its publication. -/
theorem allHeld_step {action : Action} {u : Unit} (h : RetryInv env s)
    (hok : Recoverable env s action) (hstep : step env s action = some (t, u)) :
    t.system.AllHeld := by
  cases action with
  | advance worker reply =>
    rcases advance_system hstep with hsame | ⟨enqueue, answer, hsystem, hlose⟩ | ⟨hholding, herror⟩
    · rw [hsame]
      exact h.held
    · exact h.held.step h.inv.system hlose hsystem
    · exact absurd (hok (.inl herror)).1 hholding
  | number request now =>
    rw [step] at hstep
    obtain ⟨⟨system, answer⟩, hsystem, hr⟩ := Option.map_eq_some_iff.1 hstep
    cases hr
    exact h.held.step h.inv.system (by simp) hsystem
  | insert index =>
    rw [step] at hstep
    obtain ⟨⟨system, answer⟩, hsystem, hr⟩ := Option.map_eq_some_iff.1 hstep
    cases hr
    exact h.held.step h.inv.system (by simp) hsystem
  | begin worker now =>
    rw [step] at hstep
    cases hphase : s.phase worker with
    | idle =>
      rw [hphase] at hstep
      cases hstep
      exact h.held
    | _ =>
      rw [hphase] at hstep
      cases hstep

/-- The last jobs after requests have been numbered or inserted. -/
theorem kept_enqueue {system : OutboxSystem} (h : RetryInv env s) (hsystem : system.Inv)
    (henqueued : s.system.enqueued <+: system.enqueued)
    (hsucceeded : system.succeeded = s.system.succeeded) {job : RelayPublishJob}
    (hjob : (job.id, job.toRelayPublishEntry) ∈ system.enqueued)
    (hlast : system.LastPublished job) : system.Waiting job ∨
      ∀ record, recordOf env job = some record → s.Attended (SameJob job) record := by
  have hold := hlast.of_prefix henqueued hsucceeded
  -- a published job was enqueued before
  have hmem : (job.id, job.toRelayPublishEntry) ∈ s.system.enqueued := by
    obtain ⟨e, he, hid⟩ := List.mem_map.1 (h.inv.system.succeeded _ hold.mem)
    have hentry : (job.id, e.job.toRelayPublishEntry) ∈ s.system.enqueued := by
      rw [← h.inv.system.kept, ← hid]
      exact List.mem_map.2 ⟨e, he, rfl⟩
    rwa [hsystem.eq_of_mem_enqueued hjob (henqueued.subset hentry)]
  rcases h.kept job hmem hold with ⟨other, hother, hkey, hwaits⟩ | hattended
  · exact .inl ⟨other, henqueued.subset hother, hkey, hsucceeded ▸ hwaits⟩
  · exact .inr hattended

/-- The last jobs after a call that marks no job as published. -/
theorem kept_unmarked (h : RetryInv env s) (hok : Recoverable env s (.advance worker reply))
    (hmove : Moves env s worker reply t) (hsucceeded : t.system.succeeded = s.system.succeeded)
    {job : RelayPublishJob} (hjob : (job.id, job.toRelayPublishEntry) ∈ t.system.enqueued)
    (hlast : t.system.LastPublished job) : t.system.Waiting job ∨
      ∀ record, recordOf env job = some record → t.Attended (SameJob job) record := by
  have henqueued := hmove.lists.2.1
  have hwaiting : s.system.Waiting job → t.system.Waiting job := by
    rintro ⟨other, hother, hkey, hwaits⟩
    exact ⟨other, henqueued ▸ hother, hkey, hsucceeded ▸ hwaits⟩
  have hold := hlast.of_prefix (henqueued ▸ List.prefix_rfl) hsucceeded
  rcases h.kept job (henqueued ▸ hjob) hold with hwaits | hattended
  · exact .inl (hwaiting hwaits)
  by_cases hwaits : s.system.Waiting job
  · exact .inl (hwaiting hwaits)
  refine .inr fun record hrecord => ?_
  have hjobs : ∀ other, SameJob job other → recordOf env other = some record :=
    fun other hother => hother.recordOf_eq.trans hrecord
  -- the worker stops only if another job of the key waits, or if the event is stored already
  rcases (hattended record hrecord).move (h.planned worker) hjobs hmove with
    hdone | ⟨other, hattending, hsame, hfails | ⟨hphase, -, hpending⟩⟩
  · exact hdone
  · rcases (hok hfails).2 other hattending (SameJob.lastPublished hsame hold) with hexists | hcomplete
    · have hwait := (OutboxSystem.waiting_iff_exists h.inv.system).2 hexists
      exact absurd (SameJob.waiting hsame hwait) hwaits
    · exact .inl ((hcomplete record (hjobs other hsame)).move hmove)
  · have hwait := (OutboxSystem.waiting_iff h.inv.system).2 hpending
    exact absurd (SameJob.waiting hsame hwait) hwaits

/-- The last jobs after a job has been marked as published. -/
theorem kept_marked {marked : RelayPublishJob} (h : RetryInv env s)
    (hphase : s.phase worker = .succeeding marked) (hcounting : t.phase worker = .counting marked)
    (hmove : Moves env s worker reply t)
    (hsucceeded : t.system.succeeded = s.system.succeeded ++ [marked.id]) {job : RelayPublishJob}
    (hjob : (job.id, job.toRelayPublishEntry) ∈ t.system.enqueued)
    (hlast : t.system.LastPublished job) : t.system.Waiting job ∨
      ∀ record, recordOf env job = some record → t.Attended (SameJob job) record := by
  have henqueued := hmove.lists.2.1
  have hmarked : (marked.id, marked.toRelayPublishEntry) ∈ s.system.enqueued := by
    refine h.inv.system.mem_enqueued (?_ : s.system.holds worker = some marked)
    rw [h.inv.holds, hphase]
    rfl
  rw [henqueued] at hjob
  rcases hlast.of_append henqueued hsucceeded hmarked with hid | ⟨hold, hkey⟩
  · -- the worker goes on to attend to the job
    refine .inr fun record _ => .inr ⟨worker, marked, by rw [hcounting]; rfl, ?_⟩
    rw [hid] at hjob
    exact Prod.ext hid.symm (h.inv.system.eq_of_mem_enqueued hmarked hjob)
  · rcases h.kept job hjob hold with ⟨other, hother, hotherkey, hwaits⟩ | hattended
    · refine .inl ⟨other, henqueued ▸ hother, hotherkey, ?_⟩
      rw [hsucceeded, List.mem_append, List.mem_singleton]
      rintro (hmem | hid)
      · exact hwaits hmem
      · rw [show other = (marked.id, other.2) from Prod.ext hid rfl] at hother
        rw [← h.inv.system.eq_of_mem_enqueued hmarked hother, hkey] at hotherkey
        cases hotherkey
    · refine .inr fun record hrecord => ?_
      rcases (hattended record hrecord).move (h.planned worker)
        (fun other hother => (SameJob.recordOf_eq hother).trans hrecord) hmove with
        hdone | ⟨other, hattending, -⟩
      · exact hdone
      · rw [hphase] at hattending
        cases hattending

/-- One step. -/
theorem step {action : Action} {u : Unit} (h : RetryInv env s) (hok : Recoverable env s action)
    (hstep : Publisher.step env s action = some (t, u)) : RetryInv env t := by
  obtain ⟨hinv, hcases⟩ := h.inv.step_cases hstep
  refine ⟨hinv, planned_step h.inv h.planned hstep, h.allHeld_step hok hstep, ?_⟩
  intro job hjob hlast
  rcases hcases with ⟨enqueue, answer, system, hsystem, henqueue, rfl⟩ |
    ⟨worker, now, -, hphase, rfl⟩ | ⟨worker, reply, rfl, hmove⟩
  · have haction : (∃ request now, enqueue = .number request now) ∨
        ∃ index, enqueue = .insert index := by
      rcases henqueue with ⟨request, now, -, rfl⟩ | hinsert
      · exact .inl ⟨request, now, rfl⟩
      · exact .inr hinsert
    obtain ⟨-, hprefix, hsucceeded⟩ := OutboxSystem.step_enqueue haction hsystem
    exact h.kept_enqueue hinv.system hprefix hsucceeded hjob hlast
  · rcases h.kept job hjob hlast with hwaits | hattended
    · exact .inl hwaits
    · exact .inr fun record hrecord => (hattended record hrecord).begin hphase
  · rcases hmove.lists.2.2 with hsame | ⟨marked, hphase, hcounting, happend⟩
    · exact h.kept_unmarked hok hmove hsame hjob hlast
    · exact h.kept_marked hphase hcounting hmove happend hjob hlast

/-- The laws follow from the invariant. -/
theorem laws (h : RetryInv env s) : Retriable env s := by
  refine ⟨fun e he hstatus => ?_, fun hidle pubkey identifier kind hexists hall => ?_⟩
  · obtain ⟨worker, job, hjob, hid⟩ := h.held e he hstatus
    exact ⟨worker, job, (h.inv.holds worker).symm.trans hjob, hid⟩
  · obtain ⟨e, he, hkey⟩ := hexists
    obtain ⟨last, hlast, hlastkey, hlastPublished⟩ :=
      OutboxSystem.exists_lastPublished h.inv.system he hkey (hall e he hkey)
    refine ⟨last, hlast, hlastkey, hlastPublished, fun record hrecord => ?_⟩
    rcases h.kept last.job (h.inv.system.mem_enqueued_of_mem hlast) hlastPublished with
      hwaits | hattended
    · obtain ⟨other, hother, hotherkey, hstatus⟩ :=
        (OutboxSystem.waiting_iff_exists h.inv.system).1 hwaits
      obtain ⟨hkind, hidentifier, hpubkey⟩ := RelayPublishEntry.isFor_iff.1 hlastkey
      rw [hkind, hidentifier, hpubkey] at hotherkey
      exact absurd (hall other hother hotherkey) hstatus
    · rcases hattended record hrecord with hcomplete | ⟨worker, job, hattending, -⟩
      · exact hcomplete
      · rw [hidle worker] at hattending
        cases hattending

end RetryInv

/-- In every run whose calls fail only where the outbox makes up for it, what failed can be retried. -/
theorem retriable_of_reach {env : ServiceEnv} {s : Publisher}
    (h : Runs.Reach (step env) (Recoverable env) (· = empty) s) : Retriable env s := by
  have hinv : RetryInv env s := by
    refine h.invariant (I := RetryInv env) ?_ ?_
    · rintro s rfl
      exact .empty
    · intro s action t answer hs hok hstep
      exact hs.step hok hstep
  exact hinv.laws

/-- Every job is for an announcement of the signer's repository. -/
def isSigners (env : ServiceEnv) (s : Publisher) : Bool :=
  s.system.outbox.entries.all fun e => e.job.isFor signerKey "repo" kindGitRepoAnnouncement &&
    (recordOf env e.job).any fun record => record.pubkey == signerKey && record.identifier == "repo"

theorem of_isSigners {env : ServiceEnv} {s : Publisher} (h : s.isSigners env = true)
    {e : OutboxEntry} (he : e ∈ s.system.outbox.entries) :
    e.job.isFor signerKey "repo" kindGitRepoAnnouncement = true ∧
      ∃ record, recordOf env e.job = some record ∧ record.pubkey = signerKey ∧
        record.identifier = "repo" := by
  have hall := List.all_eq_true.1 h e he
  simp only [Bool.and_eq_true, Option.any_eq_true, beq_iff_eq] at hall
  exact hall

/-- One relay and one worker: a mark that fails leaves the job in the middle of its publication, and
a count that fails leaves a repository whose only job is published without its announcement. -/
theorem not_retriable_of_fault : ∃ s t : Publisher,
    Runs.Reach (step signerEnv) (fun _ _ => True) (· = empty) s ∧
      Runs.Reach (step signerEnv) (fun _ _ => True) (· = empty) t ∧
      s.system.outbox.entries.map OutboxEntry.status = [.publishing] ∧
      (∀ worker, s.phase worker = .idle) ∧ ¬ Retriable signerEnv s ∧
      t.system.outbox.entries.map OutboxEntry.status = [.published] ∧
      (∀ worker, t.phase worker = .idle) ∧
      t.announcements.listAnnouncements signerKey "repo" = [] ∧ ¬ Retriable signerEnv t := by
  have hmark : ((Runs.exec (Runs.guarded (step signerEnv) fun _ action => True ∧ action.isFirst = true)
      empty (enqueue (announceRequest "wss://relay.example" signedAnnouncement) 0 ++
        iteration 1 [.served, .published (.ok ()), .fault "timeout"])).map
          fun r => (r.1.isIdle, r.1.system.outbox.entries.map OutboxEntry.status)) =
      some (true, [.publishing]) := by
    decide +kernel
  have hcount : ((Runs.exec (Runs.guarded (step signerEnv) fun _ action => True ∧ action.isFirst = true)
      empty (enqueue (announceRequest "wss://relay.example" signedAnnouncement) 0 ++
        iteration 1 (published ++ [.fault "timeout"]))).map
          fun r => (r.1.isIdle, r.1.isSigners signerEnv,
            r.1.system.outbox.entries.map OutboxEntry.status,
            (r.1.announcements.listAnnouncements signerKey "repo").length)) =
      some (true, true, [.published], 0) := by
    decide +kernel
  obtain ⟨⟨s, sanswers⟩, hsexec, hs⟩ := Option.map_eq_some_iff.1 hmark
  obtain ⟨⟨t, tanswers⟩, htexec, ht⟩ := Option.map_eq_some_iff.1 hcount
  simp only [Prod.mk.injEq, List.length_eq_zero_iff] at hs ht
  obtain ⟨hsidle, hsstatus⟩ := hs
  obtain ⟨htidle, htsigners, htstatus, htlist⟩ := ht
  obtain ⟨hsreach, hsidle⟩ := reach_of_exec hsexec hsidle
  obtain ⟨htreach, htidle⟩ := reach_of_exec htexec htidle
  refine ⟨s, t, hsreach, htreach, hsstatus, hsidle, fun hretriable => ?_, htstatus, htidle, htlist,
    fun hretriable => ?_⟩
  · have hmem : RelayPublishStatus.publishing ∈ s.system.outbox.entries.map OutboxEntry.status := by
      rw [hsstatus]
      exact List.mem_cons_self
    obtain ⟨e, he, hstatus⟩ := List.mem_map.1 hmem
    obtain ⟨worker, job, hholding, -⟩ := hretriable.held e he hstatus
    rw [hsidle worker] at hholding
    cases hholding
  · have hpublished : ∀ e ∈ t.system.outbox.entries, e.status = .published := by
      intro e he
      have hmem := List.mem_map_of_mem (f := OutboxEntry.status) he
      rwa [htstatus, List.mem_singleton] at hmem
    have hmem : RelayPublishStatus.published ∈ t.system.outbox.entries.map OutboxEntry.status := by
      rw [htstatus]
      exact List.mem_cons_self
    obtain ⟨e, he, -⟩ := List.mem_map.1 hmem
    obtain ⟨last, hlast, -, -, hcomplete⟩ := hretriable.complete htidle signerKey "repo"
      kindGitRepoAnnouncement ⟨e, he, (of_isSigners htsigners he).1⟩ fun e he _ => hpublished e he
    obtain ⟨record, hrecord, hpubkey, hidentifier⟩ := (of_isSigners htsigners hlast).2
    have hstored : record ∈ t.announcements.listAnnouncements record.pubkey record.identifier :=
      (hcomplete record hrecord).1
    rw [hpubkey, hidentifier, htlist] at hstored
    cases hstored

/-- The call does not fail, or it is a count while another job of the key is not published. -/
def recovers (s : Publisher) : Action → Bool
  | .advance worker reply => s.calm (.advance worker reply) || match s.phase worker with
    | .counting job => s.system.outbox.entries.any fun e =>
      e.job.isFor job.pubkey job.identifier job.kind && e.status != .published
    | _ => false
  | _ => true

theorem recoverable_of_recovers {env : ServiceEnv} {s : Publisher} {action : Action}
    (h : s.recovers action = true) : Recoverable env s action := by
  cases action with
  | advance worker reply =>
    intro hfails
    unfold recovers at h
    rw [Bool.or_eq_true] at h
    rcases h with hcalm | hcounting
    · exact absurd hfails (not_fails_of_calm hcalm)
    · cases hphase : s.phase worker with
      | counting job =>
        rw [hphase] at hcounting
        refine ⟨rfl, fun other hother _ => .inl ?_⟩
        cases hother
        simpa using hcounting
      | _ =>
        rw [hphase] at hcounting
        cases hcounting
  | _ => trivial

/-- Two relays and one worker: a count fails, and the second job makes up for it. -/
theorem retriable_of_reach_twoRelays : ∃ s : Publisher,
    Runs.Reach (step signerEnv) (Recoverable signerEnv) (· = empty) s ∧
      s.system.outbox.entries.map OutboxEntry.status = [.published, .published] ∧
      (s.announcements.listAnnouncements signerKey "repo").length = 1 ∧ Retriable signerEnv s := by
  have hrun : ((Runs.exec (Runs.guarded (step signerEnv) fun s action =>
      s.recovers action = true ∧ action.isFirst = true) empty
        (enqueue (announceRequest "wss://a.example" signedAnnouncement) 0 ++
          enqueue (announceRequest "wss://b.example" signedAnnouncement) 0 ++
          iteration 1 (published ++ [.fault "timeout"]) ++
          iteration 2 (published ++ [.served] ++ finalized))).map
          fun r => (r.1.isIdle, r.1.system.outbox.entries.map OutboxEntry.status,
            (r.1.announcements.listAnnouncements signerKey "repo").length)) =
      some (true, [.published, .published], 1) := by
    decide +kernel
  obtain ⟨⟨s, answers⟩, hexec, hs⟩ := Option.map_eq_some_iff.1 hrun
  simp only [Prod.mk.injEq] at hs
  have hreach : Runs.Reach (step signerEnv) (Recoverable signerEnv) (· = empty) s :=
    (reach_of_exec hexec hs.1).1.mono fun _ _ hok => recoverable_of_recovers hok
  exact ⟨s, hreach, hs.2.1, hs.2.2, retriable_of_reach hreach⟩

end Publisher
end Gittree
