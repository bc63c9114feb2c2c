import Gittree.Lib.Runs
import Gittree.Storage.Outbox

/-!
# Workers at the outbox

Any number of workers claim jobs of the outbox and mark the job they hold, while jobs are enqueued.
A request takes its number before its entry is inserted, so that entries may be inserted in another
order than that of their numbers.  A worker may also lose its job without marking it.

Three fields serve the specification only: `enqueued` lists what has been inserted, `claims` the
numbers in the order in which they were claimed, and `succeeded` those that were marked as published.

* `OutboxSystem.Inv`: the invariant that links the table, the workers and the three lists;
* `exclusive_of_reach`: the laws of the outbox, in every state of every run.
-/

namespace Gittree

open Rust

/-- The outbox, the entries that have a number but are not inserted yet, and the job that each worker
holds. -/
structure OutboxSystem where
  outbox : Outbox
  drafts : List OutboxEntry
  holds : ℕ → Option RelayPublishJob
  enqueued : List (ℕ × RelayPublishEntry)
  claims : List ℕ
  succeeded : List ℕ

namespace OutboxSystem

/-- What happens next. -/
inductive Action
  /-- A request is decoded and takes a number. -/
  | number (request : RelayPublishRequest) (now : ℤ)
  /-- The entry with an index among the drafts is inserted. -/
  | insert (index : ℕ)
  /-- A worker without a job claims one. -/
  | claim (worker : ℕ) (now : ℤ)
  /-- A worker marks its job as published. -/
  | succeed (worker : ℕ)
  /-- A worker marks its job as failed. -/
  | fail (worker : ℕ) (error : String) (retryAt : ℤ)
  /-- A worker loses its job. -/
  | lose (worker : ℕ)

/-- The answers to actions. -/
inductive Answer
  | done
  | claimed (job : Option RelayPublishJob)
  | rejected (err : StorageError)

/-- Nothing is enqueued and no worker has a job. -/
def empty : OutboxSystem := ⟨∅, [], fun _ => none, [], [], []⟩

/-- The worker no longer holds a job. -/
def release (s : OutboxSystem) (worker : ℕ) : OutboxSystem :=
  { s with holds := Function.update s.holds worker none }

/-- A mark of the job that a worker holds. -/
def mark (s : OutboxSystem) (worker : ℕ) (succeeded : List ℕ) :
    Except StorageError Outbox → OutboxSystem × Answer
  | .ok outbox => ({ s.release worker with outbox, succeeded }, .done)
  | .error err => (s.release worker, .rejected err)

/-- One step. -/
def step (s : OutboxSystem) : Action → Option (OutboxSystem × Answer)
  | .number request now =>
    match request.decode with
    | .error err => some (s, .rejected err)
    | .ok entry =>
      some ({ s with
        outbox := { s.outbox with seq := s.outbox.seq + 1 }
        drafts := s.drafts ++ [Outbox.newEntry (s.outbox.seq + 1) entry now] }, .done)
  | .insert index =>
    match s.drafts[index]? with
    | none => none
    | some draft =>
      some ({ s with
        outbox := { s.outbox with entries := s.outbox.entries ++ [draft] }
        drafts := s.drafts.eraseIdx index
        enqueued := s.enqueued ++ [(draft.job.id, draft.job.toRelayPublishEntry)] }, .done)
  | .claim worker now =>
    match s.holds worker with
    | some _ => none
    | none =>
      let claimed := s.outbox.claimRelayPublish now
      some ({ s with
        outbox := claimed.2
        holds := Function.update s.holds worker claimed.1
        claims := s.claims ++ (claimed.1.map RelayPublishJob.id).toList }, .claimed claimed.1)
  | .succeed worker =>
    match s.holds worker with
    | none => none
    | some job =>
      some (s.mark worker (s.succeeded ++ [job.id]) (s.outbox.markRelayPublishSucceeded job.id))
  | .fail worker error retryAt =>
    match s.holds worker with
    | none => none
    | some job =>
      some (s.mark worker s.succeeded (s.outbox.markRelayPublishFailed job.id error retryAt))
  | .lose worker =>
    match s.holds worker with
    | none => none
    | some _ => some (s.release worker, .done)

/-- What one step does, with what the action found before it. -/
inductive Moves (s : OutboxSystem) : Action → OutboxSystem → Answer → Prop
  | refused (request : RelayPublishRequest) (now : ℤ) {err : StorageError}
      (hdecode : request.decode = .error err) :
    Moves s (.number request now) s (.rejected err)
  | numbered (request : RelayPublishRequest) (now : ℤ) {entry : RelayPublishEntry}
      (hdecode : request.decode = .ok entry) :
    Moves s (.number request now) { s with
      outbox := { s.outbox with seq := s.outbox.seq + 1 }
      drafts := s.drafts ++ [Outbox.newEntry (s.outbox.seq + 1) entry now] } .done
  | inserted (index : ℕ) {draft : OutboxEntry} (hdraft : s.drafts[index]? = some draft) :
    Moves s (.insert index) { s with
      outbox := { s.outbox with entries := s.outbox.entries ++ [draft] }
      drafts := s.drafts.eraseIdx index
      enqueued := s.enqueued ++ [(draft.job.id, draft.job.toRelayPublishEntry)] } .done
  | claimed (worker : ℕ) (now : ℤ) (hworker : s.holds worker = none) :
    Moves s (.claim worker now) { s with
      outbox := (s.outbox.claimRelayPublish now).2
      holds := Function.update s.holds worker (s.outbox.claimRelayPublish now).1
      claims := s.claims ++ ((s.outbox.claimRelayPublish now).1.map RelayPublishJob.id).toList }
      (.claimed (s.outbox.claimRelayPublish now).1)
  | succeeded (worker : ℕ) {job : RelayPublishJob} {t : OutboxSystem} {answer : Answer}
      (hworker : s.holds worker = some job)
      (hmark : s.mark worker (s.succeeded ++ [job.id])
        (s.outbox.markRelayPublishSucceeded job.id) = (t, answer)) :
    Moves s (.succeed worker) t answer
  | failed (worker : ℕ) (error : String) (retryAt : ℤ) {job : RelayPublishJob} {t : OutboxSystem}
      {answer : Answer} (hworker : s.holds worker = some job)
      (hmark : s.mark worker s.succeeded
        (s.outbox.markRelayPublishFailed job.id error retryAt) = (t, answer)) :
    Moves s (.fail worker error retryAt) t answer
  | lost (worker : ℕ) {job : RelayPublishJob} (hworker : s.holds worker = some job) :
    Moves s (.lose worker) (s.release worker) .done

theorem moves_of_step {s t : OutboxSystem} {action : Action} {answer : Answer}
    (hstep : step s action = some (t, answer)) : Moves s action t answer := by
  cases action with
  | number request now =>
    unfold step at hstep
    cases hdecode : request.decode with
    | error err =>
      simp only [hdecode] at hstep
      cases hstep
      exact .refused request now hdecode
    | ok entry =>
      simp only [hdecode] at hstep
      cases hstep
      exact .numbered request now hdecode
  | insert index =>
    unfold step at hstep
    cases hdraft : s.drafts[index]? with
    | none =>
      simp only [hdraft] at hstep
      cases hstep
    | some draft =>
      simp only [hdraft] at hstep
      cases hstep
      exact .inserted index hdraft
  | claim worker now =>
    unfold step at hstep
    cases hworker : s.holds worker with
    | some job =>
      simp only [hworker] at hstep
      cases hstep
    | none =>
      simp only [hworker] at hstep
      cases hstep
      exact .claimed worker now hworker
  | succeed worker =>
    unfold step at hstep
    cases hworker : s.holds worker with
    | none =>
      simp only [hworker] at hstep
      cases hstep
    | some job =>
      simp only [hworker] at hstep
      exact .succeeded worker hworker (Option.some.inj hstep)
  | fail worker error retryAt =>
    unfold step at hstep
    cases hworker : s.holds worker with
    | none =>
      simp only [hworker] at hstep
      cases hstep
    | some job =>
      simp only [hworker] at hstep
      exact .failed worker error retryAt hworker (Option.some.inj hstep)
  | lose worker =>
    unfold step at hstep
    cases hworker : s.holds worker with
    | none =>
      simp only [hworker] at hstep
      cases hstep
    | some job =>
      simp only [hworker] at hstep
      cases hstep
      exact .lost worker hworker

/-- The laws of the outbox. -/
structure Exclusive (s : OutboxSystem) : Prop where
  /-- No two jobs have the same number. -/
  unique : s.outbox.ids.Nodup
  /-- What has been enqueued is there, as it was enqueued. -/
  kept : s.outbox.entries.map (fun e => (e.job.id, e.job.toRelayPublishEntry)) = s.enqueued
  /-- No two workers hold the same job. -/
  held : ∀ i j a b, s.holds i = some a → s.holds j = some b → a.id = b.id → i = j
  /-- A claim answers the pending job with the smallest number whose time has come. -/
  first : ∀ now job t, s.outbox.claimRelayPublish now = (some job, t) →
    ∃ e ∈ s.outbox.entries, job = (e.claim now).job ∧ e.status = .pending ∧
      e.job.publishAfter ≤ now ∧ ∀ other ∈ s.outbox.entries, other.status = .pending →
        other.job.publishAfter ≤ now → job.id ≤ other.job.id
  /-- It answers nothing only if there is no such job. -/
  none : ∀ now t, s.outbox.claimRelayPublish now = (none, t) → ∀ e ∈ s.outbox.entries,
    e.status = .pending → now < e.job.publishAfter
  /-- A job that is published is not claimed again. -/
  never : ∀ now job t, s.outbox.claimRelayPublish now = (some job, t) → job.id ∉ s.succeeded
  /-- The attempts of a job are its claims. -/
  attempts : ∀ e ∈ s.outbox.entries, e.job.attemptCount = s.claims.count e.job.id
  /-- The pending count counts the jobs of a key that are not marked as published. -/
  pending : ∀ pubkey identifier kind, s.outbox.pendingRelayPublishes pubkey identifier kind =
    s.enqueued.countP fun job => job.2.isFor pubkey identifier kind && !s.succeeded.contains job.1

/-- The table, the workers and the lists belong together. -/
structure Inv (s : OutboxSystem) : Prop where
  unique : (s.outbox.ids ++ s.drafts.map fun e => e.job.id).Nodup
  numbered : ∀ id ∈ s.outbox.ids ++ s.drafts.map fun e => e.job.id, id ≤ s.outbox.seq
  drafts : ∀ e ∈ s.drafts, e.status = .pending ∧ e.job.attemptCount = 0
  kept : s.outbox.entries.map (fun e => (e.job.id, e.job.toRelayPublishEntry)) = s.enqueued
  held : ∀ i job, s.holds i = some job →
    ∃ e ∈ s.outbox.entries, e.job = job ∧ e.status = .publishing
  exclusive : ∀ i j a b, s.holds i = some a → s.holds j = some b → a.id = b.id → i = j
  claims : ∀ id ∈ s.claims, id ∈ s.outbox.ids
  succeeded : ∀ id ∈ s.succeeded, id ∈ s.outbox.ids
  attempts : ∀ e ∈ s.outbox.entries, e.job.attemptCount = s.claims.count e.job.id
  published : ∀ e ∈ s.outbox.entries, e.status = .published ↔ e.job.id ∈ s.succeeded

/-- The job of a worker after a change of one worker's job. -/
theorem holds_update {holds : ℕ → Option RelayPublishJob} {worker i : ℕ}
    {held : Option RelayPublishJob} {job : RelayPublishJob}
    (h : Function.update holds worker held i = some job) :
    i = worker ∧ held = some job ∨ i ≠ worker ∧ holds i = some job := by
  by_cases hi : i = worker
  · subst hi
    exact .inl ⟨rfl, by rwa [Function.update_self] at h⟩
  · exact .inr ⟨hi, by rwa [Function.update_of_ne hi] at h⟩

namespace Inv

variable {s t : OutboxSystem}

theorem empty : Inv OutboxSystem.empty := by
  constructor <;> simp [OutboxSystem.empty, Outbox.ids, EmptyCollection.emptyCollection]

theorem nodup_ids (h : Inv s) : s.outbox.ids.Nodup := (List.nodup_append.1 h.unique).1

/-- A job that is held is in the table. -/
theorem mem_ids_of_held (h : Inv s) {worker : ℕ} {job : RelayPublishJob}
    (hjob : s.holds worker = some job) : job.id ∈ s.outbox.ids := by
  obtain ⟨e, he, rfl, -⟩ := h.held worker job hjob
  exact List.mem_map_of_mem he

/-- A request takes the next number. -/
theorem number (h : Inv s) (entry : RelayPublishEntry) (now : ℤ) :
    Inv { s with
      outbox := { s.outbox with seq := s.outbox.seq + 1 }
      drafts := s.drafts ++ [Outbox.newEntry (s.outbox.seq + 1) entry now] } := by
  refine ⟨?_, ?_, ?_, h.kept, h.held, h.exclusive, h.claims, h.succeeded, h.attempts, h.published⟩
  · rw [List.map_append, ← List.append_assoc, List.nodup_append]
    refine ⟨h.unique, List.nodup_singleton _, ?_⟩
    rintro a ha b hb rfl
    have := h.numbered a ha
    rw [List.mem_singleton.1 hb] at this
    simp [Outbox.newEntry] at this
  · intro id hid
    rw [List.map_append, ← List.append_assoc, List.mem_append] at hid
    rcases hid with hid | hid
    · exact (h.numbered id hid).trans (Nat.le_succ _)
    · rw [List.mem_singleton.1 hid]
      exact le_rfl
  · intro e he
    rcases List.mem_append.1 he with he | he
    · exact h.drafts e he
    · rw [List.mem_singleton.1 he]
      exact ⟨rfl, rfl⟩

/-- A numbered entry is inserted. -/
theorem insert (h : Inv s) {index : ℕ} {draft : OutboxEntry} (hdraft : s.drafts[index]? = some draft) :
    Inv { s with
      outbox := { s.outbox with entries := s.outbox.entries ++ [draft] }
      drafts := s.drafts.eraseIdx index
      enqueued := s.enqueued ++ [(draft.job.id, draft.job.toRelayPublishEntry)] } := by
  have hmem : draft ∈ s.drafts := List.mem_of_getElem? hdraft
  -- the numbers are the same, in another order
  have hperm : (s.outbox.ids ++ s.drafts.map fun e => e.job.id).Perm
      ((s.outbox.entries ++ [draft]).map (fun e => e.job.id) ++
        (s.drafts.eraseIdx index).map fun e => e.job.id) := by
    obtain ⟨hlt, rfl⟩ := List.getElem?_eq_some_iff.1 hdraft
    have herase := (List.getElem_cons_eraseIdx_perm hlt).map fun e => e.job.id
    rw [List.map_append, List.append_assoc]
    exact (herase.symm.append_left s.outbox.ids)
  have hfresh : draft.job.id ∉ s.outbox.ids := fun hid =>
    List.disjoint_of_nodup_append h.unique hid (List.mem_map_of_mem hmem)
  refine ⟨hperm.nodup_iff.1 h.unique, fun id hid => h.numbered id (hperm.mem_iff.2 hid),
    fun e he => h.drafts e (List.mem_of_mem_eraseIdx he), ?_, ?_, h.exclusive, ?_, ?_, ?_, ?_⟩
  · rw [List.map_append, h.kept]
    rfl
  · intro i job hjob
    obtain ⟨e, he, hejob⟩ := h.held i job hjob
    exact ⟨e, List.mem_append_left _ he, hejob⟩
  · intro id hid
    simp only [Outbox.ids, List.map_append, List.mem_append]
    exact .inl (h.claims id hid)
  · intro id hid
    simp only [Outbox.ids, List.map_append, List.mem_append]
    exact .inl (h.succeeded id hid)
  · intro e he
    rcases List.mem_append.1 he with he | he
    · exact h.attempts e he
    · rw [List.mem_singleton.1 he, (h.drafts draft hmem).2, List.count_eq_zero.2]
      exact fun hid => hfresh (h.claims _ hid)
  · intro e he
    rcases List.mem_append.1 he with he | he
    · exact h.published e he
    · rw [List.mem_singleton.1 he, (h.drafts draft hmem).1]
      exact iff_of_false (by simp) fun hid => hfresh (h.succeeded _ hid)

/-- The due job with the smallest number is claimed. -/
theorem claim (h : Inv s) {worker : ℕ} {now : ℤ} {e : OutboxEntry} (he : e ∈ s.outbox.entries)
    (hdue : e.isDue now = true) :
    Inv { s with
      outbox := s.outbox.modify e.job.id (OutboxEntry.claim now)
      holds := Function.update s.holds worker (some (e.claim now).job)
      claims := s.claims ++ [e.job.id] } := by
  have hids : (s.outbox.modify e.job.id (OutboxEntry.claim now)).ids = s.outbox.ids :=
    Outbox.ids_modify fun _ => rfl
  have hpending : e.status = .pending := by
    simp only [OutboxEntry.isDue, Bool.and_eq_true, beq_iff_eq] at hdue
    exact hdue.1
  -- nobody holds the job, for it is pending
  have hfree : ∀ i job, s.holds i = some job → job.id ≠ e.job.id := by
    intro i job hjob hid
    obtain ⟨found, hfound, rfl, hstatus⟩ := h.held i job hjob
    rw [List.inj_on_of_nodup_map h.nodup_ids hfound he hid, hpending] at hstatus
    cases hstatus
  refine ⟨hids ▸ h.unique, hids ▸ h.numbered, h.drafts, ?_, ?_, ?_, ?_, hids ▸ h.succeeded, ?_, ?_⟩
  · have hmap : ∀ x : OutboxEntry, ((x.claim now).job.id, (x.claim now).job.toRelayPublishEntry) =
        (x.job.id, x.job.toRelayPublishEntry) := fun _ => rfl
    exact (Outbox.map_modify hmap).trans h.kept
  · intro i job hjob
    rcases holds_update hjob with ⟨-, hjob⟩ | ⟨-, hjob⟩
    · cases hjob
      exact ⟨e.claim now, Outbox.mem_modify.2 ⟨e, he, if_pos rfl⟩, rfl, rfl⟩
    · obtain ⟨found, hfound, rfl, hstatus⟩ := h.held i job hjob
      exact ⟨found, Outbox.mem_modify.2 ⟨found, hfound, if_neg (hfree i _ hjob)⟩, rfl, hstatus⟩
  · intro i j a b ha hb hab
    rcases holds_update ha with ⟨hi, ha'⟩ | ⟨-, ha'⟩ <;>
      rcases holds_update hb with ⟨hj, hb'⟩ | ⟨-, hb'⟩
    · rw [hi, hj]
    · cases ha'
      exact absurd hab.symm (hfree j b hb')
    · cases hb'
      exact absurd hab (hfree i a ha')
    · exact h.exclusive i j a b ha' hb' hab
  · intro id hid
    rw [hids]
    rcases List.mem_append.1 hid with hid | hid
    · exact h.claims id hid
    · rw [List.mem_singleton.1 hid]
      exact List.mem_map_of_mem he
  · intro x hx
    obtain ⟨old, hold, rfl⟩ := Outbox.mem_modify.1 hx
    rw [List.count_append]
    split_ifs with hid
    · show old.job.attemptCount + 1 = _
      rw [h.attempts old hold]
      simp [OutboxEntry.claim, hid]
    · have hcount : [e.job.id].count old.job.id = 0 :=
        List.count_eq_zero.2 fun hmem => hid (List.mem_singleton.1 hmem)
      rw [h.attempts old hold, hcount, Nat.add_zero]
  · intro x hx
    obtain ⟨old, hold, rfl⟩ := Outbox.mem_modify.1 hx
    split_ifs with hid
    · have hnot : old.job.id ∉ s.succeeded := by
        rw [← h.published old hold, List.inj_on_of_nodup_map h.nodup_ids hold he hid, hpending]
        simp
      exact iff_of_false (by simp [OutboxEntry.claim]) hnot
    · exact h.published old hold

/-- A worker no longer holds its job. -/
theorem release (h : Inv s) (worker : ℕ) : Inv (s.release worker) := by
  have hholds : ∀ i job, (s.release worker).holds i = some job → s.holds i = some job := by
    intro i job hjob
    rcases holds_update hjob with ⟨-, hnone⟩ | ⟨-, hjob⟩
    · cases hnone
    · exact hjob
  exact ⟨h.unique, h.numbered, h.drafts, h.kept, fun i job hjob => h.held i job (hholds i job hjob),
    fun i j a b ha hb => h.exclusive i j a b (hholds i a ha) (hholds j b hb), h.claims, h.succeeded,
    h.attempts, h.published⟩

/-- A worker marks the job that it holds: the entry gets a status that fits the list of published
jobs. -/
theorem mark (h : Inv s) {worker : ℕ} {job : RelayPublishJob} {change : OutboxEntry → OutboxEntry}
    {succeeded : List ℕ} (hjob : s.holds worker = some job)
    (hentry : ∀ e, (change e).job.toRelayPublishEntry = e.job.toRelayPublishEntry ∧
      (change e).job.id = e.job.id ∧ (change e).job.attemptCount = e.job.attemptCount)
    (hstatus : ∀ e, (change e).status = .published ↔ job.id ∈ succeeded)
    (hsucceeded : ∀ id, id ≠ job.id → (id ∈ succeeded ↔ id ∈ s.succeeded)) :
    Inv { s.release worker with outbox := s.outbox.modify job.id change, succeeded } := by
  have hrelease := h.release worker
  have hids : (s.outbox.modify job.id change).ids = s.outbox.ids :=
    Outbox.ids_modify fun e => (hentry e).2.1
  refine ⟨hids ▸ h.unique, hids ▸ h.numbered, h.drafts, ?_, ?_, hrelease.exclusive, hids ▸ h.claims,
    ?_, ?_, ?_⟩
  · refine Eq.trans (Outbox.map_modify fun e => ?_) h.kept
    rw [(hentry e).1, (hentry e).2.1]
  · intro i other hother
    rcases holds_update hother with ⟨-, hnone⟩ | ⟨hi, hother⟩
    · cases hnone
    · obtain ⟨e, he, rfl, hpublishing⟩ := h.held i other hother
      refine ⟨e, Outbox.mem_modify.2 ⟨e, he, if_neg fun hid => hi ?_⟩, rfl, hpublishing⟩
      exact h.exclusive i worker _ _ hother hjob hid
  · intro id hid
    rw [hids]
    by_cases hjobid : id = job.id
    · rw [hjobid]
      exact h.mem_ids_of_held hjob
    · exact h.succeeded id ((hsucceeded id hjobid).1 hid)
  · intro x hx
    obtain ⟨old, hold, rfl⟩ := Outbox.mem_modify.1 hx
    split_ifs with hid
    · rw [(hentry old).2.2, (hentry old).2.1]
      exact h.attempts old hold
    · exact h.attempts old hold
  · intro x hx
    obtain ⟨old, hold, rfl⟩ := Outbox.mem_modify.1 hx
    split_ifs with hid
    · rw [hstatus, (hentry old).2.1, hid]
    · rw [h.published old hold, hsucceeded _ hid]

/-- One step. -/
theorem step (h : Inv s) {action : Action} {answer : Answer}
    (hstep : OutboxSystem.step s action = some (t, answer)) : Inv t := by
  cases moves_of_step hstep with
  | refused request now => exact h
  | numbered request now hdecode => exact h.number _ now
  | inserted index hdraft => exact h.insert hdraft
  | claimed worker now hworker =>
    rcases Outbox.claimRelayPublish_cases h.nodup_ids now with ⟨hnone, -⟩ | ⟨e, he, hdue, -, hclaim⟩
    · rw [hnone]
      simpa [OutboxSystem.release] using h.release worker
    · rw [hclaim]
      exact h.claim he hdue
  | succeeded worker hworker hmark =>
    rw [Outbox.markRelayPublishSucceeded,
      Outbox.modifyExisting_of_mem (h.mem_ids_of_held hworker)] at hmark
    cases hmark
    refine h.mark hworker (fun _ => ⟨rfl, rfl, rfl⟩) (fun _ => ?_) fun id hid => ?_
    · simp [OutboxEntry.succeed]
    · simp [hid]
  | failed worker error retryAt hworker hmark =>
    rw [Outbox.markRelayPublishFailed,
      Outbox.modifyExisting_of_mem (h.mem_ids_of_held hworker)] at hmark
    cases hmark
    refine h.mark hworker (fun _ => ⟨rfl, rfl, rfl⟩) (fun _ => ?_) fun id _ => Iff.rfl
    -- the job was being published, so that it is not among the published ones
    obtain ⟨e, he, rfl, hstatus⟩ := h.held worker _ hworker
    rw [← h.published e he, hstatus]
    simp [OutboxEntry.fail]
  | lost worker hworker => exact h.release worker

/-- The laws follow from the invariant. -/
theorem laws (h : Inv s) : Exclusive s := by
  have hdue : ∀ (e : OutboxEntry) (now : ℤ),
      e.isDue now = true ↔ e.status = .pending ∧ e.job.publishAfter ≤ now := by
    intro e now
    simp [OutboxEntry.isDue]
  refine ⟨h.nodup_ids, h.kept, h.exclusive, ?_, ?_, ?_, h.attempts, ?_⟩
  · intro now job t hclaim
    rcases Outbox.claimRelayPublish_cases h.nodup_ids now with ⟨hnone, -⟩ | ⟨e, he, hd, hmin, hsome⟩
    · rw [hnone] at hclaim
      cases hclaim
    · rw [hsome] at hclaim
      cases hclaim
      obtain ⟨hpending, hafter⟩ := (hdue e now).1 hd
      exact ⟨e, he, rfl, hpending, hafter,
        fun other hother hp ha => hmin other hother ((hdue other now).2 ⟨hp, ha⟩)⟩
  · intro now t hclaim e he hpending
    rcases Outbox.claimRelayPublish_cases h.nodup_ids now with ⟨-, hnot⟩ | ⟨_, _, _, _, hsome⟩
    · by_contra hle
      have := (hdue e now).2 ⟨hpending, not_lt.1 hle⟩
      rw [hnot e he] at this
      cases this
    · rw [hsome] at hclaim
      cases hclaim
  · intro now job t hclaim hpublished
    rcases Outbox.claimRelayPublish_cases h.nodup_ids now with ⟨hnone, -⟩ | ⟨e, he, hd, -, hsome⟩
    · rw [hnone] at hclaim
      cases hclaim
    · rw [hsome] at hclaim
      cases hclaim
      have hstatus := (h.published e he).2 hpublished
      rw [((hdue e now).1 hd).1] at hstatus
      cases hstatus
  · intro pubkey identifier kind
    unfold Outbox.pendingRelayPublishes
    rw [← h.kept, List.countP_map]
    refine List.countP_congr fun e he => ?_
    have hpublished := h.published e he
    simp only [Function.comp_apply, Bool.and_eq_true, bne_iff_ne, ne_eq, hpublished,
      Bool.not_eq_true', List.contains_eq_mem, decide_eq_false_iff_not]
    exact and_comm

end Inv

/-! ### What the actions of a worker change -/

section

variable {s t : OutboxSystem} {worker : ℕ} {job : RelayPublishJob} {answer : Answer}

theorem Inv.mem_enqueued_of_mem (h : Inv s) {e : OutboxEntry} (he : e ∈ s.outbox.entries) :
    (e.job.id, e.job.toRelayPublishEntry) ∈ s.enqueued := by
  rw [← h.kept]
  exact List.mem_map.2 ⟨e, he, rfl⟩

/-- A job that is held is one of those that were enqueued. -/
theorem Inv.mem_enqueued (h : Inv s) (hjob : s.holds worker = some job) :
    (job.id, job.toRelayPublishEntry) ∈ s.enqueued := by
  obtain ⟨e, he, rfl, -⟩ := h.held worker job hjob
  exact h.mem_enqueued_of_mem he

/-- A request takes a number. -/
theorem step_number {request : RelayPublishRequest} {now : ℤ}
    (hstep : step s (.number request now) = some (t, answer)) :
    (t.holds = s.holds ∧ t.succeeded = s.succeeded ∧ t.enqueued = s.enqueued) ∧
      ∀ draft ∈ t.drafts, draft ∈ s.drafts ∨ request.decode = .ok draft.job.toRelayPublishEntry := by
  cases moves_of_step hstep with
  | refused => exact ⟨⟨rfl, rfl, rfl⟩, fun draft hdraft => .inl hdraft⟩
  | numbered _ _ hdecode =>
    refine ⟨⟨rfl, rfl, rfl⟩, fun draft hdraft => ?_⟩
    rcases List.mem_append.1 hdraft with hold | hnew
    · exact .inl hold
    · rw [List.mem_singleton.1 hnew]
      exact .inr hdecode

/-- A numbered entry is inserted. -/
theorem step_insert {index : ℕ} (hstep : step s (.insert index) = some (t, answer)) :
    (t.holds = s.holds ∧ t.succeeded = s.succeeded) ∧ (∀ draft ∈ t.drafts, draft ∈ s.drafts) ∧
      ∃ draft ∈ s.drafts,
        t.enqueued = s.enqueued ++ [(draft.job.id, draft.job.toRelayPublishEntry)] := by
  cases moves_of_step hstep with
  | inserted _ hdraft =>
    exact ⟨⟨rfl, rfl⟩, fun _ hmem => List.mem_of_mem_eraseIdx hmem, _, List.mem_of_getElem? hdraft,
      rfl⟩

/-- A request is numbered, or a numbered entry inserted. -/
theorem step_enqueue {action : Action}
    (haction : (∃ request now, action = .number request now) ∨ ∃ index, action = .insert index)
    (hstep : step s action = some (t, answer)) :
    t.holds = s.holds ∧ s.enqueued <+: t.enqueued ∧ t.succeeded = s.succeeded := by
  rcases haction with ⟨request, now, rfl⟩ | ⟨index, rfl⟩
  · obtain ⟨⟨hholds, hsucceeded, henqueued⟩, -⟩ := step_number hstep
    exact ⟨hholds, henqueued ▸ List.prefix_rfl, hsucceeded⟩
  · obtain ⟨⟨hholds, hsucceeded⟩, -, draft, -, henqueued⟩ := step_insert hstep
    exact ⟨hholds, henqueued ▸ List.prefix_append _ _, hsucceeded⟩

theorem step_claim {now : ℤ} (hstep : step s (.claim worker now) = some (t, answer)) :
    answer = .claimed (s.outbox.claimRelayPublish now).1 ∧
      t.holds = Function.update s.holds worker (s.outbox.claimRelayPublish now).1 ∧
      t.drafts = s.drafts ∧ t.enqueued = s.enqueued ∧ t.succeeded = s.succeeded := by
  cases moves_of_step hstep with
  | claimed => exact ⟨rfl, rfl, rfl, rfl, rfl⟩

theorem step_succeed (h : Inv s) (hjob : s.holds worker = some job)
    (hstep : step s (.succeed worker) = some (t, answer)) :
    answer = .done ∧ t.holds = Function.update s.holds worker none ∧ t.drafts = s.drafts ∧
      t.enqueued = s.enqueued ∧ t.succeeded = s.succeeded ++ [job.id] := by
  unfold step at hstep
  simp only [hjob, Outbox.markRelayPublishSucceeded,
    Outbox.modifyExisting_of_mem (h.mem_ids_of_held hjob)] at hstep
  cases hstep
  exact ⟨rfl, rfl, rfl, rfl, rfl⟩

/-- A job that is marked as failed, or lost. -/
theorem step_unpublished {action : Action}
    (haction : action = .lose worker ∨ ∃ error retryAt, action = .fail worker error retryAt)
    (hstep : step s action = some (t, answer)) :
    t.holds = Function.update s.holds worker none ∧ t.drafts = s.drafts ∧
      t.enqueued = s.enqueued ∧ t.succeeded = s.succeeded := by
  rcases haction with rfl | ⟨error, retryAt, rfl⟩
  · cases moves_of_step hstep with
    | lost => exact ⟨rfl, rfl, rfl, rfl⟩
  · cases moves_of_step hstep with
    | failed _ _ _ hworker hmark =>
      revert hmark
      cases s.outbox.markRelayPublishFailed _ error retryAt with
      | ok outbox =>
        rintro ⟨⟩
        exact ⟨rfl, rfl, rfl, rfl⟩
      | error err =>
        rintro ⟨⟩
        exact ⟨rfl, rfl, rfl, rfl⟩

end

/-! ### Jobs in the middle of a publication -/

/-- Every job in the middle of a publication is held by a worker. -/
def AllHeld (s : OutboxSystem) : Prop :=
  ∀ e ∈ s.outbox.entries, e.status = .publishing →
    ∃ worker job, s.holds worker = some job ∧ job.id = e.job.id

namespace AllHeld

variable {s t : OutboxSystem} {worker : ℕ} {job : RelayPublishJob} {answer : Answer}

theorem mark (h : AllHeld s) {change : OutboxEntry → OutboxEntry} {succeeded : List ℕ}
    (hjob : s.holds worker = some job) (hstatus : ∀ e, (change e).status ≠ .publishing) :
    AllHeld { s.release worker with outbox := s.outbox.modify job.id change, succeeded } := by
  intro e he hpublishing
  obtain ⟨old, hold, rfl⟩ := Outbox.mem_modify.1 he
  split_ifs at hpublishing ⊢ with hid
  · exact absurd hpublishing (hstatus old)
  · obtain ⟨w, held, hheld, hheldid⟩ := h old hold hpublishing
    refine ⟨w, held, ?_, hheldid⟩
    have hw : w ≠ worker := by
      rintro rfl
      rw [hjob] at hheld
      cases hheld
      exact hid hheldid.symm
    exact (Function.update_of_ne hw _ _).trans hheld

theorem claim (h : AllHeld s) {now : ℤ} {e : OutboxEntry} (hworker : s.holds worker = none) :
    AllHeld { s with
      outbox := s.outbox.modify e.job.id (OutboxEntry.claim now)
      holds := Function.update s.holds worker (some (e.claim now).job)
      claims := s.claims ++ [e.job.id] } := by
  intro x hx hpublishing
  obtain ⟨old, hold, rfl⟩ := Outbox.mem_modify.1 hx
  split_ifs at hpublishing ⊢ with hid
  · exact ⟨worker, (e.claim now).job, Function.update_self _ _ _, hid.symm⟩
  · obtain ⟨w, held, hheld, hheldid⟩ := h old hold hpublishing
    refine ⟨w, held, ?_, hheldid⟩
    have hw : w ≠ worker := by
      rintro rfl
      rw [hworker] at hheld
      cases hheld
    exact (Function.update_of_ne hw _ _).trans hheld

/-- Only a worker that loses its job leaves it in the middle of its publication. -/
theorem step (h : AllHeld s) (hinv : Inv s) {action : Action}
    (hlose : ∀ worker, action ≠ .lose worker)
    (hstep : OutboxSystem.step s action = some (t, answer)) : AllHeld t := by
  cases moves_of_step hstep with
  | refused request now => exact h
  | numbered request now hdecode => exact h
  | inserted index hdraft =>
    intro e he hpublishing
    rcases List.mem_append.1 he with he | he
    · exact h e he hpublishing
    · rw [List.mem_singleton.1 he, (hinv.drafts _ (List.mem_of_getElem? hdraft)).1] at hpublishing
      cases hpublishing
  | claimed worker now hworker =>
    rcases Outbox.claimRelayPublish_cases hinv.nodup_ids now with ⟨hnone, -⟩ | ⟨e, he, -, -, hclaim⟩
    · rw [hnone, ← hworker, Function.update_eq_self]
      exact h
    · rw [hclaim]
      exact h.claim hworker
  | succeeded worker hworker hmark =>
    rw [Outbox.markRelayPublishSucceeded,
      Outbox.modifyExisting_of_mem (hinv.mem_ids_of_held hworker)] at hmark
    cases hmark
    exact h.mark hworker fun e => by simp [OutboxEntry.succeed]
  | failed worker error retryAt hworker hmark =>
    rw [Outbox.markRelayPublishFailed,
      Outbox.modifyExisting_of_mem (hinv.mem_ids_of_held hworker)] at hmark
    cases hmark
    exact h.mark hworker fun e => by simp [OutboxEntry.fail]
  | lost worker hworker => exact absurd rfl (hlose worker)

end AllHeld

/-! ### The last job of a key -/

/-- A job with the key of a job is not published. -/
def Waiting (s : OutboxSystem) (job : RelayPublishJob) : Prop :=
  ∃ other ∈ s.enqueued, other.2.isFor job.pubkey job.identifier job.kind = true ∧
    other.1 ∉ s.succeeded

/-- A job is published, and none with its key has been published after it. -/
def LastPublished (s : OutboxSystem) (job : RelayPublishJob) : Prop :=
  ∃ earlier later, s.succeeded = earlier ++ job.id :: later ∧
    ∀ other ∈ s.enqueued, other.1 ∈ later →
      other.2.isFor job.pubkey job.identifier job.kind = false

section

variable {s t : OutboxSystem} {job : RelayPublishJob}

/-- The jobs have different numbers. -/
theorem Inv.eq_of_mem_enqueued (h : Inv s) {id : ℕ} {a b : RelayPublishEntry}
    (ha : (id, a) ∈ s.enqueued) (hb : (id, b) ∈ s.enqueued) : a = b := by
  rw [← h.kept] at ha hb
  obtain ⟨x, hx, hxa⟩ := List.mem_map.1 ha
  obtain ⟨y, hy, hyb⟩ := List.mem_map.1 hb
  obtain ⟨hxid, rfl⟩ := Prod.mk.inj hxa
  obtain ⟨hyid, rfl⟩ := Prod.mk.inj hyb
  rw [List.inj_on_of_nodup_map h.nodup_ids hx hy (hxid.trans hyid.symm)]

/-- What has a number but is not inserted is not published. -/
theorem Inv.not_mem_succeeded (h : Inv s) {draft : OutboxEntry} (hdraft : draft ∈ s.drafts) :
    draft.job.id ∉ s.succeeded := fun hid =>
  List.disjoint_of_nodup_append h.unique (h.succeeded _ hid) (List.mem_map_of_mem hdraft)

/-- The pending count is the code's test for a job that waits. -/
theorem waiting_iff (h : Inv s) :
    Waiting s job ↔ s.outbox.pendingRelayPublishes job.pubkey job.identifier job.kind ≠ 0 := by
  rw [h.laws.pending, Nat.ne_zero_iff_zero_lt, List.countP_pos_iff]
  simp [Waiting]

theorem waiting_iff_exists (h : Inv s) :
    Waiting s job ↔ ∃ e ∈ s.outbox.entries,
      e.job.isFor job.pubkey job.identifier job.kind = true ∧ e.status ≠ .published := by
  unfold Waiting
  rw [← h.kept]
  constructor
  · rintro ⟨other, hother, hkey, hwaits⟩
    obtain ⟨e, he, rfl⟩ := List.mem_map.1 hother
    exact ⟨e, he, hkey, fun hstatus => hwaits ((h.published e he).1 hstatus)⟩
  · rintro ⟨e, he, hkey, hstatus⟩
    exact ⟨_, List.mem_map.2 ⟨e, he, rfl⟩, hkey, fun hid => hstatus ((h.published e he).2 hid)⟩

theorem LastPublished.mem (h : LastPublished s job) : job.id ∈ s.succeeded := by
  obtain ⟨earlier, later, hsucceeded, -⟩ := h
  rw [hsucceeded]
  simp

/-- While no job is published, the last ones stay the last ones. -/
theorem LastPublished.of_prefix (h : LastPublished t job) (henqueued : s.enqueued <+: t.enqueued)
    (hsucceeded : t.succeeded = s.succeeded) : LastPublished s job := by
  obtain ⟨earlier, later, hsplit, hlater⟩ := h
  exact ⟨earlier, later, hsucceeded ▸ hsplit, fun other hother => hlater other (henqueued.subset hother)⟩

/-- A job is published: it is the last of its key, and the last ones of other keys stay so. -/
theorem LastPublished.of_append {id : ℕ} {entry : RelayPublishEntry} (h : LastPublished t job)
    (henqueued : t.enqueued = s.enqueued) (hsucceeded : t.succeeded = s.succeeded ++ [id])
    (hentry : (id, entry) ∈ s.enqueued) :
    job.id = id ∨ LastPublished s job ∧
      entry.isFor job.pubkey job.identifier job.kind = false := by
  obtain ⟨earlier, later, hsplit, hlater⟩ := h
  rw [hsucceeded] at hsplit
  rw [henqueued] at hlater
  rcases List.eq_nil_or_concat later with rfl | ⟨middle, last, rfl⟩
  · exact .inl (List.singleton_inj.1 (List.append_inj' hsplit rfl).2).symm
  · rw [List.concat_eq_append] at hsplit hlater
    rw [← List.cons_append, ← List.append_assoc] at hsplit
    obtain ⟨hinit, hlast⟩ := List.append_inj' hsplit rfl
    cases hlast
    refine .inr ⟨⟨earlier, middle, hinit, fun other hother hmem => ?_⟩, ?_⟩
    · exact hlater other hother (List.mem_append_left _ hmem)
    · exact hlater _ hentry (List.mem_append_right _ List.mem_cons_self)

/-- Once all jobs of a key are published, one of them is the last. -/
theorem exists_lastPublished {pubkey : List UInt8} {identifier : String} {kind : ℕ} (h : Inv s)
    {e : OutboxEntry} (he : e ∈ s.outbox.entries)
    (hkey : e.job.isFor pubkey identifier kind = true) (hstatus : e.status = .published) :
    ∃ e ∈ s.outbox.entries, e.job.isFor pubkey identifier kind = true ∧ LastPublished s e.job := by
  have hid := (h.published e he).1 hstatus
  -- the first number from the end that belongs to the key
  obtain ⟨last, hlast⟩ : ∃ last, s.succeeded.reverse.find? (fun id =>
      s.outbox.entries.any fun e => e.job.id == id && e.job.isFor pubkey identifier kind) =
        some last := by
    rw [← Option.isSome_iff_exists, List.find?_isSome]
    refine ⟨e.job.id, List.mem_reverse.2 hid, List.any_eq_true.2 ⟨e, he, ?_⟩⟩
    simp [hkey]
  obtain ⟨hfound, after, before, hsplit, hafter⟩ := List.find?_eq_some_iff_append.1 hlast
  obtain ⟨found, hmem, hfound⟩ := List.any_eq_true.1 hfound
  rw [Bool.and_eq_true, beq_iff_eq] at hfound
  obtain ⟨rfl, hfoundkey⟩ := hfound
  obtain ⟨hkind, hidentifier, hpubkey⟩ := RelayPublishEntry.isFor_iff.1 hfoundkey
  refine ⟨found, hmem, hfoundkey, before.reverse, after.reverse, ?_, ?_⟩
  · rw [← List.reverse_reverse s.succeeded, hsplit]
    simp
  · intro other hother hlater
    rw [← h.kept] at hother
    obtain ⟨x, hx, rfl⟩ := List.mem_map.1 hother
    have hnot := hafter _ (List.mem_reverse.1 hlater)
    rw [Bool.not_eq_true', List.any_eq_false] at hnot
    have := hnot x hx
    simp only [beq_self_eq_true, Bool.true_and, Bool.not_eq_true] at this
    rw [hkind, hidentifier, hpubkey]
    exact this

end

/-- In every state of every run the claims of the outbox are exclusive, whatever the workers do with
the jobs they hold. -/
theorem exclusive_of_reach {s : OutboxSystem}
    (h : Runs.Reach step (fun _ _ => True) (· = empty) s) : Exclusive s := by
  have hinv : Inv s := by
    refine h.invariant (I := Inv) ?_ ?_
    · rintro s rfl
      exact .empty
    · intro s action t answer hs _ hstep
      exact hs.step hstep
  exact hinv.laws

/-- A request to publish one announcement on a relay. -/
def sampleRequest (relayUrl : String) : RelayPublishRequest where
  relayUrl
  eventId := "a1a1a1a1a1a1a1a1a1a1a1a1a1a1a1a1a1a1a1a1a1a1a1a1a1a1a1a1a1a1a1a1"
  pubkey := "f9308a019258c31049344f85f89d5229b531c845836f99b08601f113bce036f9"
  createdAt := 1700000000
  kind := 30617
  tags := [["d", "repo"]]
  content := ""
  sig := "7a1e6fa4b3db93eb044145a08662a8062c1b8f1f12fec14d88edab4d415db55f" ++
    "a065dd344e38988d4e80c7217b56184a7ee6a893c5b22f285c876865ee86054e"
  forgejoOwner := "forge"
  forgejoRepo := "repo"
  identifier := "repo"

/-- Two jobs, inserted the other way round, and two workers: one job fails at first, and both are
published in the end. -/
theorem exclusive_of_reach_twoWorkers : ∃ s : OutboxSystem,
    Runs.Reach step (fun _ _ => True) (· = empty) s ∧ s.claims = [2, 1, 2] ∧
      s.succeeded = [1, 2] ∧ s.outbox.ids = [2, 1] ∧ Exclusive s := by
  have hrun : ((Runs.exec step empty
      [.number (sampleRequest "wss://a.example") 0, .number (sampleRequest "wss://b.example") 0,
        .insert 1, .claim 7 1, .insert 0, .claim 8 1, .fail 7 "timeout" 10, .succeed 8, .claim 8 5,
        .claim 7 10, .succeed 7]).map
          fun r => (r.1.claims, r.1.succeeded, r.1.outbox.ids)) = some ([2, 1, 2], [1, 2], [2, 1]) := by
    decide +kernel
  obtain ⟨⟨s, answers⟩, hexec, hs⟩ := Option.map_eq_some_iff.1 hrun
  simp only [Prod.mk.injEq] at hs
  have hreach : Runs.Reach step (fun _ _ => True) (· = empty) s :=
    .of_exec (.start rfl) (fun _ _ _ => trivial) hexec
  exact ⟨s, hreach, hs.1, hs.2.1, hs.2.2, exclusive_of_reach hreach⟩

end OutboxSystem
end Gittree
