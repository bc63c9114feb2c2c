import Gittree.Services.Finalisation

/-!
# What the workers of the outbox work on

The workers publish the events of the entries that were numbered, and what they store is made of
those: whatever holds of the requests that take a number holds of every event that is published, and
of the entry behind every announcement and every mapping.

* `From.step`: one step of the workers and of the outbox;
* `Holds.step`: an entry that has a number is not lost.
-/

namespace Gittree

open Rust

namespace Publisher

/-- All entries are of some kind, and so are those that what is stored is made of. -/
structure From (P : RelayPublishEntry → Prop) (env : ServiceEnv) (s : Publisher) : Prop where
  inv : s.Inv
  planned : ∀ worker, Planned env s (s.phase worker)
  drafts : ∀ draft ∈ s.system.drafts, P draft.job.toRelayPublishEntry
  enqueued : ∀ entry ∈ s.system.enqueued, P entry.2
  announced : ∀ record, s.Stored record →
    ∃ job, P job.toRelayPublishEntry ∧ recordOf env job = some record
  mapped : ∀ key identifier mapping, s.mappings.mappingByRepo key identifier = some mapping →
    ∃ job record, P job.toRelayPublishEntry ∧ recordOf env job = some record ∧
      mapping.pubkey = record.pubkey ∧ mapping.identifier = record.identifier

/-- The entry has a number, and may be inserted. -/
def Holds (s : Publisher) (entry : RelayPublishEntry) : Prop :=
  (∃ draft ∈ s.system.drafts, draft.job.toRelayPublishEntry = entry) ∨
    ∃ numbered ∈ s.system.enqueued, numbered.2 = entry

variable {P P' : RelayPublishEntry → Prop} {env : ServiceEnv} {s t : Publisher} {worker : ℕ}
  {reply : Reply}

theorem From.mono (h : From P env s) (hP : ∀ entry, P entry → P' entry) : From P' env s where
  inv := h.inv
  planned := h.planned
  drafts draft hdraft := hP _ (h.drafts draft hdraft)
  enqueued entry hentry := hP _ (h.enqueued entry hentry)
  announced record hstored := by
    obtain ⟨job, hjob, hrecord⟩ := h.announced record hstored
    exact ⟨job, hP _ hjob, hrecord⟩
  mapped key identifier mapping hmapping := by
    obtain ⟨job, record, hjob, hrest⟩ := h.mapped key identifier mapping hmapping
    exact ⟨job, record, hP _ hjob, hrest⟩

theorem from_empty : From P env empty where
  inv := .empty
  planned worker := trivial
  drafts draft hdraft := by cases hdraft
  enqueued entry hentry := by cases hentry
  announced record hstored := by
    unfold Stored Announcements.listAnnouncements empty at hstored
    simp at hstored
  mapped key identifier mapping hmapping := by
    unfold Mappings.mappingByRepo empty at hmapping
    simp at hmapping

/-! ### Calls of the workers -/

/-- The event that a worker publishes is that of an entry. -/
theorem From.publishing (h : From P env s) {now : ℤ} {job : RelayPublishJob}
    (hphase : s.phase worker = .publishing now job) : P job.toRelayPublishEntry := by
  have hholds := h.inv.holds worker
  rw [hphase] at hholds
  exact h.enqueued _ (h.inv.system.mem_enqueued hholds)

/-- The job that a worker attends to has an entry. -/
theorem From.attending (h : From P env s) {job : RelayPublishJob}
    (hattending : (s.phase worker).attending = some job) : P job.toRelayPublishEntry :=
  h.enqueued _ (h.inv.attended worker job hattending).1

/-- The announcement that a call stores. -/
theorem Moves.stored (hmove : Moves env s worker reply t) {record : RepoAnnouncementRecord}
    (hstored : t.Stored record) :
    s.Stored record ∨ ∃ job a, s.phase worker = .storing job a record := by
  cases hmove with
  | @store job a new hphase =>
    change record ∈ (s.announcements.insertAnnouncement new).listAnnouncements _ _ at hstored
    rw [Announcements.listAnnouncements_insert] at hstored
    split_ifs at hstored
    · rcases List.mem_append.1 hstored with hold | hnew
      · exact .inl hold
      · rw [List.mem_singleton.1 hnew]
        exact .inr ⟨job, a, hphase⟩
    · exact .inl hstored
  | _ => exact .inl hstored

/-- The mapping that a call stores. -/
theorem Moves.mapped (hmove : Moves env s worker reply t) {key : List UInt8} {identifier : String}
    {mapping : RepoMappingRecord}
    (hmapping : t.mappings.mappingByRepo key identifier = some mapping) :
    s.mappings.mappingByRepo key identifier = some mapping ∨
      ∃ job, s.phase worker = .linking job mapping := by
  cases hmove with
  | @link job new hphase =>
    change (s.mappings.upsertMapping new).mappingByRepo _ _ = _ at hmapping
    rw [Mappings.mappingByRepo_upsert] at hmapping
    split_ifs at hmapping
    · cases hmapping
      exact .inr ⟨job, hphase⟩
    · exact .inl hmapping
  | _ => exact .inl hmapping

theorem From.move (h : From P env s) (hinv : t.Inv)
    (hplanned : ∀ worker, Planned env t (t.phase worker)) (hmove : Moves env s worker reply t) :
    From P env t := by
  obtain ⟨hdrafts, henqueued, -⟩ := hmove.lists
  have hplan := h.planned worker
  refine ⟨hinv, hplanned, ?_, ?_, ?_, ?_⟩
  · rw [hdrafts]
    exact h.drafts
  · rw [henqueued]
    exact h.enqueued
  · intro record hstored
    rcases hmove.stored hstored with hold | ⟨job, a, hphase⟩
    · exact h.announced record hold
    · rw [hphase] at hplan
      exact ⟨job, h.attending (by rw [hphase]; rfl), recordOf_eq_some.2 ⟨a, hplan⟩⟩
  · intro key identifier mapping hmapping
    rcases hmove.mapped hmapping with hold | ⟨job, hphase⟩
    · exact h.mapped key identifier mapping hold
    · rw [hphase] at hplan
      obtain ⟨a, record, hrecord, -, hkey⟩ := hplan
      exact ⟨job, record, h.attending (by rw [hphase]; rfl), recordOf_eq_some.2 ⟨a, hrecord⟩, hkey⟩

/-! ### Steps -/

/-- A step keeps to the kind if the request that takes a number does. -/
theorem From.step (h : From P env s) {action : Action} {u : Unit}
    (hstep : step env s action = some (t, u))
    (hnew : ∀ request now entry, action = .number request now → request.decode = .ok entry →
      P entry) :
    From P env t := by
  have hplanned := planned_step h.inv h.planned hstep
  obtain ⟨hinv, ⟨enqueue, answer, system, hsystem, henqueue, rfl⟩ |
    ⟨worker, now, -, hphase, rfl⟩ | ⟨worker, reply, -, hmove⟩⟩ := h.inv.step_cases hstep
  · refine ⟨hinv, hplanned, ?_, ?_, h.announced, h.mapped⟩
    · intro draft hdraft
      rcases henqueue with ⟨request, now, rfl, rfl⟩ | ⟨index, rfl⟩
      · rcases (OutboxSystem.step_number hsystem).2 draft hdraft with hold | hdecode
        · exact h.drafts draft hold
        · exact hnew request now _ rfl hdecode
      · exact h.drafts draft ((OutboxSystem.step_insert hsystem).2.1 draft hdraft)
    · intro entry hentry
      rcases henqueue with ⟨request, now, rfl, rfl⟩ | ⟨index, rfl⟩
      · rw [(OutboxSystem.step_number hsystem).1.2.2] at hentry
        exact h.enqueued entry hentry
      · obtain ⟨-, -, draft, hdraft, henqueued⟩ := OutboxSystem.step_insert hsystem
        rw [henqueued] at hentry
        rcases List.mem_append.1 hentry with hold | hlast
        · exact h.enqueued entry hold
        · rw [List.mem_singleton.1 hlast]
          exact h.drafts draft hdraft
  · exact ⟨hinv, hplanned, h.drafts, h.enqueued, h.announced, h.mapped⟩
  · exact h.move hinv hplanned hmove

/-- An entry that has a number keeps it. -/
theorem Holds.step {entry : RelayPublishEntry} (h : s.Holds entry) (hinv : s.Inv) {action : Action}
    {u : Unit} (hstep : step env s action = some (t, u)) : t.Holds entry := by
  obtain ⟨-, ⟨enqueue, answer, system, hsystem, henqueue, rfl⟩ | ⟨worker, now, -, -, rfl⟩ |
    ⟨worker, reply, -, hmove⟩⟩ := hinv.step_cases hstep
  · rcases henqueue with ⟨request, now, -, rfl⟩ | ⟨index, rfl⟩
    · cases OutboxSystem.moves_of_step hsystem with
      | refused => exact h
      | numbered =>
        refine h.imp_left ?_
        rintro ⟨draft, hdraft, heq⟩
        exact ⟨draft, List.mem_append_left _ hdraft, heq⟩
    · cases OutboxSystem.moves_of_step hsystem with
      | @inserted _ moved hmoved =>
        rcases h with ⟨draft, hdraft, heq⟩ | ⟨numbered, hnumbered, heq⟩
        · obtain ⟨i, hi⟩ := List.mem_iff_getElem?.1 hdraft
          by_cases hindex : i = index
          · subst hindex
            obtain rfl := Option.some.inj (hi.symm.trans hmoved)
            exact .inr ⟨_, List.mem_append_right _ (List.mem_singleton.2 rfl), heq⟩
          · exact .inl ⟨draft, List.mem_eraseIdx_iff_getElem?.2 ⟨i, hindex, hi⟩, heq⟩
        · exact .inr ⟨numbered, List.mem_append_left _ hnumbered, heq⟩
  · exact h
  · obtain ⟨hdrafts, henqueued, -⟩ := hmove.lists
    unfold Holds
    rw [hdrafts, henqueued]
    exact h

/-- A request that can be decoded takes a number. -/
theorem exists_number (s : Publisher) {request : RelayPublishRequest} {entry : RelayPublishEntry}
    (now : ℤ) (h : request.decode = .ok entry) :
    ∃ t, step env s (.number request now) = some (t, ()) ∧ t.Holds entry := by
  refine ⟨_, by rw [step, OutboxSystem.step, h]; rfl, .inl
    ⟨Outbox.newEntry (s.system.outbox.seq + 1) entry now, ?_, rfl⟩⟩
  exact List.mem_append_right _ (List.mem_singleton.2 rfl)

end Publisher
end Gittree
