import Gittree.Services.Finalisation

/-!
# Announcements that survive the outbox

Only the worker that finds no job of its key pending finalises its job, and the key does not name the
event: when two announcements of one repository are in the outbox, the jobs of one may all be
published while a job of the other is pending.

* `Publisher.Handed`: a worker that finds jobs pending leaves its event to another job or worker;
* `survives_of_reach`: in the runs without errors in which this is so, every announcement is stored.
-/

namespace Gittree

open Rust

namespace Publisher

/-- No call fails, and the requests are those of the control service: announcements, under their
normalised identifier. -/
def Faultless (env : ServiceEnv) (s : Publisher) : Action → Prop
  | .number request _ => ∀ job : RelayPublishJob, request.decode = .ok job.toRelayPublishEntry →
    ∃ a, parseEvent env (relayEventFromJob job) = .ok (.repoAnnouncement a) ∧
      job.identifier = normalizeIdentifier a.identifier
  | .advance worker reply => ¬ s.Fails worker reply
  | _ => True

/-- The jobs of the event of a job. -/
def SameEvent (job other : RelayPublishJob) : Prop := relayEventFromJob other = relayEventFromJob job

/-- A worker that finds jobs of its key pending leaves its event to another job or worker: a job of
the same event is not published yet, another worker attends to one, or the event is stored already. -/
def Handed (env : ServiceEnv) (s : Publisher) : Action → Prop
  | .advance worker .served => ∀ job, s.phase worker = .counting job →
    s.system.outbox.pendingRelayPublishes job.pubkey job.identifier job.kind ≠ 0 →
      (∃ e ∈ s.system.outbox.entries, e.status ≠ .published ∧ SameEvent job e.job) ∨
      (∃ w other, w ≠ worker ∧ (s.phase w).attending = some other ∧ SameEvent job other) ∨
      ∀ record, recordOf env job = some record → s.Complete record
  | _ => True

/-- The records of the enqueued announcements of a repository. -/
def announced (env : ServiceEnv) (s : Publisher) (pubkey : List UInt8) (identifier : String) :
    List RepoAnnouncementRecord :=
  (s.system.outbox.entries.filterMap fun e => recordOf env e.job).filter fun record =>
    record.pubkey = pubkey ∧ record.identifier = identifier

/-- All workers are between iterations, and every job of a repository is published. -/
def Finished (s : Publisher) (pubkey : List UInt8) (identifier : String) : Prop :=
  (∀ worker, s.phase worker = .idle) ∧ ∀ e ∈ s.system.outbox.entries,
    e.job.isFor pubkey (normalizeIdentifier identifier) kindGitRepoAnnouncement = true →
      e.status = .published

/-- The announcements of a repository have survived the outbox. -/
structure Survives (env : ServiceEnv) (s : Publisher) (pubkey : List UInt8) (identifier : String) :
    Prop where
  /-- Every job has a record. -/
  read : ∀ e ∈ s.system.outbox.entries, (recordOf env e.job).isSome = true
  /-- Every announcement is stored. -/
  stored : ∀ record ∈ s.announced env pubkey identifier,
    record ∈ s.announcements.listAnnouncements pubkey identifier
  /-- The newest of them is the latest announcement. -/
  newest : s.announced env pubkey identifier ≠ [] → ∃ record ∈ s.announced env pubkey identifier,
    s.announcements.latestAnnouncement pubkey identifier = some record ∧
      ∀ other ∈ s.announced env pubkey identifier, other.createdAt ≤ record.createdAt
  /-- The repository has a mapping. -/
  mapped : s.announced env pubkey identifier ≠ [] →
    (s.mappings.mappingByRepo pubkey identifier).isSome = true

/-- A job that carries an announcement of its key. -/
def Readable (env : ServiceEnv) (job : RelayPublishJob) : Prop :=
  ∃ record, recordOf env job = some record ∧ job.isFor record.pubkey
    (normalizeIdentifier record.identifier) kindGitRepoAnnouncement = true

theorem readable_of_decode {env : ServiceEnv} {request : RelayPublishRequest} {job : RelayPublishJob}
    {a : RepoAnnouncement} (hdecode : request.decode = .ok job.toRelayPublishEntry)
    (hparse : parseEvent env (relayEventFromJob job) = .ok (.repoAnnouncement a))
    (hidentifier : job.identifier = normalizeIdentifier a.identifier) : Readable env job := by
  obtain ⟨hkind, -, hvalid⟩ := parseEvent_announcement hparse
  obtain ⟨hevent, hpubkey⟩ := RelayPublishRequest.length_of_decode hdecode
  obtain ⟨record, hrecord⟩ := RepoAnnouncementRecord.exists_new job.createdAt hvalid hevent
    hpubkey
  have hmade := RepoAnnouncementRecord.madeOf hrecord
  have hkey : job.pubkey = record.pubkey := by
    have := hmade.pubkey
    rw [Hex.decode_encode] at this
    exact Option.some.inj this
  refine ⟨record, recordOf_eq_some.2 ⟨a, LoopProg.finalPlan_eq_some.2 ⟨hparse, hrecord⟩⟩, ?_⟩
  rw [RelayPublishEntry.isFor_iff, hmade.identifier]
  exact ⟨hkind, hidentifier, hkey⟩

theorem Readable.congr {env : ServiceEnv} {job other : RelayPublishJob} (h : Readable env job)
    (hsame : SameJob job other) : Readable env other := by
  obtain ⟨record, hrecord, hkey⟩ := h
  refine ⟨record, hsame.recordOf_eq.trans hrecord, ?_⟩
  rwa [(Prod.mk.inj hsame).2]

/-- A job of the event of a job is not published. -/
def EventWaiting (s : Publisher) (job : RelayPublishJob) : Prop :=
  ∃ other : RelayPublishJob, (other.id, other.toRelayPublishEntry) ∈ s.system.enqueued ∧
    SameEvent job other ∧ other.id ∉ s.system.succeeded

/-- Every job of an event that is not stored waits for a job of the event, or for a worker that
attends to one. -/
structure AnnounceInv (env : ServiceEnv) (s : Publisher) : Prop where
  inv : s.Inv
  planned : ∀ worker, Planned env s (s.phase worker)
  drafts : ∀ draft ∈ s.system.drafts, Readable env draft.job
  readable : ∀ job, (job.id, job.toRelayPublishEntry) ∈ s.system.enqueued → Readable env job
  attended : ∀ job, (job.id, job.toRelayPublishEntry) ∈ s.system.enqueued →
    s.EventWaiting job ∨
      ∀ record, recordOf env job = some record → s.Attended (SameEvent job) record
  sources : ∀ pubkey identifier, ∀ record ∈ s.announcements.listAnnouncements pubkey identifier,
    ∃ job : RelayPublishJob, (job.id, job.toRelayPublishEntry) ∈ s.system.enqueued ∧
      recordOf env job = some record

namespace AnnounceInv

variable {env : ServiceEnv} {s t : Publisher} {worker : ℕ} {reply : Reply}

theorem empty : AnnounceInv env Publisher.empty := by
  refine ⟨.empty, fun _ => trivial, ?_, ?_, ?_, ?_⟩
  · intro draft hdraft
    cases hdraft
  · intro job hjob
    cases hjob
  · intro job hjob
    cases hjob
  · intro pubkey identifier record hrecord
    cases hrecord

/-- A request takes a number. -/
theorem number {request : RelayPublishRequest} {now : ℤ} {system : OutboxSystem}
    {answer : OutboxSystem.Answer} (h : AnnounceInv env s)
    (hok : Faultless env s (.number request now))
    (hsystem : s.system.step (.number request now) = some (system, answer))
    (hinv : Inv { s with system }) : AnnounceInv env { s with system } := by
  obtain ⟨⟨-, hsucceeded, henqueued⟩, hdrafts⟩ := OutboxSystem.step_number hsystem
  refine ⟨hinv, h.planned, ?_, ?_, ?_, ?_⟩
  · intro draft hdraft
    rcases hdrafts draft hdraft with hold | hdecode
    · exact h.drafts draft hold
    · obtain ⟨a, hparse, hidentifier⟩ := hok draft.job hdecode
      exact readable_of_decode hdecode hparse hidentifier
  · simp only [henqueued]
    exact h.readable
  · simp only [EventWaiting, henqueued, hsucceeded]
    exact h.attended
  · simp only [henqueued]
    exact h.sources

/-- A numbered entry is inserted. -/
theorem insert {index : ℕ} {system : OutboxSystem} {answer : OutboxSystem.Answer}
    (h : AnnounceInv env s) (hsystem : s.system.step (.insert index) = some (system, answer))
    (hinv : Inv { s with system }) : AnnounceInv env { s with system } := by
  obtain ⟨⟨-, hsucceeded⟩, hdrafts, draft, hdraft, henqueued⟩ := OutboxSystem.step_insert hsystem
  have hkept : s.system.enqueued ⊆ system.enqueued := by
    rw [henqueued]
    exact List.subset_append_left _ _
  have hcases : ∀ job : RelayPublishJob, (job.id, job.toRelayPublishEntry) ∈ system.enqueued →
      (job.id, job.toRelayPublishEntry) ∈ s.system.enqueued ∨ SameJob draft.job job := by
    intro job hjob
    rw [henqueued, List.mem_append, List.mem_singleton] at hjob
    exact hjob
  refine ⟨hinv, h.planned, fun d hd => h.drafts d (hdrafts d hd), ?_, ?_, ?_⟩
  · intro job hjob
    rcases hcases job hjob with hold | hnew
    · exact h.readable job hold
    · exact (h.drafts draft hdraft).congr hnew
  · intro job hjob
    rcases hcases job hjob with hold | hnew
    · rcases h.attended job hold with ⟨other, hother, hsame, hwaits⟩ | hattended
      · exact .inl ⟨other, hkept hother, hsame, by rwa [hsucceeded]⟩
      · exact .inr hattended
    · -- the new job itself is not published
      refine .inl ⟨job, hjob, rfl, ?_⟩
      rw [hsucceeded, (Prod.mk.inj hnew).1]
      exact h.inv.system.not_mem_succeeded hdraft
  · intro pubkey identifier record hrecord
    obtain ⟨job, hjob, hof⟩ := h.sources pubkey identifier record hrecord
    exact ⟨job, hkept hjob, hof⟩

/-- The events after a call that marks no job as published. -/
theorem attended_unmarked (h : AnnounceInv env s) (hok : Faultless env s (.advance worker reply))
    (hhanded : Handed env s (.advance worker reply)) (hmove : Moves env s worker reply t)
    (hsucceeded : t.system.succeeded = s.system.succeeded) {job : RelayPublishJob}
    (hjob : (job.id, job.toRelayPublishEntry) ∈ s.system.enqueued) : t.EventWaiting job ∨
      ∀ record, recordOf env job = some record → t.Attended (SameEvent job) record := by
  have henqueued := hmove.lists.2.1
  have hwaiting : s.EventWaiting job → t.EventWaiting job := by
    rintro ⟨other, hother, hsame, hwaits⟩
    exact ⟨other, henqueued ▸ hother, hsame, hsucceeded ▸ hwaits⟩
  rcases h.attended job hjob with hwaits | hattended
  · exact .inl (hwaiting hwaits)
  by_cases hwaits : s.EventWaiting job
  · exact .inl (hwaiting hwaits)
  refine .inr fun record hrecord => ?_
  have hjobs : ∀ other, SameEvent job other → recordOf env other = some record :=
    fun other hother => (recordOf_congr hother).trans hrecord
  rcases (hattended record hrecord).move (h.planned worker) hjobs hmove with
    hdone | ⟨other, hattending, hsame, hfails | ⟨hphase, rfl, hpending⟩⟩
  · exact hdone
  · exact absurd hfails hok
  · -- the worker finds other jobs of the key pending, and hands the event over
    rcases hhanded other hphase hpending with
      ⟨e, he, hstatus, hevent⟩ | ⟨w, third, hw, hthird, hevent⟩ | hcomplete
    · refine absurd ⟨e.job, h.inv.system.mem_enqueued_of_mem he, hevent.trans hsame, ?_⟩ hwaits
      exact fun hid => hstatus ((h.inv.system.published e he).2 hid)
    · refine .inr ⟨w, third, ?_, hevent.trans hsame⟩
      rw [hmove.phase_of_ne hw, hthird]
    · exact .inl ((hcomplete record (hjobs other hsame)).move hmove)

/-- The events after a job has been marked as published. -/
theorem attended_marked {marked : RelayPublishJob} (h : AnnounceInv env s)
    (hphase : s.phase worker = .succeeding marked) (hcounting : t.phase worker = .counting marked)
    (hmove : Moves env s worker reply t)
    (hsucceeded : t.system.succeeded = s.system.succeeded ++ [marked.id]) {job : RelayPublishJob}
    (hjob : (job.id, job.toRelayPublishEntry) ∈ s.system.enqueued) : t.EventWaiting job ∨
      ∀ record, recordOf env job = some record → t.Attended (SameEvent job) record := by
  have henqueued := hmove.lists.2.1
  have hmarked : (marked.id, marked.toRelayPublishEntry) ∈ s.system.enqueued := by
    refine h.inv.system.mem_enqueued (?_ : s.system.holds worker = some marked)
    rw [h.inv.holds, hphase]
    rfl
  rcases h.attended job hjob with ⟨other, hother, hsame, hwaits⟩ | hattended
  · by_cases hid : other.id = marked.id
    · -- the job of the event that was not published is the one that is marked
      refine .inr fun record _ => .inr ⟨worker, marked, by rw [hcounting]; rfl, ?_⟩
      rw [hid] at hother
      have hentry := h.inv.system.eq_of_mem_enqueued hmarked hother
      refine Eq.trans ?_ hsame
      unfold relayEventFromJob
      rw [hentry]
    · refine .inl ⟨other, henqueued ▸ hother, hsame, ?_⟩
      rw [hsucceeded, List.mem_append, List.mem_singleton]
      exact not_or.2 ⟨hwaits, hid⟩
  · refine .inr fun record hrecord => ?_
    rcases (hattended record hrecord).move (h.planned worker)
      (fun other hother => (recordOf_congr hother).trans hrecord) hmove with
      hdone | ⟨other, hattending, -⟩
    · exact hdone
    · rw [hphase] at hattending
      cases hattending

/-- The stored announcements after a call. -/
theorem sources_move (h : AnnounceInv env s) (hmove : Moves env s worker reply t)
    {pubkey : List UInt8} {identifier : String} {record : RepoAnnouncementRecord}
    (hrecord : record ∈ t.announcements.listAnnouncements pubkey identifier) :
    ∃ job : RelayPublishJob, (job.id, job.toRelayPublishEntry) ∈ s.system.enqueued ∧
      recordOf env job = some record := by
  cases hmove with
  | @store job a new hphase =>
    have hplan := h.planned worker
    rw [hphase] at hplan
    have hnew : recordOf env job = some new := recordOf_eq_some.2 ⟨a, hplan⟩
    have hjob : (s.phase worker).attending = some job := by
      rw [hphase]
      rfl
    have hrecord : record ∈ (s.announcements.insertAnnouncement new).listAnnouncements pubkey
      identifier := hrecord
    rw [Announcements.listAnnouncements_insert] at hrecord
    split_ifs at hrecord
    · rcases List.mem_append.1 hrecord with hold | hlast
      · exact h.sources pubkey identifier record hold
      · rw [List.mem_singleton.1 hlast]
        exact ⟨job, (h.inv.attended worker job hjob).1, hnew⟩
    · exact h.sources pubkey identifier record hrecord
  | _ => exact h.sources pubkey identifier record hrecord

/-- One step. -/
theorem step {action : Action} {u : Unit} (h : AnnounceInv env s) (hok : Faultless env s action)
    (hhanded : Handed env s action) (hstep : Publisher.step env s action = some (t, u)) :
    AnnounceInv env t := by
  obtain ⟨hinv, hcases⟩ := h.inv.step_cases hstep
  have hplanned := planned_step h.inv h.planned hstep
  rcases hcases with ⟨enqueue, answer, system, hsystem, ⟨request, now, rfl, rfl⟩ | ⟨index, rfl⟩, rfl⟩ |
    ⟨worker, now, -, hphase, rfl⟩ | ⟨worker, reply, rfl, hmove⟩
  · exact h.number hok hsystem hinv
  · exact h.insert hsystem hinv
  · refine ⟨hinv, hplanned, h.drafts, h.readable, ?_, h.sources⟩
    intro job hjob
    rcases h.attended job hjob with hwaits | hattended
    · exact .inl hwaits
    · exact .inr fun record hrecord => (hattended record hrecord).begin hphase
  · obtain ⟨hdrafts, henqueued, hsucceeded⟩ := hmove.lists
    refine ⟨hinv, hplanned, hdrafts ▸ h.drafts, henqueued ▸ h.readable, ?_, ?_⟩
    · intro job hjob
      rw [henqueued] at hjob
      rcases hsucceeded with hsame | ⟨marked, hphase, hcounting, happend⟩
      · exact h.attended_unmarked hok hhanded hmove hsame hjob
      · exact h.attended_marked hphase hcounting hmove happend hjob
    · intro pubkey identifier record hrecord
      rw [henqueued]
      exact h.sources_move hmove hrecord

/-- Once the workers are between iterations and the jobs published, the announcements of a repository
are stored. -/
theorem complete (h : AnnounceInv env s) {pubkey : List UInt8} {identifier : String}
    (hfinished : Finished s pubkey identifier) {e : OutboxEntry} (he : e ∈ s.system.outbox.entries)
    {record : RepoAnnouncementRecord} (hrecord : recordOf env e.job = some record)
    (hpubkey : record.pubkey = pubkey) (hidentifier : record.identifier = identifier) :
    s.Complete record := by
  rcases h.attended e.job (h.inv.system.mem_enqueued_of_mem he) with
    ⟨other, hother, hsame, hwaits⟩ | hattended
  · -- a job of the event belongs to the same key, so that it is published
    obtain ⟨found, hfound, hkey⟩ := h.readable other hother
    cases (hfound.symm.trans (recordOf_congr hsame)).trans hrecord
    rw [hpubkey, hidentifier] at hkey
    rw [← h.inv.system.kept] at hother
    obtain ⟨x, hx, hxother⟩ := List.mem_map.1 hother
    obtain ⟨hxid, hxentry⟩ := Prod.mk.inj hxother
    rw [← hxentry] at hkey
    exact absurd (hxid ▸ (h.inv.system.published x hx).1 (hfinished.2 x hx hkey)) hwaits
  · rcases hattended record hrecord with hcomplete | ⟨worker, job, hattending, -⟩
    · exact hcomplete
    · rw [hfinished.1 worker] at hattending
      cases hattending

/-- The laws follow from the invariant. -/
theorem laws (h : AnnounceInv env s) {pubkey : List UInt8} {identifier : String}
    (hfinished : Finished s pubkey identifier) : Survives env s pubkey identifier := by
  have hmem : ∀ record, record ∈ s.announced env pubkey identifier ↔
      (∃ e ∈ s.system.outbox.entries, recordOf env e.job = some record) ∧
        record.pubkey = pubkey ∧ record.identifier = identifier := by
    intro record
    simp [announced]
  have hcomplete : ∀ record ∈ s.announced env pubkey identifier, s.Complete record := by
    intro record hrecord
    obtain ⟨⟨e, he, hof⟩, hpubkey, hidentifier⟩ := (hmem record).1 hrecord
    exact h.complete hfinished he hof hpubkey hidentifier
  have hstored : ∀ record ∈ s.announced env pubkey identifier,
      record ∈ s.announcements.listAnnouncements pubkey identifier := by
    intro record hrecord
    obtain ⟨-, rfl, rfl⟩ := (hmem record).1 hrecord
    exact (hcomplete record hrecord).1
  refine ⟨fun e he => ?_, hstored, fun hne => ?_, fun hne => ?_⟩
  · obtain ⟨record, hrecord, -⟩ := h.readable e.job (h.inv.system.mem_enqueued_of_mem he)
    rw [hrecord]
    rfl
  · obtain ⟨first, hfirst⟩ := List.exists_mem_of_ne_nil _ hne
    obtain ⟨latest, hlatest⟩ :=
      Announcements.exists_latestAnnouncement.2 ⟨first, hstored first hfirst⟩
    have hlisted := Announcements.mem_of_latestAnnouncement hlatest
    obtain ⟨job, hjob, hof⟩ := h.sources pubkey identifier latest hlisted
    rw [← h.inv.system.kept] at hjob
    obtain ⟨e, he, hejob⟩ := List.mem_map.1 hjob
    have hsame : SameJob job e.job := hejob
    refine ⟨latest, (hmem latest).2 ⟨⟨e, he, hsame.recordOf_eq.trans hof⟩,
      Announcements.of_mem_listAnnouncements hlisted⟩, hlatest, fun other hother => ?_⟩
    exact le_of_newest hlatest (hstored other hother)
  · obtain ⟨first, hfirst⟩ := List.exists_mem_of_ne_nil _ hne
    obtain ⟨-, rfl, rfl⟩ := (hmem first).1 hfirst
    exact (hcomplete first hfirst).2

end AnnounceInv

/-- Without errors, and when every worker that finds jobs of its key pending leaves its event to
another job or worker, the announcements survive the outbox. -/
theorem survives_of_reach {env : ServiceEnv} {s : Publisher}
    (h : Runs.Reach (step env) (fun s action => Faultless env s action ∧ Handed env s action)
      (· = empty) s) {pubkey : List UInt8} {identifier : String}
    (hfinished : Finished s pubkey identifier) : Survives env s pubkey identifier := by
  have hinv : AnnounceInv env s := by
    refine h.invariant (I := AnnounceInv env) ?_ ?_
    · rintro s rfl
      exact .empty
    · intro s action t answer hs hok hstep
      exact hs.step hok.1 hok.2 hstep
  exact hinv.laws hfinished

/-! ### Two announcements of one repository -/

/-- A later announcement of the signer's repository, signed. -/
def laterAnnouncement : NostrEvent := { signedAnnouncement with
  id := "1d7e41f4650d7908717c95c9bc8fc8a146b9734d84fba609fcdf58c810ac0beb"
  createdAt := 1700000100
  sig := "3271c7af6251fd89a06ba1fe9ef23c7ce3d8bfa1dfde33d2e6f603fd59396445" ++
    "049c281af89b2536f3f46ab3f97de1b0cea08b8ea735f1f1cd4051b30f0c2199" }

/-- The request is for an announcement, under its normalised identifier. -/
def announces (env : ServiceEnv) : Action → Bool
  | .number request _ => match request.decode with
    | .ok entry => match parseEvent env (relayEventFromJob ⟨entry, 0, 0, 0⟩) with
      | .ok (.repoAnnouncement a) => entry.identifier == normalizeIdentifier a.identifier
      | _ => false
    | .error _ => true
  | _ => true

theorem faultless_of_calm {env : ServiceEnv} {s : Publisher} {action : Action}
    (hannounces : announces env action = true) (hcalm : s.calm action = true) :
    Faultless env s action := by
  cases action with
  | number request now =>
    intro job hdecode
    rw [announces, hdecode] at hannounces
    have hevent : relayEventFromJob ⟨job.toRelayPublishEntry, 0, 0, 0⟩ = relayEventFromJob job := rfl
    simp only [hevent] at hannounces
    split at hannounces
    · rename_i a hparse
      exact ⟨a, hparse, beq_iff_eq.1 hannounces⟩
    · cases hannounces
  | advance worker reply => exact not_fails_of_calm hcalm
  | _ => trivial

/-- One relay and one worker: the publication of the first announcement fails once, so that the job of
the second is published before it, and only the first announcement is stored. -/
theorem not_survives_of_pending : ∃ s : Publisher,
    Runs.Reach (step signerEnv) (Faultless signerEnv) (· = empty) s ∧
      Finished s signerKey "repo" ∧
      (s.announced signerEnv signerKey "repo").map RepoAnnouncementRecord.createdAt =
        [1700000000, 1700000100] ∧
      (s.announcements.listAnnouncements signerKey "repo").map RepoAnnouncementRecord.createdAt =
        [1700000000] ∧ ¬ Survives signerEnv s signerKey "repo" := by
  have hrun : ((Runs.exec (Runs.guarded (step signerEnv) fun s action =>
      (announces signerEnv action = true ∧ s.calm action = true) ∧ action.isFirst = true) empty
        (enqueue (announceRequest "wss://relay.example" signedAnnouncement) 0 ++
          enqueue (announceRequest "wss://relay.example" laterAnnouncement) 0 ++
          iteration 1 [.served, .published (.error "timeout"), .served] ++
          iteration 2 (published ++ [.served]) ++
          iteration 60 (published ++ [.served] ++ finalized))).map
          fun r => (r.1.isIdle, r.1.system.outbox.entries.map OutboxEntry.status,
            (r.1.announced signerEnv signerKey "repo").map RepoAnnouncementRecord.createdAt,
            (r.1.announcements.listAnnouncements signerKey "repo").map
              RepoAnnouncementRecord.createdAt)) =
      some (true, [.published, .published], [1700000000, 1700000100], [1700000000]) := by
    decide +kernel
  obtain ⟨⟨s, answers⟩, hexec, hs⟩ := Option.map_eq_some_iff.1 hrun
  simp only [Prod.mk.injEq] at hs
  obtain ⟨hidle, hstatus, hannounced, hlisted⟩ := hs
  obtain ⟨hreach, hidle⟩ := reach_of_exec hexec hidle
  refine ⟨s, hreach.mono fun _ _ hok => faultless_of_calm hok.1 hok.2, ⟨hidle, fun e he _ => ?_⟩,
    hannounced, hlisted, fun hsurvives => ?_⟩
  · have hmem := List.mem_map_of_mem (f := OutboxEntry.status) he
    rw [hstatus] at hmem
    simpa using hmem
  · have hlater : (1700000100 : ℤ) ∈
        (s.announced signerEnv signerKey "repo").map RepoAnnouncementRecord.createdAt := by
      rw [hannounced]
      simp
    obtain ⟨record, hrecord, hcreated⟩ := List.mem_map.1 hlater
    have hmem := List.mem_map_of_mem (f := RepoAnnouncementRecord.createdAt)
      (hsurvives.stored record hrecord)
    rw [hlisted, hcreated] at hmem
    simp at hmem

instance (s : Publisher) (record : RepoAnnouncementRecord) : Decidable (s.Complete record) :=
  inferInstanceAs (Decidable (record ∈ _ ∧ _ = true))

/-- A worker that counts finds no job of its key pending, or one of its own event, or its event is stored
already. -/
def keeps (env : ServiceEnv) (s : Publisher) : Action → Bool
  | .advance worker .served => match s.phase worker with
    | .counting job =>
      s.system.outbox.pendingRelayPublishes job.pubkey job.identifier job.kind == 0 ||
        (s.system.outbox.entries.any fun e =>
          e.status != .published && relayEventFromJob e.job == relayEventFromJob job) ||
        (recordOf env job).all fun record => decide (s.Complete record)
    | _ => true
  | _ => true

theorem handed_of_keeps {env : ServiceEnv} {s : Publisher} {action : Action}
    (h : s.keeps env action = true) : Handed env s action := by
  cases action with
  | advance worker reply =>
    cases reply with
    | served =>
      intro job hphase hpending
      rw [keeps, hphase] at h
      simp only [Bool.or_eq_true, beq_iff_eq, List.any_eq_true, Bool.and_eq_true, bne_iff_ne,
        Option.all_eq_true, decide_eq_true_eq] at h
      rcases h with (hzero | hany) | hcomplete
      · exact absurd hzero hpending
      · exact .inl hany
      · exact .inr (.inr hcomplete)
    | _ => trivial
  | _ => trivial

/-- One worker and two announcements of one repository: the second is enqueued with a job that publishes
the first to another relay. -/
theorem survives_of_reach_twoAnnouncements : ∃ s : Publisher,
    Runs.Reach (step signerEnv)
      (fun s action => Faultless signerEnv s action ∧ Handed signerEnv s action) (· = empty) s ∧
      (s.announced signerEnv signerKey "repo").map RepoAnnouncementRecord.createdAt =
        [1700000000, 1700000000, 1700000100] ∧
      Finished s signerKey "repo" ∧ Survives signerEnv s signerKey "repo" := by
  have hrun : ((Runs.exec (Runs.guarded (step signerEnv) fun s action =>
      ((announces signerEnv action = true ∧ s.calm action = true) ∧
        s.keeps signerEnv action = true) ∧ action.isFirst = true) empty
        (enqueue (announceRequest "wss://a.example" signedAnnouncement) 0 ++
          iteration 1 (published ++ [.served] ++ finalized) ++
          enqueue (announceRequest "wss://b.example" signedAnnouncement) 2 ++
          enqueue (announceRequest "wss://a.example" laterAnnouncement) 2 ++
          iteration 3 (published ++ [.served]) ++
          iteration 4 (published ++ [.served] ++ finalized))).map
          fun r => (r.1.isIdle, r.1.system.outbox.entries.map OutboxEntry.status,
            (r.1.announced signerEnv signerKey "repo").map RepoAnnouncementRecord.createdAt)) =
      some (true, [.published, .published, .published],
        [1700000000, 1700000000, 1700000100]) := by
    decide +kernel
  obtain ⟨⟨s, answers⟩, hexec, hs⟩ := Option.map_eq_some_iff.1 hrun
  simp only [Prod.mk.injEq] at hs
  obtain ⟨hidle, hstatus, hannounced⟩ := hs
  obtain ⟨hreach, hidle⟩ := reach_of_exec hexec hidle
  have hreach : Runs.Reach (step signerEnv)
      (fun s action => Faultless signerEnv s action ∧ Handed signerEnv s action) (· = empty) s :=
    hreach.mono fun _ _ hok => ⟨faultless_of_calm hok.1.1 hok.1.2, handed_of_keeps hok.2⟩
  have hfinished : Finished s signerKey "repo" := by
    refine ⟨hidle, fun e he _ => ?_⟩
    have hmem := List.mem_map_of_mem (f := OutboxEntry.status) he
    rw [hstatus] at hmem
    simpa using hmem
  exact ⟨s, hreach, hannounced, hfinished, survives_of_reach hreach hfinished⟩

end Publisher
end Gittree
