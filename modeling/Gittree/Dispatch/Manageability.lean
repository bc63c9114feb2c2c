import Gittree.Dispatch.Plans

/-!
# Repositories that can be managed

Only its owner can change a repository: an actor's commands look a repository up among those that the
actor owns, and then look for the actor among its maintainers.  So a repository can be managed as
long as its owner is an active maintainer.

Commands are executed one after the other, and any call of theirs may fail.  Two steps lose a
repository: its owner stops being a maintainer, or its record is written and its first maintainer is
not.

* `Manageable`: somebody's next update is carried out and changes the record;
* `manageable_of_reach`: every repository can be managed, in every run without such a step.
-/

namespace Gittree

open Rust

namespace Command

variable {b : Bech32} {s t : CommandTables} {x : Subject} {input : Input} {faults : Faults}
  {ownerPubkey : List UInt8} {repoName : String}

/-- A new update of a repository by one of its maintainers. -/
def Updates (s : CommandTables) (row : RepoStateV1Record) (maintainer : List UInt8) (input : Input) :
    Prop :=
  input.actorPubkey = maintainer ∧ input.parsed.ns = .repo ∧ input.parsed.action = "update" ∧
    input.parsed.target = some row.repoName ∧ accepts s input = true ∧
      input.createdAt ≠ row.updatedAt

/-- An active maintainer can change the record of a repository: their new updates are answered
`repo_updated`, and the record is another one then. -/
def Manageable (b : Bech32) (s : CommandTables) (row : RepoStateV1Record) : Prop :=
  ∃ maintainer ∈ activeAt s row.ownerPubkey row.repoName,
    (∃ input, Updates s row maintainer input) ∧ ∀ input, Updates s row maintainer input →
      (deliver b input (fun _ => none) s).1 = .ok (ok "repo_updated" "repo updated") ∧
        repoAt (deliver b input (fun _ => none) s).2 row.ownerPubkey row.repoName ≠ some row

/-- A call of an execution is reached, and carried out. -/
def CarriesOut (faults : Faults) (n : ℕ) : Prop :=
  (∀ k < n, faults k = none) ∧ ∀ err, faults n ≠ some (.refused err)

/-- The owner of a repository is removed from its maintainers by itself, and the store carries it
out. -/
def RemovesItself (b : Bech32) (s : CommandTables) (ownerPubkey : List UInt8) (repoName : String)
    (input : Input) (faults : Faults) : Prop :=
  accepts s input = true ∧ CarriesOut faults 2 ∧ input.actorPubkey = ownerPubkey ∧
    input.parsed.ns = .repo ∧ input.parsed.action = "maintainers" ∧
      input.parsed.target = some repoName ∧ ∃ action npub,
        input.parsed.args = [.positional action, .positional npub] ∧ action ≠ "add" ∧
          pubkeyBytesFromNpub b npub = some ownerPubkey

/-- The record of a new repository is written, and its first maintainer is not. -/
def HalfCreates (s : CommandTables) (ownerPubkey : List UInt8) (repoName : String) (input : Input)
    (faults : Faults) : Prop :=
  accepts s input = true ∧ CarriesOut faults 2 ∧ ¬ CarriesOut faults 3 ∧
    input.actorPubkey = ownerPubkey ∧ input.parsed.ns = .repo ∧ input.parsed.action = "create" ∧
      input.parsed.target = some repoName ∧ repoAt s ownerPubkey repoName = none

/-- An execution does not lose a repository. -/
def Keeps (b : Bech32) (ownerPubkey : List UInt8) (repoName : String) (s : CommandTables)
    (a : Input × Faults) : Prop :=
  ¬ RemovesItself b s ownerPubkey repoName a.1 a.2 ∧ ¬ HalfCreates s ownerPubkey repoName a.1 a.2

/-- A command is executed. -/
def execute (b : Bech32) (s : CommandTables) (a : Input × Faults) :
    Option (CommandTables × Except DispatchError Output) :=
  some ((deliver b a.1 a.2 s).2, (deliver b a.1 a.2 s).1)

/-! ### Programs over a store that fails -/

section Faulty

variable {α : Type} {p : Calls α} {call : StoreCall} {n : ℕ}

theorem honest_handle (call : StoreCall) (w : CommandTables × ℕ) :
    Honest call (handle faults call w).1 := by
  rw [handle_eq]
  exact honest_respond (faults w.2) call w.1

/-- A program on a part is run on that part alone, and makes as many calls. -/
theorem run_only (hp : p.Calls Honest fun call => call.subject = some x) (w : CommandTables × ℕ) :
    (p.run (handle faults) (w.1.only x, w.2)).2.1 = (p.run (handle faults) w).2.1.only x := by
  have hmap := Prog.run_map (handle faults) (handle faults)
    (fun w : CommandTables × ℕ => (w.1.only x, w.2)) hp honest_handle (fun call hcall w => ?_) w
  · rw [hmap]
  · have hsame : respond (faults w.2) call (w.1.only x) = _ :=
      (parts (faults w.2)).same call x w.1 hcall
    rw [handle_eq, handle_eq]
    simp only [hsame]
    rfl

/-- Calls that write no part but others. -/
theorem only_run_elsewhere
    (hp : p.Calls Honest fun call => call.writes = true → call.subject ≠ some x)
    (w : CommandTables × ℕ) : (p.run (handle faults) w).2.1.only x = w.1.only x :=
  Prog.run_view (handle faults) (fun w => w.1.only x) hp honest_handle
    (fun call hcall w => by rw [handle_eq]; exact only_respond_elsewhere hcall) w

theorem only_run_silent (hp : Silent p) (w : CommandTables × ℕ) :
    (p.run (handle faults) w).2.1.only x = w.1.only x :=
  only_run_elsewhere (hp.mono fun _ hcall hwrites => absurd hwrites (ne_true_of_eq_false hcall)) w

/-- The last write of a program is refused, or carried out. -/
theorem only_run_lastWrite (hp : LastWrite call p) :
    ((p.run (handle faults) (t, n)).2.1.only x = t.only x ∧ ∃ err, faults n = some (.refused err)) ∨
      (p.run (handle faults) (t, n)).2.1.only x = (after t call).only x ∧
        ∀ err, faults n ≠ some (.refused err) := by
  obtain ⟨next, rfl, hnext⟩ := hp
  rw [Prog.run_call, only_run_silent (hnext _), handle_eq]
  rcases hfault : faults n with _ | ⟨err⟩ | ⟨err⟩
  · exact .inr ⟨rfl, nofun⟩
  · exact .inl ⟨rfl, err, rfl⟩
  · exact .inr ⟨rfl, nofun⟩

/-- A read fails, and nothing is written, or the program goes on. -/
theorem run_then_read {follows : call.Answer → Calls α → Prop} {answer : call.Answer}
    (hp : Then call follows p) (hcall : respond none call t = (.ok answer, t))
    (hreads : call.writes = false) :
    (p.run (handle faults) (t, n)).2.1.only x = t.only x ∨ faults n = none ∧
      ∃ q, follows answer q ∧ p.run (handle faults) (t, n) = q.run (handle faults) (t, n + 1) := by
  obtain ⟨next, rfl, herror, hnext⟩ := hp
  rw [Prog.run_call, handle_eq]
  cases hfault : faults n with
  | none =>
    have hhonest : Honest call (.ok answer) := by
      have hall := honest_respond none call t
      rw [hcall] at hall
      exact hall
    refine .inr ⟨rfl, _, hnext answer hhonest, ?_⟩
    rw [hcall]
  | some fault =>
    have hfailed : ∃ err, (respond (some fault) call t).1 = .error err := by
      cases fault with
      | refused err => exact ⟨_, rfl⟩
      | unanswered err => exact ⟨_, rfl⟩
    obtain ⟨err, herr⟩ := hfailed
    left
    rw [herr, only_run_silent (herror err)]
    exact only_of_sameState (CommandTables.sameState_respond hreads)

/-- A program that follows a plan: it does nothing, or what the plan says, or it has written a new
repository without its first maintainer. -/
theorem run_plan_faulty (faults : Faults) {plan : Plan} {time : ℤ} (hfor : Plan.For b input x plan)
    (htime : toOffsetDatetime input.createdAt = .ok time) (hfits : plan.Fits p) :
    (p.run (handle faults) (t, n)).2.1.only x = t.only x ∨
      ((p.run (handle faults) (t, n)).2.1.only x = (plan.effect t).only x ∧ faults n = none ∧
        ∀ read write, plan = .once read write → ∀ err, faults (n + 1) ≠ some (.refused err)) ∨
      ∃ record, plan = .create record ∧ repoAt t record.ownerPubkey record.repoName = none ∧
        faults n = none ∧ (∀ err, faults (n + 1) ≠ some (.refused err)) ∧
          (faults (n + 1) = none → ∃ err, faults (n + 2) = some (.refused err)) := by
  cases plan with
  | once read write =>
    have hread : ∃ answer, respond none read t = (.ok answer, t) ∧ read.writes = false := by
      cases hfor with
      | once hread hreads _ _ =>
        obtain ⟨answer, hanswer⟩ := respond_read (t := t) hread hreads
        exact ⟨answer, hanswer, hreads⟩
      | maintain _ _ _ => exact ⟨_, rfl, rfl⟩
    obtain ⟨answer, hanswer, hreads⟩ := hread
    have hperform : (t.perform read).1 = .ok answer :=
      Result.mapError_eq_ok.1 (congrArg Prod.fst hanswer)
    rcases run_then_read hfits hanswer hreads with hnothing | ⟨hfirst, q, hq, hrun⟩
    · exact .inl hnothing
    · rw [hrun]
      cases hwrite : write answer with
      | none =>
        rw [hwrite] at hq
        exact .inl (only_run_silent hq _)
      | some call =>
        rw [hwrite] at hq
        refine (only_run_lastWrite hq).imp And.left fun hlast => .inl ⟨?_, hfirst, fun _ _ _ => hlast.2⟩
        simp only [Plan.effect, hperform, hwrite]
        exact hlast.1
  | change ownerPubkey repoName changed =>
    rcases run_then_read hfits (respond_repoState ownerPubkey repoName) rfl with
      hnothing | ⟨hfirst, q, hq, hrun⟩
    · exact .inl hnothing
    · rw [hrun]
      cases hfind : repoAt t ownerPubkey repoName with
      | none =>
        rw [hfind] at hq
        exact .inl (only_run_silent hq _)
      | some state =>
        rw [hfind] at hq
        rcases run_then_read hq (respond_listActive ownerPubkey repoName) rfl with
          hnothing | ⟨-, q', hq', hrun'⟩
        · exact .inl hnothing
        · rw [hrun']
          unfold ChangeListed at hq'
          split_ifs at hq' with hlisted
          · refine (only_run_lastWrite hq').imp And.left fun hlast => .inl ⟨?_, hfirst, ?_⟩
            · simp only [Plan.effect, hfind, hlisted, if_true]
              exact hlast.1
            · rintro read write ⟨⟩
          · exact .inl (only_run_silent hq' _)
  | create record =>
    rcases run_then_read hfits (respond_repoState record.ownerPubkey record.repoName) rfl with
      hnothing | ⟨hfirst, q, hq, hrun⟩
    · exact .inl hnothing
    · rw [hrun]
      cases hfind : repoAt t record.ownerPubkey record.repoName with
      | some state =>
        rw [hfind] at hq
        exact .inl (only_run_silent hq _)
      | none =>
        rw [hfind] at hq
        have hrecord : toOffsetDatetime record.updatedAt = .ok time := by
          cases hfor with
          | create hupdated _ => exact hupdated ▸ htime
        obtain ⟨next, rfl, herror, hnext⟩ := hq
        rw [Prog.run_call, handle_eq]
        rcases hsecond : faults (n + 1) with _ | ⟨err⟩ | ⟨err⟩
        · rw [respond_upsertRepoState hrecord]
          rcases only_run_lastWrite (hnext () trivial) with ⟨-, hrefused⟩ | ⟨hlast, -⟩
          · refine .inr (.inr ⟨record, rfl, hfind, hfirst, ?_, fun _ => hrefused⟩)
            rintro err ⟨⟩
          · refine .inr (.inl ⟨?_, hfirst, ?_⟩)
            · simp only [Plan.effect, hfind]
              exact hlast
            · rintro read write ⟨⟩
        · exact .inl (only_run_silent (herror _) _)
        · refine .inr (.inr ⟨record, rfl, hfind, hfirst, ?_, ?_⟩)
          · rintro other ⟨⟩
          · rintro ⟨⟩

end Faulty

/-! ### Owners -/

/-- The owner of a repository is one of its active maintainers. -/
def Kept (s : CommandTables) (ownerPubkey : List UInt8) (repoName : String) : Prop :=
  (repoAt s ownerPubkey repoName).isSome → (activeAt s ownerPubkey repoName).contains ownerPubkey

theorem repoAt_only : repoAt (s.only (.repo ownerPubkey repoName)) ownerPubkey repoName =
    repoAt s ownerPubkey repoName := by
  have hsame := (parts none).same (.repoState ownerPubkey repoName) _ s rfl
  exact Except.ok.inj (congrArg Prod.fst hsame)

theorem activeAt_only : activeAt (s.only (.repo ownerPubkey repoName)) ownerPubkey repoName =
    activeAt s ownerPubkey repoName := by
  have hsame := (parts none).same (.listActiveRepoMaintainers ownerPubkey repoName) _ s rfl
  exact Except.ok.inj (congrArg Prod.fst hsame)

/-- It is a matter of the rows of the repository. -/
theorem kept_congr (h : s.only (.repo ownerPubkey repoName) = t.only (.repo ownerPubkey repoName)) :
    Kept s ownerPubkey repoName ↔ Kept t ownerPubkey repoName := by
  unfold Kept
  rw [← repoAt_only, ← activeAt_only, h, repoAt_only, activeAt_only]

section Owners

variable {repos : List RepoStateV1Record} {maintainers : List RepoMaintainerV1Record} {time : ℤ}

/-- The owner stays a maintainer when somebody else is written, or the owner as an active one. -/
theorem owned_putMaintainer_of {record : RepoMaintainerV1Record}
    (howned : owned ownerPubkey repoName maintainers = true)
    (hkey : record.ownerPubkey = ownerPubkey ∧ record.repoName = repoName)
    (h : record.maintainerPubkey = ownerPubkey → record.active = true) :
    owned ownerPubkey repoName (putMaintainer record maintainers) = true := by
  by_cases hself : record.maintainerPubkey = ownerPubkey
  · refine List.contains_iff_mem.2 (List.mem_map.2 ⟨record, ?_, hself⟩)
    refine List.mem_filter.2 ⟨mem_upsertRow maintainers, ?_⟩
    simp [hkey, h hself]
  · obtain ⟨row, hrow, hmaintainer⟩ := List.mem_map.1 (List.contains_iff_mem.1 howned)
    obtain ⟨hmem, hactive⟩ := List.mem_filter.1 hrow
    refine List.contains_iff_mem.2 (List.mem_map.2 ⟨row, List.mem_filter.2 ⟨?_, hactive⟩,
      hmaintainer⟩)
    have hother : ¬ (row.ownerPubkey == record.ownerPubkey && row.repoName == record.repoName &&
        row.maintainerPubkey == record.maintainerPubkey) = true := by
      rw [Bool.and_eq_true, beq_iff_eq, hmaintainer]
      exact fun heq => hself heq.2.symm
    unfold putMaintainer upsertRow
    split_ifs
    · exact List.mem_map.2 ⟨row, hmem, if_neg hother⟩
    · exact List.mem_append_left _ hmem

/-- A plan that is carried out keeps the owner, unless it removes the owner. -/
theorem kept_effect {plan : Plan} (hfor : Plan.For b input (.repo ownerPubkey repoName) plan)
    (htime : toOffsetDatetime input.createdAt = .ok time)
    (hstays : ∀ record, Appoints b input record → record.maintainerPubkey = ownerPubkey →
      (∃ read write, plan = .once read write) → record.active = true)
    (h : Kept (repoPart repos maintainers) ownerPubkey repoName) :
    Kept (plan.effect (repoPart repos maintainers)) ownerPubkey repoName := by
  cases hfor with
  | once _ _ _ hnot => exact absurd rfl (hnot _ _)
  | @maintain _ _ record hupdated hkey happoints =>
    rw [effect_maintain (hupdated ▸ htime)]
    split_ifs with howned
    · exact fun _ => owned_putMaintainer_of howned hkey fun hself =>
        hstays record happoints hself ⟨_, _, rfl⟩
    · exact h
  | @change _ _ changed hupdated =>
    cases hstate : repoAt (repoPart repos maintainers) ownerPubkey repoName with
    | none =>
      unfold Plan.effect
      simp only [hstate]
      exact h
    | some state =>
      rw [effect_change hstate ((hupdated state) ▸ htime)]
      split_ifs with howned
      · exact fun _ => howned
      · exact h
  | @create record hupdated hcreate =>
    have hrecord : toOffsetDatetime record.updatedAt = .ok time := hupdated ▸ htime
    have hfirst : toOffsetDatetime (firstMaintainer record).updatedAt = .ok time := hrecord
    unfold Plan.effect
    cases hstate : repoAt (repoPart repos maintainers) record.ownerPubkey record.repoName with
    | some state =>
      simp only [hstate]
      exact h
    | none =>
      simp only [hstate, after_upsertRepoState hrecord, after_setRepoMaintainer hfirst]
      exact fun _ => owned_putMaintainer

end Owners

/-- An execution changes nothing but the log, or it has its entry inserted and applies the command. -/
theorem deliver_faulty (b : Bech32) (input : Input) (faults : Faults) (s : CommandTables) :
    SameState s (deliver b input faults s).2 ∨
    faults 0 = none ∧ accepts s input = true ∧
      SameState ((applyCommand b input).run.run (handle faults)
        ({ s with log := s.log ++ [logRecord input] }, 1)).2.1 (deliver b input faults s).2 := by
  have hentry : SameState s (respond (faults 0) (.insertCommandLog (logRecord input)) s).2 :=
    CommandTables.sameState_respond rfl
  unfold deliver
  rw [run_executeCommand, handle_eq]
  rcases hresponse : (respond (faults 0) (.insertCommandLog (logRecord input)) s).1 with
    err | _ | _
  · exact .inl hentry
  · exact .inl hentry
  · right
    have hfirst : faults 0 = none := by
      rcases hfault : faults 0 with _ | ⟨err⟩ | ⟨err⟩
      · rfl
      · rw [hfault] at hresponse
        cases hresponse
      · rw [hfault] at hresponse
        cases hresponse
    rw [hfirst] at hresponse
    have haccepts : accepts s input = true := respond_insert_iff.1 hresponse
    refine ⟨hfirst, haccepts, ?_⟩
    rw [hfirst, respond_accepted haccepts]
    simp only
    rw [handle_eq]
    exact CommandTables.sameState_respond rfl

/-- An execution keeps the owner of a repository, unless the owner removes itself or the repository is
created by half. -/
theorem kept_deliver (hkeeps : Keeps b ownerPubkey repoName s (input, faults))
    (h : Kept s ownerPubkey repoName) : Kept (deliver b input faults s).2 ownerPubkey repoName := by
  rcases deliver_faulty b input faults s with
    hsame | ⟨hfirst, haccepts, hsame⟩
  · exact (kept_congr (only_of_sameState hsame)).2 h
  · rw [kept_congr (only_of_sameState hsame)]
    by_cases hchanges : changes b input = some (.repo ownerPubkey repoName)
    · have hsubject := subject_of_changes hchanges
      have hactor : ownerPubkey = input.actorPubkey := owner_of_subject hsubject
      have htarget : input.parsed.target = some repoName := target_of_subject hsubject
      obtain ⟨time, htime⟩ := time_of_accepts haccepts
      obtain ⟨plan, hfor, hfits⟩ :=
        exists_plan (show ∀ applied : Except DispatchError Output, Silent (Prog.done applied) from
          fun _ => trivial) hchanges
      rw [Prog.bind_done] at hfits
      -- the rows of the repository decide what the command does with them
      have hpart : ((applyCommand b input).run.run (handle faults)
          (s.only (.repo ownerPubkey repoName), 1)).2.1 =
            ((applyCommand b input).run.run (handle faults)
              ({ s with log := s.log ++ [logRecord input] }, 1)).2.1.only (.repo ownerPubkey repoName) :=
        run_only (calls_applyCommand.mono fun call ⟨y, hcall, hinput⟩ =>
          hcall.trans (hinput.symm.trans hsubject)) ({ s with log := s.log ++ [logRecord input] }, 1)
      rw [only_repo s] at hpart
      have hrows : Kept (s.only (.repo ownerPubkey repoName)) ownerPubkey repoName :=
        (kept_congr (only_only s)).2 h
      rw [only_repo] at hrows
      have hdone : Kept ((applyCommand b input).run.run (handle faults)
          (repoPart (s.only (.repo ownerPubkey repoName)).repos
            (s.only (.repo ownerPubkey repoName)).maintainers, 1)).2.1 ownerPubkey repoName := by
        rcases run_plan_faulty faults (n := 1) hfor htime hfits with
          hnothing | ⟨hall, hsecond, hthird⟩ | ⟨record, rfl, hnone, hsecond, hthird, hfourth⟩
        · exact (kept_congr hnothing).2 hrows
        · refine (kept_congr hall).2 (kept_effect hfor htime (fun record happoints hself honce => ?_)
            hrows)
          obtain ⟨read, write, hplan⟩ := honce
          obtain ⟨hns, haction, action, npub, hargs, hkey, hactive⟩ := happoints
          by_contra hinactive
          refine hkeeps.1 ⟨haccepts, ⟨?_, hthird read write hplan⟩, hactor.symm, hns, haction, htarget,
            action, npub, hargs, fun hadd => ?_, hkey.trans (congrArg some hself)⟩
          · intro k hk
            interval_cases k
            · exact hfirst
            · exact hsecond
          · rw [hadd] at hactive
            exact hinactive hactive
        · obtain ⟨hx, -, hns, haction⟩ := for_create hfor
          obtain ⟨howner, hname⟩ := Subject.repo.inj hx
          refine absurd ⟨haccepts, ⟨fun k hk => ?_, hthird⟩, fun hcarried => ?_, hactor.symm, hns,
            haction, htarget, ?_⟩ hkeeps.2
          · interval_cases k
            · exact hfirst
            · exact hsecond
          · obtain ⟨err, hrefused⟩ := hfourth (hcarried.1 2 (by omega))
            exact hcarried.2 err hrefused
          · rw [← howner, ← hname, ← only_repo, repoAt_only] at hnone
            exact hnone
      exact (kept_congr (only_only _)).1 (hpart ▸ hdone)
    · exact (kept_congr (only_run_elsewhere (calls_elsewhere hchanges) _)).2 h

/-! ### Updates -/

/-- A change of a repository by its owner, who is a maintainer. -/
theorem run_changeRepo (change : RepoStateV1Record → RepoStateV1Record) (done : Output)
    {row : RepoStateV1Record} {time : ℤ} (htime : toOffsetDatetime input.createdAt = .ok time)
    (hrow : repoAt t input.actorPubkey repoName = some row)
    (hlisted : (activeAt t input.actorPubkey repoName).contains input.actorPubkey = true) :
    (changeRepo input repoName change done).run.run (respond none) t = (.ok done,
      after t (.upsertRepoState { change row with updatedAt := input.createdAt })) := by
  have hfound : (Command.repoState input.actorPubkey repoName).run.run (respond none) t =
      (.ok (some row), t) := by
    show (Except.ok (repoAt t input.actorPubkey repoName), t) = _
    rw [hrow]
  have hmaintainer : (actorIsMaintainer input.actorPubkey repoName).run.run (respond none) t =
      (.ok true, t) := by
    show (Except.ok ((activeAt t input.actorPubkey repoName).contains input.actorPubkey), t) = _
    rw [hlisted]
  have hwritten : (Command.upsertRepoState { change row with updatedAt := input.createdAt }).run.run
      (respond none) t =
        (.ok (), after t (.upsertRepoState { change row with updatedAt := input.createdAt })) :=
    respond_upsertRepoState htime
  unfold changeRepo
  rw [Prog.run_bind_of_ok hfound]
  simp only
  rw [Prog.run_bind_of_ok hmaintainer, if_pos rfl, Prog.run_bind_of_ok hwritten]
  rfl

/-- A repository that has been written is found as it was written. -/
theorem repoAt_after {record : RepoStateV1Record} {time : ℤ}
    (htime : toOffsetDatetime record.updatedAt = .ok time)
    (hkey : record.ownerPubkey = ownerPubkey ∧ record.repoName = repoName) :
    repoAt (after t (.upsertRepoState record)) ownerPubkey repoName = some record := by
  obtain ⟨rfl, rfl⟩ := hkey
  have hrepos : (after t (.upsertRepoState record)).repos = putRepo record t.repos := by
    show (t.upsertRepoState record).2.repos = _
    unfold CommandTables.upsertRepoState
    rw [htime]
    rfl
  have hsome : ((putRepo record t.repos).find? fun row =>
      row.ownerPubkey == record.ownerPubkey && row.repoName == record.repoName).isSome := by
    rw [List.find?_isSome]
    exact ⟨record, mem_upsertRow t.repos, by simp⟩
  obtain ⟨row, hrow⟩ := Option.isSome_iff_exists.1 hsome
  unfold repoAt
  rw [hrepos, hrow]
  have hkey := List.find?_some hrow
  have hmem := List.mem_of_find?_eq_some hrow
  unfold putRepo upsertRow at hmem
  split_ifs at hmem with hany
  · obtain ⟨other, -, heq⟩ := List.mem_map.1 hmem
    split_ifs at heq with hother
    · exact congrArg some heq.symm
    · exact absurd (heq ▸ hkey) hother
  · rcases List.mem_append.1 hmem with hold | hnew
    · exact absurd (List.any_eq_true.2 ⟨row, hold, hkey⟩) hany
    · rw [List.mem_singleton.1 hnew]

/-- There are always new updates. -/
theorem exists_updates (s : CommandTables) (row : RepoStateV1Record) (maintainer : List UInt8) :
    ∃ input, Updates s row maintainer input := by
  obtain ⟨createdAt, hrange, hlater⟩ : ∃ createdAt : ℤ,
      (toOffsetDatetime createdAt).toOption.isSome = true ∧ createdAt ≠ row.updatedAt := by
    by_cases hzero : row.updatedAt = 0
    · exact ⟨1, by decide +kernel, by omega⟩
    · exact ⟨0, by decide +kernel, fun heq => hzero heq.symm⟩
  obtain ⟨eventId, hnew⟩ := Infinite.exists_notMem_finset
    (s.log.map CommandLogRecord.eventId).toFinset
  refine ⟨⟨eventId, maintainer, ⟨.repo, "update", some row.repoName, []⟩, createdAt⟩, rfl, rfl, rfl,
    rfl, ?_, hlater⟩
  rw [List.mem_toFinset] at hnew
  have hlogged : s.logged eventId = false := by
    refine List.any_eq_false.2 fun record hrecord heq => hnew ?_
    exact beq_iff_eq.1 heq ▸ List.mem_map_of_mem hrecord
  unfold accepts
  simp only [hrange, hlogged, Bool.not_false, Bool.and_self]

/-- A repository whose owner is a maintainer can be managed. -/
theorem manageable_of_kept (h : Kept s ownerPubkey repoName) {row : RepoStateV1Record}
    (hrow : repoAt s ownerPubkey repoName = some row) : Manageable b s row := by
  have hkey := List.find?_some hrow
  rw [Bool.and_eq_true, beq_iff_eq, beq_iff_eq] at hkey
  obtain ⟨rfl, rfl⟩ := hkey
  have hlisted := h (Option.isSome_of_eq_some hrow)
  refine ⟨row.ownerPubkey, List.contains_iff_mem.1 hlisted, exists_updates s row row.ownerPubkey,
    fun input ⟨hactor, hns, haction, htarget, haccepts, hlater⟩ => ?_⟩
  obtain ⟨time, htime⟩ := time_of_accepts haccepts
  have hcommand : applyCommand b input = changeRepo input row.repoName
      (fun state => (keyValues input.parsed.args).foldl setRepoField state)
      (ok "repo_updated" "repo updated") := by
    unfold applyCommand
    rw [hns]
    simp only [applyRepo, htarget, haction]
    rfl
  have hrun := run_changeRepo (t := { s with log := s.log ++ [logRecord input] })
    (fun state => (keyValues input.parsed.args).foldl setRepoField state)
    (ok "repo_updated" "repo updated") htime (hactor ▸ hrow) (hactor ▸ hlisted)
  rw [← hcommand] at hrun
  constructor
  · rw [deliver_fst haccepts, hrun]
    rfl
  · rw [deliver_snd, if_pos haccepts, hrun]
    intro hsame
    have hafter : repoAt (after { s with log := s.log ++ [logRecord input] } (.upsertRepoState
        { (keyValues input.parsed.args).foldl setRepoField row with
          updatedAt := input.createdAt })) row.ownerPubkey row.repoName = _ :=
      repoAt_after htime (key_setRepoField (keyValues input.parsed.args) row)
    have heq := hafter.symm.trans hsame
    exact hlater (congrArg RepoStateV1Record.updatedAt (Option.some.inj heq))

/-! ### Runs -/

/-- A repository keeps its owner as a maintainer. -/
theorem kept_of_reach (h : Runs.Reach (execute b) (Keeps b ownerPubkey repoName)
    (fun s => s = CommandTables.empty) s) : Kept s ownerPubkey repoName := by
  refine h.invariant (I := fun s => Kept s ownerPubkey repoName) ?_ ?_
  · rintro _ rfl hsome
    cases hsome
  · rintro s a t output hkept hkeeps hstep
    cases hstep
    exact kept_deliver hkeeps hkept

/-- In every run of executions, whose calls may fail, a repository can be managed, as long as its owner
does not remove itself and it is not created by half. -/
theorem manageable_of_reach (h : Runs.Reach (execute b) (Keeps b ownerPubkey repoName)
      (fun s => s = CommandTables.empty) s) {row : RepoStateV1Record}
    (hrow : repoAt s ownerPubkey repoName = some row) : Manageable b s row :=
  manageable_of_kept (kept_of_reach h) hrow

/-- A command by the owner of the repository. -/
def ownsDemo (eventId : UInt8) (action : String) (args : List CommandArg) : Input where
  eventId := List.replicate 32 eventId
  actorPubkey := otherKey
  parsed := ⟨.repo, action, some "demo", args⟩
  createdAt := 300

/-- The repository is created, and can be updated. -/
theorem manageable_ownsDemo : ∃ (s : CommandTables) (row : RepoStateV1Record),
    repoAt s otherKey "demo" = some row ∧ Manageable sampleBech32 s row := by
  have hrun : ((Runs.exec (execute sampleBech32) .empty [(ownsDemo 1 "create" [], fun _ => none)]).map
      fun r => (repoAt r.1 otherKey "demo").isSome) = some true := by
    decide +kernel
  obtain ⟨⟨s, outputs⟩, hexec, hsome⟩ := Option.map_eq_some_iff.1 hrun
  obtain ⟨row, hrow⟩ := Option.isSome_iff_exists.1 hsome
  have hreach : Runs.Reach (execute sampleBech32) (Keeps sampleBech32 otherKey "demo")
      (fun s => s = CommandTables.empty) s := by
    refine .of_exec (.start rfl) (fun a ha s => ?_) hexec
    rw [List.mem_singleton.1 ha]
    refine ⟨fun hremoves => ?_, fun hcreates => hcreates.2.2.1 ⟨fun _ _ => rfl, nofun⟩⟩
    exact absurd hremoves.2.2.2.2.1 (by decide)
  exact ⟨s, row, hrow, manageable_of_reach hreach hrow⟩

/-- The owner removes itself, and nobody can update the repository any more. -/
theorem not_manageable_ownsDemo : ∃ (s : CommandTables) (row : RepoStateV1Record),
    Runs.Reach (execute sampleBech32) (fun _ _ => True) (fun s => s = CommandTables.empty) s ∧
      repoAt s otherKey "demo" = some row ∧ ¬ Manageable sampleBech32 s row := by
  have hrun : ((Runs.exec (execute sampleBech32) .empty [(ownsDemo 1 "create" [], fun _ => none),
      (ownsDemo 2 "maintainers" [.positional "remove", .positional otherNpub], fun _ => none)]).map
        fun r => ((repoAt r.1 otherKey "demo").isSome, activeAt r.1 otherKey "demo")) =
      some (true, []) := by
    decide +kernel
  obtain ⟨⟨s, outputs⟩, hexec, hstate⟩ := Option.map_eq_some_iff.1 hrun
  obtain ⟨hsome, hnobody⟩ := Prod.mk.inj hstate
  obtain ⟨row, hrow⟩ := Option.isSome_iff_exists.1 hsome
  refine ⟨s, row, .of_exec (.start rfl) (fun _ _ _ => trivial) hexec, hrow, fun hmanageable => ?_⟩
  have hkey := List.find?_some hrow
  rw [Bool.and_eq_true, beq_iff_eq, beq_iff_eq] at hkey
  obtain ⟨maintainer, hmem, -⟩ := hmanageable
  rw [hkey.1, hkey.2, show activeAt s otherKey "demo" = [] from hnobody] at hmem
  cases hmem

end Command

end Gittree
