import Gittree.Dispatch.Plans

/-!
# Commands that run side by side

Every relay has a task of its own (`serve_with_shutdown` of `services/dispatch/src/lib.rs`), and the
tasks share one store.  A command that reads a record and writes it back has no hold on it in
between.

* `Validated`: before a command writes for the first time, what it has read still holds;
* `serializable`: then the outcome is that of the commands one after the other, in some order.

The creation of a repository is two writes, and other commands can come between them: those that
write its maintainers go before the creation, those that write the repository after it.
-/

namespace Gittree

open Rust

namespace Command

variable {b : Bech32} {s : CommandTables} {x : Subject} {input : Input}

/-- Commands in progress, none of which has made a call. -/
def commands (b : Bech32) (s : CommandTables) (inputs : List Input) : Deliveries :=
  .ofPrograms s (inputs.map fun input => (executeCommand b input).run)

/-- The records would be read again as they were read. -/
def Current (s : CommandTables) (past : List (Σ call : StoreCall, call.Response)) : Prop :=
  ∀ e ∈ past, e.1.subject.isSome = true → (respond none e.1 s).1 = e.2

/-- The next call of a command is no first write, or what the command has read is still there. -/
def Sound (s : CommandTables) : Option Delivery → Prop
  | some ⟨past, .call call _⟩ => call.writes = true → ¬ HasWritten past → Current s past
  | _ => True

/-- The store carries the call out, and a command that writes for the first time has read what is
still there. -/
def Validated (pool : Deliveries) (a : ℕ × Option StoreFault) : Prop :=
  a.2 = none ∧ Sound pool.shared pool.tasks[a.1]?

section Decidable

instance (call : StoreCall) : DecidableEq call.Answer :=
  match call with
  | .insertCommandLog _ => inferInstanceAs (DecidableEq Bool)
  | .updateCommandLogOutcome _ _ _ _ => inferInstanceAs (DecidableEq Unit)
  | .accountState _ => inferInstanceAs (DecidableEq (Option AccountStateRecord))
  | .upsertAccountState _ => inferInstanceAs (DecidableEq Unit)
  | .profileState _ => inferInstanceAs (DecidableEq (Option ProfileStateRecord))
  | .upsertProfileState _ => inferInstanceAs (DecidableEq Unit)
  | .repoState _ _ => inferInstanceAs (DecidableEq (Option RepoStateV1Record))
  | .upsertRepoState _ => inferInstanceAs (DecidableEq Unit)
  | .setRepoMaintainer _ => inferInstanceAs (DecidableEq Unit)
  | .listActiveRepoMaintainers _ _ => inferInstanceAs (DecidableEq (List (List UInt8)))

instance (call : StoreCall) : DecidableEq call.Response :=
  inferInstanceAs (DecidableEq (Except DispatchError call.Answer))

instance (past : List (Σ call : StoreCall, call.Response)) : Decidable (HasWritten past) :=
  inferInstanceAs (Decidable (∃ e ∈ past, e.1.writes = true))

instance (s : CommandTables) (past : List (Σ call : StoreCall, call.Response)) :
    Decidable (Current s past) :=
  inferInstanceAs (Decidable (∀ e ∈ past, e.1.subject.isSome = true → (respond none e.1 s).1 = e.2))

instance (s : CommandTables) (task : Option Delivery) : Decidable (Sound s task) :=
  match task with
  | some ⟨past, .call call _⟩ =>
    inferInstanceAs (Decidable (call.writes = true → ¬ HasWritten past → Current s past))
  | some ⟨_, .done _⟩ => inferInstanceAs (Decidable True)
  | none => inferInstanceAs (Decidable True)

instance (pool : Deliveries) (a : ℕ × Option StoreFault) : Decidable (Validated pool a) :=
  inferInstanceAs (Decidable (a.2 = none ∧ Sound pool.shared pool.tasks[a.1]?))

end Decidable

/-! ### Plans on a repository that is being created -/

section Parts

variable {ownerPubkey : List UInt8} {repoName : String} {repos : List RepoStateV1Record}
  {maintainers : List RepoMaintainerV1Record} {time : ℤ}

/-- A plan on a repository that is being created, and has no first maintainer yet: what it does could
have been done before the repository was created, or it can be done after that. -/
theorem effect_created {plan : Plan} (hfor : Plan.For b input (.repo ownerPubkey repoName) plan)
    (htime : toOffsetDatetime input.createdAt = .ok time)
    (hrepo : (repoAt (repoPart repos maintainers) ownerPubkey repoName).isSome) :
    (∃ maintainers', plan.effect (repoPart repos maintainers) = repoPart repos maintainers' ∧
        ∀ old, repoAt (repoPart old maintainers) ownerPubkey repoName = none →
          plan.effect (repoPart old maintainers) = repoPart old maintainers') ∨
      ∃ repos', plan.effect (repoPart repos maintainers) = repoPart repos' maintainers ∧
        (repoAt (repoPart repos' maintainers) ownerPubkey repoName).isSome ∧
        ∀ others, owned ownerPubkey repoName others = true →
          plan.effect (repoPart repos others) = repoPart repos' others := by
  cases hfor with
  | once _ _ _ hnot => exact absurd rfl (hnot _ _)
  | @maintain _ _ record hupdated _ _ =>
    have hrecord : toOffsetDatetime record.updatedAt = .ok time := hupdated ▸ htime
    left
    by_cases howned : owned ownerPubkey repoName maintainers = true
    · refine ⟨putMaintainer record maintainers, ?_, fun old _ => ?_⟩
      · rw [effect_maintain hrecord, if_pos howned]
      · rw [effect_maintain hrecord, if_pos howned]
    · refine ⟨maintainers, ?_, fun old _ => ?_⟩
      · rw [effect_maintain hrecord, if_neg howned]
      · rw [effect_maintain hrecord, if_neg howned]
  | @change _ _ changed hupdated =>
    obtain ⟨state, hstate⟩ := Option.isSome_iff_exists.1 hrepo
    have hrecord : toOffsetDatetime (changed state).updatedAt = .ok time := (hupdated state) ▸ htime
    by_cases howned : owned ownerPubkey repoName maintainers = true
    · right
      refine ⟨putRepo (changed state) repos, ?_, repoAt_putRepo hrepo, fun others hothers => ?_⟩
      · rw [effect_change hstate hrecord, if_pos howned]
      · have hstate' : repoAt (repoPart repos others) ownerPubkey repoName = some state := hstate
        rw [effect_change hstate' hrecord, if_pos hothers]
    · left
      refine ⟨maintainers, ?_, fun old hold => ?_⟩
      · rw [effect_change hstate hrecord, if_neg howned]
      · unfold Plan.effect
        simp only [hold]
  | create _ _ => exact .inr ⟨repos, effect_create hrepo, hrepo, fun others _ => effect_create hrepo⟩

end Parts

/-! ### Commands under way -/

section UnderWay

variable {α : Type} {plan : Plan} {past : List (Σ call : StoreCall, call.Response)} {call : StoreCall}
  {time : ℤ}

/-- A call with its answer. -/
abbrev answered (call : StoreCall) (answer : call.Answer) : Σ call : StoreCall, call.Response :=
  ⟨call, .ok answer⟩

/-- What a command has read that has not written yet, and what is left of it. -/
def Plan.UnderWay (plan : Plan) (past : List (Σ call : StoreCall, call.Response)) (rest : Calls α) :
    Prop :=
  match plan with
  | .once read write => ∃ answer call, answered read answer ∈ past ∧ write answer = some call ∧
      LastWrite call rest
  | .change ownerPubkey repoName changed => ∃ state,
      answered (.repoState ownerPubkey repoName) (some state) ∈ past ∧
        (Then (.listActiveRepoMaintainers ownerPubkey repoName)
            (ChangeListed ownerPubkey (changed state)) rest ∨
          ∃ maintainers : List (List UInt8),
            answered (.listActiveRepoMaintainers ownerPubkey repoName) maintainers ∈ past ∧
              maintainers.contains ownerPubkey = true ∧
                LastWrite (.upsertRepoState (changed state)) rest)
  | .create record => answered (.repoState record.ownerPubkey record.repoName) none ∈ past ∧
      Creates record rest

/-- A command that has not written yet, and may still write. -/
def Plan.Undecided (plan : Plan) (past : List (Σ call : StoreCall, call.Response))
    (rest : Calls α) : Prop :=
  plan.Fits rest ∨ plan.UnderWay past rest

theorem current_ok {t : CommandTables} {answer : call.Answer} (h : Current t past)
    (hcall : call.subject = some x) (hmem : answered call answer ∈ past) :
    (respond none call t).1 = .ok answer :=
  h _ hmem (Option.isSome_of_eq_some hcall)

/-- A call of a command that has not written yet: the command remains undecided, or it has its effect
and writes nothing any more, or it has begun to create a repository. -/
theorem undecided_call {next : call.Response → Calls α} {t : CommandTables}
    (hfor : Plan.For b input x plan) (htime : toOffsetDatetime input.createdAt = .ok time)
    (h : plan.Undecided past (.call call next))
    (hcurrent : call.writes = true → Current t past) :
    (call.writes = false ∧
        plan.Undecided (past ++ [⟨call, (respond none call t).1⟩]) (next (respond none call t).1)) ∨
      (Silent (next (respond none call t).1) ∧ (respond none call t).2 = plan.effect t) ∨
      ∃ record, plan = .create record ∧ call = .upsertRepoState record ∧
        repoAt t record.ownerPubkey record.repoName = none ∧
          LastWrite (.setRepoMaintainer (firstMaintainer record)) (next (respond none call t).1) := by
  cases plan with
  | once read write =>
    have hread : read.subject = some x ∧ read.writes = false ∧
        ∀ answer call, write answer = some call → call.writes = true := by
      cases hfor with
      | once hread hreads hwrites _ => exact ⟨hread, hreads, hwrites⟩
      | maintain _ _ _ =>
        refine ⟨rfl, rfl, fun answer call hcall => ?_⟩
        simp only at hcall
        split_ifs at hcall
        cases hcall
        rfl
    obtain ⟨hsubject, hreads, hwrites⟩ := hread
    obtain ⟨now, hnow⟩ := respond_read (t := t) hsubject hreads
    have hperform : (t.perform read).1 = .ok now :=
      Result.mapError_eq_ok.1 (congrArg Prod.fst hnow)
    rcases h with ⟨next, heq, -, hnext⟩ | ⟨answer, last, hmem, hwrite, next, heq, hnext⟩
    · cases heq
      have hhonest : Honest call (.ok now) := by
        have hall := honest_respond none call t
        rw [hnow] at hall
        exact hall
      have hdecided : Decided (write now) (next (.ok now)) := hnext now hhonest
      rw [hnow]
      cases hwrite : write now with
      | none =>
        rw [hwrite] at hdecided
        refine .inr (.inl ⟨hdecided, ?_⟩)
        simp [Plan.effect, hperform, hwrite]
      | some last =>
        rw [hwrite] at hdecided
        exact .inl ⟨hreads, .inr ⟨now, last, List.mem_append_right _ List.mem_cons_self, hwrite,
          hdecided⟩⟩
    · cases heq
      have hanswer := current_ok (hcurrent (hwrites answer call hwrite)) hsubject hmem
      rw [hnow] at hanswer
      cases hanswer
      refine .inr (.inl ⟨hnext _, ?_⟩)
      simp only [Plan.effect, hperform, hwrite]
      rfl
  | change ownerPubkey repoName changed =>
    rcases h with ⟨next, heq, -, hnext⟩ | ⟨state, hmem, ⟨next, heq, -, hnext⟩ |
      ⟨maintainers, hlist, hlisted, next, heq, hnext⟩⟩
    · cases heq
      have hhonest := honest_respond none (.repoState ownerPubkey repoName) t
      rw [respond_repoState] at hhonest ⊢
      have hfound := hnext _ hhonest
      cases hfind : repoAt t ownerPubkey repoName with
      | none =>
        rw [hfind] at hfound
        refine .inr (.inl ⟨hfound, ?_⟩)
        simp only [Plan.effect, hfind]
      | some state =>
        rw [hfind] at hfound
        exact .inl ⟨rfl, .inr ⟨state, List.mem_append_right _ List.mem_cons_self, .inl hfound⟩⟩
    · cases heq
      rw [respond_listActive]
      have hfound := hnext (activeAt t ownerPubkey repoName) trivial
      unfold ChangeListed at hfound
      split_ifs at hfound with hlisted
      · exact .inl ⟨rfl, .inr ⟨state, List.mem_append_left _ hmem, .inr ⟨_,
          List.mem_append_right _ List.mem_cons_self, hlisted, hfound⟩⟩⟩
      · -- whatever the repository is now, the owner is no maintainer
        refine .inr (.inl ⟨hfound, ?_⟩)
        unfold Plan.effect
        simp only [hlisted, Bool.false_eq_true, if_false]
        cases repoAt t ownerPubkey repoName with
        | none => rfl
        | some state => rfl
    · cases heq
      have hnow := hcurrent rfl
      have hfind := current_ok (x := .repo ownerPubkey repoName) hnow rfl hmem
      have hlist := current_ok (x := .repo ownerPubkey repoName) hnow rfl hlist
      rw [respond_repoState] at hfind
      rw [respond_listActive] at hlist
      cases Except.ok.inj hlist
      refine .inr (.inl ⟨hnext _, ?_⟩)
      simp only [Plan.effect, Except.ok.inj hfind, hlisted, if_true]
      rfl
  | create record =>
    rcases h with ⟨next, heq, -, hnext⟩ | ⟨hmem, next, heq, -, hnext⟩
    · cases heq
      have hhonest := honest_respond none (.repoState record.ownerPubkey record.repoName) t
      rw [respond_repoState] at hhonest ⊢
      have hfound := hnext _ hhonest
      cases hfind : repoAt t record.ownerPubkey record.repoName with
      | some state =>
        rw [hfind] at hfound
        refine .inr (.inl ⟨hfound, ?_⟩)
        simp only [Plan.effect, hfind]
      | none =>
        rw [hfind] at hfound
        exact .inl ⟨rfl, .inr ⟨List.mem_append_right _ List.mem_cons_self, hfound⟩⟩
    · cases heq
      have hfind := current_ok (x := .repo record.ownerPubkey record.repoName) (hcurrent rfl) rfl hmem
      rw [respond_repoState] at hfind
      have hrecord : toOffsetDatetime record.updatedAt = .ok time := by
        cases hfor with
        | create hupdated _ => exact hupdated ▸ htime
      rw [respond_upsertRepoState hrecord]
      exact .inr (.inr ⟨record, rfl, rfl, Except.ok.inj hfind, hnext () trivial⟩)

/-- The calls of a command that has not written yet are about its records. -/
theorem undecided_subject {next : call.Response → Calls α} (hfor : Plan.For b input x plan)
    (h : plan.Undecided past (.call call next)) : call.subject = some x ∨ call.writes = true := by
  cases hfor with
  | once hread _ hwrites _ =>
    rcases h with ⟨next, heq, -⟩ | ⟨answer, last, -, hwrite, next, heq, -⟩
    · cases heq
      exact .inl hread
    · cases heq
      exact .inr (hwrites answer call hwrite)
  | maintain _ _ _ =>
    rcases h with ⟨next, heq, -⟩ | ⟨answer, last, -, hwrite, next, heq, -⟩
    · cases heq
      exact .inl rfl
    · cases heq
      simp only at hwrite
      split_ifs at hwrite
      cases hwrite
      exact .inr rfl
  | change _ =>
    rcases h with ⟨next, heq, -⟩ | ⟨state, -, ⟨next, heq, -⟩ | ⟨maintainers, -, -, next, heq, -⟩⟩
    · cases heq
      exact .inl rfl
    · cases heq
      exact .inl rfl
    · cases heq
      exact .inr rfl
  | create _ _ =>
    rcases h with ⟨next, heq, -⟩ | ⟨-, next, heq, -⟩
    · cases heq
      exact .inl rfl
    · cases heq
      exact .inr rfl

/-- A command that has not written yet is not over. -/
theorem not_undecided_done {a : α} : ¬ plan.Undecided past (.done a) := by
  cases plan with
  | once read write =>
    rintro (⟨next, heq, -⟩ | ⟨answer, last, -, -, next, heq, -⟩)
    · cases heq
    · cases heq
  | change ownerPubkey repoName changed =>
    rintro (⟨next, heq, -⟩ | ⟨state, -, ⟨next, heq, -⟩ | ⟨maintainers, -, -, next, heq, -⟩⟩)
    · cases heq
    · cases heq
    · cases heq
  | create record =>
    rintro (⟨next, heq, -⟩ | ⟨-, next, heq, -⟩)
    · cases heq
    · cases heq

end UnderWay

/-! ### Histories -/

/-- The commands that have had their effect on a part.  While a repository is being created, some of
them are to be counted before its creation and some after it. -/
structure History where
  before : List Input
  creating : Option (Input × RepoStateV1Record)
  later : List Input

/-- The command has its place in the history. -/
def History.Placed (history : History) (input : Input) : Prop :=
  input ∈ history.before ∨ input ∈ history.later

/-- The tables hold rows of the part only. -/
def IsPart (x : Subject) (t : CommandTables) : Prop := t.only x = t

/-- What a part is, given its history. -/
inductive Explains (b : Bech32) (start : CommandTables) :
    Subject → History → CommandTables → Prop
  | calm {x : Subject} {before : List Input} {now : CommandTables}
      (hnow : before.foldl (applied b) start = now) : Explains b start x ⟨before, none, []⟩ now
  | creating {x : Subject} {before later : List Input} {input : Input} {record : RepoStateV1Record}
      {old repos : List RepoStateV1Record} {maintainers : List RepoMaintainerV1Record} {time : ℤ}
      (hx : x = .repo record.ownerPubkey record.repoName)
      (hbefore : before.foldl (applied b) start = repoPart old maintainers)
      (hpart : IsPart x (repoPart old maintainers))
      (hold : repoAt (repoPart old maintainers) record.ownerPubkey record.repoName = none)
      (hrepo : (repoAt (repoPart repos maintainers) record.ownerPubkey record.repoName).isSome)
      (hcreate : ∀ others, IsPart x (repoPart old others) → applied b (repoPart old others) input =
        repoPart (putRepo record old) (putMaintainer (firstMaintainer record) others))
      (hlater : ∀ others, owned record.ownerPubkey record.repoName others = true →
        IsPart x (repoPart repos others) →
          later.foldl (applied b) (repoPart (putRepo record old) others) = repoPart repos others)
      (htime : toOffsetDatetime record.updatedAt = .ok time) :
      Explains b start x ⟨before, some (input, record), later⟩ (repoPart repos maintainers)

section Explains

variable {start now : CommandTables} {history : History} {ownerPubkey : List UInt8}
  {repoName : String} {repos : List RepoStateV1Record} {maintainers : List RepoMaintainerV1Record}

theorem isPart_only : IsPart x (s.only x) := only_only s

theorem isPart_repoPart : IsPart (.repo ownerPubkey repoName) (repoPart repos maintainers) ↔
    (∀ row ∈ repos, row.ownerPubkey = ownerPubkey ∧ row.repoName = repoName) ∧
      ∀ row ∈ maintainers, row.ownerPubkey = ownerPubkey ∧ row.repoName = repoName := by
  simp [IsPart, CommandTables.only, repoPart, List.filter_eq_self]

/-- A command leaves a part a part. -/
theorem isPart_applied {t : CommandTables} (h : input.subject = some x) (ht : IsPart x t) :
    IsPart x (applied b t input) := by
  unfold IsPart at ht ⊢
  rw [only_applied h, ht]

/-- On a part, a command does just what its plan says. -/
theorem applied_eq {plan : Plan} {time : ℤ} {α : Type} {tail : Except DispatchError Output → Calls α}
    {t : CommandTables} (hsubject : input.subject = some x) (hfor : Plan.For b input x plan)
    (htime : toOffsetDatetime input.createdAt = .ok time)
    (htail : ∀ applied, Silent (tail applied))
    (hfits : plan.Fits ((applyCommand b input).run >>= tail)) (ht : IsPart x t)
    (heffect : IsPart x (plan.effect t)) : applied b t input = plan.effect t :=
  (isPart_applied hsubject ht).symm.trans ((applied_plan hfor htime htail hfits t).trans heffect)

variable {plan : Plan} {time : ℤ} {α : Type} {tail : Except DispatchError Output → Calls α}

/-- A command that has its effect finds its place in the history. -/
theorem Explains.settle (h : Explains b start x history now) (hnow : IsPart x now)
    (hsubject : input.subject = some x) (hfor : Plan.For b input x plan)
    (htime : toOffsetDatetime input.createdAt = .ok time)
    (htail : ∀ applied, Silent (tail applied))
    (hfits : plan.Fits ((applyCommand b input).run >>= tail)) (heffect : IsPart x (plan.effect now)) :
    Explains b start x { history with before := history.before ++ [input] } (plan.effect now) ∨
      history.creating.isSome ∧
        Explains b start x { history with later := history.later ++ [input] } (plan.effect now) := by
  cases h with
  | calm hbefore =>
    refine .inl (.calm ?_)
    rw [List.foldl_append, hbefore]
    exact applied_eq hsubject hfor htime htail hfits hnow heffect
  | @creating before later creator record old repos maintainers created hx hbefore hpart hold
      hrepo hcreate hlater hcreated =>
    subst hx
    rcases effect_created hfor htime hrepo with ⟨maintainers', hnow', hold'⟩ |
      ⟨repos', hnow', hrepo', hothers⟩
    · left
      rw [hnow'] at heffect ⊢
      have hpart' : IsPart (.repo record.ownerPubkey record.repoName) (repoPart old maintainers') :=
        isPart_repoPart.2 ⟨(isPart_repoPart.1 hpart).1, (isPart_repoPart.1 heffect).2⟩
      have hsettled := hold' old hold
      refine .creating rfl ?_ hpart' hold hrepo hcreate hlater hcreated
      rw [List.foldl_append, hbefore, ← hsettled]
      exact applied_eq hsubject hfor htime htail hfits hpart (hsettled ▸ hpart')
    · right
      rw [hnow'] at heffect ⊢
      refine ⟨rfl, .creating rfl hbefore hpart hold hrepo' hcreate
        (fun others howned hothers' => ?_) hcreated⟩
      have hsame : IsPart (.repo record.ownerPubkey record.repoName) (repoPart repos others) :=
        isPart_repoPart.2 ⟨(isPart_repoPart.1 hnow).1, (isPart_repoPart.1 hothers').2⟩
      have hsettled := hothers others howned
      rw [List.foldl_append, hlater others howned hsame, ← hsettled]
      exact applied_eq hsubject hfor htime htail hfits hsame (hsettled ▸ hothers')

theorem isPart_putRepo {record : RepoStateV1Record}
    (h : IsPart (.repo record.ownerPubkey record.repoName) (repoPart repos maintainers)) :
    IsPart (.repo record.ownerPubkey record.repoName)
      (repoPart (putRepo record repos) (putMaintainer (firstMaintainer record) maintainers)) := by
  obtain ⟨hrepos, hmaintainers⟩ := isPart_repoPart.1 h
  refine isPart_repoPart.2 ⟨fun row hrow => ?_, fun row hrow => ?_⟩
  · rcases mem_of_mem_upsertRow hrow with hmem | rfl
    · exact hrepos row hmem
    · exact ⟨rfl, rfl⟩
  · rcases mem_of_mem_upsertRow hrow with hmem | rfl
    · exact hmaintainers row hmem
    · exact ⟨rfl, rfl⟩

/-- The creation of a repository has begun. -/
theorem Explains.create {record : RepoStateV1Record}
    (h : Explains b start x history now) (hnow : IsPart x now) (hsubject : input.subject = some x)
    (hfor : Plan.For b input x (.create record)) (htime : toOffsetDatetime input.createdAt = .ok time)
    (htail : ∀ applied, Silent (tail applied))
    (hfits : (Plan.create record).Fits ((applyCommand b input).run >>= tail))
    (hnone : repoAt now record.ownerPubkey record.repoName = none) :
    history = ⟨history.before, none, []⟩ ∧
      Explains b start x ⟨history.before, some (input, record), []⟩
        (after now (.upsertRepoState record)) := by
  obtain ⟨hx, hupdated, -⟩ := for_create hfor
  have hrecord : toOffsetDatetime record.updatedAt = .ok time := hupdated ▸ htime
  subst hx
  cases h with
  | creating hx' _ _ _ hrepo =>
    obtain ⟨howner, hname⟩ := Subject.repo.inj hx'
    rw [← howner, ← hname, hnone] at hrepo
    cases hrepo
  | @calm before _ hbefore =>
    refine ⟨rfl, ?_⟩
    obtain ⟨old, maintainers, rfl⟩ : ∃ old maintainers, now = repoPart old maintainers := by
      rw [← hnow, only_repo]
      exact ⟨_, _, rfl⟩
    rw [after_upsertRepoState hrecord]
    refine .creating rfl hbefore hnow hnone repoAt_putRepo_self (fun others hothers => ?_)
      (fun others _ _ => rfl) hrecord
    have hnone' : repoAt (repoPart old others) record.ownerPubkey record.repoName = none := hnone
    have heffect : (Plan.create record).effect (repoPart old others) =
        repoPart (putRepo record old) (putMaintainer (firstMaintainer record) others) := by
      have hfirst : toOffsetDatetime (firstMaintainer record).updatedAt = .ok time := hrecord
      simp only [Plan.effect, hnone', after_upsertRepoState hrecord, after_setRepoMaintainer hfirst]
    rw [← heffect]
    exact applied_eq hsubject hfor htime htail hfits hothers (heffect ▸ isPart_putRepo hothers)

/-- The creation of a repository is over. -/
theorem Explains.finish {record : RepoStateV1Record} {before later : List Input}
    (h : Explains b start x ⟨before, some (input, record), later⟩ now)
    (hafter : IsPart x (after now (.setRepoMaintainer (firstMaintainer record)))) :
    Explains b start x ⟨before ++ input :: later, none, []⟩
      (after now (.setRepoMaintainer (firstMaintainer record))) := by
  cases h with
  | creating hx hbefore hpart hold hrepo hcreate hlater hrecord =>
    have hfirst : toOffsetDatetime (firstMaintainer record).updatedAt = .ok _ := hrecord
    rw [after_setRepoMaintainer hfirst] at hafter ⊢
    refine .calm ?_
    rw [List.foldl_append, hbefore, List.foldl_cons, hcreate _ hpart]
    exact hlater _ owned_putMaintainer hafter

end Explains

/-! ### Executions under way -/

/-- The command has its entry accepted, and writes the part. -/
def Counts (b : Bech32) (s : CommandTables) (x : Subject) (input : Input) : Prop :=
  accepts s input = true ∧ changes b input = some x

/-- What is left of an execution when the command has been applied. -/
def finish (input : Input) (applied : Except DispatchError Output) :
    Calls (Except DispatchError Output) :=
  (do
    updateCommandLogOutcome input.eventId (caught applied).status (caught applied).code
      (caught applied).message
    return caught applied : Command Output).run

theorem silent_finish (input : Input) (applied : Except DispatchError Output) :
    Silent (finish input applied) := by
  refine ⟨rfl, fun response _ => ?_⟩
  cases response with
  | error err => trivial
  | ok answer => trivial

/-- An execution begins with its entry, and goes on only if that is accepted. -/
theorem executeCommand_call (b : Bech32) (input : Input) :
    ∃ next : Except DispatchError Bool → Calls (Except DispatchError Output),
    (executeCommand b input).run = .call (.insertCommandLog (logRecord input)) next ∧
      (∀ response, response ≠ .ok true → ∃ result, next response = .done result) ∧
      next (.ok true) = (applyCommand b input).run >>= finish input := by
  refine ⟨_, rfl, ?_, ?_⟩
  · rintro (err | _ | _) hresponse
    · exact ⟨_, rfl⟩
    · exact ⟨_, rfl⟩
    · exact absurd rfl hresponse
  · exact Prog.bind_assoc (applyCommand b input).run (fun applied => Prog.done (Except.ok applied))
      (ExceptT.bindCont fun applied => ExceptT.mk (finish input applied))

/-- Where a command stands. -/
inductive Standing (b : Bech32) (s : CommandTables) (x : Subject) (shared : CommandTables)
    (history : History) (input : Input) (task : Delivery) : Prop
  | waiting (htask : task = ⟨[], (executeCommand b input).run⟩)
      (hlogged : shared.logged input.eventId = s.logged input.eventId)
      (hplaced : ¬ history.Placed input)
      (hcreating : ∀ record, history.creating ≠ some (input, record))
  | elsewhere (hnot : ¬ Counts b s x input)
      (hcalls : task.rest.Calls Honest fun call => call.writes = true → call.subject ≠ some x)
  | undecided {plan : Plan} (hcounts : Counts b s x input) (hplaced : ¬ history.Placed input)
      (hcreating : ∀ record, history.creating ≠ some (input, record))
      (hwritten : ¬ HasWritten task.past) (hfor : Plan.For b input x plan)
      (hfits : plan.Fits ((applyCommand b input).run >>= finish input))
      (hundecided : plan.Undecided task.past task.rest)
  | creating {record : RepoStateV1Record} (hcounts : Counts b s x input)
      (hcreating : history.creating = some (input, record))
      (hlast : LastWrite (.setRepoMaintainer (firstMaintainer record)) task.rest)
  | placed (hcounts : Counts b s x input) (hplaced : history.Placed input)
      (hsilent : Silent task.rest)

/-- The history is that of commands which count, each of them once. -/
structure Orderly (b : Bech32) (s : CommandTables) (x : Subject) (inputs : List Input)
    (history : History) : Prop where
  nodup : (history.before ++ history.later).Nodup
  placed : ∀ input, history.Placed input → input ∈ inputs ∧ Counts b s x input
  creating : ∀ input record, history.creating = some (input, record) →
    input ∈ inputs ∧ Counts b s x input ∧ ¬ history.Placed input

/-- The part is explained by a history, and every command stands in it. -/
structure Serial (b : Bech32) (s : CommandTables) (x : Subject) (inputs : List Input)
    (pool : Deliveries) (history : History) : Prop where
  orderly : Orderly b s x inputs history
  explains : Explains b (s.only x) x history (pool.shared.only x)
  standing : ∀ (i : ℕ) (input : Input) (task : Delivery), inputs[i]? = some input →
    pool.tasks[i]? = some task → Standing b s x pool.shared history input task

section Serial

variable {inputs : List Input} {pool pool' : Deliveries} {history history' : History}
  {shared shared' : CommandTables} {task : Delivery} {i k : ℕ} {other : Input}

theorem eventId_ne (hids : (inputs.map Input.eventId).Nodup) (hi : inputs[i]? = some input)
    (hk : inputs[k]? = some other) (hne : i ≠ k) : other.eventId ≠ input.eventId := by
  intro heq
  have hlt : i < (inputs.map Input.eventId).length := by
    rw [List.length_map]
    exact (List.getElem?_eq_some_iff.1 hi).1
  refine hne ((List.getElem?_inj hlt hids).1 ?_)
  rw [List.getElem?_map, List.getElem?_map, hi, hk, Option.map_some, Option.map_some, heq]

/-- The other commands stand where they stood. -/
theorem Standing.others (h : Standing b s x shared history input task)
    (hlogged : shared'.logged input.eventId = shared.logged input.eventId)
    (hplaced : history'.Placed input ↔ history.Placed input)
    (hcreating : ∀ record, history'.creating = some (input, record) ↔
      history.creating = some (input, record)) :
    Standing b s x shared' history' input task := by
  cases h with
  | waiting htask hsame hnot hnone =>
    exact .waiting htask (hlogged.trans hsame) (hplaced.not.2 hnot)
      fun record => (hcreating record).not.2 (hnone record)
  | elsewhere hnot hcalls => exact .elsewhere hnot hcalls
  | undecided hcounts hnot hnone hwritten hfor hfits hundecided =>
    exact .undecided hcounts (hplaced.not.2 hnot) (fun record => (hcreating record).not.2 (hnone record))
      hwritten hfor hfits hundecided
  | creating hcounts hsome hlast => exact .creating hcounts ((hcreating _).2 hsome) hlast
  | placed hcounts hsome hsilent => exact .placed hcounts (hplaced.2 hsome) hsilent

/-- A command makes a call: it stands somewhere new, and the others stand where they stood. -/
theorem Serial.move (h : Serial b s x inputs pool history) (hids : (inputs.map Input.eventId).Nodup)
    (hi : inputs[i]? = some input)
    (htasks : ∀ k, pool'.tasks[k]? = if i = k then some task else pool.tasks[k]?)
    (hlogged : ∀ eventId, eventId ≠ input.eventId →
      pool'.shared.logged eventId = pool.shared.logged eventId)
    (hexplains : Explains b (s.only x) x history' (pool'.shared.only x))
    (horderly : Orderly b s x inputs history')
    (hstanding : Standing b s x pool'.shared history' input task)
    (hplaced : ∀ other, other ≠ input → (history'.Placed other ↔ history.Placed other))
    (hcreating : ∀ other record, other ≠ input →
      (history'.creating = some (other, record) ↔ history.creating = some (other, record))) :
    Serial b s x inputs pool' history' := by
  refine ⟨horderly, hexplains, fun k other task' hk htask => ?_⟩
  rw [htasks] at htask
  split_ifs at htask with hik
  · obtain rfl := Option.some.inj htask
    subst hik
    obtain rfl := Option.some.inj (hi.symm.trans hk)
    exact hstanding
  · have hne := eventId_ne hids hi hk hik
    have hother : other ≠ input := fun heq => hne (congrArg Input.eventId heq)
    exact (h.standing k other task' hk htask).others (hlogged _ hne) (hplaced other hother)
      fun record => hcreating other record hother

/-- A call that does not write the part. -/
theorem Serial.stay (h : Serial b s x inputs pool history) (hids : (inputs.map Input.eventId).Nodup)
    (hi : inputs[i]? = some input)
    (htasks : ∀ k, pool'.tasks[k]? = if i = k then some task else pool.tasks[k]?)
    (hlogged : ∀ eventId, eventId ≠ input.eventId →
      pool'.shared.logged eventId = pool.shared.logged eventId)
    (hpart : pool'.shared.only x = pool.shared.only x)
    (hstanding : Standing b s x pool'.shared history input task) :
    Serial b s x inputs pool' history :=
  h.move hids hi htasks hlogged (hpart.symm ▸ h.explains) h.orderly hstanding (fun _ _ => .rfl)
    fun _ _ _ => .rfl

section Orderly

variable {record : RepoStateV1Record} {before later : List Input}

/-- One more command finds its place. -/
theorem Orderly.settle (h : Orderly b s x inputs history) (hmem : input ∈ inputs)
    (hcounts : Counts b s x input) (hplaced : ¬ history.Placed input)
    (hcreating : ∀ record, history.creating ≠ some (input, record))
    (hperm : (history'.before ++ history'.later).Perm (input :: (history.before ++ history.later)))
    (hsame : history'.creating = history.creating) : Orderly b s x inputs history' := by
  have hiff : ∀ other, history'.Placed other ↔ other = input ∨ history.Placed other := by
    intro other
    have hmem := hperm.mem_iff (a := other)
    rwa [List.mem_cons, List.mem_append, List.mem_append] at hmem
  refine ⟨?_, fun other hother => ?_, fun other record hother => ?_⟩
  · rw [hperm.nodup_iff, List.nodup_cons, List.mem_append]
    exact ⟨hplaced, h.nodup⟩
  · rcases (hiff other).1 hother with rfl | hold
    · exact ⟨hmem, hcounts⟩
    · exact h.placed other hold
  · rw [hsame] at hother
    obtain ⟨hmem', hcounts', hnot⟩ := h.creating other record hother
    refine ⟨hmem', hcounts', fun hnow => ?_⟩
    rcases (hiff other).1 hnow with rfl | hold
    · exact hcreating record hother
    · exact hnot hold

theorem Orderly.create (h : Orderly b s x inputs ⟨before, none, []⟩) (hmem : input ∈ inputs)
    (hcounts : Counts b s x input) (hplaced : ¬ History.Placed ⟨before, none, []⟩ input) :
    Orderly b s x inputs ⟨before, some (input, record), []⟩ := by
  refine ⟨h.nodup, h.placed, fun other record' hother => ?_⟩
  obtain ⟨rfl, -⟩ := Prod.mk.inj (Option.some.inj hother)
  exact ⟨hmem, hcounts, hplaced⟩

theorem Orderly.finish (h : Orderly b s x inputs ⟨before, some (input, record), later⟩) :
    Orderly b s x inputs ⟨before ++ input :: later, none, []⟩ := by
  obtain ⟨hmem, hcounts, hplaced⟩ := h.creating input record rfl
  refine ⟨?_, fun other hother => ?_, fun _ _ h => by cases h⟩
  · rw [List.append_nil, List.perm_middle.nodup_iff, List.nodup_cons, List.mem_append]
    exact ⟨hplaced, h.nodup⟩
  · rcases hother with hbefore | hlater
    · rw [List.mem_append, List.mem_cons] at hbefore
      rcases hbefore with hold | rfl | hold
      · exact h.placed other (.inl hold)
      · exact ⟨hmem, hcounts⟩
      · exact h.placed other (.inr hold)
    · cases hlater

end Orderly

/-! ### One call -/

/-- A call of a command is on its entry or about its records. -/
def About (input : Input) (call : StoreCall) : Prop :=
  call.Permitted input ∧ ∀ y, call.subject = some y → input.subject = some y

theorem about_executeCommand : (executeCommand b input).run.Calls Honest (About input) := by
  refine calls_executeCommand ⟨rfl, nofun⟩ (fun _ _ _ => ⟨rfl, nofun⟩)
    (calls_applyCommand.mono ?_)
  rintro call ⟨y, hcall, hinput⟩
  refine ⟨?_, fun y' hy' => hinput.trans (hcall.symm.trans hy')⟩
  have howner := owner_of_subject hinput
  cases call with
  | insertCommandLog record => cases hcall
  | updateCommandLogOutcome eventId status code message => cases hcall
  | _ => exact ⟨y, hcall, howner⟩

theorem only_respond_of_read {call : StoreCall} {t : CommandTables} (h : call.writes = false) :
    (respond none call t).2.only x = t.only x :=
  only_of_sameState (CommandTables.sameState_respond h)

variable {past : List (Σ call : StoreCall, call.Response)} {call : StoreCall}
  {next : call.Response → Calls (Except DispatchError Output)}

theorem Silent.writesElsewhere {α : Type} {p : Calls α} (h : Silent p) :
    p.Calls Honest fun call => call.writes = true → call.subject ≠ some x :=
  h.mono fun _ hcall hwrites => absurd hwrites (ne_true_of_eq_false hcall)

/-- An execution begins. -/
theorem standing_begin {t : CommandTables}
    {programNext : Except DispatchError Bool → Calls (Except DispatchError Output)}
    (hdone : ∀ response, response ≠ .ok true → ∃ result, programNext response = .done result)
    (hgo : programNext (.ok true) = (applyCommand b input).run >>= finish input)
    (hlogged : t.logged input.eventId = s.logged input.eventId) (hplaced : ¬ history.Placed input)
    (hcreating : ∀ record, history.creating ≠ some (input, record)) :
    Standing b s x shared history input
      ⟨[⟨.insertCommandLog (logRecord input),
          (respond none (.insertCommandLog (logRecord input)) t).1⟩],
        programNext (respond none (.insertCommandLog (logRecord input)) t).1⟩ := by
  have haccepts : accepts t input = accepts s input := by
    unfold accepts
    rw [hlogged]
  by_cases hresponse : (respond none (.insertCommandLog (logRecord input)) t).1 = .ok true
  · have hinserted : accepts s input = true := haccepts ▸ respond_insert_iff.1 hresponse
    have hrest := (congrArg programNext hresponse).trans hgo
    by_cases hchanges : changes b input = some x
    · obtain ⟨plan, hfor, hfits⟩ := exists_plan (silent_finish input) hchanges
      refine .undecided ⟨hinserted, hchanges⟩ hplaced hcreating ?_ hfor hfits
        (.inl (hrest.symm ▸ hfits))
      rintro ⟨e, he, hwrites⟩
      obtain rfl := List.mem_singleton.1 he
      cases hwrites
    · have hcalls := (calls_elsewhere hchanges).bind fun applied =>
        (silent_finish input applied).writesElsewhere
      exact .elsewhere (fun hcounts => hchanges hcounts.2) (hrest.symm ▸ hcalls)
  · obtain ⟨result, hresult⟩ := hdone _ hresponse
    refine .elsewhere (fun hcounts => hresponse (respond_insert_iff.2 (haccepts.trans hcounts.1)))
      (hresult.symm ▸ trivial)

/-- A call on a part answers and does what it does on all tables. -/
theorem respond_only {t : CommandTables} (h : call.subject = some x) :
    respond none call (t.only x) = ((respond none call t).1, (respond none call t).2.only x) :=
  (parts none).same call x t h

theorem subject_of_counts (h : Counts b s x input) : input.subject = some x :=
  subject_of_changes h.2

/-- A call about a command's records is about the part, when the command is. -/
theorem subject_of_about (h : About input call) (hinput : input.subject = some x)
    (hsome : call.subject.isSome) : call.subject = some x := by
  obtain ⟨y, hy⟩ := Option.isSome_iff_exists.1 hsome
  rw [hy, ← h.2 y hy, hinput]

theorem isSome_of_writes (h : call.writes = true) : call.subject.isSome := by
  cases call with
  | upsertAccountState record => rfl
  | upsertProfileState record => rfl
  | upsertRepoState record => rfl
  | setRepoMaintainer record => rfl
  | _ => cases h

/-- What still holds in the tables holds in the part. -/
theorem current_only {t : CommandTables} (h : Current t past) (hpast : ∀ e ∈ past, About input e.1)
    (hinput : input.subject = some x) : Current (t.only x) past := by
  intro e he hsome
  rw [respond_only (subject_of_about (hpast e he) hinput hsome)]
  exact h e he hsome

/-- A call of a command that may still write. -/
theorem Serial.undecided (h : Serial b s x inputs pool history)
    (hids : (inputs.map Input.eventId).Nodup) (hi : inputs[i]? = some input)
    (htasks : ∀ k, pool'.tasks[k]? =
      if i = k then some ⟨past ++ [⟨call, (respond none call pool.shared).1⟩],
        next (respond none call pool.shared).1⟩ else pool.tasks[k]?)
    (hshared : pool'.shared = (respond none call pool.shared).2)
    (hlogged : ∀ eventId, eventId ≠ input.eventId →
      pool'.shared.logged eventId = pool.shared.logged eventId)
    (hpast : ∀ e ∈ past, About input e.1) (habout : About input call)
    (hcurrent : call.writes = true → Current pool.shared past)
    (hcounts : Counts b s x input) (hplaced : ¬ history.Placed input)
    (hcreating : ∀ record, history.creating ≠ some (input, record)) (hwritten : ¬ HasWritten past)
    {plan : Plan} (hfor : Plan.For b input x plan)
    (hfits : plan.Fits ((applyCommand b input).run >>= finish input))
    (hundecided : plan.Undecided past (.call call next)) :
    ∃ history', Serial b s x inputs pool' history' := by
  have hinput := subject_of_counts hcounts
  obtain ⟨time, htime⟩ := time_of_accepts hcounts.1
  have hmem : input ∈ inputs := List.mem_of_getElem? hi
  have hsubject : call.subject = some x :=
    (undecided_subject hfor hundecided).elim id fun hwrites =>
      subject_of_about habout hinput (isSome_of_writes hwrites)
  have hanswer : (respond none call (pool.shared.only x)).1 = (respond none call pool.shared).1 := by
    rw [respond_only hsubject]
  have hpart : (respond none call (pool.shared.only x)).2 = pool'.shared.only x := by
    rw [respond_only hsubject, hshared]
  rcases undecided_call (t := pool.shared.only x) hfor htime hundecided
      fun hwrites => current_only (hcurrent hwrites) hpast hinput with
    ⟨hread, hstill⟩ | ⟨hsilent, heffect⟩ | ⟨record, rfl, rfl, hnone, hlast⟩
  · rw [hanswer] at hstill
    refine ⟨history, h.stay hids hi htasks hlogged (hshared ▸ only_respond_of_read hread)
      (.undecided hcounts hplaced hcreating (fun hnow => ?_) hfor hfits hstill)⟩
    exact (hasWritten_append.1 hnow).elim hwritten (ne_true_of_eq_false hread)
  · rw [hanswer] at hsilent
    have hnow : pool'.shared.only x = plan.effect (pool.shared.only x) := hpart.symm.trans heffect
    rcases h.explains.settle isPart_only hinput hfor htime (silent_finish _) hfits
        (hnow ▸ isPart_only) with hbefore | ⟨-, hlater⟩
    · refine ⟨{ history with before := history.before ++ [input] }, h.move hids hi htasks hlogged
        (hnow ▸ hbefore) (h.orderly.settle hmem hcounts hplaced hcreating ?_ rfl)
        (.placed hcounts (.inl (List.mem_append_right _ List.mem_cons_self)) hsilent)
        (fun other hother => ?_) fun _ _ _ => .rfl⟩
      · rw [List.append_assoc]
        exact List.perm_middle
      · simp [History.Placed, hother]
    · refine ⟨{ history with later := history.later ++ [input] }, h.move hids hi htasks hlogged
        (hnow ▸ hlater) (h.orderly.settle hmem hcounts hplaced hcreating ?_ rfl)
        (.placed hcounts (.inr (List.mem_append_right _ List.mem_cons_self)) hsilent)
        (fun other hother => ?_) fun _ _ _ => .rfl⟩
      · rw [← List.append_assoc]
        exact List.perm_append_singleton _ _
      · simp [History.Placed, hother]
  · rw [hanswer] at hlast
    obtain ⟨hhistory, hexplains⟩ := h.explains.create isPart_only hinput hfor htime
      (silent_finish _) hfits hnone
    have hnow : pool'.shared.only x = after (pool.shared.only x) (.upsertRepoState record) :=
      hpart.symm
    have horderly := h.orderly
    rw [hhistory] at horderly hplaced
    refine ⟨_, h.move hids hi htasks hlogged (hnow ▸ hexplains)
      (horderly.create hmem hcounts hplaced) (.creating hcounts rfl hlast) (fun other _ => ?_)
      fun other record' hother => ?_⟩
    · rw [hhistory]
      exact .rfl
    · rw [hhistory]
      refine iff_of_false (fun heq => hother ?_) nofun
      exact (Prod.mk.inj (Option.some.inj heq)).1.symm

/-- A call of any command. -/
theorem Serial.advance (h : Serial b s x inputs pool history)
    (hids : (inputs.map Input.eventId).Nodup) {a : ℕ × Option StoreFault}
    (hstep : advance pool a = some (pool', call)) (hvalid : Validated pool a)
    (hinputs : ∀ (i : ℕ) (task : Delivery), pool.tasks[i]? = some task → ∃ input,
      inputs[i]? = some input ∧ (∀ e ∈ task.past, About input e.1) ∧
        task.rest.Calls Honest (About input)) :
    ∃ history', Serial b s x inputs pool' history' := by
  obtain ⟨i, fault⟩ := a
  obtain ⟨rfl, hcurrent⟩ := hvalid
  obtain ⟨past, next, hmoved, hshared, htasks⟩ := Pool.step_eq_some hstep
  rw [hmoved] at hcurrent
  have hothers := Pool.getElem?_step hmoved htasks
  obtain ⟨input, hi, hpast, habout, -⟩ := hinputs i _ hmoved
  have hlogged : ∀ eventId, eventId ≠ input.eventId →
      pool'.shared.logged eventId = pool.shared.logged eventId := fun eventId hne =>
    hshared ▸ logged_of_confined hne (CommandTables.confined_respond habout.1)
  have hread : call.writes = false → pool'.shared.only x = pool.shared.only x := fun hcall =>
    hshared ▸ only_respond_of_read hcall
  cases h.standing i input _ hi hmoved with
  | waiting htask hsame hplaced hcreating =>
    obtain ⟨programNext, hprogram, hdone, hgo⟩ := executeCommand_call b input
    rw [hprogram] at htask
    cases htask
    exact ⟨history, h.stay hids hi hothers hlogged (hread rfl)
      (standing_begin hdone hgo hsame hplaced hcreating)⟩
  | elsewhere hnot hcalls =>
    obtain ⟨hcall, hcalls⟩ := hcalls
    have hpart : pool'.shared.only x = pool.shared.only x :=
      hshared ▸ only_respond_elsewhere hcall
    exact ⟨history, h.stay hids hi hothers hlogged hpart
      (.elsewhere hnot (hcalls _ (honest_respond none call pool.shared)))⟩
  | placed hcounts hplaced hsilent =>
    exact ⟨history, h.stay hids hi hothers hlogged (hread hsilent.1)
      (.placed hcounts hplaced (hsilent.2 _ (honest_respond none call pool.shared)))⟩
  | undecided hcounts hplaced hcreating hwritten hfor hfits hundecided =>
    exact h.undecided hids hi hothers hshared hlogged hpast habout
      (fun hwrites => hcurrent hwrites hwritten) hcounts hplaced hcreating hwritten hfor hfits
      hundecided
  | @creating record hcounts hcreating hlast =>
    obtain ⟨next, heq, hsilent⟩ := hlast
    cases heq
    obtain ⟨before, creating, later⟩ := history
    obtain rfl : creating = some (input, record) := hcreating
    have hsubject := subject_of_about habout (subject_of_counts hcounts) rfl
    have hpart : pool'.shared.only x =
        after (pool.shared.only x) (.setRepoMaintainer (firstMaintainer record)) := by
      rw [hshared]
      exact (congrArg Prod.snd (respond_only hsubject)).symm
    refine ⟨_, h.move hids hi hothers hlogged (hpart ▸ h.explains.finish (hpart ▸ isPart_only))
      h.orderly.finish
      (.placed hcounts (.inl (List.mem_append_right _ List.mem_cons_self)) (hsilent _))
      (fun other hother => ?_) fun other record' hother => ?_⟩
    · simp [History.Placed, hother]
    · refine iff_of_false nofun fun heq => hother ?_
      exact (Prod.mk.inj (Option.some.inj heq)).1.symm

/-! ### Runs -/

/-- The tasks of a run are those of its commands. -/
theorem length_of_reach {ok : Deliveries → ℕ × Option StoreFault → Prop}
    (h : Runs.Reach advance ok (fun pool => pool = commands b s inputs) pool) :
    pool.tasks.length = inputs.length := by
  refine h.invariant (I := fun pool => pool.tasks.length = inputs.length) ?_ ?_
  · rintro _ rfl
    simp [commands, Pool.ofPrograms]
  · intro pool a pool' call ih _ hstep
    obtain ⟨past, next, -, -, htasks⟩ := Pool.step_eq_some hstep
    rw [htasks, List.length_set, ih]

/-- The calls of a run are those of its commands. -/
theorem about_of_reach {ok : Deliveries → ℕ × Option StoreFault → Prop}
    (h : Runs.Reach advance ok (fun pool => pool = commands b s inputs) pool) (i : ℕ)
    (task : Delivery) (htask : pool.tasks[i]? = some task) : ∃ input, inputs[i]? = some input ∧
      (∀ e ∈ task.past, About input e.1) ∧ task.rest.Calls Honest (About input) := by
  refine Pool.tasks_invariant (J := fun i task => ∃ input, inputs[i]? = some input ∧
      (∀ e ∈ task.past, About input e.1) ∧ task.rest.Calls Honest (About input))
    honest_respond ?_ ?_ h i task htask
  · rintro _ rfl i task htask
    obtain ⟨program, hprogram, rfl⟩ := Pool.getElem?_ofPrograms htask
    rw [List.getElem?_map] at hprogram
    obtain ⟨input, hinput, rfl⟩ := Option.map_eq_some_iff.1 hprogram
    exact ⟨input, hinput, List.forall_mem_nil _, about_executeCommand⟩
  · rintro i past call next response ⟨input, hinput, hpast, hcall, hnext⟩ hresponse
    refine ⟨input, hinput, fun e he => ?_, hnext response hresponse⟩
    rcases List.mem_append.1 he with hold | hnew
    · exact hpast e hold
    · obtain rfl := List.mem_singleton.1 hnew
      exact hcall

/-- Every part of a run has a history. -/
theorem serial_of_reach (hids : (inputs.map Input.eventId).Nodup)
    (h : Runs.Reach advance Validated (fun pool => pool = commands b s inputs) pool) (x : Subject) :
    ∃ history, Serial b s x inputs pool history := by
  induction h with
  | start hpool =>
    subst hpool
    refine ⟨⟨[], none, []⟩, ⟨List.nodup_nil, nofun, fun _ _ h => by cases h⟩, .calm rfl,
      fun i input task hi htask => ?_⟩
    obtain ⟨program, hprogram, rfl⟩ := Pool.getElem?_ofPrograms htask
    rw [List.getElem?_map, hi] at hprogram
    obtain rfl := Option.some.inj hprogram
    exact .waiting rfl rfl (not_or_intro List.not_mem_nil List.not_mem_nil) nofun
  | step hreach hvalid hstep ih =>
    obtain ⟨history, hserial⟩ := ih
    exact hserial.advance hids hstep hvalid (about_of_reach hreach)

/-- When all commands are over, every one that counts has its place, and no repository is being
created. -/
theorem Serial.over (h : Serial b s x inputs pool history)
    (hids : (inputs.map Input.eventId).Nodup) (hlength : pool.tasks.length = inputs.length)
    (hdone : ∀ task ∈ pool.tasks, ∃ result, task.rest = .done result) :
    ∃ order : List Input,
      order.Perm (inputs.filter fun input => accepts s input && changes b input == some x) ∧
        pool.shared.only x = order.foldl (applied b) (s.only x) := by
  have hplaced : ∀ input ∈ inputs, Counts b s x input → history.Placed input := by
    intro input hinput hcounts
    obtain ⟨i, hi⟩ := List.mem_iff_getElem?.1 hinput
    have hlt : i < pool.tasks.length := hlength ▸ (List.getElem?_eq_some_iff.1 hi).1
    have htask : pool.tasks[i]? = some pool.tasks[i] := List.getElem?_eq_getElem hlt
    obtain ⟨result, hresult⟩ := hdone _ (List.getElem_mem hlt)
    cases h.standing i input _ hi htask with
    | waiting heq _ _ _ =>
      obtain ⟨next, hprogram, -⟩ := executeCommand_call b input
      rw [heq, hprogram] at hresult
      cases hresult
    | elsewhere hnot _ => exact absurd hcounts hnot
    | undecided _ _ _ _ _ _ hundecided =>
      rw [hresult] at hundecided
      exact absurd hundecided not_undecided_done
    | creating _ _ hlast =>
      obtain ⟨next, hcall, -⟩ := hlast
      rw [hresult] at hcall
      cases hcall
    | placed _ hplaced _ => exact hplaced
  have hcreating : history.creating = none := by
    cases hcreating : history.creating with
    | none => rfl
    | some creating =>
      obtain ⟨hmem, hcounts, hnot⟩ := h.orderly.creating creating.1 creating.2 hcreating
      exact absurd (hplaced _ hmem hcounts) hnot
  obtain ⟨before, creating, later⟩ := history
  obtain rfl : creating = none := hcreating
  have hexplains := h.explains
  have horderly := h.orderly
  generalize pool.shared.only x = now at hexplains ⊢
  cases hexplains with
  | calm hnow =>
    refine ⟨before, ?_, hnow.symm⟩
    have hnodup : before.Nodup := List.append_nil before ▸ horderly.nodup
    refine (List.perm_ext_iff_of_nodup hnodup ((List.Nodup.of_map _ hids).filter _)).2 fun input => ?_
    rw [List.mem_filter, Bool.and_eq_true, beq_iff_eq]
    constructor
    · exact fun hmem => horderly.placed input (.inl hmem)
    · rintro ⟨hmem, hcounts⟩
      exact (hplaced input hmem hcounts).resolve_right List.not_mem_nil

/-- Commands with different events, whose calls are interleaved in any way: when no command writes on
the strength of what is no longer there, the outcome is that of executing them one after the other,
in some order. -/
theorem serializable (hids : (inputs.map Input.eventId).Nodup)
    (h : Runs.Reach advance Validated (fun pool => pool = commands b s inputs) pool)
    (hdone : ∀ task ∈ pool.tasks, ∃ result, task.rest = .done result) :
    ∃ order : List Input, order.Perm inputs ∧ pool.shared.SameRows (executeAll b s order) := by
  have hparts : ∀ x, ∃ order : List Input,
      order.Perm (inputs.filter fun input => accepts s input && changes b input == some x) ∧
        pool.shared.only x = order.foldl (applied b) (s.only x) := by
    intro x
    obtain ⟨history, hserial⟩ := serial_of_reach hids h x
    exact hserial.over hids (length_of_reach h) hdone
  choose orders hperms horders using hparts
  have hkey : ∀ x, (fun input => accepts s input && changes b input == some x) =
      fun input => (if accepts s input then changes b input else none) == some x := by
    intro x
    funext input
    cases accepts s input with
    | true => rfl
    | false => rfl
  obtain ⟨order, hperm, horder⟩ := exists_order
    (fun input => if accepts s input then changes b input else none) inputs orders
    fun x => hkey x ▸ hperms x
  refine ⟨order, hperm, CommandTables.sameRows_of_only fun x => ?_⟩
  rw [only_executeAll ((hperm.map Input.eventId).nodup_iff.2 hids), hkey, horder]
  exact horders x

end Serial

/-- A command that sets the bio of a profile. -/
def setBio (eventId : UInt8) (bio : String) (createdAt : ℤ) : Input where
  eventId := List.replicate 32 eventId
  actorPubkey := List.replicate 32 34
  parsed := ⟨.profile, "set", none, [.keyValue "bio" bio]⟩
  createdAt

/-- The calls of two executions in turn. -/
def inTurn : List (ℕ × Option StoreFault) :=
  [(0, none), (1, none), (0, none), (1, none), (0, none), (1, none), (0, none), (1, none)]

/-- The second execution reads the profile after the first one has written it. -/
def overlapping : List (ℕ × Option StoreFault) :=
  [(0, none), (1, none), (0, none), (0, none), (1, none), (1, none), (1, none), (0, none)]

/-- Every task is over. -/
def isOver (pool : Deliveries) : Bool :=
  pool.tasks.all fun task =>
    match task.rest with
    | .done _ => true
    | .call _ _ => false

theorem done_of_isOver {pool : Deliveries} (h : isOver pool = true) :
    ∀ task ∈ pool.tasks, ∃ result, task.rest = .done result := by
  intro task htask
  have hrest := List.all_eq_true.1 h task htask
  split at hrest
  · rename_i result hresult
    exact ⟨result, hresult⟩
  · cases hrest

/-- The names and bios of the profiles. -/
def namesAndBios (s : CommandTables) : List (Option String × Option String) :=
  s.profiles.map fun row => (row.displayName, row.bio)

/-- A name and a bio are set side by side, and the name is lost. -/
theorem lost_update : ∃ pool : Deliveries,
    Runs.Reach advance (fun _ a => a.2 = none)
      (fun pool => pool = commands sampleBech32 .empty [setName 1 "name" 10, setBio 2 "bio" 20]) pool ∧
    (∀ task ∈ pool.tasks, ∃ result, task.rest = .done result) ∧
    ∀ order : List Input, order.Perm [setName 1 "name" 10, setBio 2 "bio" 20] →
      ¬ pool.shared.SameRows (executeAll sampleBech32 .empty order) := by
  have hrun : ((Runs.exec (Runs.guarded advance fun _ a => a.2 = none)
      (commands sampleBech32 .empty [setName 1 "name" 10, setBio 2 "bio" 20]) inTurn).map fun r =>
        (isOver r.1, namesAndBios r.1.shared)) = some (true, [(none, some "bio")]) := by
    decide +kernel
  obtain ⟨⟨pool, calls⟩, hexec, hpool⟩ := Option.map_eq_some_iff.1 hrun
  obtain ⟨hover, hprofiles⟩ := Prod.mk.inj hpool
  refine ⟨pool, .of_exec_guarded rfl hexec, done_of_isOver hover, fun order hperm hsame => ?_⟩
  have hnone : ∀ row ∈ pool.shared.profiles, row.displayName = none := by
    intro row hrow
    have hmem := List.mem_map_of_mem (f := fun row : ProfileStateRecord =>
      (row.displayName, row.bio)) hrow
    rw [show pool.shared.profiles.map _ = _ from hprofiles, List.mem_singleton] at hmem
    exact (Prod.mk.inj hmem).1
  have hserial : namesAndBios (executeAll sampleBech32 .empty order) = [(some "name", some "bio")] := by
    have horder : order ∈ [[setName 1 "name" 10, setBio 2 "bio" 20],
        [setBio 2 "bio" 20, setName 1 "name" 10]] := List.mem_permutations'.2 hperm
    rcases List.mem_pair.1 horder with rfl | rfl
    · decide +kernel
    · decide +kernel
  obtain ⟨row, hrow, hname⟩ := List.mem_map.1 (hserial ▸ List.mem_singleton_self _)
  have hname : row.displayName = some "name" := (Prod.mk.inj hname).1
  rw [hnone row ((hsame.2.1 row).2 hrow)] at hname
  cases hname

/-- They are set one on top of the other, and both are kept. -/
theorem serializable_overlapping : ∃ pool : Deliveries,
    namesAndBios pool.shared = [(some "name", some "bio")] ∧
      ∃ order : List Input, order.Perm [setName 1 "name" 10, setBio 2 "bio" 20] ∧
        pool.shared.SameRows (executeAll sampleBech32 .empty order) := by
  have hrun : ((Runs.exec (Runs.guarded advance Validated)
      (commands sampleBech32 .empty [setName 1 "name" 10, setBio 2 "bio" 20]) overlapping).map fun r =>
        (isOver r.1, namesAndBios r.1.shared)) = some (true, [(some "name", some "bio")]) := by
    decide +kernel
  obtain ⟨⟨pool, calls⟩, hexec, hpool⟩ := Option.map_eq_some_iff.1 hrun
  obtain ⟨hover, hprofiles⟩ := Prod.mk.inj hpool
  exact ⟨pool, hprofiles, serializable (by decide) (.of_exec_guarded rfl hexec) (done_of_isOver hover)⟩

end Command

end Gittree
