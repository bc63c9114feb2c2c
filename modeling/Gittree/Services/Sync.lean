import Gittree.Core.RepoEvents
import Gittree.Core.StateRefs

/-!
# Synchronisation of refs

`build_sync_plan` and `execute_sync_plan` of `services/sync/src/lib.rs`: the refs of a local repository
are compared with those of the announced state, and `git` is asked to update some and to delete others.

The plan is made from two hash maps, so that its lists may come in any order.  It is executed as it
stands: the updates first, then the deletions, and a command that fails is only reported.

* `refs_executeSyncPlan_iff`: the announced state is reached when no update is in the way of a ref that
  is deleted later;
* `keepsPush_iff`: which pushes a plan leaves alone.
-/

namespace Gittree

open Rust

/-- `RepoState::ref_map`. -/
def RepoState.refMap (s : RepoState) : Map String :=
  s.state.filterMap fun name value => if name = "HEAD" then none else some value

theorem RepoState.get_refMap {s : RepoState} {name value : String} :
    s.refMap[name]? = some value ↔ name ≠ "HEAD" ∧ s.state[name]? = some value := by
  unfold refMap
  rw [Std.ExtTreeMap.getElem?_filterMap', Option.bind_eq_some_iff]
  constructor
  · rintro ⟨found, hfound, hvalue⟩
    split_ifs at hvalue with hname
    exact ⟨hname, hvalue ▸ hfound⟩
  · rintro ⟨hname, hvalue⟩
    exact ⟨value, hvalue, if_neg hname⟩

namespace Sync

/-! ### Plans -/

/-- `RefUpdatePlan`. -/
structure RefUpdatePlan where
  reference : String
  target : String
  deriving DecidableEq, Repr

/-- `SyncPlan`. -/
structure SyncPlan where
  identifier : String
  cloneUrls : List String
  updates : List RefUpdatePlan
  deletions : List String
  deriving DecidableEq, Repr

/-- `build_sync_plan`. -/
def buildSyncPlan (state : RepoState) (localRefs : Map String) (events : List CoreEvent)
    (maintainers : List String) : SyncPlan where
  identifier := state.identifier
  cloneUrls := collectCloneUrls events maintainers state.identifier
  updates := state.refMap.toList.filterMap fun entry =>
    if localRefs[entry.1]? = some entry.2 then none else some ⟨entry.1, entry.2⟩
  deletions := localRefs.keys.filter fun reference =>
    reference ≠ "HEAD" && !(reference ∈ state.refMap)

/-- `GitExecError`. -/
inductive GitExecError
  | io (message : String)
  | timeout
  | invalidPath (message : String)
  | commandFailed (message : String)
  deriving DecidableEq, Repr

def GitExecError.display : GitExecError → String
  | .io message => "git io error: " ++ message
  | .timeout => "git command timed out"
  | .invalidPath message => message
  | .commandFailed message => message

/-- `GitExecutor`, over the states of a repository. -/
structure GitExecutor (σ : Type) where
  fetch (repoPath remote : String) (timeout : ℕ) : σ → Except GitExecError Unit × σ
  updateRef (repoPath reference target : String) : σ → Except GitExecError Unit × σ
  deleteRef (repoPath reference : String) : σ → Except GitExecError Unit × σ

/-- `RemoteFetchResult` and `RefChangeResult`: the URL or the ref, and the error if there is one. -/
structure ChangeResult where
  subject : String
  success : Bool
  error : Option String
  deriving DecidableEq, Repr

/-- `SyncReport`. -/
structure SyncReport where
  remoteResults : List ChangeResult
  updateResults : List ChangeResult
  deleteResults : List ChangeResult
  deriving DecidableEq, Repr

/-- The result that is reported of a command. -/
def ChangeResult.of (subject : String) : Except GitExecError Unit → ChangeResult
  | .ok () => ⟨subject, true, none⟩
  | .error err => ⟨subject, false, some err.display⟩

section Execution

variable {σ α : Type}

/-- A loop of `execute_sync_plan`: every command is run, and its result reported. -/
def runEach (subject : α → String) (command : α → σ → Except GitExecError Unit × σ) :
    List α → σ → List ChangeResult × σ
  | [], s => ([], s)
  | a :: rest, s =>
    let r := command a s
    let others := runEach subject command rest r.2
    (ChangeResult.of (subject a) r.1 :: others.1, others.2)

/-- `execute_sync_plan`. -/
def executeSyncPlan (executor : GitExecutor σ) (repoPath : String) (plan : SyncPlan) (timeout : ℕ)
    (s : σ) : SyncReport × σ :=
  let remotes := runEach id (fun remote => executor.fetch repoPath remote timeout) plan.cloneUrls s
  let updates := runEach RefUpdatePlan.reference
    (fun update => executor.updateRef repoPath update.reference update.target) plan.updates remotes.2
  let deletes := runEach id (executor.deleteRef repoPath) plan.deletions updates.2
  (⟨remotes.1, updates.1, deletes.1⟩, deletes.2)

end Execution

/-! ### What is planned -/

section Plans

variable {state : RepoState} {localRefs : Map String} {events : List CoreEvent}
  {maintainers : List String}

theorem mem_updates {u : RefUpdatePlan} :
    u ∈ (buildSyncPlan state localRefs events maintainers).updates ↔
      state.refMap[u.reference]? = some u.target ∧ localRefs[u.reference]? ≠ some u.target := by
  unfold buildSyncPlan
  rw [List.mem_filterMap]
  constructor
  · rintro ⟨entry, hentry, hu⟩
    split_ifs at hu with hlocal
    obtain rfl := Option.some.inj hu
    exact ⟨Std.ExtTreeMap.mem_toList_iff_getElem?_eq_some.1 hentry, hlocal⟩
  · rintro ⟨hstate, hlocal⟩
    exact ⟨(u.reference, u.target), Std.ExtTreeMap.mem_toList_iff_getElem?_eq_some.2 hstate,
      if_neg hlocal⟩

theorem mem_deletions {name : String} :
    name ∈ (buildSyncPlan state localRefs events maintainers).deletions ↔
      name ∈ localRefs ∧ name ≠ "HEAD" ∧ name ∉ state.refMap := by
  unfold buildSyncPlan
  rw [List.mem_filter, Std.ExtTreeMap.mem_keys]
  simp

/-- The updates are of different refs. -/
theorem pairwise_updates : (buildSyncPlan state localRefs events maintainers).updates.Pairwise
    fun u v => u.reference ≠ v.reference := by
  refine List.Pairwise.filterMap _ (fun a b hab u hu v hv => ?_)
    (Map.pairwise_lt_toList state.refMap)
  split_ifs at hu hv
  obtain rfl := Option.some.inj hu
  obtain rfl := Option.some.inj hv
  exact hab.ne

theorem nodup_deletions : (buildSyncPlan state localRefs events maintainers).deletions.Nodup :=
  List.Nodup.filter _ Std.ExtTreeMap.nodup_keys

end Plans

/-! ### Ref stores -/

/-- One of two refs is a directory on the path of the other. -/
def Obstructs (name other : String) : Prop :=
  Str.startsWith name (other ++ "/") = true ∨ Str.startsWith other (name ++ "/") = true

instance (name other : String) : Decidable (Obstructs name other) :=
  inferInstanceAs (Decidable (_ ∨ _))

/-- An existing ref stands in the way of a ref. -/
def Blocked (refs : Map String) (reference : String) : Prop :=
  ∃ name ∈ refs, Obstructs name reference

/-- A repository with the refs of a store: an update fails exactly when its ref is blocked, an existing
ref can be deleted, and fetches do not touch the refs. -/
structure IsRefStore {σ : Type} (executor : GitExecutor σ) (repoPath : String)
    (refs : σ → Map String) : Prop where
  fetch : ∀ remote timeout s, refs (executor.fetch repoPath remote timeout s).2 = refs s
  updated : ∀ reference target s, ¬ Blocked (refs s) reference →
    (executor.updateRef repoPath reference target s).1 = .ok () ∧
      refs (executor.updateRef repoPath reference target s).2 = (refs s).insert reference target
  blocked : ∀ reference target s, Blocked (refs s) reference →
    (∃ err, (executor.updateRef repoPath reference target s).1 = .error err) ∧
      refs (executor.updateRef repoPath reference target s).2 = refs s
  deleted : ∀ reference s, reference ∈ refs s →
    (executor.deleteRef repoPath reference s).1 = .ok () ∧
      refs (executor.deleteRef repoPath reference s).2 = (refs s).erase reference

/-- A ref that has been updated does not stand in the way of refs that it does not obstruct. -/
theorem blocked_insert {refs : Map String} {name target reference : String}
    (h : ¬ Obstructs name reference) :
    Blocked (refs.insert name target) reference ↔ Blocked refs reference := by
  unfold Blocked
  constructor
  · rintro ⟨other, hother, hobstructs⟩
    refine ⟨other, ?_, hobstructs⟩
    rcases Std.ExtTreeMap.mem_insert.1 hother with heq | hmem
    · rw [Std.LawfulEqCmp.compare_eq_iff_eq] at heq
      exact absurd (heq ▸ hobstructs) h
    · exact hmem
  · rintro ⟨other, hother, hobstructs⟩
    exact ⟨other, Std.ExtTreeMap.mem_insert.2 (.inr hother), hobstructs⟩

section Store

variable {σ : Type} {executor : GitExecutor σ} {repoPath : String} {refs : σ → Map String}

/-- Fetches do not touch the refs. -/
theorem IsRefStore.refs_fetches (h : IsRefStore executor repoPath refs) (timeout : ℕ)
    (remotes : List String) (s : σ) :
    refs (runEach id (fun remote => executor.fetch repoPath remote timeout) remotes s).2 = refs s := by
  induction remotes generalizing s with
  | nil => rfl
  | cons remote rest ih =>
    rw [runEach, ih]
    exact h.fetch remote timeout s

/-- Updates of refs that do not obstruct one another: whether one is carried out depends on the refs
that were there at the beginning, not on the order. -/
theorem IsRefStore.refs_updates (h : IsRefStore executor repoPath refs) {updates : List RefUpdatePlan}
    (hupdates : updates.Pairwise fun u v => u.reference ≠ v.reference ∧
      ¬ Obstructs u.reference v.reference) (s : σ) :
    let after := refs (runEach RefUpdatePlan.reference (fun update =>
      executor.updateRef repoPath update.reference update.target) updates s).2
    (∀ u ∈ updates, ¬ Blocked (refs s) u.reference → after[u.reference]? = some u.target) ∧
      ∀ name, (∀ u ∈ updates, u.reference = name → Blocked (refs s) name) →
        after[name]? = (refs s)[name]? := by
  induction updates generalizing s with
  | nil => exact ⟨nofun, fun _ _ => rfl⟩
  | cons u rest ih =>
    obtain ⟨hfirst, hrest⟩ := List.pairwise_cons.1 hupdates
    obtain ⟨hcarried, hkept⟩ := ih hrest (executor.updateRef repoPath u.reference u.target s).2
    by_cases hblocked : Blocked (refs s) u.reference
    · obtain ⟨-, hrefs⟩ := h.blocked u.reference u.target s hblocked
      rw [hrefs] at hcarried hkept
      refine ⟨fun v hv hnot => ?_, fun name hname => ?_⟩
      · rcases List.mem_cons.1 hv with rfl | hv
        · exact absurd hblocked hnot
        · exact hcarried v hv hnot
      · exact hkept name fun v hv => hname v (List.mem_cons_of_mem u hv)
    · obtain ⟨-, hrefs⟩ := h.updated u.reference u.target s hblocked
      rw [hrefs] at hcarried hkept
      have hsame : ∀ v ∈ rest, Blocked ((refs s).insert u.reference u.target) v.reference ↔
          Blocked (refs s) v.reference := fun v hv => blocked_insert (hfirst v hv).2
      refine ⟨fun v hv hnot => ?_, fun name hname => ?_⟩
      · rcases List.mem_cons.1 hv with rfl | hv
        · refine (hkept v.reference fun w hw heq => absurd heq.symm (hfirst w hw).1).trans ?_
          exact Map.get_insert_self (refs s) v.reference v.target
        · exact hcarried v hv ((hsame v hv).not.2 hnot)
      · have hne : u.reference ≠ name := fun heq =>
          hblocked (heq ▸ hname u List.mem_cons_self heq)
        refine (hkept name fun v hv heq => ?_).trans (Map.get_insert_ne hne)
        have hold := hname v (List.mem_cons_of_mem u hv) heq
        exact heq ▸ (hsame v hv).2 (heq.symm ▸ hold)

/-- Deletions of existing refs. -/
theorem IsRefStore.refs_deletions (h : IsRefStore executor repoPath refs) {deletions : List String}
    (hnodup : deletions.Nodup) (s : σ) (hmem : ∀ name ∈ deletions, name ∈ refs s) (name : String) :
    (refs (runEach id (executor.deleteRef repoPath) deletions s).2)[name]? =
      if name ∈ deletions then none else (refs s)[name]? := by
  induction deletions generalizing s with
  | nil => simp [runEach]
  | cons reference rest ih =>
    obtain ⟨hnew, hrest⟩ := List.nodup_cons.1 hnodup
    obtain ⟨-, hrefs⟩ := h.deleted reference s (hmem reference List.mem_cons_self)
    have hremain : ∀ other ∈ rest, other ∈ refs (executor.deleteRef repoPath reference s).2 := by
      intro other hother
      rw [hrefs, Std.ExtTreeMap.mem_erase, ne_eq, Std.LawfulEqCmp.compare_eq_iff_eq]
      exact ⟨fun heq => hnew (heq ▸ hother), hmem other (List.mem_cons_of_mem reference hother)⟩
    rw [runEach]
    refine (ih hrest _ hremain).trans ?_
    rw [hrefs, Map.get_erase]
    by_cases hname : name ∈ rest
    · rw [if_pos hname, if_pos (List.mem_cons_of_mem reference hname)]
    · by_cases heq : reference = name
      · rw [if_neg hname, if_pos heq, if_pos (heq ▸ List.mem_cons_self)]
      · rw [if_neg hname, if_neg heq, if_neg]
        exact fun hmem => (List.mem_cons.1 hmem).elim (fun h => heq h.symm) hname

end Store

/-! ### The announced state -/

/-- The refs of a state do not obstruct one another. -/
def Compatible (state : RepoState) : Prop :=
  ∀ name ∈ state.refMap, ∀ other ∈ state.refMap, ¬ Obstructs name other

/-- The refs apart from `HEAD` are those of the state. -/
def Reaches (state : RepoState) (refs : Map String) : Prop :=
  ∀ name, name ≠ "HEAD" → refs[name]? = state.refMap[name]?

/-- No update is blocked by a ref that is deleted after it. -/
def Unobstructed (state : RepoState) (localRefs : Map String) : Prop :=
  ∀ reference target, state.refMap[reference]? = some target →
    localRefs[reference]? ≠ some target → ∀ stale ∈ localRefs, stale ≠ "HEAD" →
      stale ∉ state.refMap → ¬ Obstructs stale reference

theorem startsWith_of_isStateRef {name : String} (h : isStateRef name = true) (hne : name ≠ "HEAD") :
    Str.startsWith name "refs/" = true := by
  unfold isStateRef at h
  simp only [Bool.and_eq_true, Bool.or_eq_true, beq_iff_eq, hne, false_or] at h
  rcases h.1 with hheads | htags
  · obtain ⟨rest, rfl⟩ := Str.startsWith_iff.1 hheads
    exact Str.startsWith_iff.2 ⟨"heads/" ++ rest, by rw [← String.append_assoc]; rfl⟩
  · obtain ⟨rest, rfl⟩ := Str.startsWith_iff.1 htags
    exact Str.startsWith_iff.2 ⟨"tags" ++ rest, by rw [← String.append_assoc]; rfl⟩

/-- `HEAD` is not on the path of a ref of a valid state, nor the other way round. -/
theorem not_obstructs_head {state : RepoState} (h : state.validate = .ok ()) {name value : String}
    (hname : state.refMap[name]? = some value) : ¬ Obstructs "HEAD" name := by
  obtain ⟨hne, hstate⟩ := RepoState.get_refMap.1 hname
  obtain ⟨rest, rfl⟩ := Str.startsWith_iff.1
    (startsWith_of_isStateRef (RepoState.entry_of_validate h hstate).1 hne)
  rintro (hhead | hhead)
  · obtain ⟨more, heq⟩ := Str.startsWith_iff.1 hhead
    have hchars := congrArg String.toList heq
    simp at hchars
  · obtain ⟨more, heq⟩ := Str.startsWith_iff.1 hhead
    have hchars := congrArg String.toList heq
    simp at hchars

section Runs

variable {σ : Type} {executor : GitExecutor σ} {repoPath : String} {refs : σ → Map String}
  {state : RepoState} {events : List CoreEvent} {maintainers : List String} {plan : SyncPlan} {s : σ}

/-- A plan with its lists in any order reaches the announced state if and only if no update is blocked
by a ref that is deleted after it. -/
theorem refs_executeSyncPlan_iff (hstore : IsRefStore executor repoPath refs)
    (hvalid : state.validate = .ok ()) (hcompatible : Compatible state)
    (hupdates : plan.updates.Perm (buildSyncPlan state (refs s) events maintainers).updates)
    (hdeletions : plan.deletions.Perm (buildSyncPlan state (refs s) events maintainers).deletions)
    (timeout : ℕ) :
    Reaches state (refs (executeSyncPlan executor repoPath plan timeout s).2) ↔
      Unobstructed state (refs s) := by
  have hmem : ∀ u, u ∈ plan.updates ↔ state.refMap[u.reference]? = some u.target ∧
      (refs s)[u.reference]? ≠ some u.target := fun u => hupdates.mem_iff.trans mem_updates
  have hpairwise : plan.updates.Pairwise fun u v => u.reference ≠ v.reference ∧
      ¬ Obstructs u.reference v.reference := by
    refine List.pairwise_and_iff.2 ⟨?_, List.pairwise_of_forall_mem_list fun u hu v hv => ?_⟩
    · exact (hupdates.pairwise_iff Ne.symm).2 pairwise_updates
    · exact hcompatible _ (Map.mem_iff.2 ⟨_, ((hmem u).1 hu).1⟩)
        _ (Map.mem_iff.2 ⟨_, ((hmem v).1 hv).1⟩)
  obtain ⟨hcarried, hkept⟩ := hstore.refs_updates hpairwise
    (runEach id (fun remote => executor.fetch repoPath remote timeout) plan.cloneUrls s).2
  rw [hstore.refs_fetches] at hcarried hkept
  have hstale : ∀ name, name ∈ plan.deletions ↔ name ∈ refs s ∧ name ≠ "HEAD" ∧
      name ∉ state.refMap := fun name => hdeletions.mem_iff.trans mem_deletions
  -- a ref that is not in the state is kept until it is deleted
  have hfinal := hstore.refs_deletions (hdeletions.nodup_iff.2 nodup_deletions) _ fun name hname => by
    obtain ⟨hlocal, -, hnot⟩ := (hstale name).1 hname
    refine Map.mem_iff.2 ?_
    rw [hkept name fun u hu heq => absurd (Map.mem_iff.2 ⟨_, heq ▸ ((hmem u).1 hu).1⟩) hnot]
    exact Map.mem_iff.1 hlocal
  constructor
  · intro hreaches reference target hstate hlocal stale hmemStale hhead hnot hobstructs
    have hblocked : Blocked (refs s) reference := ⟨stale, hmemStale, hobstructs⟩
    have hreference := hreaches reference (RepoState.get_refMap.1 hstate).1
    have hlisted : reference ∉ plan.deletions := fun hdelete =>
      ((hstale reference).1 hdelete).2.2 (Map.mem_iff.2 ⟨target, hstate⟩)
    rw [hstate] at hreference
    refine hlocal (Eq.trans ?_ hreference)
    refine Eq.symm ((hfinal reference).trans ?_)
    rw [if_neg hlisted]
    exact hkept reference fun _ _ _ => hblocked
  · intro hclear name hname
    refine (hfinal name).trans ?_
    cases hstate : state.refMap[name]? with
    | none =>
      have hnot : name ∉ state.refMap := Map.get_eq_none_iff.1 hstate
      split_ifs with hdelete
      · rfl
      · rw [hkept name fun u hu heq => absurd (Map.mem_iff.2 ⟨_, heq ▸ ((hmem u).1 hu).1⟩) hnot]
        exact Map.get_eq_none_iff.2 fun hlocal => hdelete ((hstale name).2 ⟨hlocal, hname, hnot⟩)
    | some target =>
      have hin : name ∈ state.refMap := Map.mem_iff.2 ⟨target, hstate⟩
      rw [if_neg fun hdelete => ((hstale name).1 hdelete).2.2 hin]
      by_cases hlocal : (refs s)[name]? = some target
      · refine (hkept name fun u hu heq => ?_).trans hlocal
        obtain ⟨htarget, hdiffers⟩ := (hmem u).1 hu
        rw [heq, hstate] at htarget
        rw [heq, ← htarget] at hdiffers
        exact absurd hlocal hdiffers
      · refine hcarried ⟨name, target⟩ ((hmem _).2 ⟨hstate, hlocal⟩) ?_
        rintro ⟨other, hother, hobstructs⟩
        by_cases hhead : other = "HEAD"
        · exact not_obstructs_head hvalid hstate (hhead ▸ hobstructs)
        · by_cases hkeptOther : other ∈ state.refMap
          · exact hcompatible other hkeptOther name hin hobstructs
          · exact hclear name target hstate hlocal other hother hhead hkeptOther hobstructs

end Runs

/-! ### Two plans -/

instance (refs : Map String) (reference : String) : Decidable (Blocked refs reference) :=
  decidable_of_iff (∃ name ∈ refs.keys, Obstructs name reference)
    (by simp only [Std.ExtTreeMap.mem_keys, Blocked])

instance (state : RepoState) : Decidable (Compatible state) :=
  decidable_of_iff (∀ name ∈ state.refMap.keys, ∀ other ∈ state.refMap.keys, ¬ Obstructs name other)
    (by simp only [Std.ExtTreeMap.mem_keys, Compatible])

instance (state : RepoState) (localRefs : Map String) : Decidable (Unobstructed state localRefs) :=
  decidable_of_iff (∀ entry ∈ state.refMap.toList, localRefs[entry.1]? ≠ some entry.2 →
      ∀ stale ∈ localRefs.keys, stale ≠ "HEAD" → stale ∉ state.refMap → ¬ Obstructs stale entry.1)
    (by simp only [Prod.forall, Std.ExtTreeMap.mem_toList_iff_getElem?_eq_some,
      Std.ExtTreeMap.mem_keys, Unobstructed])

/-- A repository that is nothing but its refs. -/
def refStore : GitExecutor (Map String) where
  fetch _ _ _ refs := (.ok (), refs)
  updateRef _ reference target refs :=
    if Blocked refs reference then (.error (.commandFailed "cannot lock ref"), refs)
    else (.ok (), refs.insert reference target)
  deleteRef _ reference refs :=
    if reference ∈ refs then (.ok (), refs.erase reference)
    else (.error (.commandFailed "cannot lock ref"), refs)

theorem isRefStore_refStore (repoPath : String) : IsRefStore refStore repoPath id where
  fetch _ _ _ := rfl
  updated reference target refs h := by
    have hrun : refStore.updateRef repoPath reference target refs =
        (.ok (), refs.insert reference target) := if_neg h
    rw [hrun]
    exact ⟨rfl, rfl⟩
  blocked reference target refs h := by
    have hrun : refStore.updateRef repoPath reference target refs =
        (.error (.commandFailed "cannot lock ref"), refs) := if_pos h
    rw [hrun]
    exact ⟨⟨_, rfl⟩, rfl⟩
  deleted reference refs h := by
    have hrun : refStore.deleteRef repoPath reference refs = (.ok (), refs.erase reference) := if_pos h
    rw [hrun]
    exact ⟨rfl, rfl⟩

/-- A state with one branch. -/
def oneBranch (name value : String) : RepoState where
  identifier := "repo"
  state := ((∅ : Map String).insert "HEAD" ("ref: " ++ name)).insert name value

def commitOne : String := "1111111111111111111111111111111111111111"
def commitTwo : String := "2222222222222222222222222222222222222222"

/-- A branch that is moved, and another that is removed. -/
theorem reaches_moved : Reaches (oneBranch "refs/heads/main" commitTwo)
    (executeSyncPlan refStore "/srv/repo.git"
      (buildSyncPlan (oneBranch "refs/heads/main" commitTwo)
        (((∅ : Map String).insert "refs/heads/main" commitOne).insert "refs/heads/old" commitOne) [] [])
      30 (((∅ : Map String).insert "refs/heads/main" commitOne).insert "refs/heads/old" commitOne)).2 :=
  (refs_executeSyncPlan_iff (isRefStore_refStore "/srv/repo.git") (by decide +kernel)
    (by decide +kernel) (List.Perm.refl _) (List.Perm.refl _) 30).2 (by decide +kernel)

/-- A branch that is replaced by one below it: the old branch is still there when the new one is to be
written, and in the end there is neither. -/
theorem not_reaches_replaced :
    (oneBranch "refs/heads/a/b" commitOne).validate = .ok () ∧
      Compatible (oneBranch "refs/heads/a/b" commitOne) ∧ IsRefStore refStore "/srv/repo.git" id ∧
      ¬ Reaches (oneBranch "refs/heads/a/b" commitOne)
        (executeSyncPlan refStore "/srv/repo.git"
          (buildSyncPlan (oneBranch "refs/heads/a/b" commitOne)
            ((∅ : Map String).insert "refs/heads/a" commitOne) [] [])
          30 ((∅ : Map String).insert "refs/heads/a" commitOne)).2 := by
  refine ⟨by decide +kernel, by decide +kernel, isRefStore_refStore _, fun h => ?_⟩
  have hbranch := h "refs/heads/a/b" (by decide)
  revert hbranch
  decide +kernel

/-! ### Pushes -/

/-- The revision that stands for no commit. -/
def nullRev : String := "0000000000000000000000000000000000000000"

/-- What an accepted push does to the refs. -/
def applyPush (u : RefUpdate) (refs : Map String) : Map String :=
  if u.newRev = nullRev then refs.erase u.refName else refs.insert u.refName u.newRev

/-- A plan neither deletes nor updates the ref of a push, and every target is a commit. -/
def KeepsPush (plan : SyncPlan) (u : RefUpdate) : Prop :=
  u.refName ∉ plan.deletions ∧ (∀ update ∈ plan.updates, update.reference ≠ u.refName) ∧
    ∀ update ∈ plan.updates, Str.isHexLen update.target 40 = true

theorem get_applyPush (u : RefUpdate) (refs : Map String) :
    (applyPush u refs)[u.refName]? = if u.newRev = nullRev then none else some u.newRev := by
  unfold applyPush
  split_ifs
  · rw [Map.get_erase, if_pos rfl]
  · exact Map.get_insert_self refs u.refName u.newRev

/-- The name of a ref is not a commit. -/
theorem isHexLen_of_symbolic {value : String} (h : Str.startsWith value "ref: refs/" = true)
    (hcommit : Str.isHexLen value 40 = true) : False := by
  rw [startsWith_of_isHexLen hcommit (by decide)] at h
  cases h

section Pushes

variable {state : RepoState} {u : RefUpdate} {localRefs : Map String} {events : List CoreEvent}
  {maintainers : List String}

/-- A plan leaves alone `HEAD`, and the refs that are as the state says. -/
theorem untouched_iff {name : String} :
    (name ∉ (buildSyncPlan state localRefs events maintainers).deletions ∧
      ∀ update ∈ (buildSyncPlan state localRefs events maintainers).updates,
        update.reference ≠ name) ↔
      name = "HEAD" ∨ localRefs[name]? = state.refMap[name]? := by
  rw [mem_deletions]
  constructor
  · rintro ⟨hkept, hsame⟩
    rw [or_iff_not_imp_left]
    intro hname
    cases hstate : state.refMap[name]? with
    | none =>
      have hnot : name ∉ state.refMap := Map.get_eq_none_iff.1 hstate
      exact Map.get_eq_none_iff.2 fun hlocal => hkept ⟨hlocal, hname, hnot⟩
    | some value =>
      by_contra hlocal
      exact hsame ⟨name, value⟩ (mem_updates.2 ⟨hstate, hlocal⟩) rfl
  · rintro (rfl | hsame)
    · refine ⟨fun h => h.2.1 rfl, fun update hupdate heq => ?_⟩
      exact (RepoState.get_refMap.1 (mem_updates.1 hupdate).1).1 heq
    · refine ⟨fun ⟨hlocal, _, hnot⟩ => hnot ?_, fun update hupdate heq => ?_⟩
      · rw [Map.mem_iff, ← hsame]
        exact Map.mem_iff.1 hlocal
      · obtain ⟨hstate, hlocal⟩ := mem_updates.1 hupdate
        rw [heq] at hstate hlocal
        exact hlocal (hsame.trans hstate)

/-- The refs that a push leaves as the state says. -/
theorem get_applyPush_eq_iff (hvalid : state.validate = .ok ())
    (haccept : evaluateRefUpdate u (some state) = some .accept) (hname : u.refName ≠ "HEAD") :
    (applyPush u localRefs)[u.refName]? = state.refMap[u.refName]? ↔
      isNostrNamespace u.refName = true ∧ u.newRev = nullRev ∨
        u.newRev ≠ nullRev ∧ state.state[u.refName]? = some u.newRev := by
  have hstate : state.refMap[u.refName]? = state.state[u.refName]? := by
    refine Option.ext fun value => ?_
    rw [RepoState.get_refMap]
    exact and_iff_right hname
  rw [hstate, get_applyPush]
  rcases evaluateRefUpdate_eq_accept.1 haccept with hnostr | ⟨hnostr, s, hs, -, -, hassigned⟩
  · have hspace := isNostrNamespace_of_isNostrRefName hnostr
    have hnone : state.state[u.refName]? = none := by
      refine Option.eq_none_iff_forall_ne_some.2 fun value hvalue => ?_
      have hnot := RepoState.isNostrNamespace_of_mem hvalid (Map.mem_iff.2 ⟨value, hvalue⟩)
      rw [hspace] at hnot
      cases hnot
    rw [hnone]
    split_ifs with hnull
    · exact iff_of_true rfl (.inl ⟨hspace, hnull⟩)
    · exact iff_of_false nofun fun h => h.elim (fun h => hnull h.2) fun h => nomatch h.2
  · obtain rfl := Option.some.inj hs
    obtain ⟨entry, hentry, -⟩ := Option.bind_eq_some_iff.1 hassigned
    rw [hentry]
    split_ifs with hnull
    · refine iff_of_false nofun fun h => h.elim (fun h => ?_) fun h => h.1 hnull
      rw [hnostr] at h
      exact nomatch h.1
    · constructor
      · exact fun h => .inr ⟨hnull, h.symm⟩
      · rintro (⟨h, -⟩ | ⟨-, h⟩)
        · rw [hnostr] at h
          cases h
        · exact h.symm

/-- An accepted push is left alone, and every target is a commit, exactly when the ref is `HEAD`, or is
removed from `refs/nostr/`, or the state assigns it the pushed revision itself; and every ref to which
the state assigns another ref has that text in the repository. -/
theorem keepsPush_iff (hvalid : state.validate = .ok ())
    (haccept : evaluateRefUpdate u (some state) = some .accept) :
    KeepsPush (buildSyncPlan state (applyPush u localRefs) events maintainers) u ↔
      (u.refName = "HEAD" ∨ isNostrNamespace u.refName = true ∧ u.newRev = nullRev ∨
        u.newRev ≠ nullRev ∧ state.state[u.refName]? = some u.newRev) ∧
      ∀ name value, name ≠ "HEAD" → state.state[name]? = some value →
        Str.startsWith value "ref: refs/" = true → (applyPush u localRefs)[name]? = some value := by
  unfold KeepsPush
  rw [← and_assoc, untouched_iff]
  refine and_congr ?_ ?_
  · by_cases hname : u.refName = "HEAD"
    · simp [hname]
    · rw [get_applyPush_eq_iff hvalid haccept hname]
  · constructor
    · intro hcommits name value hname hvalue hsymbolic
      by_contra hlocal
      have hcommit := hcommits ⟨name, value⟩
        (mem_updates.2 ⟨RepoState.get_refMap.2 ⟨hname, hvalue⟩, hlocal⟩)
      exact isHexLen_of_symbolic hsymbolic hcommit
    · intro hsymbolic update hupdate
      obtain ⟨hstate, hlocal⟩ := mem_updates.1 hupdate
      obtain ⟨hname, hvalue⟩ := RepoState.get_refMap.1 hstate
      have hallowed := (RepoState.entry_of_validate hvalid hvalue).2
      unfold isStateValue at hallowed
      rcases Bool.or_eq_true_iff.1 hallowed with hcommit | htext
      · exact hcommit
      · exact absurd (hsymbolic _ _ hname hvalue htext) hlocal

end Pushes

/-- A push to `refs/nostr/`. -/
def nostrPush : RefUpdate where
  oldRev := nullRev
  newRev := commitTwo
  refName := "refs/nostr/0123456789abcdef0123456789abcdef0123456789abcdef0123456789abcdef"

/-- The ref of a push to `refs/nostr/` is deleted; a branch that is announced as another branch is
pushed to its commit, and then updated to the text that announces it. -/
theorem not_keepsPush :
    (oneBranch "refs/heads/main" commitOne).validate = .ok () ∧
      evaluateRefUpdate nostrPush (some (oneBranch "refs/heads/main" commitOne)) = some .accept ∧
      ¬ KeepsPush (buildSyncPlan (oneBranch "refs/heads/main" commitOne) (applyPush nostrPush ∅) [] [])
        nostrPush ∧
      ∃ state : RepoState, state.validate = .ok () ∧
        evaluateRefUpdate ⟨nullRev, commitOne, "refs/heads/dev"⟩ (some state) = some .accept ∧
        (buildSyncPlan state (applyPush ⟨nullRev, commitOne, "refs/heads/dev"⟩
          ((∅ : Map String).insert "refs/heads/main" commitOne)) [] []).updates =
            [⟨"refs/heads/dev", "ref: refs/heads/main"⟩] := by
  refine ⟨by decide +kernel, by decide +kernel, fun h => h.1 (by decide +kernel),
    ⟨"repo", (oneBranch "refs/heads/main" commitOne).state.insert "refs/heads/dev"
      "ref: refs/heads/main"⟩, by decide +kernel, by decide +kernel, by decide +kernel⟩

/-- A push to the announced commit of a branch. -/
theorem keepsPush_branch :
    KeepsPush (buildSyncPlan (oneBranch "refs/heads/main" commitTwo)
      (applyPush ⟨commitOne, commitTwo, "refs/heads/main"⟩
        ((∅ : Map String).insert "refs/heads/main" commitOne)) [] [])
      ⟨commitOne, commitTwo, "refs/heads/main"⟩ := by
  refine (keepsPush_iff (by decide +kernel) (by decide +kernel)).2
    ⟨.inr (.inr ⟨by decide, by decide +kernel⟩), fun name value hname hvalue htext => ?_⟩
  have hentry : (name, value) ∈ (oneBranch "refs/heads/main" commitTwo).state.toList :=
    Std.ExtTreeMap.mem_toList_iff_getElem?_eq_some.2 hvalue
  have hlist : (oneBranch "refs/heads/main" commitTwo).state.toList =
      [("HEAD", "ref: refs/heads/main"), ("refs/heads/main", commitTwo)] := by
    decide +kernel
  rw [hlist, List.mem_pair] at hentry
  rcases hentry with heq | heq
  · exact absurd (Prod.mk.inj heq).1 hname
  · rw [(Prod.mk.inj heq).2] at htext
    exact absurd htext (by decide +kernel)

end Sync
end Gittree
