import Gittree.Services.Sync

/-!
# The effect of a sync plan

The references of a plan of `build_sync_plan`, and the refs that are left when all its updates and
deletions are applied to the local ones.  Both lists are made from hash maps, and so the changes are
taken in every order.

* `exact_buildSyncPlan`: the plan reaches the announced refs and a second plan has nothing to do.
-/

namespace Gittree
namespace Sync

open Rust

/-- The references that a plan names. -/
def SyncPlan.references (plan : SyncPlan) : List String :=
  plan.updates.map RefUpdatePlan.reference ++ plan.deletions

/-- What a plan makes of each reference: an update puts its target, a deletion takes the ref away. -/
def SyncPlan.changes (plan : SyncPlan) : List (String × Option String) :=
  plan.updates.map (fun update => (update.reference, some update.target)) ++
    plan.deletions.map fun reference => (reference, none)

/-- A plan names every reference once and not `HEAD`, its changes lead in every order from the local
refs to those of the state, and then there is nothing left to plan. -/
structure Exact (state : RepoState) (localRefs : Map String) (plan : SyncPlan) : Prop where
  distinct : plan.references.Nodup
  head : "HEAD" ∉ plan.references
  reached : ∀ changes : List (String × Option String), changes.Perm plan.changes →
    ∀ name, name ≠ "HEAD" → (changes.foldl Map.change localRefs)[name]? = state.refMap[name]?
  headKept : ∀ changes : List (String × Option String), changes.Perm plan.changes →
    (changes.foldl Map.change localRefs)["HEAD"]? = localRefs["HEAD"]?
  idle : ∀ changes : List (String × Option String), changes.Perm plan.changes →
    ∀ events maintainers,
    let next := buildSyncPlan state (changes.foldl Map.change localRefs) events maintainers
    next.updates = [] ∧ next.deletions = []

theorem SyncPlan.map_fst_changes (plan : SyncPlan) :
    plan.changes.map Prod.fst = plan.references := by
  unfold changes references
  rw [List.map_append, List.map_map, List.map_map]
  exact congrArg _ (List.map_id _)

section Plans

variable {state : RepoState} {localRefs : Map String} {events : List CoreEvent}
  {maintainers : List String}

theorem mem_references {name : String} :
    name ∈ (buildSyncPlan state localRefs events maintainers).references ↔
      (∃ target, state.refMap[name]? = some target ∧ localRefs[name]? ≠ some target) ∨
        name ∈ localRefs ∧ name ≠ "HEAD" ∧ name ∉ state.refMap := by
  unfold SyncPlan.references
  rw [List.mem_append, mem_deletions, List.mem_map]
  refine or_congr_left ?_
  constructor
  · rintro ⟨update, hupdate, rfl⟩
    exact ⟨update.target, mem_updates.1 hupdate⟩
  · rintro ⟨target, htarget⟩
    exact ⟨⟨name, target⟩, mem_updates.2 htarget, rfl⟩

theorem mem_changes {name : String} {value : Option String} :
    (name, value) ∈ (buildSyncPlan state localRefs events maintainers).changes ↔
      (∃ target, value = some target ∧ state.refMap[name]? = some target ∧
        localRefs[name]? ≠ some target) ∨
        value = none ∧ name ∈ localRefs ∧ name ≠ "HEAD" ∧ name ∉ state.refMap := by
  unfold SyncPlan.changes
  rw [List.mem_append, List.mem_map, List.mem_map]
  constructor
  · rintro (⟨update, hupdate, heq⟩ | ⟨reference, hreference, heq⟩)
    · obtain ⟨rfl, rfl⟩ := Prod.mk.inj heq
      exact .inl ⟨update.target, rfl, mem_updates.1 hupdate⟩
    · obtain ⟨rfl, rfl⟩ := Prod.mk.inj heq
      exact .inr ⟨rfl, mem_deletions.1 hreference⟩
  · rintro (⟨target, rfl, htarget⟩ | ⟨rfl, hname⟩)
    · exact .inl ⟨⟨name, target⟩, mem_updates.2 htarget, rfl⟩
    · exact .inr ⟨name, mem_deletions.2 hname, rfl⟩

/-- No reference is planned twice. -/
theorem nodup_references : (buildSyncPlan state localRefs events maintainers).references.Nodup := by
  refine List.Nodup.append ?_ nodup_deletions ?_
  · exact List.pairwise_map.2 pairwise_updates
  · intro name hupdated hdeleted
    obtain ⟨update, hupdate, rfl⟩ := List.mem_map.1 hupdated
    exact (mem_deletions.1 hdeleted).2.2 (Map.mem_iff.2 ⟨_, (mem_updates.1 hupdate).1⟩)

theorem head_notMem_references :
    "HEAD" ∉ (buildSyncPlan state localRefs events maintainers).references := by
  rw [mem_references]
  rintro (⟨target, htarget, -⟩ | ⟨-, hne, -⟩)
  · exact (RepoState.get_refMap.1 htarget).1 rfl
  · exact hne rfl

/-- The plan for refs that are those of the state is empty. -/
theorem idle_of_reached (h : ∀ name, name ≠ "HEAD" → localRefs[name]? = state.refMap[name]?) :
    (buildSyncPlan state localRefs events maintainers).updates = [] ∧
      (buildSyncPlan state localRefs events maintainers).deletions = [] := by
  constructor
  · refine List.eq_nil_iff_forall_not_mem.2 fun update hupdate => ?_
    obtain ⟨htarget, hlocal⟩ := mem_updates.1 hupdate
    exact hlocal ((h _ (RepoState.get_refMap.1 htarget).1).trans htarget)
  · refine List.eq_nil_iff_forall_not_mem.2 fun name hname => ?_
    obtain ⟨hlocal, hne, hstate⟩ := mem_deletions.1 hname
    obtain ⟨value, hvalue⟩ := Map.mem_iff.1 hlocal
    exact hstate (Map.mem_iff.2 ⟨value, (h name hne).symm.trans hvalue⟩)

/-- After the changes of a plan the refs are those of the state. -/
theorem get_changed {changes : List (String × Option String)}
    (h : changes.Perm (buildSyncPlan state localRefs events maintainers).changes) {name : String}
    (hne : name ≠ "HEAD") :
    (changes.foldl Map.change localRefs)[name]? = state.refMap[name]? := by
  have hdistinct : (changes.map Prod.fst).Nodup := by
    rw [(h.map Prod.fst).nodup_iff, SyncPlan.map_fst_changes]
    exact nodup_references
  have hchanged : ∀ value,
      (name, value) ∈ (buildSyncPlan state localRefs events maintainers).changes →
        (changes.foldl Map.change localRefs)[name]? = value :=
    fun value hvalue => Map.get_foldl_change hdistinct (h.mem_iff.2 hvalue) localRefs
  by_cases hplanned : name ∈ (buildSyncPlan state localRefs events maintainers).references
  · rcases mem_references.1 hplanned with ⟨target, htarget, hlocal⟩ | hdeleted
    · rw [hchanged (some target) (mem_changes.2 (.inl ⟨target, rfl, htarget, hlocal⟩)), htarget]
    · rw [hchanged none (mem_changes.2 (.inr ⟨rfl, hdeleted⟩)), Map.get_eq_none_iff.2 hdeleted.2.2]
  · -- the local value is already that of the state
    rw [Map.get_foldl_change_of_ne]
    · rw [mem_references, not_or] at hplanned
      obtain ⟨hupdate, hdelete⟩ := hplanned
      cases hstate : state.refMap[name]? with
      | some target =>
        by_contra hlocal
        exact hupdate ⟨target, hstate, hlocal⟩
      | none =>
        rw [Map.get_eq_none_iff]
        exact fun hlocal => hdelete ⟨hlocal, hne, Map.get_eq_none_iff.1 hstate⟩
    · intro change hchange heq
      apply hplanned
      rw [← heq, ← SyncPlan.map_fst_changes]
      exact List.mem_map_of_mem (h.mem_iff.1 hchange)

end Plans

/-- A sync plan is exact, for every state and all local refs. -/
theorem exact_buildSyncPlan (state : RepoState) (localRefs : Map String) (events : List CoreEvent)
    (maintainers : List String) :
    Exact state localRefs (buildSyncPlan state localRefs events maintainers) where
  distinct := nodup_references
  head := head_notMem_references
  reached := fun _ h _ hne => get_changed h hne
  headKept := by
    intro changes h
    refine Map.get_foldl_change_of_ne (fun change hchange heq => ?_) localRefs
    apply @head_notMem_references state localRefs events maintainers
    rw [← heq, ← SyncPlan.map_fst_changes]
    exact List.mem_map_of_mem (h.mem_iff.1 hchange)
  idle := fun _ h _ _ => idle_of_reached fun _ hne => get_changed h hne

end Sync
end Gittree
