import Mathlib.Data.List.Basic
import Mathlib.Data.List.Sort

/-!
# Selections with limits

Several selectors are applied in turn to one ordered list of candidates.  Each takes the first
elements that pass its test and were not taken before, up to its limit.

* `mem_run`: what is taken is a candidate that passes one of the tests;
* `pairwise_run_iff`: when the elements taken are in the order of the candidates;
* `cut_eq_fresh_iff`: when cutting to the limit before the elements taken earlier are dropped makes
  no difference;
* `mem_cutRun`: what is taken when every selector cuts first;
* `loop_eq`: a loop that counts down from the limit takes the fresh elements;
* `take_filter_eq_iff`: when two tests select the same first elements.
-/

namespace Select

variable {α : Type} [DecidableEq α]

/-- A test with a limit. -/
structure Selector (α : Type) where
  limit : ℕ
  test : α → Bool

/-- The first elements that pass the test and are not taken yet. -/
def fresh (l taken : List α) (s : Selector α) : List α :=
  (l.filter fun x => s.test x && decide (x ∉ taken)).take s.limit

/-- The first elements that pass the test, without those that are taken already. -/
def cut (l taken : List α) (s : Selector α) : List α :=
  ((l.filter s.test).take s.limit).filter fun x => decide (x ∉ taken)

/-- The selectors of a list in turn. -/
def run (l : List α) : List α → List (Selector α) → List α
  | taken, [] => taken
  | taken, s :: rest => run l (taken ++ fresh l taken s) rest

variable {l taken : List α} {s : Selector α} {x : α}

theorem mem_filter_of_mem_fresh (h : x ∈ fresh l taken s) :
    x ∈ l ∧ s.test x = true ∧ x ∉ taken := by
  have hm := List.mem_of_mem_take h
  simpa [List.mem_filter] using hm

theorem mem_run {selectors : List (Selector α)} (h : x ∈ run l taken selectors) :
    x ∈ taken ∨ x ∈ l ∧ ∃ s ∈ selectors, s.test x = true := by
  induction selectors generalizing taken with
  | nil => exact Or.inl h
  | cons s rest ih =>
    rcases ih h with hx | ⟨hl, t, ht, htest⟩
    · rcases List.mem_append.1 hx with hx | hx
      · exact Or.inl hx
      · obtain ⟨hl, htest, -⟩ := mem_filter_of_mem_fresh hx
        exact Or.inr ⟨hl, s, List.mem_cons_self, htest⟩
    · exact Or.inr ⟨hl, t, List.mem_cons_of_mem _ ht, htest⟩

theorem nodup_append_fresh (hl : l.Nodup) (ht : taken.Nodup) : (taken ++ fresh l taken s).Nodup := by
  refine List.nodup_append.2 ⟨ht, (hl.filter _).sublist (List.take_sublist _ _), ?_⟩
  rintro x hx _ hy rfl
  exact (mem_filter_of_mem_fresh hy).2.2 hx

theorem nodup_run (hl : l.Nodup) (selectors : List (Selector α)) (ht : taken.Nodup) :
    (run l taken selectors).Nodup := by
  induction selectors generalizing taken with
  | nil => exact ht
  | cons s rest ih => exact ih (nodup_append_fresh hl ht)

/-! ### What holds each time -/

/-- A property of each selector and of what was taken before its turn. -/
def Stages {β : Type} (selector : β → Selector α) (P : List α → β → Prop) (l : List α) :
    List α → List β → Prop
  | _, [] => True
  | taken, b :: rest =>
    P taken b ∧ Stages selector P l (taken ++ fresh l taken (selector b)) rest

/-- The elements taken are in order exactly if each selector takes what comes after all that was
taken before. -/
theorem pairwise_run_iff {β : Type} {r : α → α → Prop} (hl : l.Pairwise r) (selector : β → Selector α)
    (bs : List β) : (run l taken (bs.map selector)).Pairwise r ↔ taken.Pairwise r ∧
      Stages selector (fun taken b => ∀ x ∈ taken, ∀ y ∈ fresh l taken (selector b), r x y) l taken
        bs := by
  induction bs generalizing taken with
  | nil => simp [run, Stages]
  | cons b rest ih =>
    have hfresh : (fresh l taken (selector b)).Pairwise r :=
      (hl.filter _).sublist (List.take_sublist _ _)
    rw [List.map_cons, run, ih, Stages, List.pairwise_append]
    simp only [hfresh, true_and, and_assoc]

/-- What is taken was there before or is taken in one of the turns. -/
theorem forall_mem_run_iff {β : Type} (selector : β → Selector α) (Q : α → Prop) (bs : List β) :
    (∀ x ∈ run l taken (bs.map selector), Q x) ↔ (∀ x ∈ taken, Q x) ∧
      Stages selector (fun taken b => ∀ y ∈ fresh l taken (selector b), Q y) l taken bs := by
  induction bs generalizing taken with
  | nil => simp [run, Stages]
  | cons b rest ih =>
    rw [List.map_cons, run, ih, Stages, List.forall_mem_append, and_assoc]

theorem Stages.imp {β : Type} {selector : β → Selector α} {P Q : List α → β → Prop} {bs : List β}
    (himp : ∀ taken b, P taken b → Q taken b) (h : Stages selector P l taken bs) :
    Stages selector Q l taken bs := by
  induction bs generalizing taken with
  | nil => trivial
  | cons b rest ih => exact ⟨himp _ _ h.1, ih h.2⟩

theorem stages_and {β : Type} {selector : β → Selector α} {P Q : List α → β → Prop} {bs : List β} :
    Stages selector (fun taken b => P taken b ∧ Q taken b) l taken bs ↔
      Stages selector P l taken bs ∧ Stages selector Q l taken bs := by
  induction bs generalizing taken with
  | nil => simp [Stages]
  | cons b rest ih =>
    rw [Stages, Stages, Stages, ih]
    tauto

/-! ### Cutting to the limit first -/

/-- Dropping what is taken after the test is the same as testing both at once. -/
theorem filter_not_mem_filter (l taken : List α) (test : α → Bool) :
    (l.filter test).filter (fun x => decide (x ∉ taken)) =
      l.filter fun x => test x && decide (x ∉ taken) := by
  rw [List.filter_filter]
  exact List.filter_congr fun x _ => Bool.and_comm _ _

/-- What is left of the first elements that pass the test are the first fresh ones. -/
theorem cut_prefix_fresh (l taken : List α) (s : Selector α) :
    cut l taken s <+: fresh l taken s := by
  have hcut := (List.take_prefix s.limit (l.filter s.test)).filter fun x => decide (x ∉ taken)
  rw [filter_not_mem_filter] at hcut
  refine List.prefix_take_iff.2 ⟨hcut, (List.length_filter_le _ _).trans ?_⟩
  rw [List.length_take]
  exact min_le_left _ _

theorem mem_cut : x ∈ cut l taken s ↔ x ∈ (l.filter s.test).take s.limit ∧ x ∉ taken := by
  simp [cut, List.mem_filter]

/-- Cutting to the limit first makes no difference exactly if what is fresh is among the first elements
that pass the test. -/
theorem cut_eq_fresh_iff (hl : l.Nodup) : cut l taken s = fresh l taken s ↔
    ∀ x ∈ fresh l taken s, x ∈ (l.filter s.test).take s.limit := by
  constructor
  · intro heq x hx
    rw [← heq] at hx
    exact (mem_cut.1 hx).1
  · intro hfirst
    -- a prefix that holds every fresh element is no shorter than they are
    refine (cut_prefix_fresh l taken s).eq_of_length_le ?_
    have hnodup : (fresh l taken s).Nodup := (hl.filter _).sublist (List.take_sublist _ _)
    refine (List.subperm_of_subset hnodup fun x hx => ?_).length_le
    exact mem_cut.2 ⟨hfirst x hx, (mem_filter_of_mem_fresh hx).2.2⟩

/-- Nothing is cut when the limit is not reached. -/
theorem cut_eq_fresh_of_length (h : (l.filter s.test).length ≤ s.limit) :
    cut l taken s = fresh l taken s := by
  unfold cut fresh
  rw [← filter_not_mem_filter, List.take_of_length_le h, List.take_of_length_le]
  exact (List.length_filter_le _ _).trans h

theorem cut_nil (l : List α) (s : Selector α) : cut l [] s = fresh l [] s := by
  simp [cut, fresh]

/-- The selectors of a list in turn, each of which cuts to its limit first. -/
def cutRun (l : List α) : List α → List (Selector α) → List α
  | taken, [] => taken
  | taken, s :: rest => cutRun l (taken ++ cut l taken s) rest

theorem mem_cutRun {selectors : List (Selector α)} : x ∈ cutRun l taken selectors ↔
    x ∈ taken ∨ ∃ s ∈ selectors, x ∈ (l.filter s.test).take s.limit := by
  induction selectors generalizing taken with
  | nil => simp [cutRun]
  | cons s rest ih =>
    rw [cutRun, ih, List.mem_append, mem_cut]
    by_cases hx : x ∈ taken
    · simp [hx]
    · simp [hx]

theorem nodup_cutRun (hl : l.Nodup) (selectors : List (Selector α)) (ht : taken.Nodup) :
    (cutRun l taken selectors).Nodup := by
  induction selectors generalizing taken with
  | nil => exact ht
  | cons s rest ih =>
    refine ih (List.nodup_append.2 ⟨ht, ?_, ?_⟩)
    · exact ((hl.filter _).sublist (List.take_sublist _ _)).filter _
    · rintro x hx _ hy rfl
      exact (mem_cut.1 hy).2 hx

/-- What is selected by cutting first is selected. -/
theorem cutRun_subset_run {cutTaken : List α} {selectors : List (Selector α)} (h : cutTaken ⊆ taken) :
    cutRun l cutTaken selectors ⊆ run l taken selectors := by
  induction selectors generalizing taken cutTaken with
  | nil => exact h
  | cons s rest ih =>
    refine ih (List.append_subset.2 ⟨fun x hx => List.mem_append_left _ (h hx), fun x hx => ?_⟩)
    -- the other run may have taken the element in an earlier turn
    by_cases hx' : x ∈ taken
    · exact List.mem_append_left _ hx'
    · refine List.mem_append_right _ ((cut_prefix_fresh l taken s).subset ?_)
      exact mem_cut.2 ⟨(mem_cut.1 hx).1, hx'⟩

theorem cut_congr {test test' : α → Bool} (h : ∀ x ∈ l, test x = test' x) (taken : List α)
    (n : ℕ) : cut l taken ⟨n, test⟩ = cut l taken ⟨n, test'⟩ := by
  unfold cut
  simp only [List.filter_congr h]

/-- If nothing was taken before, what is fresh are the first elements that pass. -/
theorem fresh_nil (l : List α) (s : Selector α) : fresh l [] s = (l.filter s.test).take s.limit := by
  simp [fresh]

/-- A test before the selection. -/
theorem fresh_filter (l taken : List α) (p test : α → Bool) (n : ℕ) :
    fresh (l.filter p) taken ⟨n, test⟩ = fresh l taken ⟨n, fun x => p x && test x⟩ := by
  unfold fresh
  rw [List.filter_filter]
  refine congrArg (List.take n) (List.filter_congr fun x _ => ?_)
  rw [Bool.and_comm, Bool.and_assoc]

/-- The limit and the test before the selection. -/
theorem fresh_take_filter (l taken : List α) (p : α → Bool) (n : ℕ) :
    fresh ((l.filter p).take n) taken ⟨n, fun _ => true⟩ = cut l taken ⟨n, p⟩ := by
  unfold fresh cut
  simp only [Bool.true_and]
  refine List.take_of_length_le ((List.length_filter_le _ _).trans ?_)
  rw [List.length_take]
  exact min_le_left _ _

/-! ### A loop that selects -/

theorem fresh_zero (l taken : List α) (test : α → Bool) : fresh l taken ⟨0, test⟩ = [] := rfl

theorem fresh_cons_of_mem {test : α → Bool} (n : ℕ) (h : x ∈ taken) :
    fresh (x :: l) taken ⟨n, test⟩ = fresh l taken ⟨n, test⟩ := by
  simp [fresh, h]

theorem fresh_cons_of_not_test {test : α → Bool} (n : ℕ) (h : test x = false) :
    fresh (x :: l) taken ⟨n, test⟩ = fresh l taken ⟨n, test⟩ := by
  simp [fresh, h]

/-- An element that is taken is fresh no more, and it does not occur again. -/
theorem fresh_cons {test : α → Bool} (n : ℕ) (hx : x ∉ taken) (htest : test x = true)
    (hl : x ∉ l) :
    fresh (x :: l) taken ⟨n + 1, test⟩ = x :: fresh l (taken ++ [x]) ⟨n, test⟩ := by
  have hfilter : (l.filter fun y => test y && decide (y ∉ taken)) =
      l.filter fun y => test y && decide (y ∉ taken ++ [x]) := by
    refine List.filter_congr fun y hy => ?_
    have hne : y ≠ x := fun h => hl (h ▸ hy)
    simp [hne]
  unfold fresh
  rw [List.filter_cons_of_pos (by simp [hx, htest]), List.take_succ_cons, hfilter]

/-- A loop over the candidates that stops when its counter is zero, and otherwise skips what was
taken, takes what passes the test and skips the rest.  The loop runs on images of the candidates. -/
theorem loop_eq {β γ ε : Type} (F : ℕ → List β → List γ → Except ε (List β)) (image : α → β)
    (item : α → γ) (test : α → Bool) {all : List α}
    (hnil : ∀ n results, F n results [] = .ok results)
    (hcons : ∀ n taken x rest, taken ⊆ all → x ∈ all →
      F n (taken.map image) (item x :: rest) =
        if n = 0 then .ok (taken.map image)
        else if x ∈ taken then F n (taken.map image) rest
        else if test x = true then F (n - 1) ((taken ++ [x]).map image) rest
        else F n (taken.map image) rest)
    (n : ℕ) (hl : l.Nodup) (hsub : l ⊆ all) (htaken : taken ⊆ all) :
    F n (taken.map image) (l.map item) =
      .ok ((taken ++ fresh l taken ⟨n, test⟩).map image) := by
  induction l generalizing n taken with
  | nil => simp [hnil, fresh]
  | cons x rest ih =>
    obtain ⟨hx, hrest⟩ := List.nodup_cons.1 hl
    obtain ⟨hxu, hru⟩ := List.cons_subset.1 hsub
    rw [List.map_cons, hcons n taken x _ htaken hxu]
    cases n with
    | zero => rw [if_pos rfl, fresh_zero, List.append_nil]
    | succ n =>
      rw [if_neg n.succ_ne_zero]
      by_cases hmem : x ∈ taken
      · rw [if_pos hmem, ih _ hrest hru htaken, fresh_cons_of_mem _ hmem]
      · rw [if_neg hmem]
        by_cases htest : test x = true
        · have htaken' : taken ++ [x] ⊆ all :=
            List.append_subset.2 ⟨htaken, by simpa using hxu⟩
          rw [if_pos htest, fresh_cons n hmem htest hx]
          show F n _ _ = _
          rw [ih n hrest hru htaken']
          simp
        · rw [if_neg htest, ih _ hrest hru htaken,
            fresh_cons_of_not_test _ (Bool.not_eq_true _ ▸ htest)]

/-! ### Two tests -/

omit [DecidableEq α] in
/-- Two tests select the same first elements if wherever they differ, the limit is reached. -/
theorem take_filter_eq_iff {p q : α → Bool} (hl : l.Nodup) (n : ℕ) :
    (l.filter p).take n = (l.filter q).take n ↔
      ∀ front x back, l = front ++ x :: back → p x ≠ q x → n ≤ (front.filter p).length := by
  induction l generalizing n with
  | nil => simp
  | cons a rest ih =>
    obtain ⟨ha, hrest⟩ := List.nodup_cons.1 hl
    -- the places of the list are its head and the places of its tail
    have hplaces : (∀ front x back, a :: rest = front ++ x :: back → p x ≠ q x →
        n ≤ (front.filter p).length) ↔ (p a ≠ q a → n = 0) ∧
          ∀ front x back, rest = front ++ x :: back → p x ≠ q x →
            n ≤ ((a :: front).filter p).length := by
      constructor
      · intro h
        refine ⟨fun hne => Nat.le_zero.1 (h [] a rest rfl hne), fun front x back hr hne => ?_⟩
        exact h (a :: front) x back (by rw [hr]; rfl) hne
      · rintro ⟨hhead, htail⟩ front x back hr hne
        cases front with
        | nil =>
          cases hr
          simp [hhead hne]
        | cons b front =>
          cases hr
          exact htail front x back rfl hne
    rw [hplaces]
    cases n with
    | zero => simp
    | succ n =>
      have hout : ∀ t : α → Bool, ∀ m (tail : List α), ((rest.filter t).take m) ≠ a :: tail := by
        intro t m tail h
        have hmem : a ∈ (rest.filter t).take m := h ▸ List.mem_cons_self
        exact ha (List.mem_of_mem_filter (List.mem_of_mem_take hmem))
      cases hp : p a <;> cases hq : q a
      · simp [hp, hq, ih hrest]
      · simp [hp, hq, hout]
      · simp [hp, hq, (hout _ _ _).symm]
      · simp [hp, hq, ih hrest]

omit [DecidableEq α] in
/-- Sorting what passes a test is testing what is sorted. -/
theorem insertionSort_filter {r : α → α → Prop} [DecidableRel r] [IsTrans α r] [Std.Total r]
    (hr : ∀ x ∈ l, ∀ y ∈ l, r x y → r y x → x = y) (p : α → Bool) :
    (l.filter p).insertionSort r = (l.insertionSort r).filter p := by
  refine List.Perm.eq_of_pairwise ?_ (List.pairwise_insertionSort r _)
    ((List.pairwise_insertionSort r l).filter p) ?_
  · intro x y hx hy
    rw [List.mem_insertionSort] at hx
    have hy := List.mem_of_mem_filter hy
    rw [List.mem_insertionSort] at hy
    exact hr x (List.mem_of_mem_filter hx) y hy
  · exact (List.perm_insertionSort r _).trans ((List.perm_insertionSort r l).symm.filter p)

end Select
