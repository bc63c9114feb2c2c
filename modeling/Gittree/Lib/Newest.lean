import Mathlib.Data.List.Sort
import Mathlib.Tactic

/-!
# The newest of a list

`newest age l` is the last element of `l` after a stable sort by age: of the elements with the
greatest age the one that comes last in `l`.

* `newest_cons`, `newest_append`: the newest element when one more is put before or after the list;
* `le_of_newest`: nothing is newer;
* `newest_filter`: the newest stays the newest when others are removed;
* `maxByKey_eq_newest`: one pass over the list finds it.
-/

namespace Rust

variable {α : Type} (age : α → ℤ)

/-- `sort_by_key` followed by `pop`. -/
def newest (l : List α) : Option α := (l.insertionSort fun a b => age a ≤ age b).getLast?

/-- `max_by_key`: of several greatest elements the last. -/
def maxByKey (l : List α) : Option α :=
  l.foldl (fun best a =>
    match best with
    | none => some a
    | some b => if age a < age b then some b else some a) none

variable {age}

/-- The last of a sorted list after an insertion. -/
theorem getLast?_orderedInsert {a b : α} {l : List α} (hl : l.Pairwise fun a b => age a ≤ age b)
    (h : l.getLast? = some b) :
    (l.orderedInsert (fun a b => age a ≤ age b) a).getLast? =
      if age a ≤ age b then some b else some a := by
  induction l with
  | nil => cases h
  | cons c l ih =>
    rw [List.orderedInsert_cons]
    cases l with
    | nil =>
      obtain rfl : c = b := by simpa using h
      split_ifs with hac
      · rfl
      · rfl
    | cons d l =>
      have hlast : (d :: l).getLast? = some b := by
        rw [← h, List.getLast?_cons_cons]
      have hcb : age c ≤ age b :=
        (List.pairwise_cons.1 hl).1 b (List.mem_of_getLast? hlast)
      by_cases hac : age a ≤ age c
      · rw [if_pos hac, if_pos (hac.trans hcb), List.getLast?_cons_cons, h]
      · rw [if_neg hac, List.getLast?_cons]
        rw [ih (List.pairwise_cons.1 hl).2 hlast]
        split_ifs <;> rfl

theorem newest_nil : newest age [] = none := rfl

/-- An element before the list is the newest only if it is newer than all others. -/
theorem newest_cons (a : α) (l : List α) :
    newest age (a :: l) = some (match newest age l with
      | none => a
      | some b => if age a ≤ age b then b else a) := by
  unfold newest
  rw [List.insertionSort_cons]
  cases hlast : (l.insertionSort fun a b => age a ≤ age b).getLast? with
  | none =>
    rw [List.getLast?_eq_none_iff.1 hlast]
    rfl
  | some b =>
    have hsorted : (l.insertionSort fun a b => age a ≤ age b).Pairwise fun a b => age a ≤ age b :=
      have : IsTrans α fun a b => age a ≤ age b := ⟨fun _ _ _ => le_trans⟩
      have : Std.Total fun a b : α => age a ≤ age b := ⟨fun a b => le_total (age a) (age b)⟩
      List.pairwise_insertionSort _ l
    rw [getLast?_orderedInsert hsorted hlast]
    simp only
    split_ifs <;> rfl

/-- An element after the list is the newest unless another is newer. -/
theorem newest_append (l : List α) (r : α) :
    newest age (l ++ [r]) = some (match newest age l with
      | none => r
      | some b => if age r < age b then b else r) := by
  induction l with
  | nil => rfl
  | cons a l ih =>
    rw [List.cons_append, newest_cons, ih, newest_cons]
    cases newest age l with
    | none =>
      simp only
      split_ifs <;> first | rfl | omega
    | some b =>
      simp only
      split_ifs <;> first | rfl | omega

theorem newest_eq_none_iff {l : List α} : newest age l = none ↔ l = [] := by
  cases l with
  | nil => simp [newest_nil]
  | cons a l => simp [newest_cons]

theorem mem_of_newest {l : List α} {a : α} (h : newest age l = some a) : a ∈ l :=
  (List.mem_insertionSort _).1 (List.mem_of_getLast? h)

theorem le_of_newest {l : List α} {a b : α} (h : newest age l = some b) (ha : a ∈ l) :
    age a ≤ age b := by
  induction l generalizing b with
  | nil => cases ha
  | cons c l ih =>
    rw [newest_cons] at h
    cases hl : newest age l with
    | none =>
      rw [newest_eq_none_iff.1 hl] at ha
      rw [hl] at h
      cases h
      rw [List.mem_singleton.1 ha]
    | some d =>
      rw [hl] at h
      cases h
      rcases List.mem_cons.1 ha with rfl | ha
      · simp only
        split_ifs with hle
        · exact hle
        · exact le_rfl
      · have hd := ih hl ha
        simp only
        split_ifs <;> omega

/-- An element that is not older than any other is the newest once it is appended. -/
theorem newest_append_of_le {l : List α} {r : α} (h : ∀ a ∈ l, age a ≤ age r) :
    newest age (l ++ [r]) = some r := by
  rw [newest_append]
  cases hl : newest age l with
  | none => rfl
  | some b => simp only [if_neg (not_lt.2 (h b (mem_of_newest hl)))]

/-- The newest of a list is the newest of those that pass a filter, if it passes it. -/
theorem newest_filter {l : List α} {p : α → Bool} {a : α} (h : newest age l = some a)
    (ha : p a = true) : newest age (l.filter p) = some a := by
  induction l using List.reverseRecOn generalizing a with
  | nil => cases h
  | append_singleton l r ih =>
    rw [newest_append] at h
    rw [List.filter_append]
    by_cases hr : p r = true
    · rw [show [r].filter p = [r] by simp [hr], newest_append]
      rw [← h]
      cases hl : newest age l with
      | none =>
        rw [newest_eq_none_iff.1 hl]
        rfl
      | some b =>
        rw [hl] at h
        simp only at h ⊢
        by_cases hrb : age r < age b
        · rw [if_pos hrb] at h
          cases h
          rw [ih hl ha]
        · -- what is left of the list is not newer than it was
          rw [if_neg hrb]
          cases hk : newest age (l.filter p) with
          | none => rfl
          | some c =>
            have hc := le_of_newest hl (List.mem_filter.1 (mem_of_newest hk)).1
            simp only
            rw [if_neg (by omega)]
    · rw [show [r].filter p = [] by simp [hr], List.append_nil]
      cases hl : newest age l with
      | none =>
        rw [hl] at h
        cases h
        exact absurd ha hr
      | some b =>
        rw [hl] at h
        simp only at h
        split_ifs at h with hrb
        · cases h
          exact ih hl ha
        · cases h
          exact absurd ha hr

/-- One pass finds the newest. -/
theorem maxByKey_eq_newest (l : List α) : maxByKey age l = newest age l := by
  induction l using List.reverseRecOn with
  | nil => rfl
  | append_singleton l r ih =>
    rw [newest_append, ← ih, maxByKey, List.foldl_append, ← maxByKey]
    cases maxByKey age l with
    | none => rfl
    | some b =>
      simp only [List.foldl_cons, List.foldl_nil]
      split_ifs <;> rfl

end Rust
