import Mathlib.Data.List.Pairwise
import Mathlib.Tactic

/-!
# Counting in windows

A counter lets a limited number of checks pass in each window.  The windows are not fixed in
advance: the next one opens at a check, when at least `length` has gone by since the last opened.

* `exists_two_windows`: checks that are less than `length` apart lie in two windows;
* `passes_le_two_mul`: so twice the limit bounds what passes among them.
-/

namespace Windows

/-- A check: when it was made, when its window was opened, and whether it passed. -/
structure Entry where
  time : ℕ
  opened : ℕ
  passed : Bool
  deriving DecidableEq

/-- The number of checks that passed, of those selected. -/
def passes (selected : Entry → Bool) (log : List Entry) : ℕ :=
  log.countP fun e => e.passed && selected e

/-- The checks of the window opened at `start`. -/
def inWindow (start : ℕ) (e : Entry) : Bool := decide (e.opened = start)

/-- The second check lies in the window of the first, or in a later one. -/
def Follows (length : ℕ) (e f : Entry) : Prop :=
  f.opened = e.opened ∨ (e.opened + length ≤ f.opened ∧ e.time ≤ f.opened)

/-- A log of checks in the order of their times. -/
structure Spaced (length : ℕ) (log : List Entry) : Prop where
  opened_le : ∀ e ∈ log, e.opened ≤ e.time
  follows : log.Pairwise (Follows length)

section

variable {length : ℕ} {log : List Entry} {selected other : Entry → Bool}

@[simp]
theorem passes_nil : passes selected [] = 0 := rfl

theorem passes_cons (e : Entry) :
    passes selected (e :: log) =
      passes selected log + if e.passed && selected e then 1 else 0 := List.countP_cons

theorem passes_eq_zero (h : ∀ e ∈ log, selected e = false) : passes selected log = 0 := by
  refine List.countP_eq_zero.2 ?_
  intro e he
  simp [h e he]

theorem passes_inWindow_cons (start : ℕ) (e : Entry) :
    passes (inWindow start) (e :: log) =
      passes (inWindow start) log +
        if e.opened = start then (if e.passed then 1 else 0) else 0 := by
  rw [passes_cons]
  by_cases h : e.opened = start
  · simp [inWindow, h]
  · simp [inWindow, h]

/-- What is selected twice is counted twice. -/
theorem passes_le_add {third : Entry → Bool}
    (h : ∀ e ∈ log, selected e = true → other e = true ∨ third e = true) :
    passes selected log ≤ passes other log + passes third log := by
  induction log with
  | nil => simp
  | cons e log ih =>
    have htail := ih fun f hf => h f (List.mem_cons_of_mem e hf)
    have hhead : (if e.passed && selected e then 1 else 0) ≤
        (if e.passed && other e then 1 else 0) + if e.passed && third e then 1 else 0 := by
      have he := h e List.mem_cons_self
      cases e.passed with
      | false => simp
      | true =>
        cases hs : selected e with
        | false => simp
        | true =>
          rcases he hs with ho | ht
          · simp [ho]
          · simp [ht]
    rw [passes_cons, passes_cons, passes_cons]
    omega

theorem Spaced.tail {e : Entry} (h : Spaced length (e :: log)) : Spaced length log where
  opened_le := fun f hf => h.opened_le f (List.mem_cons_of_mem e hf)
  follows := (List.pairwise_cons.1 h.follows).2

theorem Spaced.filter (h : Spaced length log) (selected : Entry → Bool) :
    Spaced length (log.filter selected) where
  opened_le := fun e he => h.opened_le e (List.mem_filter.1 he).1
  follows := h.follows.filter selected

/-- Checks that are less than `length` apart lie in two windows. -/
theorem exists_two_windows (h : Spaced length log)
    (hspan : ∀ e ∈ log, ∀ f ∈ log, f.time < e.time + length) :
    ∃ s t, ∀ e ∈ log, e.opened = s ∨ e.opened = t := by
  cases log with
  | nil => exact ⟨0, 0, fun e he => absurd he List.not_mem_nil⟩
  | cons first rest =>
    -- The first check outside the window of `first` opens the second window.
    by_cases hother : ∀ e ∈ rest, e.opened = first.opened
    · refine ⟨first.opened, first.opened, ?_⟩
      intro e he
      rcases List.mem_cons.1 he with rfl | he
      · exact Or.inl rfl
      · exact Or.inl (hother e he)
    · cases hlate : rest.filter fun e => decide (e.opened ≠ first.opened) with
      | nil =>
        refine absurd ?_ hother
        intro e he
        by_contra hne
        exact List.not_mem_nil (hlate ▸ List.mem_filter.2 ⟨he, decide_eq_true hne⟩)
      | cons second later =>
        have hmem : ∀ {e}, e ∈ second :: later ↔ e ∈ rest ∧ e.opened ≠ first.opened := by
          intro e
          rw [← hlate, List.mem_filter, decide_eq_true_iff]
        obtain ⟨hsecond, hne⟩ := hmem.1 List.mem_cons_self
        have hopened : first.time ≤ second.opened :=
          (((List.pairwise_cons.1 h.follows).1 second hsecond).resolve_left hne).2
        refine ⟨first.opened, second.opened, ?_⟩
        intro e he
        rcases List.mem_cons.1 he with rfl | he
        · exact Or.inl rfl
        · by_cases hefirst : e.opened = first.opened
          · exact Or.inl hefirst
          · refine Or.inr ?_
            rcases List.mem_cons.1 (hmem.2 ⟨he, hefirst⟩) with rfl | helater
            · rfl
            · have hpair := (h.tail.filter fun e => decide (e.opened ≠ first.opened)).follows
              rw [hlate] at hpair
              refine ((List.pairwise_cons.1 hpair).1 e helater).resolve_right ?_
              rintro ⟨hthird, -⟩
              have htime := h.opened_le e (List.mem_cons_of_mem first he)
              have hnear := hspan first List.mem_cons_self e (List.mem_cons_of_mem first he)
              omega

/-- Twice the limit of a window bounds what passes in a span no longer than a window. -/
theorem passes_le_two_mul {limit : ℕ} (h : Spaced length log)
    (hlimit : ∀ start, passes (inWindow start) log ≤ limit)
    (hspan : ∀ e f : Entry, selected e = true → selected f = true → f.time < e.time + length) :
    passes selected log ≤ 2 * limit := by
  obtain ⟨s, t, hst⟩ := exists_two_windows (h.filter selected) fun e he f hf =>
    hspan e f (List.mem_filter.1 he).2 (List.mem_filter.1 hf).2
  have hle : passes selected log ≤ passes (inWindow s) log + passes (inWindow t) log := by
    refine passes_le_add ?_
    intro e he hsel
    rcases hst e (List.mem_filter.2 ⟨he, hsel⟩) with hs | ht
    · exact Or.inl (decide_eq_true hs)
    · exact Or.inr (decide_eq_true ht)
  have hs := hlimit s
  have ht := hlimit t
  omega

end

end Windows
