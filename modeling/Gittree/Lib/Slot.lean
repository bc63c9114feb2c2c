import Gittree.Lib.Result

/-!
# Records read one slot at a time

A decoder that walks over a list and updates one slot of a record at each element.  A `Slot` is a
component that can be read and written and obeys the usual laws; `foldlM_slot` says that elements
which all update one slot act on that slot alone, and `foldlM_invariant` is the induction for a
fold that may fail.
-/

namespace Rust

/-- A component of a record: what is written is read, and writing leaves the rest alone. -/
structure Slot (σ β : Type) where
  get : σ → β
  set : σ → β → σ
  get_set : ∀ d b, get (set d b) = b := by exact fun _ _ => rfl
  set_get : ∀ d, set d (get d) = d := by exact fun _ => rfl
  set_set : ∀ d b b', set (set d b) b' = set d b' := by exact fun _ _ _ => rfl

variable {ε σ α β : Type}

/-- Elements that update one slot act as a fold on that slot. -/
theorem foldlM_slot (S : Slot σ β) (step : β → α → β) {add : σ → α → Except ε σ} {l : List α}
    (h : ∀ d, ∀ x ∈ l, add d x = .ok (S.set d (step (S.get d) x))) (d : σ) :
    l.foldlM add d = .ok (S.set d (l.foldl step (S.get d))) := by
  induction l generalizing d with
  | nil =>
    rw [List.foldl_nil, S.set_get]
    rfl
  | cons x rest ih =>
    rw [List.foldlM_cons, h d x List.mem_cons_self]
    -- the rest of the list starts from the record with the slot already written
    show rest.foldlM add (S.set d (step (S.get d) x)) = _
    rw [ih (fun d y hy => h d y (List.mem_cons_of_mem _ hy)), S.get_set, S.set_set,
      List.foldl_cons]

/-- What one step keeps, a fold that ends well keeps. -/
theorem foldlM_invariant {add : σ → α → Except ε σ} {P : σ → Prop}
    (hstep : ∀ d x d', P d → add d x = .ok d' → P d') {l : List α} {d d' : σ} (hd : P d)
    (h : l.foldlM add d = .ok d') : P d' := by
  induction l generalizing d with
  | nil =>
    cases h
    exact hd
  | cons x rest ih =>
    rw [List.foldlM_cons] at h
    obtain ⟨mid, hmid, h⟩ := Result.bind_eq_ok.1 h
    exact ih (hstep d x mid hd hmid) h

/-- A fold that cannot fail, as one that can. -/
theorem foldlM_ok {f : σ → α → σ} (l : List α) (d : σ) :
    l.foldlM (fun d x => (.ok (f d x) : Except ε σ)) d = .ok (l.foldl f d) := by
  induction l generalizing d with
  | nil => rfl
  | cons x rest ih =>
    rw [List.foldlM_cons, List.foldl_cons]
    exact ih (f d x)

/-- Two folds in a row. -/
theorem foldlM_append_ok {add : σ → α → Except ε σ} {l l' : List α} {d d' d'' : σ}
    (h : l.foldlM add d = .ok d') (h' : l'.foldlM add d' = .ok d'') :
    (l ++ l').foldlM add d = .ok d'' := by
  rw [List.foldlM_append, h]
  exact h'

end Rust
