import Mathlib.Tactic

/-!
# Fallible computations

`Result<T, E>` as `Except E T`.  The `?` operator is `bind`, an early `return Err(e)` under a
condition is `ensure`, and `map_err` is `mapError`.  The lemmas take a successful computation
apart, so that a proof about a fallible function never unfolds the monad.
-/

namespace Rust
namespace Result

variable {ε ε' α β : Type}

/-- `if !c { return Err(e) }`. -/
def ensure (c : Prop) [Decidable c] (e : ε) : Except ε Unit := if c then .ok () else .error e

/-- `Option::ok_or`. -/
def okOr (o : Option α) (e : ε) : Except ε α :=
  match o with
  | some a => .ok a
  | none => .error e

/-- `Result::ok`. -/
def toOption : Except ε α → Option α
  | .ok a => some a
  | .error _ => none

/-- A result, with the fact that it is the result. -/
def attach : (x : Except ε α) → Except ε {a : α // x = .ok a}
  | .ok a => .ok ⟨a, rfl⟩
  | .error e => .error e

@[simp] theorem ensure_eq_ok {c : Prop} [Decidable c] {e : ε} {u : Unit} :
    ensure c e = .ok u ↔ c := by
  unfold ensure
  split_ifs with h <;> simp [h]

@[simp] theorem okOr_eq_ok {o : Option α} {e : ε} {a : α} : okOr o e = .ok a ↔ o = some a := by
  cases o <;> simp [okOr]

@[simp] theorem toOption_eq_some {x : Except ε α} {a : α} : toOption x = some a ↔ x = .ok a := by
  cases x <;> simp [toOption]

theorem bind_eq_ok {x : Except ε α} {f : α → Except ε β} {b : β} :
    (x >>= f) = .ok b ↔ ∃ a, x = .ok a ∧ f a = .ok b := by
  cases x with
  | error e => simp [bind, Except.bind]
  | ok a => simp [bind, Except.bind]

theorem attach_bind_eq_ok {x : Except ε α} {f : {a : α // x = .ok a} → Except ε β} {b : β} :
    (attach x >>= f) = .ok b ↔ ∃ (a : α) (h : x = .ok a), f ⟨a, h⟩ = .ok b := by
  cases x with
  | error e => simp [attach, bind, Except.bind]
  | ok a => simp [attach, bind, Except.bind]

theorem bind_eq_error {x : Except ε α} {f : α → Except ε β} {e : ε} :
    (x >>= f) = .error e ↔ x = .error e ∨ ∃ a, x = .ok a ∧ f a = .error e := by
  cases x with
  | error e' => simp [bind, Except.bind]
  | ok a => simp [bind, Except.bind]

theorem ensure_eq_error {c : Prop} [Decidable c] {e e' : ε} :
    ensure c e = .error e' ↔ ¬ c ∧ e = e' := by
  unfold ensure
  split_ifs with h <;> simp [h]

theorem mapError_eq_error {f : ε → ε'} {x : Except ε α} {e' : ε'} :
    x.mapError f = .error e' ↔ ∃ e, x = .error e ∧ f e = e' := by
  cases x <;> simp [Except.mapError]

theorem pure_ne_error {a : α} {e : ε} : (pure a : Except ε α) ≠ .error e := by
  simp [pure, Except.pure]

theorem pure_eq_ok {a b : α} : (pure a : Except ε α) = .ok b ↔ a = b := by
  simp [pure, Except.pure]

@[simp] theorem mapError_eq_ok {f : ε → ε'} {x : Except ε α} {a : α} :
    x.mapError f = .ok a ↔ x = .ok a := by
  cases x <;> simp [Except.mapError]

theorem map_eq_ok {f : α → β} {x : Except ε α} {b : β} :
    x.map f = .ok b ↔ ∃ a, x = .ok a ∧ f a = b := by
  cases x <;> simp [Except.map]

/-- A computation whose first component is known succeeds. -/
theorem exists_of_map_fst {x : Except ε (α × β)} {a : α} (h : x.map Prod.fst = .ok a) :
    ∃ b, x = .ok (a, b) := by
  cases x with
  | error e => cases h
  | ok r =>
    cases h
    exact ⟨r.2, rfl⟩

/-- A computation over a state that fails before it changes anything: its answer, and the state after
it. -/
def settle {σ : Type} (s : σ) : Except ε (α × σ) → Except ε α × σ
  | .ok (a, t) => (.ok a, t)
  | .error e => (.error e, s)

theorem settle_eq_ok {σ : Type} {s t : σ} {x : Except ε (α × σ)} {a : α} :
    settle s x = (.ok a, t) ↔ x = .ok (a, t) := by
  rcases x with e | ⟨b, u⟩ <;> simp [settle]

theorem settle_eq_error {σ : Type} {s t : σ} {x : Except ε (α × σ)} {e : ε} :
    settle s x = (.error e, t) ↔ x = .error e ∧ s = t := by
  rcases x with e' | ⟨b, u⟩ <;> simp [settle]

end Result
end Rust
