import Mathlib.Tactic

/-!
# Programs that make calls

A program over an interface of calls, each with a type of answers, as the tree of its calls: it is
finished, or it makes a call and goes on with the answer.  A handler answers the calls over a state;
`run` is a program under a handler.  The same tree can be run under any handler, faulty ones
included, and interrupted between any two calls.

A fallible program is a program under `ExceptT`.  `Post` states its outcome from a state: one
condition on the result, one on the state in which it fails.

* `run_invariant`: what every call keeps, a program keeps;
* `run_each`: a loop over a list;
* `run_bind_ok`: a successful run splits into the runs of its parts;
* `runFailing`: a program one of whose calls fails;
* `Post.bind`, `Post.ofExcept`, `Post.attempt`: one rule for each way to build a fallible program.
-/

namespace Rust

/-- Programs with calls `C`, answers `R` and result `α`. -/
inductive Prog (C : Type) (R : C → Type) (α : Type)
  | done (a : α)
  | call (c : C) (next : R c → Prog C R α)

namespace Prog

variable {C : Type} {R : C → Type} {α β σ : Type}

/-- One program after another. -/
def bind : Prog C R α → (α → Prog C R β) → Prog C R β
  | .done a, f => f a
  | .call c next, f => .call c fun r => bind (next r) f

instance : Monad (Prog C R) where
  pure := .done
  bind := bind

/-- A single call. -/
def ask (c : C) : Prog C R (R c) := .call c .done

/-- A program under a handler of its calls. -/
def run (handler : (c : C) → σ → R c × σ) : Prog C R α → σ → α × σ
  | .done a, s => (a, s)
  | .call c next, s => run handler (next (handler c s).1) (handler c s).2

@[simp] theorem run_pure (handler : (c : C) → σ → R c × σ) (a : α) (s : σ) :
    run handler (pure a) s = (a, s) := rfl

theorem run_call (handler : (c : C) → σ → R c × σ) (c : C) (next : R c → Prog C R α) (s : σ) :
    run handler (.call c next) s = run handler (next (handler c s).1) (handler c s).2 := rfl

/-- Programs run one after the other. -/
@[simp] theorem run_bind (handler : (c : C) → σ → R c × σ) (p : Prog C R α) (f : α → Prog C R β)
    (s : σ) : run handler (p >>= f) s = run handler (f (run handler p s).1) (run handler p s).2 := by
  induction p generalizing s with
  | done a => rfl
  | call c next ih => exact ih (handler c s).1 (handler c s).2

/-- What every call keeps, a program keeps. -/
theorem run_invariant {handler : (c : C) → σ → R c × σ} {I : σ → Prop}
    (h : ∀ c s, I s → I (handler c s).2) (p : Prog C R α) {s : σ} (hs : I s) :
    I (p.run handler s).2 := by
  induction p generalizing s with
  | done a => exact hs
  | call c next ih => exact ih _ (h c s hs)

/-- A loop over a list. -/
def each {γ : Type} (f : γ → Prog C R Unit) : List γ → Prog C R Unit
  | [] => .done ()
  | a :: rest => f a >>= fun _ => each f rest

/-- A loop changes the state as its rounds do, one after the other. -/
theorem run_each {γ : Type} (handler : (c : C) → σ → R c × σ) (f : γ → Prog C R Unit) (l : List γ)
    (s : σ) : (each f l).run handler s = ((), l.foldl (fun s a => ((f a).run handler s).2) s) := by
  induction l generalizing s with
  | nil => rfl
  | cons a rest ih => rw [each, run_bind, ih, List.foldl_cons]

/-- A fallible program that succeeds: its first part succeeds, and the rest goes on from there. -/
theorem run_bind_ok {ε : Type} {handler : (c : C) → σ → R c × σ} {x : ExceptT ε (Prog C R) α}
    {f : α → ExceptT ε (Prog C R) β} {b : β} {s t : σ}
    (h : (x >>= f).run.run handler s = (.ok b, t)) :
    ∃ a u, x.run.run handler s = (.ok a, u) ∧ (f a).run.run handler u = (.ok b, t) := by
  rw [ExceptT.run_bind, run_bind] at h
  cases hx : x.run.run handler s with
  | mk result u =>
    rw [hx] at h
    cases result with
    | error err => cases h
    | ok a => exact ⟨a, u, rfl, h⟩

/-- A fallible program whose first part succeeds. -/
theorem run_bind_of_ok {ε : Type} {handler : (c : C) → σ → R c × σ} {x : ExceptT ε (Prog C R) α}
    {f : α → ExceptT ε (Prog C R) β} {a : α} {s t : σ} (h : x.run.run handler s = (.ok a, t)) :
    (x >>= f).run.run handler s = (f a).run.run handler t := by
  rw [ExceptT.run_bind, run_bind, h]

/-- A fallible program whose first part fails. -/
theorem run_bind_of_error {ε : Type} {handler : (c : C) → σ → R c × σ} {x : ExceptT ε (Prog C R) α}
    {f : α → ExceptT ε (Prog C R) β} {err : ε} {s t : σ}
    (h : x.run.run handler s = (.error err, t)) : (x >>= f).run.run handler s = (.error err, t) := by
  rw [ExceptT.run_bind, run_bind, h]
  rfl

/-! ### Failing calls -/

section Failing

variable {ε : Type}

/-- The calls of a program, each with the state that it meets. -/
def calls (handler : (c : C) → σ → R c × σ) : Prog C R α → σ → List (C × σ)
  | .done _, _ => []
  | .call c next, s => (c, s) :: calls handler (next (handler c s).1) (handler c s).2

/-- A program whose call of the given number fails.  The call is not carried out, and ends the
program. -/
def runFailing (handler : (c : C) → σ → R c × σ) (err : ε) :
    Prog C R (Except ε α) → ℕ → σ → Except ε α × σ
  | .done r, _, s => (r, s)
  | .call _ _, 0, s => (.error err, s)
  | .call c next, n + 1, s => runFailing handler err (next (handler c s).1) n (handler c s).2

/-- All calls of a program satisfy a condition. -/
def Only (P : C → Prop) : Prog C R α → Prop
  | .done _ => True
  | .call c next => P c ∧ ∀ r, Only P (next r)

/-- So do all but a last call, with which the program ends. -/
def OnlyBefore (P : C → Prop) : Prog C R α → Prop
  | .done _ => True
  | .call c next => (P c ∨ ∀ r, ∃ a, next r = .done a) ∧ ∀ r, OnlyBefore P (next r)

variable {P : C → Prop} {handler : (c : C) → σ → R c × σ}

theorem Only.bind {p : Prog C R α} {f : α → Prog C R β} (hp : Only P p) (hf : ∀ a, Only P (f a)) :
    Only P (p >>= f) := by
  induction p with
  | done a => exact hf a
  | call c next ih => exact ⟨hp.1, fun r => ih r (hp.2 r)⟩

theorem only_each {γ : Type} {f : γ → Prog C R Unit} (hf : ∀ a, Only P (f a)) (l : List γ) :
    Only P (each f l) := by
  induction l with
  | nil => exact trivial
  | cons a rest ih => exact (hf a).bind fun _ => ih

theorem Only.onlyBefore_bind {p : Prog C R α} {f : α → Prog C R β} (hp : Only P p)
    (hf : ∀ a, OnlyBefore P (f a)) : OnlyBefore P (p >>= f) := by
  induction p with
  | done a => exact hf a
  | call c next ih => exact ⟨.inl hp.1, fun r => ih r (hp.2 r)⟩

/-- The calls before a call satisfy the condition. -/
theorem OnlyBefore.take {p : Prog C R α} (hp : OnlyBefore P p) {s : σ} {n : ℕ}
    (hn : n < (p.calls handler s).length) : ∀ x ∈ (p.calls handler s).take n, P x.1 := by
  induction p generalizing s n with
  | done a => cases hn
  | call c next ih =>
    cases n with
    | zero => simp
    | succ n =>
      rw [calls, List.length_cons] at hn
      rw [calls, List.take_succ_cons, List.forall_mem_cons]
      refine ⟨hp.1.resolve_right fun hdone => ?_, ih _ (hp.2 _) (Nat.lt_of_succ_lt_succ hn)⟩
      obtain ⟨a, ha⟩ := hdone (handler c s).1
      rw [ha] at hn
      exact absurd hn (by simp [calls])

theorem runFailing_of_length_le (err : ε) {p : Prog C R (Except ε α)} {s : σ} {n : ℕ}
    (hn : (p.calls handler s).length ≤ n) : p.runFailing handler err n s = p.run handler s := by
  induction p generalizing s n with
  | done a => rfl
  | call c next ih =>
    cases n with
    | zero => cases hn
    | succ n => exact ih _ (Nat.le_of_succ_le_succ hn)

theorem runFailing_fst (err : ε) {p : Prog C R (Except ε α)} {s : σ} {n : ℕ}
    (hn : n < (p.calls handler s).length) : (p.runFailing handler err n s).1 = .error err := by
  induction p generalizing s n with
  | done a => cases hn
  | call c next ih =>
    cases n with
    | zero => rfl
    | succ n => exact ih _ (Nat.lt_of_succ_lt_succ hn)

/-- The state after a call fails is that before the first call, if the calls in between keep the
state they meet. -/
theorem runFailing_snd_of_idle (err : ε) {p : Prog C R (Except ε α)} {s : σ} {n : ℕ}
    (hn : n < (p.calls handler s).length)
    (h : ∀ x ∈ (p.calls handler s).take n, (handler x.1 x.2).2 = x.2) :
    (p.runFailing handler err n s).2 = s := by
  induction p generalizing s n with
  | done a => rfl
  | call c next ih =>
    cases n with
    | zero => rfl
    | succ n =>
      rw [calls, List.take_succ_cons, List.forall_mem_cons] at h
      exact (ih _ (Nat.lt_of_succ_lt_succ hn) h.2).trans h.1

/-- What no call makes larger is not larger after a call fails, and smaller if one of the calls in
between has made it smaller. -/
theorem measure_runFailing (μ : σ → ℕ) (err : ε) {p : Prog C R (Except ε α)} {s : σ} {n : ℕ}
    (hn : n < (p.calls handler s).length)
    (h : ∀ x ∈ (p.calls handler s).take n, μ (handler x.1 x.2).2 ≤ μ x.2) :
    μ (p.runFailing handler err n s).2 ≤ μ s ∧
      ((∃ x ∈ (p.calls handler s).take n, μ (handler x.1 x.2).2 < μ x.2) →
        μ (p.runFailing handler err n s).2 < μ s) := by
  induction p generalizing s n with
  | done a => cases hn
  | call c next ih =>
    cases n with
    | zero => exact ⟨le_rfl, fun ⟨_, hx, _⟩ => by cases hx⟩
    | succ n =>
      rw [calls, List.take_succ_cons, List.forall_mem_cons] at h
      obtain ⟨hle, hlt⟩ := ih _ (Nat.lt_of_succ_lt_succ hn) h.2
      refine ⟨hle.trans h.1, ?_⟩
      rw [calls, List.take_succ_cons]
      rintro ⟨x, hx, hsmaller⟩
      rcases List.mem_cons.1 hx with rfl | hx
      · exact hle.trans_lt hsmaller
      · exact (hlt ⟨x, hx, hsmaller⟩).trans_le h.1

end Failing

/-! ### Postconditions of fallible programs -/

section Fallible

variable {ε ε' : Type}

/-- A computed result, without a call. -/
def ofExcept (r : Except ε α) : ExceptT ε (Prog C R) α := ExceptT.mk (pure r)

/-- A program whose result may be an error. -/
def attempt (p : Prog C R (Except ε α)) : ExceptT ε (Prog C R) α := ExceptT.mk p

@[simp] theorem run_ofExcept (handler : (c : C) → σ → R c × σ) (r : Except ε α) (s : σ) :
    (ofExcept r : ExceptT ε (Prog C R) α).run.run handler s = (r, s) := rfl

@[simp] theorem run_attempt (handler : (c : C) → σ → R c × σ) (p : Prog C R (Except ε α)) (s : σ) :
    (attempt p).run.run handler s = p.run handler s := rfl

@[simp] theorem run_ask (handler : (c : C) → σ → R c × σ) (c : C) (s : σ) :
    (ask c : Prog C R (R c)).run handler s = handler c s := rfl

theorem run_lift (handler : (c : C) → σ → R c × σ) (p : Prog C R α) (s : σ) :
    (ExceptT.lift p : ExceptT ε (Prog C R) α).run.run handler s =
      (.ok (p.run handler s).1, (p.run handler s).2) :=
  run_bind handler p _ s

theorem run_adapt (handler : (c : C) → σ → R c × σ) (f : ε → ε') (x : ExceptT ε (Prog C R) α)
    (s : σ) : (ExceptT.adapt f x).run.run handler s =
      ((x.run.run handler s).1.mapError f, (x.run.run handler s).2) :=
  run_bind handler x _ s

/-- An answer and a state: `Q` of both when the answer is a result, `E` of the state otherwise. -/
def Outcome (Q : α → σ → Prop) (E : σ → Prop) : Except ε α × σ → Prop
  | (.ok a, t) => Q a t
  | (.error _, t) => E t

/-- The outcome of a fallible program from a state; only the rules below take it apart. -/
@[irreducible] def Post (handler : (c : C) → σ → R c × σ) (x : ExceptT ε (Prog C R) α) (s : σ)
    (Q : α → σ → Prop) (E : σ → Prop) : Prop :=
  Outcome Q E (x.run.run handler s)

variable {handler : (c : C) → σ → R c × σ} {s : σ} {Q : α → σ → Prop} {E : σ → Prop}

theorem Outcome.mono {Q' : α → σ → Prop} {E' : σ → Prop} {r : Except ε α × σ} (h : Outcome Q E r)
    (hQ : ∀ a t, Q a t → Q' a t) (hE : ∀ t, E t → E' t) : Outcome Q' E' r := by
  rcases r with ⟨e | a, t⟩
  · exact hE t h
  · exact hQ a t h

theorem Post.pure {a : α} (h : Q a s) : Post handler (pure a : ExceptT ε (Prog C R) α) s Q E := by
  unfold Post
  exact h

theorem Post.throw {e : ε} (h : E s) : Post handler (throw e : ExceptT ε (Prog C R) α) s Q E := by
  unfold Post
  exact h

theorem Post.ofExcept {r : Except ε α} (hok : ∀ a, r = .ok a → Q a s) (herr : E s) :
    Post handler (ofExcept r) s Q E := by
  unfold Post
  cases r with
  | error e => exact herr
  | ok a => exact hok a rfl

theorem Post.attempt {p : Prog C R (Except ε α)} (h : Outcome Q E (p.run handler s)) :
    Post handler (attempt p) s Q E := by
  unfold Post
  exact h

theorem Post.bind {x : ExceptT ε (Prog C R) α} {f : α → ExceptT ε (Prog C R) β} {s : σ}
    {Q : β → σ → Prop} (h : Post handler x s (fun a t => Post handler (f a) t Q E) E) :
    Post handler (x >>= f) s Q E := by
  unfold Post at h ⊢
  rw [ExceptT.run_bind, run_bind]
  rcases hx : x.run.run handler s with ⟨e | a, t⟩
  · rw [hx] at h
    exact h
  · rw [hx] at h
    exact h

theorem Post.adapt {f : ε → ε'} {x : ExceptT ε (Prog C R) α} (h : Post handler x s Q E) :
    Post handler (ExceptT.adapt f x) s Q E := by
  unfold Post at h ⊢
  rw [run_adapt]
  rcases hx : x.run.run handler s with ⟨e | a, t⟩
  · rw [hx] at h
    exact h
  · rw [hx] at h
    exact h

theorem Post.mono {x : ExceptT ε (Prog C R) α} {Q' : α → σ → Prop} {E' : σ → Prop}
    (h : Post handler x s Q E) (hQ : ∀ a t, Q a t → Q' a t) (hE : ∀ t, E t → E' t) :
    Post handler x s Q' E' := by
  unfold Post at h ⊢
  exact h.mono hQ hE

/-- The state after the run, whatever its result. -/
theorem Post.final {x : ExceptT ε (Prog C R) α} (h : Post handler x s (fun _ t => E t) E) :
    E (x.run.run handler s).2 := by
  unfold Post at h
  rcases hx : x.run.run handler s with ⟨e | a, t⟩
  · rw [hx] at h
    exact h
  · rw [hx] at h
    exact h

/-- The result and state of a run that succeeds. -/
theorem Post.of_ok {x : ExceptT ε (Prog C R) α} {a : α} {t : σ} (h : Post handler x s Q E)
    (hx : x.run.run handler s = (.ok a, t)) : Q a t := by
  unfold Post at h
  rwa [hx] at h

end Fallible

end Prog
end Rust
