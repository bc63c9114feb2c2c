import Gittree.Lib.Prog
import Gittree.Lib.Runs

/-!
# Programs that share a state

Tasks are programs over one interface of calls.  They share a state, and each step lets one of them
make its next call: the schedules are the interleavings of the tasks at the granularity of calls.  A
label says how the call is answered.  A task keeps what its calls were answered.

* `Calls`, `Ends`, `EndsAfter`: what a program calls, with what it ends, and with what it ends once
  it has made a call of some kind;
* `Parts`: a state of parts, each call of which concerns at most one;
* `run_part`: a program on a part is run on that part alone;
* `exists_order`: an order that is given for each class.
-/

namespace Rust

namespace Prog

variable {C : Type} {R : C → Type} {α β σ : Type}

/-! ### What a program can do -/

/-- All calls that a program can make when it is answered as `Q` says. -/
def Calls (Q : (c : C) → R c → Prop) (P : C → Prop) : Prog C R α → Prop
  | .done _ => True
  | .call c next => P c ∧ ∀ r, Q c r → Calls Q P (next r)

/-- All results that a program can have. -/
def Ends (G : α → Prop) : Prog C R α → Prop
  | .done a => G a
  | .call _ next => ∀ r, Ends G (next r)

/-- All results that a program can have after a call of some kind. -/
def EndsAfter (W : C → Prop) (G : α → Prop) : Prog C R α → Prop
  | .done _ => True
  | .call c next => ∀ r, (W c → Ends G (next r)) ∧ EndsAfter W G (next r)

section

variable {Q : (c : C) → R c → Prop} {P W : C → Prop} {G : α → Prop} {H : β → Prop} {p : Prog C R α}
  {f : α → Prog C R β}

theorem Calls.mono {P' : C → Prop} (h : Calls Q P p) (hP : ∀ c, P c → P' c) : Calls Q P' p := by
  induction p with
  | done a => trivial
  | call c next ih => exact ⟨hP c h.1, fun r hr => ih r (h.2 r hr)⟩

theorem Calls.bind (h : Calls Q P p) (hf : ∀ a, Calls Q P (f a)) : Calls Q P (p >>= f) := by
  induction p with
  | done a => exact hf a
  | call c next ih => exact ⟨h.1, fun r hr => ih r (h.2 r hr)⟩

theorem calls_of_forall (h : ∀ c, P c) : Calls Q P p := by
  induction p with
  | done a => trivial
  | call c next ih => exact ⟨h c, fun r _ => ih r⟩

theorem bind_done (p : Prog C R α) : (p >>= fun a => .done a) = p := by
  induction p with
  | done a => rfl
  | call c next ih => exact congrArg (Prog.call c) (funext ih)

theorem bind_assoc {γ : Type} (p : Prog C R α) (f : α → Prog C R β) (g : β → Prog C R γ) :
    ((p >>= f) >>= g) = p >>= fun a => f a >>= g := by
  induction p with
  | done a => rfl
  | call c next ih => exact congrArg (Prog.call c) (funext ih)

theorem ends_of_forall (h : ∀ a, G a) : Ends G p := by
  induction p with
  | done a => exact h a
  | call c next ih => exact fun r => ih r

theorem Ends.bind (h : Ends G p) (hf : ∀ a, G a → Ends H (f a)) : Ends H (p >>= f) := by
  induction p with
  | done a => exact hf a h
  | call c next ih => exact fun r => ih r (h r)

theorem EndsAfter.bind (h : EndsAfter W G p) (hG : ∀ a, G a → Ends H (f a))
    (hf : ∀ a, EndsAfter W H (f a)) : EndsAfter W H (p >>= f) := by
  induction p with
  | done a => exact hf a
  | call c next ih => exact fun r => ⟨fun hc => ((h r).1 hc).bind hG, ih r (h r).2⟩

theorem endsAfter_of_calls (h : Calls (fun _ _ => True) (fun c => ¬ W c) p) : EndsAfter W G p := by
  induction p with
  | done a => trivial
  | call c next ih => exact fun r => ⟨fun hc => absurd hc h.1, ih r (h.2 r trivial)⟩

theorem endsAfter_of_ends (h : Ends G p) : EndsAfter W G p := by
  induction p with
  | done a => trivial
  | call c next ih => exact fun r => ⟨fun _ => h r, ih r (h r)⟩

end

section Fallible

variable {ε : Type} {Q : (c : C) → R c → Prop} {P W : C → Prop} {G : Except ε β → Prop}
  {x : ExceptT ε (Prog C R) α} {f : α → ExceptT ε (Prog C R) β}

theorem calls_bind (hx : Calls Q P x.run) (hf : ∀ a, Calls Q P (f a).run) :
    Calls Q P (x >>= f).run := by
  rw [ExceptT.run_bind]
  refine hx.bind fun r => ?_
  cases r with
  | error e => trivial
  | ok a => exact hf a

/-- A call, and what follows when it is answered as `Q` says. -/
theorem calls_ask_bind {c : C} {r : R c → Except ε α} (hc : P c)
    (hf : ∀ answer a, Q c answer → r answer = .ok a → Calls Q P (f a).run) :
    Calls Q P (ExceptT.mk (.call c fun answer => .done (r answer)) >>= f).run := by
  refine ⟨hc, fun answer hanswer => ?_⟩
  show Calls Q P (ExceptT.bindCont f (r answer))
  cases hr : r answer with
  | error e => trivial
  | ok a => exact hf answer a hanswer hr

/-- The first part makes no call of the kind. -/
theorem endsAfter_bind (hx : Calls (fun _ _ => True) (fun c => ¬ W c) x.run)
    (hf : ∀ a, EndsAfter W G (f a).run) :
    EndsAfter W G (x >>= f).run := by
  rw [ExceptT.run_bind]
  refine (endsAfter_of_calls hx).bind (G := fun _ => False) (fun _ h => h.elim) fun r => ?_
  cases r with
  | error e => trivial
  | ok a => exact hf a

/-- The program can only end well from its first part on. -/
theorem ends_bind (herr : ∀ e, G (.error e)) (hf : ∀ a, Ends G (f a).run) :
    Ends G (x >>= f).run := by
  rw [ExceptT.run_bind]
  refine (ends_of_forall (G := fun _ => True) fun _ => trivial).bind fun r _ => ?_
  cases r with
  | error e => exact herr e
  | ok a => exact hf a

end Fallible

/-- A state is seen through a function that the calls respect. -/
theorem run_map {τ : Type} (handler : (c : C) → σ → R c × σ) (handler' : (c : C) → τ → R c × τ)
    (view : σ → τ) {Q : (c : C) → R c → Prop} {P : C → Prop} {p : Prog C R α} (hp : Calls Q P p)
    (hQ : ∀ c s, Q c (handler c s).1)
    (h : ∀ c, P c → ∀ s, handler' c (view s) = ((handler c s).1, view (handler c s).2)) (s : σ) :
    p.run handler' (view s) = ((p.run handler s).1, view (p.run handler s).2) := by
  induction p generalizing s with
  | done a => rfl
  | call c next ih =>
    rw [run_call, run_call, h c hp.1]
    exact ih _ (hp.2 _ (hQ c s)) _

/-- Calls that leave a view of the state as it is. -/
theorem run_view {V : Type} (handler : (c : C) → σ → R c × σ) (view : σ → V)
    {Q : (c : C) → R c → Prop} {P : C → Prop} {p : Prog C R α} (hp : Calls Q P p)
    (hQ : ∀ c s, Q c (handler c s).1) (h : ∀ c, P c → ∀ s, view (handler c s).2 = view s) (s : σ) :
    view (p.run handler s).2 = view s := by
  induction p generalizing s with
  | done a => rfl
  | call c next ih =>
    rw [run_call, ih _ (hp.2 _ (hQ c s))]
    exact h c hp.1 s

end Prog

/-! ### Tasks -/

/-- A task: its calls with their answers, and what is left of its program. -/
structure Task (C : Type) (R : C → Type) (α : Type) where
  past : List (Σ c, R c)
  rest : Prog C R α

/-- Tasks over a shared state. -/
structure Pool (σ : Type) (C : Type) (R : C → Type) (α : Type) where
  shared : σ
  tasks : List (Task C R α)

namespace Pool

variable {σ C α A : Type} {R : C → Type}

/-- Programs that have made no call yet. -/
def ofPrograms (s : σ) (programs : List (Prog C R α)) : Pool σ C R α :=
  ⟨s, programs.map fun p => ⟨[], p⟩⟩

/-- One task makes its next call. -/
def step (respond : A → (c : C) → σ → R c × σ) (pool : Pool σ C R α) (a : ℕ × A) :
    Option (Pool σ C R α × C) :=
  match pool.tasks[a.1]? with
  | some ⟨past, .call c next⟩ =>
    let r := respond a.2 c pool.shared
    some (⟨r.2, pool.tasks.set a.1 ⟨past ++ [⟨c, r.1⟩], next r.1⟩⟩, c)
  | _ => none

variable {respond : A → (c : C) → σ → R c × σ} {pool pool' : Pool σ C R α} {a : ℕ × A} {c : C}

/-- What a step does. -/
theorem step_eq_some (h : step respond pool a = some (pool', c)) : ∃ past next,
    pool.tasks[a.1]? = some ⟨past, .call c next⟩ ∧
      pool'.shared = (respond a.2 c pool.shared).2 ∧
      pool'.tasks = pool.tasks.set a.1 ⟨past ++ [⟨c, (respond a.2 c pool.shared).1⟩],
        next (respond a.2 c pool.shared).1⟩ := by
  unfold step at h
  split at h
  · rename_i past c' next htask
    cases h
    exact ⟨past, next, htask, rfl, rfl⟩
  · cases h

/-- A task after a step: the one that made the call, or another one as before. -/
theorem getElem?_step {past : List (Σ c, R c)} {next : R c → Prog C R α} {r : R c}
    (htask : pool.tasks[a.1]? = some ⟨past, .call c next⟩)
    (h : pool'.tasks = pool.tasks.set a.1 ⟨past ++ [⟨c, r⟩], next r⟩) (i : ℕ) :
    pool'.tasks[i]? = if a.1 = i then some ⟨past ++ [⟨c, r⟩], next r⟩ else pool.tasks[i]? := by
  have hlt : a.1 < pool.tasks.length := (List.getElem?_eq_some_iff.1 htask).1
  rw [h, List.getElem?_set]
  by_cases hi : a.1 = i
  · rw [if_pos hi, if_pos hi, if_pos hlt]
  · rw [if_neg hi, if_neg hi]

/-- What holds of each task at the start and is kept by its own calls holds of it throughout. -/
theorem tasks_invariant {ok : Pool σ C R α → ℕ × A → Prop} {start : Pool σ C R α → Prop}
    {Q : (c : C) → R c → Prop} {J : ℕ → Task C R α → Prop}
    (hQ : ∀ a c s, Q c (respond a c s).1)
    (hstart : ∀ pool, start pool → ∀ i task, pool.tasks[i]? = some task → J i task)
    (hstep : ∀ i past c next r, J i ⟨past, .call c next⟩ → Q c r →
      J i ⟨past ++ [⟨c, r⟩], next r⟩)
    (h : Runs.Reach (step respond) ok start pool) (i : ℕ) (task : Task C R α)
    (htask : pool.tasks[i]? = some task) : J i task := by
  refine Runs.Reach.invariant (I := fun pool => ∀ i task, pool.tasks[i]? = some task → J i task)
    hstart ?_ h i task htask
  intro pool a pool' c ih _ hpool i task htask
  obtain ⟨past, next, hmoved, -, htasks⟩ := step_eq_some hpool
  rw [getElem?_step hmoved htasks] at htask
  split_ifs at htask with hi
  · obtain rfl := Option.some.inj htask
    exact hstep i past c next _ (hi ▸ ih _ _ hmoved) (hQ _ _ _)
  · exact ih i task htask

theorem getElem?_ofPrograms {s : σ} {programs : List (Prog C R α)} {i : ℕ} {task : Task C R α}
    (h : (ofPrograms s programs).tasks[i]? = some task) :
    ∃ p, programs[i]? = some p ∧ task = ⟨[], p⟩ := by
  unfold ofPrograms at h
  rw [List.getElem?_map] at h
  obtain ⟨p, hp, rfl⟩ := Option.map_eq_some_iff.1 h
  exact ⟨p, hp, rfl⟩

end Pool

/-! ### Parts of a state -/

/-- A state with a part for each key.  A call concerns the part of its key, if it has one: the part
decides its answer, and only the part changes.  All answers are honest. -/
structure Parts {σ C : Type} {R : C → Type} (handler : (c : C) → σ → R c × σ) (K : Type) where
  part : K → σ → σ
  key : C → Option K
  Honest : (c : C) → R c → Prop
  honest : ∀ c s, Honest c (handler c s).1
  same : ∀ c k s, key c = some k →
    handler c (part k s) = ((handler c s).1, part k (handler c s).2)
  other : ∀ c k s, key c ≠ some k → part k (handler c s).2 = part k s

namespace Parts

variable {σ C K α : Type} {R : C → Type} {handler : (c : C) → σ → R c × σ}
  (parts : Parts handler K) {p : Prog C R α} {k : K}

/-- A program on a part is run on that part alone. -/
theorem run_part (hp : p.Calls parts.Honest fun c => parts.key c = some k) (s : σ) :
    p.run handler (parts.part k s) =
      ((p.run handler s).1, parts.part k (p.run handler s).2) :=
  Prog.run_map _ _ (parts.part k) hp parts.honest (fun c hc s => parts.same c k s hc) s

end Parts

/-! ### Orders -/

/-- The elements of each class can be put in an order of their own. -/
theorem exists_order {ι K : Type} [DecidableEq K] (key : ι → Option K) (l : List ι) (L : K → List ι)
    (hL : ∀ k, (L k).Perm (l.filter fun i => key i == some k)) :
    ∃ order : List ι, order.Perm l ∧ ∀ k, order.filter (fun i => key i == some k) = L k := by
  have hkeys : ∀ ks : List K, ∃ order : List ι, order.Perm l ∧
      ∀ k ∈ ks, order.filter (fun i => key i == some k) = L k := by
    intro ks
    induction ks with
    | nil => exact ⟨l, .refl l, nofun⟩
    | cons k ks ih =>
      obtain ⟨order, hperm, horder⟩ := ih
      have hclass : ∀ i ∈ L k, key i = some k := by
        intro i hi
        exact eq_of_beq (List.mem_filter.1 ((hL k).mem_iff.1 hi)).2
      refine ⟨L k ++ order.filter fun i => key i != some k, ?_, ?_⟩
      · refine (((hL k).trans (hperm.filter _).symm).append_right _).trans ?_
        exact (List.filter_append_perm (fun i => key i == some k) order).trans hperm
      · intro k' hk'
        rw [List.filter_append, List.filter_filter]
        by_cases hk : k' = k
        · subst hk
          have hall : (L k').filter (fun i => key i == some k') = L k' :=
            List.filter_eq_self.2 fun i hi => beq_iff_eq.2 (hclass i hi)
          have hnone : order.filter (fun i => key i == some k' && key i != some k') = [] :=
            List.filter_eq_nil_iff.2 fun i _ => by simp
          rw [hall, hnone, List.append_nil]
        · have hnone : (L k).filter (fun i => key i == some k') = [] := by
            refine List.filter_eq_nil_iff.2 fun i hi => ?_
            rw [hclass i hi, beq_iff_eq, Option.some.injEq]
            exact Ne.symm hk
          have hsame : (fun i => key i == some k' && key i != some k) = fun i => key i == some k' := by
            funext i
            by_cases hi : key i = some k'
            · simp [hi, hk]
            · simp [hi]
          rw [hnone, List.nil_append, hsame]
          exact horder k' ((List.mem_cons.1 hk').resolve_left hk)
  obtain ⟨order, hperm, horder⟩ := hkeys (l.filterMap key)
  refine ⟨order, hperm, fun k => ?_⟩
  by_cases hk : k ∈ l.filterMap key
  · exact horder k hk
  · have hnone : l.filter (fun i => key i == some k) = [] := by
      refine List.filter_eq_nil_iff.2 fun i hi hkey => hk ?_
      exact List.mem_filterMap.2 ⟨i, hi, eq_of_beq hkey⟩
    have hempty := hL k
    rw [hnone] at hempty
    have horder' := hperm.filter fun i => key i == some k
    rw [hnone] at horder'
    rw [hempty.eq_nil, horder'.eq_nil]

end Rust
