import Mathlib.Tactic

/-!
# Runs of guarded transition systems

A system is a partial step function from states and actions to states and outputs.  `Reach ok start`
are the states of the runs from a start state all of whose steps meet the guard `ok`; with the guard
that is always true these are all runs.

* `Reach.invariant`: what holds at the start and is kept by every guarded step holds throughout;
* `Reach.of_exec`: the state that a list of actions leads to is reached, when every state allows
  them;
* `Reach.of_exec_guarded`: the same for a guard that is checked on the way;
* `recorded`: the system that keeps the list of its outputs.
-/

namespace Runs

variable {S A O : Type} (step : S → A → Option (S × O))

/-- The states of runs whose steps meet the guard. -/
inductive Reach (ok : S → A → Prop) (start : S → Prop) : S → Prop
  | start {s : S} (h : start s) : Reach ok start s
  | step {s t : S} {a : A} {o : O} (hs : Reach ok start s) (hok : ok s a)
    (ht : step s a = some (t, o)) : Reach ok start t

variable {step}

/-- The invariant rule. -/
theorem Reach.invariant {ok : S → A → Prop} {start I : S → Prop} (hstart : ∀ s, start s → I s)
    (hstep : ∀ s a t o, I s → ok s a → step s a = some (t, o) → I t) {s : S}
    (h : Reach step ok start s) : I s := by
  induction h with
  | start h => exact hstart _ h
  | step _ hok ht ih => exact hstep _ _ _ _ ih hok ht

/-- A weaker guard allows more runs. -/
theorem Reach.mono {ok ok' : S → A → Prop} {start : S → Prop} (hok : ∀ s a, ok s a → ok' s a)
    {s : S} (h : Reach step ok start s) : Reach step ok' start s := by
  induction h with
  | start h => exact .start h
  | step _ ho ht ih => exact .step ih (hok _ _ ho) ht

/-- The actions of a list in turn, with their outputs. -/
def exec (step : S → A → Option (S × O)) : S → List A → Option (S × List O)
  | s, [] => some (s, [])
  | s, a :: rest =>
    match step s a with
    | none => none
    | some (t, o) => (exec step t rest).map fun r => (r.1, o :: r.2)

theorem Reach.of_exec {ok : S → A → Prop} {start : S → Prop} {s t : S} {actions : List A}
    {outputs : List O} (hs : Reach step ok start s) (hok : ∀ a ∈ actions, ∀ s, ok s a)
    (h : exec step s actions = some (t, outputs)) : Reach step ok start t := by
  induction actions generalizing s outputs with
  | nil =>
    cases h
    exact hs
  | cons a rest ih =>
    rw [exec] at h
    cases hstep : step s a with
    | none =>
      rw [hstep] at h
      cases h
    | some r =>
      rw [hstep] at h
      obtain ⟨r', hr', h'⟩ := Option.map_eq_some_iff.1 h
      cases h'
      exact ih (.step hs (hok a List.mem_cons_self s) hstep)
        (fun b hb => hok b (List.mem_cons_of_mem _ hb)) hr'

/-- The steps that meet a decidable guard. -/
def guarded (step : S → A → Option (S × O)) (ok : S → A → Prop) [∀ s a, Decidable (ok s a)] (s : S)
    (a : A) : Option (S × O) :=
  if ok s a then step s a else none

theorem Reach.of_exec_guarded {ok : S → A → Prop} [∀ s a, Decidable (ok s a)] {start : S → Prop}
    {s t : S} {actions : List A} {outputs : List O} (hs : start s)
    (h : exec (guarded step ok) s actions = some (t, outputs)) : Reach step ok start t := by
  have hreach : Reach (guarded step ok) (fun _ _ => True) start t :=
    .of_exec (.start hs) (fun _ _ _ => trivial) h
  refine hreach.invariant (fun _ => .start) ?_
  intro u a v o hu _ hv
  unfold guarded at hv
  split_ifs at hv with hok
  exact .step hu hok hv

/-! ### Outputs so far -/

/-- The system whose states hold the outputs so far. -/
def recorded (step : S → A → Option (S × O)) (s : S × List O) (a : A) : Option ((S × List O) × O) :=
  (step s.1 a).map fun r => ((r.1, s.2 ++ [r.2]), r.2)

theorem recorded_eq_some {s t : S × List O} {a : A} {o : O} :
    recorded step s a = some (t, o) ↔ step s.1 a = some (t.1, o) ∧ t.2 = s.2 ++ [o] := by
  obtain ⟨t, outputs⟩ := t
  unfold recorded
  rw [Option.map_eq_some_iff]
  constructor
  · rintro ⟨r, hr, heq⟩
    cases heq
    exact ⟨hr, rfl⟩
  · rintro ⟨hr, rfl⟩
    exact ⟨(t, o), hr, rfl⟩

end Runs
