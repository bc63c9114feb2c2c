import Gittree.Lib.Tasks

/-!
# Programs and the answers to their calls

A program that has made some calls, and was answered in any way, is about to make another or is done.

* `resumes_bind`: what is left of two programs, one after the other;
* `resumes_bind_of_call`: before a call that the first part does not make, the first part succeeded.
-/

namespace Rust
namespace Prog

variable {C : Type} {R : C → Type} {α β : Type}

/-- What is left of a program after some calls and their answers. -/
inductive Resumes (p : Prog C R α) : List (Σ c, R c) → Prog C R α → Prop
  | start : Resumes p [] p
  | answer {past : List (Σ c, R c)} {c : C} {next : R c → Prog C R α}
      (h : Resumes p past (.call c next)) (r : R c) : Resumes p (past ++ [⟨c, r⟩]) (next r)

variable {p rest : Prog C R α} {past : List (Σ c, R c)}

theorem Resumes.calls {P : C → Prop} (h : Resumes p past rest)
    (hp : Calls (fun _ _ => True) P p) : Calls (fun _ _ => True) P rest := by
  induction h with
  | start => exact hp
  | answer _ r ih => exact ih.2 r trivial

/-- A program that is done makes no call. -/
theorem resumes_done {a : α} (h : Resumes (.done a) past rest) : past = [] ∧ rest = .done a := by
  induction h with
  | start => exact ⟨rfl, rfl⟩
  | answer _ r ih => cases ih.2

/-- A program that begins with a call has not begun, or goes on with the answer. -/
theorem resumes_call {c : C} {next : R c → Prog C R α} (h : Resumes (.call c next) past rest) :
    past = [] ∧ rest = .call c next ∨
      ∃ r after, past = ⟨c, r⟩ :: after ∧ Resumes (next r) after rest := by
  induction h with
  | start => exact .inl ⟨rfl, rfl⟩
  | @answer past c' next' _ r ih =>
    rcases ih with ⟨rfl, heq⟩ | ⟨r', after, rfl, hafter⟩
    · cases heq
      exact .inr ⟨r, [], rfl, .start⟩
    · exact .inr ⟨r', after ++ [⟨c', r⟩], rfl, hafter.answer r⟩

/-- The first program is not done yet, or the second one has begun with its result. -/
theorem resumes_bind {f : α → Prog C R β} {left : Prog C R β} (h : Resumes (p >>= f) past left) :
    (∃ rest, Resumes p past rest ∧ left = rest >>= f) ∨
      ∃ before after a, past = before ++ after ∧ Resumes p before (.done a) ∧
        Resumes (f a) after left := by
  induction h with
  | start => exact .inl ⟨p, .start, rfl⟩
  | @answer past c next _ r ih =>
    rcases ih with ⟨rest, hrest, heq⟩ | ⟨before, after, a, rfl, hp, hf⟩
    · cases rest with
      | done a =>
        have hstart : Resumes (f a) [] (.call c next) := heq ▸ .start
        exact .inr ⟨past, [⟨c, r⟩], a, rfl, hrest, hstart.answer r⟩
      | call c' next' =>
        cases heq
        exact .inl ⟨next' r, hrest.answer r, rfl⟩
    · exact .inr ⟨before, after ++ [⟨c, r⟩], a, List.append_assoc .., hp, hf.answer r⟩

/-- Before a call that the first part of a fallible program never makes, the first part succeeded. -/
theorem resumes_bind_of_call {ε : Type} {x : ExceptT ε (Prog C R) α}
    {f : α → ExceptT ε (Prog C R) β} {P : C → Prop} {c : C} {next : R c → Prog C R (Except ε β)}
    (hx : Calls (fun _ _ => True) P x.run) (hc : ¬ P c)
    (h : Resumes (x >>= f).run past (.call c next)) :
    ∃ before after a, past = before ++ after ∧ Resumes x.run before (.done (.ok a)) ∧
      Resumes (f a).run after (.call c next) := by
  rw [ExceptT.run_bind] at h
  rcases resumes_bind h with ⟨rest, hrest, heq⟩ | ⟨before, after, result, hpast, hfirst, hsecond⟩
  · have hcalls := hrest.calls hx
    cases rest with
    | done result =>
      cases result with
      | error err => cases heq
      | ok a => exact ⟨past, [], a, (List.append_nil past).symm, hrest, heq ▸ .start⟩
    | call c' next' =>
      cases heq
      exact absurd hcalls.1 hc
  · cases result with
    | error err => cases (resumes_done hsecond).2
    | ok a => exact ⟨before, after, a, hpast, hfirst, hsecond⟩

end Prog
end Rust
