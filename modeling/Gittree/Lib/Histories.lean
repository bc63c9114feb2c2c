import Gittree.Lib.Tasks

/-!
# What programs do after what they have seen

A rule for a program says which calls it may make, and with what it may end, after the calls that it
has made and their answers.

* `Obeys.bind`, `Keeps.bind`: two programs, one after the other, keep to a rule;
* `Keeps.embed`: a program keeps to a rule of a larger interface;
* `Pool.lawful_step`: programs that keep to a rule alone keep to it in any interleaving;
* `Pool.called_step`: after a step the calls are those before it and the one that was made.
-/

namespace Rust

namespace Prog

variable {C : Type} {R : C → Type} {α β σ : Type}

/-- Calls with their answers, the first one first. -/
abbrev History (C : Type) (R : C → Type) : Type := List (Σ c, R c)

/-- All calls that a program can make after a history are as `P` says, and all results as `G`
says. -/
def Obeys (P : History C R → C → Prop) (G : History C R → α → Prop) :
    History C R → Prog C R α → Prop
  | past, .done a => G past a
  | past, .call c next => P past c ∧ ∀ r, Obeys P G (past ++ [⟨c, r⟩]) (next r)

section

variable {P P' : History C R → C → Prop} {G G' : History C R → α → Prop}
  {H : History C R → β → Prop} {past : History C R} {p : Prog C R α} {f : α → Prog C R β}

theorem Obeys.mono (h : Obeys P G past p) (hP : ∀ later c, P later c → P' later c)
    (hG : ∀ later a, past <+: later → G later a → G' later a) : Obeys P' G' past p := by
  induction p generalizing past with
  | done a => exact hG past a (List.prefix_refl past) h
  | call c next ih =>
    refine ⟨hP past c h.1, fun r => ih r (h.2 r) fun later a hlater => hG later a ?_⟩
    exact (List.prefix_append past _).trans hlater

/-- Two programs, one after the other. -/
theorem Obeys.bind (h : Obeys P G past p)
    (hf : ∀ later a, past <+: later → G later a → Obeys P H later (f a)) :
    Obeys P H past (p >>= f) := by
  induction p generalizing past with
  | done a => exact hf past a (List.prefix_refl past) h
  | call c next ih =>
    refine ⟨h.1, fun r => ih r (h.2 r) fun later a hlater => hf later a ?_⟩
    exact (List.prefix_append past _).trans hlater

end

/-! ### Larger interfaces -/

section

variable {D : Type} {S : D → Type}

/-- A program with the calls of a larger interface. -/
def embed (f : C → D) : Prog C (fun c => S (f c)) α → Prog D S α
  | .done a => .done a
  | .call c next => .call (f c) fun r => embed f (next r)

/-- Calls and their answers, in a larger interface. -/
def embedded (f : C → D) (past : History C fun c => S (f c)) : History D S :=
  past.map fun entry => ⟨f entry.1, entry.2⟩

theorem mem_embedded {f : C → D} {past : History C fun c => S (f c)} {c : C} {r : S (f c)}
    (h : ⟨c, r⟩ ∈ past) : (⟨f c, r⟩ : Σ d, S d) ∈ embedded f past :=
  List.mem_map.2 ⟨_, h, rfl⟩

theorem embedded_prefix {f : C → D} {past later : History C fun c => S (f c)}
    (before : History D S) (h : past <+: later) :
    before ++ embedded f past <+: before ++ embedded f later :=
  (List.prefix_append_right_inj before).2 (h.map _)

theorem Obeys.embed {f : C → D} {P : History D S → D → Prop} {G : History D S → α → Prop}
    {before : History D S} {past : History C fun c => S (f c)} {p : Prog C (fun c => S (f c)) α}
    (h : Obeys (fun later c => P (before ++ embedded f later) (f c))
      (fun later a => G (before ++ embedded f later) a) past p) :
    Obeys P G (before ++ embedded f past) (p.embed f) := by
  induction p generalizing past with
  | done a => exact h
  | call c next ih =>
    refine ⟨h.1, fun r => ?_⟩
    have hnext := ih r (h.2 r)
    rw [embedded, List.map_append, ← List.append_assoc] at hnext
    exact hnext

end

/-! ### Fallible programs -/

section

variable {ε ε' : Type} {P : History C R → C → Prop} {G G' : History C R → α → Prop}
  {H : History C R → β → Prop} {past : History C R} {x : ExceptT ε (Prog C R) α}
  {f : α → ExceptT ε (Prog C R) β}

/-- The calls of a fallible program are as `P` says, and so are the results of its success as `G`
says; only the rules below take it apart. -/
@[irreducible] def Keeps (P : History C R → C → Prop) (G : History C R → α → Prop)
    (past : History C R) (x : ExceptT ε (Prog C R) α) : Prop :=
  Obeys P (fun later result => ∀ a, result = .ok a → G later a) past x.run

theorem Keeps.obeys (h : Keeps P G past x) :
    Obeys P (fun later result => ∀ a, result = .ok a → G later a) past x.run := by
  unfold Keeps at h
  exact h

/-- A program whose result may be an error. -/
theorem keeps_attempt {p : Prog C R (Except ε α)}
    (h : Obeys P (fun later result => ∀ a, result = .ok a → G later a) past p) :
    Keeps P G past (attempt p) := by
  unfold Keeps
  exact h

theorem Keeps.mono (h : Keeps P G past x)
    (hG : ∀ later a, past <+: later → G later a → G' later a) : Keeps P G' past x :=
  keeps_attempt <| h.obeys.mono (fun _ _ hc => hc) fun later _ hlater hresult a ha =>
    hG later a hlater (hresult a ha)

theorem keeps_pure {a : α} (h : G past a) : Keeps P G past (pure a : ExceptT ε (Prog C R) α) := by
  refine keeps_attempt ?_
  rintro b heq
  cases heq
  exact h

theorem keeps_throw {e : ε} : Keeps P G past (throw e : ExceptT ε (Prog C R) α) := by
  refine keeps_attempt ?_
  rintro b heq
  cases heq

/-- A result without a call. -/
theorem keeps_ofExcept {result : Except ε α} (h : ∀ a, result = .ok a → G past a) :
    Keeps P G past (ofExcept result : ExceptT ε (Prog C R) α) :=
  keeps_attempt h

/-- A call, and what is made of its answer. -/
def asking (c : C) (read : R c → Except ε α) : ExceptT ε (Prog C R) α :=
  ExceptT.mk (.call c fun r => .done (read r))

theorem keeps_asking {c : C} {read : R c → Except ε α} (hc : P past c)
    (h : ∀ r a, read r = .ok a → G (past ++ [⟨c, r⟩]) a) : Keeps P G past (asking c read) :=
  keeps_attempt ⟨hc, fun r a ha => h r a ha⟩

theorem Keeps.bind (h : Keeps P G past x)
    (hf : ∀ later a, past <+: later → G later a → Keeps P H later (f a)) :
    Keeps P H past (x >>= f) := by
  refine keeps_attempt (h.obeys.bind fun later result hlater hresult => ?_)
  cases result with
  | error e =>
    rintro b heq
    cases heq
  | ok a => exact (hf later a hlater (hresult a rfl)).obeys

/-- A program that keeps to a rule of a larger interface, after what was called before it. -/
theorem Keeps.embed {D : Type} {S : D → Type} {f : C → D} {P : History D S → D → Prop}
    {G : History D S → α → Prop} {before : History D S} {x : ExceptT ε (Prog C fun c => S (f c)) α}
    (h : Keeps (fun later c => P (before ++ embedded f later) (f c))
      (fun later a => G (before ++ embedded f later) a) [] x) :
    Keeps P G before (ExceptT.mk (x.run.embed f) : ExceptT ε (Prog D S) α) := by
  have hembed : Obeys P (fun later result => ∀ a, result = .ok a → G later a)
      (before ++ embedded f []) (x.run.embed f) := Obeys.embed h.obeys
  rw [embedded, List.map_nil, List.append_nil] at hembed
  exact keeps_attempt hembed

theorem Keeps.adapt (h : Keeps P G past x) (f : ε → ε') : Keeps P G past (ExceptT.adapt f x) := by
  refine keeps_attempt (h.obeys.bind fun later result _ hresult => ?_)
  cases result with
  | error e =>
    rintro b heq
    cases heq
  | ok a =>
    rintro b heq
    cases heq
    exact hresult a rfl

/-- What is made of the result of a fallible program. -/
theorem Keeps.reply {F : History C R → β → Prop} {reply : Except ε α → β} (h : Keeps P G past x)
    (hok : ∀ later a, G later a → F later (reply (.ok a)))
    (herr : ∀ later e, F later (reply (.error e))) :
    Obeys P F past (do return reply (← x.run)) := by
  refine h.obeys.bind fun later result _ hresult => ?_
  cases result with
  | error e => exact herr later e
  | ok a => exact hok later a (hresult a rfl)

end

end Prog

/-! ### Tasks -/

open Prog

variable {σ C α A : Type} {R : C → Type}

/-- A task that has kept to a rule, and will. -/
structure Task.Lawful (P : History C R → C → Prop) (G : History C R → α → Prop)
    (task : Task C R α) : Prop where
  past : ∀ before c r, before ++ [⟨c, r⟩] <+: task.past → P before c
  rest : Obeys P G task.past task.rest

/-- The result of a task that is done. -/
def Task.result (task : Task C R α) : Option α :=
  match task.rest with
  | .done a => some a
  | .call _ _ => none

theorem Task.Lawful.result {P : History C R → C → Prop} {G : History C R → α → Prop}
    {task : Task C R α} (h : task.Lawful P G) {a : α} (ha : task.result = some a) :
    G task.past a := by
  obtain ⟨past, rest⟩ := task
  cases rest with
  | done b =>
    cases ha
    exact h.rest
  | call c next => cases ha

namespace Pool

/-- The task of a number has made a call and was answered. -/
def Called (pool : Pool σ C R α) (i : ℕ) (c : C) (r : R c) : Prop :=
  ∃ task, pool.tasks[i]? = some task ∧ ⟨c, r⟩ ∈ task.past

variable {respond : A → (c : C) → σ → R c × σ} {pool pool' : Pool σ C R α} {a : ℕ × A} {c : C}

/-- After a step the calls are those before it and the one that was made. -/
theorem called_step (h : step respond pool a = some (pool', c)) {i : ℕ} {c' : C} {r : R c'} :
    pool'.Called i c' r ↔ pool.Called i c' r ∨
      a.1 = i ∧ (⟨c', r⟩ : Σ c, R c) = ⟨c, (respond a.2 c pool.shared).1⟩ := by
  obtain ⟨past, next, htask, -, htasks⟩ := step_eq_some h
  unfold Called
  rw [getElem?_step htask htasks]
  by_cases hi : a.1 = i
  · subst hi
    rw [if_pos rfl, htask]
    constructor
    · rintro ⟨task, heq, hmem⟩
      cases heq
      rcases List.mem_append.1 hmem with hmem | hmem
      · exact .inl ⟨_, rfl, hmem⟩
      · exact .inr ⟨rfl, List.mem_singleton.1 hmem⟩
    · rintro (⟨task, heq, hmem⟩ | ⟨-, heq⟩)
      · cases heq
        exact ⟨_, rfl, List.mem_append_left _ hmem⟩
      · exact ⟨_, rfl, List.mem_append_right _ (List.mem_singleton.2 heq)⟩
  · rw [if_neg hi]
    exact ⟨.inl, fun hcalled => hcalled.resolve_right fun hnew => hi hnew.1⟩

/-- The tasks have kept to the rules of their numbers, and will. -/
def Lawful (P : ℕ → History C R → C → Prop) (G : ℕ → History C R → α → Prop)
    (pool : Pool σ C R α) : Prop :=
  ∀ (i : ℕ) (task : Task C R α), pool.tasks[i]? = some task → task.Lawful (P i) (G i)

variable {P : ℕ → History C R → C → Prop} {G : ℕ → History C R → α → Prop}

theorem lawful_ofPrograms {s : σ} {programs : List (Prog C R α)}
    (h : ∀ i p, programs[i]? = some p → Obeys (P i) (G i) [] p) :
    Lawful P G (ofPrograms s programs) := by
  intro i task htask
  obtain ⟨p, hp, rfl⟩ := getElem?_ofPrograms htask
  refine ⟨fun before c r hprefix => ?_, h i p hp⟩
  cases (List.append_eq_nil_iff.1 (List.prefix_nil.1 hprefix)).2

/-- Programs that keep to a rule alone keep to it in any interleaving. -/
theorem lawful_step (hpool : Lawful P G pool) (h : step respond pool a = some (pool', c)) :
    Lawful P G pool' := by
  obtain ⟨past, next, hmoved, -, htasks⟩ := step_eq_some h
  intro i task htask
  rw [getElem?_step hmoved htasks] at htask
  split_ifs at htask with hi
  · obtain rfl := Option.some.inj htask
    have hlawful := hpool i _ (hi ▸ hmoved)
    refine ⟨fun before c' r' hprefix => ?_, hlawful.rest.2 _⟩
    rcases List.prefix_concat_iff.1 hprefix with happend | hprefix
    · obtain ⟨hbefore, hlast⟩ := List.append_inj' happend rfl
      obtain ⟨rfl, -⟩ := Sigma.mk.inj (List.singleton_inj.1 hlast)
      rw [hbefore]
      exact hlawful.rest.1
    · exact hlawful.past before c' r' hprefix
  · exact hpool i task htask

theorem not_called_ofPrograms {s : σ} {programs : List (Prog C R α)} {i : ℕ} {c : C} {r : R c} :
    ¬ (ofPrograms s programs).Called i c r := by
  rintro ⟨task, htask, hmem⟩
  obtain ⟨p, -, rfl⟩ := getElem?_ofPrograms htask
  cases hmem

/-- A call that was made is one that the rule allowed. -/
theorem allowed_of_called (hpool : Lawful P G pool) {i : ℕ} {c : C} {r : R c}
    (h : pool.Called i c r) :
    ∃ task before, pool.tasks[i]? = some task ∧ before <+: task.past ∧ P i before c := by
  obtain ⟨task, htask, hmem⟩ := h
  obtain ⟨before, after, hpast⟩ := List.append_of_mem hmem
  have hprefix : before ++ [⟨c, r⟩] <+: task.past := ⟨after, by
    rw [hpast, List.append_assoc]
    rfl⟩
  exact ⟨task, before, htask, (List.prefix_append before _).trans hprefix,
    (hpool i task htask).past before c r hprefix⟩

/-- The call of a step is one that the rule allows. -/
theorem allowed_of_step (hpool : Lawful P G pool) (h : step respond pool a = some (pool', c)) :
    ∃ task, pool.tasks[a.1]? = some task ∧ P a.1 task.past c := by
  obtain ⟨past, next, hmoved, -, -⟩ := step_eq_some h
  exact ⟨_, hmoved, (hpool _ _ hmoved).rest.1⟩

/-! ### Requests -/

section

variable {B : Type} {bs : List B} {serve : B → Prog C R α} {s : σ}

/-- The tasks of requests have the numbers of the requests. -/
theorem known_ofPrograms (i : ℕ) (task : Task C R α)
    (h : (ofPrograms s (bs.map serve)).tasks[i]? = some task) : ∃ b, bs[i]? = some b := by
  obtain ⟨p, hp, -⟩ := getElem?_ofPrograms h
  rw [List.getElem?_map] at hp
  obtain ⟨b, hb, -⟩ := Option.map_eq_some_iff.1 hp
  exact ⟨b, hb⟩

theorem known_step
    (hknown : ∀ (i : ℕ) (task : Task C R α), pool.tasks[i]? = some task → ∃ b, bs[i]? = some b)
    (h : step respond pool a = some (pool', c)) (i : ℕ) (task : Task C R α)
    (htask : pool'.tasks[i]? = some task) : ∃ b, bs[i]? = some b := by
  obtain ⟨past, next, hmoved, -, htasks⟩ := step_eq_some h
  rw [getElem?_step hmoved htasks] at htask
  split_ifs at htask with hi
  · exact hi ▸ hknown a.1 _ hmoved
  · exact hknown i task htask

/-- Requests that keep to their rules alone keep to them together. -/
theorem lawful_serve {P : B → History C R → C → Prop} {G : B → History C R → α → Prop}
    (h : ∀ b, Obeys (P b) (G b) [] (serve b)) :
    Lawful (fun i past c => ∀ b ∈ bs[i]?, P b past c) (fun i past a => ∀ b ∈ bs[i]?, G b past a)
      (ofPrograms s (bs.map serve)) := by
  refine lawful_ofPrograms fun i p hp => ?_
  rw [List.getElem?_map] at hp
  obtain ⟨b, hb, rfl⟩ := Option.map_eq_some_iff.1 hp
  refine (h b).mono (fun later c hrule b' hb' => ?_) fun later a _ hfits b' hb' => ?_
  · obtain rfl := Option.some.inj (hb.symm.trans hb')
    exact hrule
  · obtain rfl := Option.some.inj (hb.symm.trans hb')
    exact hfits

end

end Pool
end Rust
