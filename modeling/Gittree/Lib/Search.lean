import Mathlib.Logic.Relation
import Mathlib.Order.Bounds.Basic
import Mathlib.Tactic

/-!
# Searches of a graph

Two ways to mark what can be reached from a node of a graph that is given by the successors of its
nodes: `explore` works off a stack, `collect` calls itself on the successors.  A node without a list
of successors is not part of the graph and is not marked.  Both take fuel and answer `none` when it
ends; over a finite set of nodes there is enough.

* `explore_total`, `collect_total`: the fuel that is enough;
* `mem_explore`, `mem_collect`: the marked nodes are those that can be reached;
* `collect_mono`, `nodup_collect`: more fuel does not change the answer, and no node is marked twice;
* `isLeast_reached`: what can be reached is the least closed set;
* `Simulates.reached`: what can be reached is carried over to a graph with other nodes;
* `reached_filled_iff`: what can be reached when every node is made part of the graph;
* `reached_congr`: when the same can be reached in two graphs.
-/

namespace Search

variable {α ε : Type}

/-- A node of the graph. -/
def IsNode (next : α → Option (List α)) (x : α) : Prop := ∃ l, next x = some l

/-- An edge of the graph. -/
def Edge (next : α → Option (List α)) (x y : α) : Prop :=
  (∃ l, next x = some l ∧ y ∈ l) ∧ IsNode next y

/-- What can be reached from a node of the graph. -/
def Reached (next : α → Option (List α)) (root x : α) : Prop :=
  IsNode next root ∧ Relation.ReflTransGen (Edge next) root x

theorem Reached.refl {next : α → Option (List α)} {x : α} (h : IsNode next x) : Reached next x x :=
  ⟨h, .refl⟩

theorem Reached.isNode {next : α → Option (List α)} {root x : α} (h : Reached next root x) :
    IsNode next x := by
  obtain ⟨hroot, hreach⟩ := h
  cases hreach with
  | refl => exact hroot
  | tail _ hstep => exact hstep.2

theorem Reached.tail {next : α → Option (List α)} {root x y : α} {l : List α}
    (h : Reached next root x) (hx : next x = some l) (hy : y ∈ l) (hnode : IsNode next y) :
    Reached next root y :=
  ⟨h.1, h.2.tail ⟨⟨l, hx, hy⟩, hnode⟩⟩

theorem Reached.head {next : α → Option (List α)} {x y z : α} {l : List α} (hx : next x = some l)
    (hy : y ∈ l) (h : Reached next y z) : Reached next x z :=
  ⟨⟨l, hx⟩, .head ⟨⟨l, hx, hy⟩, h.1⟩ h.2⟩

/-! ### Closed sets -/

/-- A set with the root and with the successors of its members, as far as these are nodes. -/
structure Closed (next : α → Option (List α)) (root : α) (S : Set α) : Prop where
  root : IsNode next root → root ∈ S
  succ : ∀ x ∈ S, ∀ l, next x = some l → ∀ y ∈ l, IsNode next y → y ∈ S

/-- What can be reached is the least closed set. -/
theorem isLeast_reached (next : α → Option (List α)) (root : α) :
    IsLeast {S | Closed next root S} {x | Reached next root x} := by
  constructor
  · exact ⟨.refl, fun x hx l hl y hy hnode => hx.tail hl hy hnode⟩
  · rintro S hS x ⟨hroot, hreach⟩
    induction hreach with
    | refl => exact hS.root hroot
    | tail _ hstep ih =>
      obtain ⟨⟨l, hl, hy⟩, hnode⟩ := hstep
      exact hS.succ _ ih l hl _ hy hnode

/-! ### Graphs that are compared -/

/-- A relation under which the graph `next'` has the edges of `next`: a node is related to nodes only,
and each of its successors that is a node is related to a successor. -/
def Simulates {β : Type} (R : α → β → Prop) (next : α → Option (List α))
    (next' : β → Option (List β)) : Prop :=
  ∀ x y l, R x y → next x = some l → ∃ l', next' y = some l' ∧
    ∀ z ∈ l, IsNode next z → ∃ w ∈ l', R z w

/-- What can be reached from a node is related to what can be reached from a related node. -/
theorem Simulates.reached {β : Type} {R : α → β → Prop} {next : α → Option (List α)}
    {next' : β → Option (List β)} (hsim : Simulates R next next') {root x : α} {root' : β}
    (hroot : R root root') (h : Reached next root x) : ∃ y, R x y ∧ Reached next' root' y := by
  obtain ⟨⟨l₀, hl₀⟩, hreach⟩ := h
  induction hreach with
  | refl =>
    obtain ⟨l', hl', -⟩ := hsim root root' l₀ hroot hl₀
    exact ⟨root', hroot, .refl ⟨l', hl'⟩⟩
  | tail _ hstep ih =>
    obtain ⟨y, hxy, hy⟩ := ih
    obtain ⟨⟨l, hl, hz⟩, hnode⟩ := hstep
    obtain ⟨l', hl', hsucc⟩ := hsim _ y l hxy hl
    obtain ⟨w, hw, hzw⟩ := hsucc _ hz hnode
    obtain ⟨m, hm⟩ := hnode
    obtain ⟨m', hm', -⟩ := hsim _ w m hzw hm
    exact ⟨w, hzw, hy.tail hl' hw ⟨m', hm'⟩⟩

/-- The graph in which the nodes without a list of successors have none. -/
def filled (next : α → Option (List α)) (x : α) : Option (List α) := some ((next x).getD [])

/-- What a search meets: its root, and the successors of what can be reached. -/
def Met (next : α → Option (List α)) (root x : α) : Prop :=
  x = root ∨ ∃ y l, Reached next root y ∧ next y = some l ∧ x ∈ l

/-- When every node is part of the graph, all that is met can be reached. -/
theorem reached_filled_iff {next : α → Option (List α)} {root x : α} :
    Reached (filled next) root x ↔ Met next root x := by
  constructor
  · rintro ⟨-, hreach⟩
    induction hreach with
    | refl => exact .inl rfl
    | @tail y z _ hstep ih =>
      obtain ⟨⟨l', hl', hz⟩, -⟩ := hstep
      cases hl'
      cases hl : next y with
      | none =>
        rw [hl] at hz
        cases hz
      | some l =>
        rw [hl] at hz
        refine .inr ⟨y, l, ?_, hl, hz⟩
        rcases ih with rfl | ⟨y', m, hy', hm, hy⟩
        · exact .refl ⟨l, hl⟩
        · exact hy'.tail hm hy ⟨l, hl⟩
  · have hnode : ∀ y, IsNode (filled next) y := fun y => ⟨_, rfl⟩
    have hsim : Simulates Eq next (filled next) := by
      rintro y _ l rfl hl
      refine ⟨l, ?_, fun z hz _ => ⟨z, hz, rfl⟩⟩
      rw [filled, hl, Option.getD_some]
    rintro (rfl | ⟨y, l, hy, hl, hx⟩)
    · exact .refl (hnode x)
    · obtain ⟨_, rfl, hreach⟩ := hsim.reached rfl hy
      refine hreach.tail (l := l) ?_ hx (hnode x)
      rw [filled, hl, Option.getD_some]

/-- The nodes among what is met are what can be reached. -/
theorem met_and_isNode_iff {next : α → Option (List α)} {root x : α} :
    Met next root x ∧ IsNode next x ↔ Reached next root x := by
  constructor
  · rintro ⟨rfl | ⟨y, l, hy, hl, hx⟩, hnode⟩
    · exact .refl hnode
    · exact hy.tail hl hx hnode
  · rintro ⟨hroot, hreach⟩
    refine ⟨?_, Reached.isNode ⟨hroot, hreach⟩⟩
    cases hreach with
    | refl => exact .inl rfl
    | @tail y _ hy hstep =>
      obtain ⟨⟨l, hl, hx⟩, -⟩ := hstep
      exact .inr ⟨y, l, ⟨hroot, hy⟩, hl, hx⟩

/-- Two graphs with the same nodes, whose lists of successors have the same members at what can be
reached in the first of them. -/
theorem reached_congr {next next' : α → Option (List α)} {root : α}
    (hnode : ∀ x, IsNode next x ↔ IsNode next' x)
    (hsucc : ∀ x l l', Reached next root x → next x = some l → next' x = some l' →
      ∀ y, y ∈ l ↔ y ∈ l') (x : α) : Reached next root x ↔ Reached next' root x := by
  constructor
  · rintro ⟨hroot, hreach⟩
    induction hreach with
    | refl => exact .refl ((hnode root).1 hroot)
    | @tail y z hy hstep ih =>
      obtain ⟨⟨l, hl, hz⟩, hnodez⟩ := hstep
      obtain ⟨l', hl'⟩ := ih.isNode
      exact ih.tail hl' ((hsucc y l l' ⟨hroot, hy⟩ hl hl' z).1 hz) ((hnode z).1 hnodez)
  · rintro ⟨hroot, hreach⟩
    induction hreach with
    | refl => exact .refl ((hnode root).2 hroot)
    | @tail y z hy hstep ih =>
      obtain ⟨⟨l', hl', hz⟩, hnodez⟩ := hstep
      obtain ⟨l, hl⟩ := ih.isNode
      exact ih.tail hl ((hsucc y l l' ih hl hl' z).2 hz) ((hnode z).2 hnodez)

/-- A search meets no more than it reaches when the root and all successors are nodes. -/
theorem met_eq_reached_iff {next : α → Option (List α)} {root : α} :
    {x | Met next root x} = {x | Reached next root x} ↔ IsNode next root ∧
      ∀ y l, Reached next root y → next y = some l → ∀ x ∈ l, IsNode next x := by
  constructor
  · intro h
    have hmet : ∀ x, Met next root x → Reached next root x := fun x hx => (Set.ext_iff.1 h x).1 hx
    refine ⟨(hmet root (.inl rfl)).isNode, ?_⟩
    exact fun y l hy hl x hx => (hmet x (.inr ⟨y, l, hy, hl, hx⟩)).isNode
  · rintro ⟨hroot, hnodes⟩
    ext x
    refine Iff.trans ⟨fun hx => ⟨hx, ?_⟩, And.left⟩ met_and_isNode_iff
    rcases hx with rfl | ⟨y, l, hy, hl, hx⟩
    · exact hroot
    · exact hnodes y l hy hl x hx

variable [DecidableEq α]

/-- The nodes of a finite list that are not marked. -/
def unmarked (nodes seen : List α) : List α := nodes.filter fun x => x ∉ seen

theorem unmarked_cons_lt {nodes seen : List α} {x : α} (hx : x ∈ nodes) (hs : x ∉ seen) :
    (unmarked nodes (x :: seen)).length < (unmarked nodes seen).length := by
  have hsub : unmarked nodes (x :: seen) = (unmarked nodes seen).filter fun y => y ≠ x := by
    unfold unmarked
    rw [List.filter_filter]
    refine List.filter_congr fun y _ => ?_
    simp [not_or]
  rw [hsub, List.length_filter_lt_length_iff_exists]
  exact ⟨x, List.mem_filter.2 ⟨hx, by simpa using hs⟩, by simp⟩

theorem unmarked_mono {nodes seen seen' : List α} (h : seen ⊆ seen') :
    (unmarked nodes seen').length ≤ (unmarked nodes seen).length := by
  unfold unmarked
  refine (List.monotone_filter_right nodes ?_).length_le
  intro x hx
  simp only [decide_eq_true_eq] at hx ⊢
  exact fun hs => hx (h hs)

/-! ### The search with a stack -/

/-- The top of the stack is visited: a node that is marked or not part of the graph is dropped, another
one is marked and its unmarked successors are pushed in turn. -/
def explore (visit : α → Except ε (Option (List α))) :
    ℕ → List α → List α → Option (Except ε (List α))
  | _, [], seen => some (.ok seen)
  | 0, _ :: _, _ => none
  | fuel + 1, x :: pending, seen =>
    if x ∈ seen then explore visit fuel pending seen
    else
      match visit x with
      | .error e => some (.error e)
      | .ok none => explore visit fuel pending seen
      | .ok (some l) =>
        explore visit fuel ((l.filter fun y => y ∉ x :: seen).reverse ++ pending) (x :: seen)

section Explore

variable {next : α → Option (List α)}

/-- Over a finite list of nodes, each of which has at most `m` successors, the search ends. -/
theorem explore_total {visit : α → Except ε (Option (List α))} {nodes : List α} {m : ℕ}
    (hvisit : ∀ x ∈ nodes, visit x = .ok (next x))
    (hnext : ∀ x ∈ nodes, ∀ l, next x = some l → l ⊆ nodes ∧ l.length ≤ m) (fuel : ℕ)
    (pending seen : List α) (hp : pending ⊆ nodes)
    (hfuel : pending.length + m * (unmarked nodes seen).length ≤ fuel) :
    ∃ marked, explore visit fuel pending seen = some (.ok marked) := by
  induction fuel generalizing pending seen with
  | zero =>
    have hempty : pending = [] := List.length_eq_zero_iff.1 (by omega)
    subst hempty
    exact ⟨seen, rfl⟩
  | succ fuel ih =>
    cases pending with
    | nil => exact ⟨seen, rfl⟩
    | cons x pending =>
      have hx : x ∈ nodes := hp List.mem_cons_self
      have hp' : pending ⊆ nodes := fun y hy => hp (List.mem_cons_of_mem _ hy)
      rw [List.length_cons] at hfuel
      rw [explore]
      split_ifs with hs
      · exact ih pending seen hp' (by omega)
      · rw [hvisit x hx]
        cases hl : next x with
        | none => exact ih pending seen hp' (by omega)
        | some l =>
          obtain ⟨hsub, hlen⟩ := hnext x hx l hl
          apply ih
          · intro y hy
            rcases List.mem_append.1 hy with h | h
            · exact hsub (List.mem_of_mem_filter (List.mem_reverse.1 h))
            · exact hp' h
          · -- the marked node pays for the successors it pushes
            have hlt := unmarked_cons_lt hx hs
            have hpay : m * (unmarked nodes (x :: seen)).length + m ≤
                m * (unmarked nodes seen).length := by
              rw [← Nat.mul_succ]
              exact Nat.mul_le_mul_left m hlt
            have hpush : ((l.filter fun y => y ∉ x :: seen).reverse ++ pending).length ≤
                m + pending.length := by
              rw [List.length_append, List.length_reverse]
              have := List.length_filter_le (fun y => decide (y ∉ x :: seen)) l
              omega
            omega

/-- What is marked was marked or can be reached from the stack. -/
theorem explore_sound {visit : α → Except ε (Option (List α))}
    (hvisit : ∀ x o, visit x = .ok o → next x = o) {fuel : ℕ} {pending seen marked : List α}
    (h : explore visit fuel pending seen = some (.ok marked)) :
    ∀ x ∈ marked, x ∈ seen ∨ ∃ y ∈ pending, Reached next y x := by
  fun_induction explore visit fuel pending seen with
  | case1 =>
    cases h
    exact fun x hx => .inl hx
  | case2 => cases h
  | case3 fuel y pending seen hs ih =>
    intro x hx
    refine (ih h x hx).imp_right ?_
    rintro ⟨z, hz, hzx⟩
    exact ⟨z, List.mem_cons_of_mem _ hz, hzx⟩
  | case4 => cases h
  | case5 fuel y pending seen hs hy ih =>
    intro x hx
    refine (ih h x hx).imp_right ?_
    rintro ⟨z, hz, hzx⟩
    exact ⟨z, List.mem_cons_of_mem _ hz, hzx⟩
  | case6 fuel y pending seen hs l hy ih =>
    have hl := hvisit y _ hy
    intro x hx
    rcases ih h x hx with hold | ⟨z, hz, hzx⟩
    · rcases List.mem_cons.1 hold with rfl | hold
      · exact .inr ⟨x, List.mem_cons_self, .refl ⟨l, hl⟩⟩
      · exact .inl hold
    · rcases List.mem_append.1 hz with hz | hz
      · refine .inr ⟨y, List.mem_cons_self, .head hl ?_ hzx⟩
        exact List.mem_of_mem_filter (List.mem_reverse.1 hz)
      · exact .inr ⟨z, List.mem_cons_of_mem _ hz, hzx⟩

/-- A search marks the nodes of its stack, and what it marks is closed when the marked nodes had all
their successors marked or on the stack. -/
theorem explore_complete {visit : α → Except ε (Option (List α))}
    (hvisit : ∀ x o, visit x = .ok o → next x = o) {fuel : ℕ} {pending seen marked : List α}
    (h : explore visit fuel pending seen = some (.ok marked))
    (hclosed : ∀ x ∈ seen, ∀ y, Edge next x y → y ∈ seen ∨ y ∈ pending) :
    seen ⊆ marked ∧ (∀ y ∈ pending, IsNode next y → y ∈ marked) ∧
      ∀ x ∈ marked, ∀ y, Edge next x y → y ∈ marked := by
  fun_induction explore visit fuel pending seen with
  | case1 =>
    cases h
    exact ⟨List.Subset.refl _, by simp, fun x hx y hy => (hclosed x hx y hy).elim id (by simp)⟩
  | case2 => cases h
  | case3 fuel z pending seen hs ih =>
    obtain ⟨hsub, hpend, hedge⟩ := ih h fun x hx y hy => by
      rcases hclosed x hx y hy with hy | hy
      · exact .inl hy
      · rcases List.mem_cons.1 hy with rfl | hy
        · exact .inl hs
        · exact .inr hy
    refine ⟨hsub, ?_, hedge⟩
    rintro y hy hnode
    rcases List.mem_cons.1 hy with rfl | hy
    · exact hsub hs
    · exact hpend y hy hnode
  | case4 => cases h
  | case5 fuel z pending seen hs hz ih =>
    have hno := hvisit z _ hz
    obtain ⟨hsub, hpend, hedge⟩ := ih h fun x hx y hy => by
      refine (hclosed x hx y hy).imp_right fun hmem => ?_
      rcases List.mem_cons.1 hmem with rfl | hmem
      · obtain ⟨l, hl⟩ := hy.2
        cases hno.symm.trans hl
      · exact hmem
    refine ⟨hsub, ?_, hedge⟩
    rintro y hy ⟨l, hl⟩
    rcases List.mem_cons.1 hy with rfl | hy
    · cases hno.symm.trans hl
    · exact hpend y hy ⟨l, hl⟩
  | case6 fuel z pending seen hs l hz ih =>
    have hl := hvisit z _ hz
    have hpush : ∀ y ∈ l, y ∈ z :: seen ∨ y ∈ (l.filter fun y => y ∉ z :: seen).reverse ++ pending := by
      intro y hy
      by_cases hys : y ∈ z :: seen
      · exact .inl hys
      · refine .inr (List.mem_append_left _ (List.mem_reverse.2 (List.mem_filter.2 ⟨hy, ?_⟩)))
        simpa using hys
    obtain ⟨hsub, hpend, hedge⟩ := ih h fun x hx y hy => by
      rcases List.mem_cons.1 hx with rfl | hx
      · obtain ⟨⟨l', hl', hyl⟩, -⟩ := hy
        cases hl.symm.trans hl'
        exact hpush y hyl
      · rcases hclosed x hx y hy with hy | hy
        · exact .inl (List.mem_cons_of_mem _ hy)
        · rcases List.mem_cons.1 hy with rfl | hy
          · exact .inl List.mem_cons_self
          · exact .inr (List.mem_append_right _ hy)
    refine ⟨fun x hx => hsub (List.mem_cons_of_mem _ hx), ?_, hedge⟩
    intro y hy hnode
    rcases List.mem_cons.1 hy with rfl | hy
    · exact hsub List.mem_cons_self
    · exact hpend y (List.mem_append_right _ hy) hnode

/-- A search from one node marks what can be reached from it. -/
theorem mem_explore {visit : α → Except ε (Option (List α))}
    (hvisit : ∀ x o, visit x = .ok o → next x = o) {fuel : ℕ} {root x : α} {marked : List α}
    (h : explore visit fuel [root] [] = some (.ok marked)) : x ∈ marked ↔ Reached next root x := by
  constructor
  · intro hx
    rcases explore_sound hvisit h x hx with hx | ⟨y, hy, hyx⟩
    · cases hx
    · rwa [List.mem_singleton.1 hy] at hyx
  · rintro ⟨hroot, hreach⟩
    obtain ⟨-, hpend, hedge⟩ := explore_complete hvisit h (by simp)
    induction hreach with
    | refl => exact hpend root (List.mem_singleton.2 rfl) hroot
    | tail _ hstep ih => exact hedge _ ih _ hstep

end Explore

/-! ### The recursive search -/

/-- A node that is marked or not part of the graph is left; another one is marked, and the search
goes on from each of its successors. -/
def collect (next : α → Option (List α)) : ℕ → α → List α → Option (List α)
  | 0, _, _ => none
  | fuel + 1, x, seen =>
    if x ∈ seen then some seen
    else
      match next x with
      | none => some seen
      | some l => l.foldlM (fun seen y => collect next fuel y seen) (x :: seen)

section Collect

variable {next : α → Option (List α)}

/-- Each call marks a node before it goes on, so the calls nest no deeper than there are nodes. -/
theorem collect_total {nodes : List α}
    (hnext : ∀ x ∈ nodes, ∀ l, next x = some l → l ⊆ nodes) (fuel : ℕ) (x : α) (seen : List α)
    (hx : x ∈ nodes) (hfuel : (unmarked nodes seen).length < fuel) :
    ∃ marked, collect next fuel x seen = some marked ∧ seen ⊆ marked := by
  induction fuel generalizing x seen with
  | zero => omega
  | succ fuel ih =>
    rw [collect]
    split_ifs with hs
    · exact ⟨seen, rfl, List.Subset.refl _⟩
    · cases hl : next x with
      | none => exact ⟨seen, rfl, List.Subset.refl _⟩
      | some l =>
        have hlt := unmarked_cons_lt hx hs
        -- the fold never marks less than it started with
        have hfold : ∀ (l' : List α) (seen' : List α), l' ⊆ nodes → x :: seen ⊆ seen' →
            ∃ marked, l'.foldlM (fun seen y => collect next fuel y seen) seen' = some marked ∧
              seen' ⊆ marked := by
          intro l' seen' hl' hsub
          induction l' generalizing seen' with
          | nil => exact ⟨seen', rfl, List.Subset.refl _⟩
          | cons y l' ih' =>
            have hmono : (unmarked nodes seen').length ≤ (unmarked nodes (x :: seen)).length :=
              unmarked_mono hsub
            obtain ⟨seen'', hy, hsub'⟩ := ih y seen' (hl' List.mem_cons_self) (by omega)
            obtain ⟨marked, hm, hsub''⟩ := ih' seen'' (fun z hz => hl' (List.mem_cons_of_mem _ hz))
              (List.Subset.trans hsub hsub')
            refine ⟨marked, ?_, List.Subset.trans hsub' hsub''⟩
            rw [List.foldlM_cons, hy]
            exact hm
        obtain ⟨marked, hm, hsub⟩ := hfold l (x :: seen) (hnext x hx l hl) (List.Subset.refl _)
        exact ⟨marked, hm, fun z hz => hsub (List.mem_cons_of_mem _ hz)⟩

/-- More fuel does not change the answer. -/
theorem collect_mono {fuel fuel' : ℕ} {x : α} {seen marked : List α}
    (h : collect next fuel x seen = some marked) (hle : fuel ≤ fuel') :
    collect next fuel' x seen = some marked := by
  induction fuel generalizing fuel' x seen marked with
  | zero => cases h
  | succ fuel ih =>
    obtain ⟨n, rfl⟩ : ∃ n, fuel' = n + 1 := ⟨fuel' - 1, by omega⟩
    rw [collect] at h ⊢
    split_ifs at h ⊢ with hs
    · exact h
    · cases hl : next x with
      | none =>
        rw [hl] at h
        exact h
      | some l =>
        rw [hl] at h
        have hfold : ∀ (l : List α) (seen : List α),
            l.foldlM (fun seen y => collect next fuel y seen) seen = some marked →
            l.foldlM (fun seen y => collect next n y seen) seen = some marked := by
          intro l
          induction l with
          | nil => exact fun _ hrun => hrun
          | cons y l ih' =>
            intro seen hrun
            rw [List.foldlM_cons] at hrun ⊢
            obtain ⟨seen', hy, hrun⟩ := Option.bind_eq_some_iff.1 hrun
            exact Option.bind_eq_some_iff.2 ⟨seen', ih hy (by omega), ih' seen' hrun⟩
        exact hfold l _ h

/-- No node is marked twice. -/
theorem nodup_collect {fuel : ℕ} {x : α} {seen marked : List α}
    (h : collect next fuel x seen = some marked) (hseen : seen.Nodup) : marked.Nodup := by
  induction fuel generalizing x seen marked with
  | zero => cases h
  | succ fuel ih =>
    rw [collect] at h
    split_ifs at h with hs
    · cases h
      exact hseen
    · cases hl : next x with
      | none =>
        rw [hl] at h
        cases h
        exact hseen
      | some l =>
        rw [hl] at h
        have hfold : ∀ (l : List α) (seen : List α), seen.Nodup →
            l.foldlM (fun seen y => collect next fuel y seen) seen = some marked →
            marked.Nodup := by
          intro l
          induction l with
          | nil =>
            intro seen hnodup hrun
            cases hrun
            exact hnodup
          | cons y l ih' =>
            intro seen hnodup hrun
            rw [List.foldlM_cons] at hrun
            obtain ⟨seen', hy, hrun⟩ := Option.bind_eq_some_iff.1 hrun
            exact ih' seen' (ih hy hnodup) hrun
        exact hfold l _ (List.nodup_cons.2 ⟨hs, hseen⟩) h

/-- What a call marks: it keeps what was marked, marks its node, and marks only what can be reached,
with all its successors. -/
structure Collected (next : α → Option (List α)) (x : α) (seen marked : List α) : Prop where
  kept : seen ⊆ marked
  root : IsNode next x → x ∈ marked
  sound : ∀ y ∈ marked, y ∈ seen ∨ Reached next x y
  closed : ∀ y ∈ marked, y ∉ seen → ∀ z, Edge next y z → z ∈ marked

theorem collect_collected {fuel : ℕ} {x : α} {seen marked : List α}
    (h : collect next fuel x seen = some marked) : Collected next x seen marked := by
  induction fuel generalizing x seen marked with
  | zero => cases h
  | succ fuel ih =>
    rw [collect] at h
    split_ifs at h with hs
    · cases h
      exact ⟨List.Subset.refl _, fun _ => hs, fun _ => .inl, fun y hy hn => absurd hy hn⟩
    · cases hl : next x with
      | none =>
        rw [hl] at h
        cases h
        refine ⟨List.Subset.refl _, ?_, fun _ => .inl, fun y hy hn => absurd hy hn⟩
        rintro ⟨l, hl'⟩
        cases hl.symm.trans hl'
      | some l =>
        rw [hl] at h
        have hfold : ∀ (l' : List α) (seen' : List α), l' ⊆ l →
            l'.foldlM (fun seen y => collect next fuel y seen) seen' = some marked →
            seen' ⊆ marked ∧ (∀ y ∈ l', IsNode next y → y ∈ marked) ∧
              (∀ y ∈ marked, y ∈ seen' ∨ Reached next x y) ∧
              ∀ y ∈ marked, y ∉ seen' → ∀ z, Edge next y z → z ∈ marked := by
          intro l' seen' hl' hrun
          induction l' generalizing seen' with
          | nil =>
            cases hrun
            exact ⟨List.Subset.refl _, by simp, fun _ => .inl, fun y hy hn => absurd hy hn⟩
          | cons y l' ih' =>
            rw [List.foldlM_cons] at hrun
            obtain ⟨seen'', hy, hrun⟩ := Option.bind_eq_some_iff.1 hrun
            have hc := ih hy
            obtain ⟨hkept, hroots, hsound, hclosed⟩ :=
              ih' seen'' (fun z hz => hl' (List.mem_cons_of_mem _ hz)) hrun
            refine ⟨List.Subset.trans hc.kept hkept, ?_, ?_, ?_⟩
            · intro z hz hnode
              rcases List.mem_cons.1 hz with rfl | hz
              · exact hkept (hc.root hnode)
              · exact hroots z hz hnode
            · intro z hz
              rcases hsound z hz with hz | hz
              · refine (hc.sound z hz).imp_right fun hyz => ?_
                exact .head hl (hl' List.mem_cons_self) hyz
              · exact .inr hz
            · intro z hz hn w hw
              by_cases hz' : z ∈ seen''
              · exact hkept (hc.closed z hz' hn w hw)
              · exact hclosed z hz hz' w hw
        obtain ⟨hkept, hroots, hsound, hclosed⟩ := hfold l (x :: seen) (List.Subset.refl _) h
        refine ⟨fun y hy => hkept (List.mem_cons_of_mem _ hy), fun _ => hkept List.mem_cons_self, ?_, ?_⟩
        · intro y hy
          rcases hsound y hy with hy | hy
          · rcases List.mem_cons.1 hy with rfl | hy
            · exact .inr (.refl ⟨l, hl⟩)
            · exact .inl hy
          · exact .inr hy
        · intro y hy hn z hz
          by_cases hyx : y = x
          · subst hyx
            obtain ⟨⟨l', hl', hzl⟩, hnode⟩ := hz
            cases hl.symm.trans hl'
            exact hroots z hzl hnode
          · exact hclosed y hy (by simp [hyx, hn]) z hz

/-- A search from one node marks what can be reached from it. -/
theorem mem_collect {fuel : ℕ} {root x : α} {marked : List α}
    (h : collect next fuel root [] = some marked) : x ∈ marked ↔ Reached next root x := by
  have hc := collect_collected h
  constructor
  · intro hx
    exact (hc.sound x hx).resolve_left (by simp)
  · rintro ⟨hroot, hreach⟩
    induction hreach with
    | refl => exact hc.root hroot
    | tail _ hstep ih => exact hc.closed _ ih (by simp) _ hstep

end Collect
end Search
