import Gittree.Lib.Str

/-!
# Maps with text keys

`BTreeMap<String, β>` and `HashMap<String, β>` as extensional search trees: two maps with the same
entries are equal.  `toList` runs in key order, as a `BTreeMap` does; for a `HashMap` it is one of
the orders its iteration may take.

The lemmas restate the library's look-up equations with equality of keys in place of a comparison.
-/

namespace Rust

/-- A map from texts. -/
abbrev Map (β : Type) := Std.ExtTreeMap String β Str.cmp

namespace Map

variable {β : Type}

/-- `values()`, in key order. -/
def values (m : Map β) : List β := m.toList.map Prod.snd

/-- `map.entry(k).or_default().push(x)`. -/
def push {γ : Type} (m : Map (List γ)) (k : String) (x : γ) : Map (List γ) :=
  m.alter k fun o => some (o.getD [] ++ [x])

/-- `map.entry(k).or_insert(v)`. -/
def orInsert (m : Map β) (k : String) (v : β) : Map β := if k ∈ m then m else m.insert k v

theorem get_insert (m : Map β) (k a : String) (v : β) :
    (m.insert k v)[a]? = if k = a then some v else m[a]? := by
  rw [Std.ExtTreeMap.getElem?_insert]
  simp only [Std.LawfulEqCmp.compare_eq_iff_eq]

@[simp] theorem get_insert_self (m : Map β) (k : String) (v : β) : (m.insert k v)[k]? = some v := by
  rw [get_insert, if_pos rfl]

theorem get_insert_ne {m : Map β} {k a : String} {v : β} (h : k ≠ a) :
    (m.insert k v)[a]? = m[a]? := by
  rw [get_insert, if_neg h]

theorem get_erase (m : Map β) (k a : String) :
    (m.erase k)[a]? = if k = a then none else m[a]? := by
  rw [Std.ExtTreeMap.getElem?_erase]
  simp only [Std.LawfulEqCmp.compare_eq_iff_eq]

theorem get_push {γ : Type} (m : Map (List γ)) (k a : String) (x : γ) :
    (m.push k x)[a]? = if k = a then some (m[k]?.getD [] ++ [x]) else m[a]? := by
  unfold push
  rw [Std.ExtTreeMap.getElem?_alter]
  simp only [Std.LawfulEqCmp.compare_eq_iff_eq]

theorem get_orInsert (m : Map β) (k a : String) (v : β) :
    (m.orInsert k v)[a]? = if k = a then some (m[k]?.getD v) else m[a]? := by
  unfold orInsert
  by_cases hk : k ∈ m
  · rw [if_pos hk]
    obtain ⟨w, hw⟩ := Std.ExtTreeMap.mem_iff_isSome_getElem?.1 hk |> Option.isSome_iff_exists.1
    split_ifs with ha
    · rw [← ha, hw, Option.getD_some]
    · rfl
  · rw [if_neg hk, get_insert]
    have hn : m[k]? = none := by
      rwa [Std.ExtTreeMap.mem_iff_isSome_getElem?, Option.not_isSome_iff_eq_none] at hk
    rw [hn, Option.getD_none]

theorem mem_iff {m : Map β} {k : String} : k ∈ m ↔ ∃ v, m[k]? = some v := by
  rw [Std.ExtTreeMap.mem_iff_isSome_getElem?, Option.isSome_iff_exists]

theorem get_eq_none_iff {m : Map β} {k : String} : m[k]? = none ↔ k ∉ m := by
  rw [Std.ExtTreeMap.mem_iff_isSome_getElem?, Option.not_isSome_iff_eq_none]

theorem mem_values {m : Map β} {v : β} : v ∈ m.values ↔ ∃ k : String, m[k]? = some v := by
  unfold values
  rw [List.mem_map]
  constructor
  · rintro ⟨⟨k, w⟩, hm, rfl⟩
    exact ⟨k, Std.ExtTreeMap.mem_toList_iff_getElem?_eq_some.1 hm⟩
  · rintro ⟨k, hk⟩
    exact ⟨(k, v), Std.ExtTreeMap.mem_toList_iff_getElem?_eq_some.2 hk, rfl⟩

/-! ### Grouping -/

/-- Values collected under their keys, each group in the order of the list. -/
def group {γ : Type} (entries : List (String × γ)) : Map (List γ) :=
  entries.foldl (fun m e => m.push e.1 e.2) ∅

/-- The values that a list of entries has under a key. -/
def under {γ : Type} (entries : List (String × γ)) (k : String) : List γ :=
  (entries.filter fun e => e.1 == k).map Prod.snd

theorem mem_under {γ : Type} {entries : List (String × γ)} {k : String} {v : γ} :
    v ∈ under entries k ↔ (k, v) ∈ entries := by
  unfold under
  rw [List.mem_map]
  constructor
  · rintro ⟨⟨k', v'⟩, hm, rfl⟩
    obtain ⟨hm, hk⟩ := List.mem_filter.1 hm
    rwa [← beq_iff_eq.1 hk]
  · intro h
    exact ⟨(k, v), List.mem_filter.2 ⟨h, beq_iff_eq.2 rfl⟩, rfl⟩

theorem get_foldl_push {γ : Type} (entries : List (String × γ)) (m : Map (List γ)) (k : String) :
    (entries.foldl (fun m e => m.push e.1 e.2) m)[k]? =
      if under entries k = [] then m[k]? else some (m[k]?.getD [] ++ under entries k) := by
  induction entries generalizing m with
  | nil => simp [under]
  | cons e rest ih =>
    rw [List.foldl_cons, ih, get_push]
    by_cases he : e.1 = k
    · have hu : under (e :: rest) k = e.2 :: under rest k := by simp [under, he]
      rw [if_pos he, hu, if_neg (List.cons_ne_nil _ _), he]
      split_ifs with hr
      · rw [hr]
      · simp
    · have hu : under (e :: rest) k = under rest k := by simp [under, he]
      rw [if_neg he, hu]

theorem get_group {γ : Type} (entries : List (String × γ)) (k : String) :
    (group entries)[k]? = if under entries k = [] then none else some (under entries k) := by
  unfold group
  rw [get_foldl_push]
  simp

/-- The entries of a grouping: every key that occurs, with all its values. -/
theorem mem_toList_group {γ : Type} {entries : List (String × γ)} {k : String} {values : List γ} :
    (k, values) ∈ (group entries).toList ↔ under entries k = values ∧ values ≠ [] := by
  rw [Std.ExtTreeMap.mem_toList_iff_getElem?_eq_some, get_group]
  split_ifs with h
  · rw [h]
    exact iff_of_false (by simp) fun hv => hv.2 hv.1.symm
  · rw [Option.some.injEq]
    exact ⟨fun hv => ⟨hv, hv ▸ h⟩, And.left⟩

theorem nodup_toList (m : Map β) : m.toList.Nodup := by
  refine List.Pairwise.imp ?_ (Std.ExtTreeMap.distinct_keys_toList (t := m))
  rintro a b hab rfl
  exact hab Std.ReflCmp.compare_self

/-- The list of a map runs by strictly increasing key. -/
theorem pairwise_lt_toList (m : Map β) : m.toList.Pairwise fun a b => a.1 < b.1 := by
  refine List.Pairwise.imp ?_ (Std.ExtTreeMap.ordered_keys_toList (t := m))
  intro a b hab
  rw [Str.cmp_eq_compare] at hab
  exact compareOfLessAndEq_eq_lt.1 hab

/-- Entries listed by increasing key, with the same look-ups as a map, are the map's list. -/
theorem toList_eq_of_sorted {m : Map β} {l : List (String × β)}
    (hl : l.Pairwise fun a b => a.1 < b.1) (hm : ∀ k v, m[k]? = some v ↔ (k, v) ∈ l) :
    m.toList = l := by
  refine List.Perm.eq_of_pairwise ?_ m.pairwise_lt_toList hl ?_
  · intro a b _ _ hab hba
    exact absurd (lt_trans hab hba) (lt_irrefl _)
  · refine (List.perm_ext_iff_of_nodup m.nodup_toList ?_).2 ?_
    · refine hl.imp ?_
      rintro a b hab rfl
      exact lt_irrefl _ hab
    · rintro ⟨k, v⟩
      rw [Std.ExtTreeMap.mem_toList_iff_getElem?_eq_some, hm]

theorem get_foldl_insert {l : List (String × β)} (hl : l.Pairwise fun a b => a.1 ≠ b.1)
    (m : Map β) (k : String) :
    (l.foldl (fun m e => m.insert e.1 e.2) m)[k]? =
      ((l.find? fun e => e.1 == k).map Prod.snd).or m[k]? := by
  induction l generalizing m with
  | nil => simp
  | cons e rest ih =>
    obtain ⟨hne, hrest⟩ := List.pairwise_cons.1 hl
    rw [List.foldl_cons, ih hrest, get_insert, List.find?_cons]
    by_cases hk : e.1 = k
    · have hnone : rest.find? (fun e => e.1 == k) = none := by
        rw [List.find?_eq_none]
        intro e' he' h
        exact hne e' he' (hk.trans (beq_iff_eq.1 h).symm)
      rw [hnone, if_pos hk, beq_iff_eq.2 hk]
      rfl
    · rw [if_neg hk, beq_eq_false_iff_ne.2 hk]

/-- A map is rebuilt from its list. -/
theorem foldl_insert_toList (m : Map β) :
    m.toList.foldl (fun m e => m.insert e.1 e.2) (∅ : Map β) = m := by
  have hl : m.toList.Pairwise fun a b => a.1 ≠ b.1 := m.pairwise_lt_toList.imp fun h => h.ne
  refine Std.ExtTreeMap.ext_getElem? fun k => ?_
  rw [get_foldl_insert hl]
  cases hf : m.toList.find? fun e => e.1 == k with
  | none =>
    have hk : m[k]? = none := by
      refine Option.eq_none_iff_forall_ne_some.2 fun v hv => ?_
      have hmem := Std.ExtTreeMap.mem_toList_iff_getElem?_eq_some.2 hv
      exact List.find?_eq_none.1 hf _ hmem (beq_iff_eq.2 rfl)
    simp [hk]
  | some e =>
    have hmem := Std.ExtTreeMap.mem_toList_iff_getElem?_eq_some.1 (List.mem_of_find?_eq_some hf)
    have hk : e.1 = k := by simpa using List.find?_some hf
    rw [← hk, hmem]
    simp

/-! ### Changes -/

/-- The value of a key is put in, or taken out. -/
def change (m : Map β) (c : String × Option β) : Map β :=
  match c.2 with
  | some v => m.insert c.1 v
  | none => m.erase c.1

theorem get_change (m : Map β) (c : String × Option β) (k : String) :
    (m.change c)[k]? = if c.1 = k then c.2 else m[k]? := by
  unfold change
  cases h : c.2 with
  | some v => exact get_insert m c.1 k v
  | none => exact get_erase m c.1 k

/-- A key that no change names keeps its value. -/
theorem get_foldl_change_of_ne {l : List (String × Option β)} {k : String}
    (h : ∀ c ∈ l, c.1 ≠ k) (m : Map β) : (l.foldl change m)[k]? = m[k]? := by
  induction l generalizing m with
  | nil => rfl
  | cons c rest ih =>
    obtain ⟨hc, hrest⟩ := List.forall_mem_cons.1 h
    rw [List.foldl_cons, ih hrest, get_change, if_neg hc]

/-- Of changes of different keys each one counts, in whatever order they come. -/
theorem get_foldl_change {l : List (String × Option β)} (hl : (l.map Prod.fst).Nodup)
    {c : String × Option β} (hc : c ∈ l) (m : Map β) : (l.foldl change m)[c.1]? = c.2 := by
  induction l generalizing m with
  | nil => cases hc
  | cons first rest ih =>
    rw [List.map_cons, List.nodup_cons] at hl
    rw [List.foldl_cons]
    rcases List.mem_cons.1 hc with rfl | hrest
    · rw [get_foldl_change_of_ne, get_change, if_pos rfl]
      intro later hlater heq
      exact hl.1 (List.mem_map.2 ⟨later, hlater, heq⟩)
    · exact ih hl.2 hrest (m.change first)

/-! ### Removal by a condition -/

/-- The second map is the first without the values that satisfy a condition. -/
def Without (m : Map β) (P : β → Prop) (m' : Map β) : Prop :=
  ∀ (k : String) (v : β), m'[k]? = some v ↔ m[k]? = some v ∧ ¬ P v

namespace Without

variable {m m' m'' : Map β} {P Q : β → Prop}

theorem refl (m : Map β) : m.Without (fun _ => False) m := by
  intro k v
  simp

theorem congr (h : m.Without P m') (hPQ : ∀ v, P v ↔ Q v) : m.Without Q m' := by
  intro k v
  rw [h k v, hPQ]

/-- Only the values of the map matter. -/
theorem congr_of_mem (h : m.Without P m')
    (hPQ : ∀ (k : String) (v : β), m[k]? = some v → (P v ↔ Q v)) : m.Without Q m' := by
  intro k v
  rw [h k v]
  exact and_congr_right fun hv => not_congr (hPQ k v hv)

theorem trans (h : m.Without P m') (h' : m'.Without Q m'') :
    m.Without (fun v => P v ∨ Q v) m'' := by
  intro k v
  rw [h' k v, h k v, not_or, and_assoc]

theorem get_eq_none (h : m.Without P m') {k : String} (hk : m[k]? = none) : m'[k]? = none := by
  refine Option.eq_none_iff_forall_ne_some.2 fun v hv => ?_
  rw [((h k v).1 hv).1] at hk
  cases hk

/-- A loop of removals over a state that shows a map: each step keeps an invariant and removes by
a condition on the value alone. -/
theorem foldl {σ α : Type} (view : σ → Map β) {I : σ → Prop} {f : σ → α → σ} {R : α → β → Prop}
    (hf : ∀ s a, I s → I (f s a) ∧ (view s).Without (R a) (view (f s a))) (l : List α) {s : σ}
    (h : I s) :
    I (l.foldl f s) ∧ (view s).Without (fun v => ∃ a ∈ l, R a v) (view (l.foldl f s)) := by
  induction l generalizing s with
  | nil => exact ⟨h, (refl _).congr (by simp)⟩
  | cons a rest ih =>
    obtain ⟨hI, hstep⟩ := hf s a h
    obtain ⟨hI', hrest⟩ := ih hI
    exact ⟨hI', (hstep.trans hrest).congr (by simp)⟩

end Without
end Map
end Rust
