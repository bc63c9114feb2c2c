import Gittree.Lib.Cache

/-!
# Caches over a history

What the entries of a cache have to do with what was stored in it.

* `Evicts`: entries were removed until there was room, and none that is younger than one that stayed;
* `evicts_evictLoop`, `evicts_eraseOldest`: the two ways to do so, repeated minimum and sorting;
* `Logged`: a cache with the entries that were written so far and the last reading of the clock;
* `Logged.Current`: every entry is the last one that was written under its key, kept by removals and
  by writes with an eviction;
* `Logged.Promises`: what a look-up and an insertion promise in a state, `Current.promises` from the
  invariant.
-/

namespace Rust
namespace Cache

variable {α : Type}

/-! ### Evictions -/

/-- Entries were removed, as many as are needed for the bound, and none that was stored later than
one that was kept. -/
structure Evicts (maxEntries : ℕ) (m m' : Store α) : Prop where
  kept : ∀ (key : String) (entry : Entry α), m'[key]? = some entry → m[key]? = some entry
  size : m'.size = min m.size maxEntries
  older : ∀ (key key' : String) (entry entry' : Entry α), m[key]? = some entry → m'[key]? = none →
    m'[key']? = some entry' → entry.storedAt ≤ entry'.storedAt

variable {maxEntries : ℕ} {m m' : Store α}

theorem Evicts.refl (h : m.size ≤ maxEntries) : Evicts maxEntries m m := by
  refine ⟨fun _ _ h => h, (min_eq_left h).symm, ?_⟩
  intro key _ entry _ hentry hnone _
  rw [hentry] at hnone
  cases hnone

theorem Evicts.clear (m : Store α) : Evicts 0 m ∅ := by
  refine ⟨?_, ?_, ?_⟩
  · intro key entry h
    simp at h
  · rw [Std.ExtTreeMap.size_empty, Nat.min_zero]
  · intro _ key' _ entry' _ _ h
    simp at h

theorem Evicts.size_le (h : Evicts maxEntries m m') : m'.size ≤ maxEntries :=
  h.size ▸ min_le_right _ _

theorem size_erase {key : String} {entry : Entry α} (h : m[key]? = some entry) :
    (m.erase key).size = m.size - 1 := by
  rw [Std.ExtTreeMap.size_erase, if_pos]
  exact Std.ExtTreeMap.mem_iff_contains.1 (Map.mem_iff.2 ⟨entry, h⟩)

/-- Too many entries, and the oldest one goes first. -/
theorem Evicts.of_erase {key : String} {entry : Entry α} (hsize : maxEntries < m.size)
    (hentry : m[key]? = some entry)
    (holdest : ∀ (key' : String) (entry' : Entry α), m[key']? = some entry' →
      entry.storedAt ≤ entry'.storedAt)
    (h : Evicts maxEntries (m.erase key) m') : Evicts maxEntries m m' := by
  have hkept : ∀ (key' : String) (entry' : Entry α), m'[key']? = some entry' →
      m[key']? = some entry' := by
    intro key' entry' hentry'
    have herased := h.kept key' entry' hentry'
    rw [Map.get_erase] at herased
    split_ifs at herased
    exact herased
  refine ⟨hkept, ?_, ?_⟩
  · rw [h.size, size_erase hentry]
    omega
  · intro removed key' e e' he hnone he'
    by_cases hk : key = removed
    · subst hk
      rw [hentry] at he
      cases he
      exact holdest key' e' (hkept key' e' he')
    · refine h.older removed key' e e' ?_ hnone he'
      rw [Map.get_erase, if_neg hk, he]

/-! ### Repeated minimum -/

/-- The running minimum of a list. -/
theorem foldl_oldest {f : Option (String × Entry α) → String × Entry α → Option (String × Entry α)}
    (hf : ∀ b e, f (some b) e = if e.2.storedAt < b.2.storedAt then some e else some b)
    (l : List (String × Entry α)) (b : String × Entry α) :
    ∃ c, l.foldl f (some b) = some c ∧ (c = b ∨ c ∈ l) ∧ c.2.storedAt ≤ b.2.storedAt ∧
      ∀ e ∈ l, c.2.storedAt ≤ e.2.storedAt := by
  induction l generalizing b with
  | nil => exact ⟨b, rfl, .inl rfl, le_rfl, fun e he => absurd he List.not_mem_nil⟩
  | cons e l ih =>
    rw [List.foldl_cons, hf]
    by_cases he : e.2.storedAt < b.2.storedAt
    · rw [if_pos he]
      obtain ⟨c, hc, hmem, hle, hall⟩ := ih e
      refine ⟨c, hc, .inr ?_, hle.trans he.le, List.forall_mem_cons.2 ⟨hle, hall⟩⟩
      rcases hmem with rfl | hmem
      · exact List.mem_cons_self
      · exact List.mem_cons_of_mem e hmem
    · rw [if_neg he]
      obtain ⟨c, hc, hmem, hle, hall⟩ := ih b
      refine ⟨c, hc, ?_, hle, List.forall_mem_cons.2 ⟨hle.trans (not_lt.1 he), hall⟩⟩
      exact hmem.imp_right (List.mem_cons_of_mem e)

theorem exists_foldl_oldest
    {f : Option (String × Entry α) → String × Entry α → Option (String × Entry α)}
    (hnone : ∀ e, f none e = some e)
    (hsome : ∀ b e, f (some b) e = if e.2.storedAt < b.2.storedAt then some e else some b)
    {l : List (String × Entry α)} (hne : l ≠ []) :
    ∃ key entry, (l.foldl f none).map Prod.fst = some key ∧ (key, entry) ∈ l ∧
      ∀ e ∈ l, entry.storedAt ≤ e.2.storedAt := by
  cases l with
  | nil => exact absurd rfl hne
  | cons first l =>
    obtain ⟨c, hc, hin, hle, hall⟩ := foldl_oldest hsome l first
    refine ⟨c.1, c.2, ?_, List.mem_cons.2 hin, List.forall_mem_cons.2 ⟨hle, hall⟩⟩
    rw [List.foldl_cons, hnone, hc, Option.map_some]

/-- There is an oldest entry when there is any. -/
theorem exists_oldest (order : String → ℕ) (h : 0 < m.size) :
    ∃ key entry, oldest order m = some key ∧ m[key]? = some entry ∧
      ∀ (key' : String) (entry' : Entry α), m[key']? = some entry' →
        entry.storedAt ≤ entry'.storedAt := by
  have hmem : ∀ e, e ∈ m.toList.insertionSort (fun a b : String × Entry α => order a.1 ≤ order b.1) ↔
      m[e.1]? = some e.2 := by
    intro e
    rw [List.mem_insertionSort, ← Std.ExtTreeMap.mem_toList_iff_getElem?_eq_some]
  have hne : m.toList.insertionSort (fun a b : String × Entry α => order a.1 ≤ order b.1) ≠ [] := by
    intro hnil
    have hlen := congrArg List.length hnil
    rw [List.length_insertionSort, Std.ExtTreeMap.length_toList] at hlen
    exact absurd hlen h.ne'
  obtain ⟨key, entry, hkey, hin, hall⟩ : ∃ key entry, oldest order m = some key ∧
      (key, entry) ∈ m.toList.insertionSort (fun a b : String × Entry α => order a.1 ≤ order b.1) ∧
      ∀ e ∈ m.toList.insertionSort (fun a b : String × Entry α => order a.1 ≤ order b.1),
        entry.storedAt ≤ e.2.storedAt := by
    unfold oldest
    exact exists_foldl_oldest (fun _ => rfl) (fun _ _ => rfl) hne
  refine ⟨key, entry, hkey, (hmem (key, entry)).1 hin, ?_⟩
  exact fun key' entry' hentry' => hall (key', entry') ((hmem (key', entry')).2 hentry')

/-- The loop ends after at most as many rounds as there are entries too many, with no entry too
many. -/
theorem evicts_evictLoop (order : String → ℕ) {rounds : ℕ} (h : m.size - maxEntries ≤ rounds) :
    Evicts maxEntries m (evictLoop order maxEntries rounds m) := by
  induction rounds generalizing m with
  | zero => exact .refl (by omega)
  | succ rounds ih =>
    unfold evictLoop
    split_ifs with hsize
    · obtain ⟨key, entry, holdest, hentry, hmin⟩ := exists_oldest order (Nat.zero_lt_of_lt hsize)
      rw [holdest]
      refine .of_erase hsize hentry hmin (ih ?_)
      rw [size_erase hentry]
      omega
    · exact .refl (not_lt.1 hsize)

theorem evictLoop_of_size_le (order : String → ℕ) (rounds : ℕ) (h : m.size ≤ maxEntries) :
    evictLoop order maxEntries rounds m = m := by
  cases rounds with
  | zero => rfl
  | succ rounds =>
    unfold evictLoop
    rw [if_neg (not_lt.2 h)]

/-- More rounds than the loop takes change nothing. -/
theorem evictLoop_eq_evictLoop (order : String → ℕ) {rounds more : ℕ}
    (h : m.size - maxEntries ≤ rounds) (hmore : m.size - maxEntries ≤ more) :
    evictLoop order maxEntries more m = evictLoop order maxEntries rounds m := by
  induction rounds generalizing m more with
  | zero =>
    have hsize : m.size ≤ maxEntries := by
      omega
    rw [evictLoop_of_size_le order more hsize, evictLoop_of_size_le order 0 hsize]
  | succ rounds ih =>
    by_cases hsize : m.size ≤ maxEntries
    · rw [evictLoop_of_size_le order more hsize, evictLoop_of_size_le order (rounds + 1) hsize]
    · obtain ⟨more, rfl⟩ : ∃ n, more = n + 1 := Nat.exists_eq_add_one_of_ne_zero (by omega)
      obtain ⟨key, entry, holdest, hentry, -⟩ := exists_oldest (m := m) order (by omega)
      have herase := size_erase hentry
      rw [evictLoop, evictLoop, if_pos (not_le.1 hsize), if_pos (not_le.1 hsize), holdest]
      exact ih (by omega) (by omega)

theorem evicts_evictIfNeeded (config : Config) (order : String → ℕ) (m : Store α) :
    Evicts config.maxEntries m (config.evictIfNeeded order m) := by
  unfold Config.evictIfNeeded
  split_ifs with hzero
  · rw [hzero]
    exact .clear m
  · exact evicts_evictLoop order (Nat.sub_le _ _)

/-! ### Sorting -/

theorem get_foldl_erase (l : List (String × Entry α)) (m : Store α) (key : String) :
    (l.foldl (fun m e => m.erase e.1) m)[key]? = if key ∈ l.map Prod.fst then none else m[key]? := by
  induction l generalizing m with
  | nil => rw [List.foldl_nil, List.map_nil, if_neg List.not_mem_nil]
  | cons e l ih =>
    rw [List.foldl_cons, ih, Map.get_erase, List.map_cons]
    by_cases hl : key ∈ l.map Prod.fst
    · rw [if_pos hl, if_pos (List.mem_cons_of_mem _ hl)]
    · rw [if_neg hl]
      by_cases he : e.1 = key
      · rw [if_pos he, if_pos (he ▸ List.mem_cons_self)]
      · rw [if_neg he, if_neg]
        exact fun h => (List.mem_cons.1 h).elim (Ne.symm he) hl

theorem size_foldl_erase {l : List (String × Entry α)} {m : Store α}
    (hmem : ∀ e ∈ l, m[e.1]? = some e.2) (hnodup : (l.map Prod.fst).Nodup) :
    (l.foldl (fun m e => m.erase e.1) m).size = m.size - l.length := by
  induction l generalizing m with
  | nil => rfl
  | cons e l ih =>
    obtain ⟨he, hl⟩ := List.forall_mem_cons.1 hmem
    rw [List.map_cons, List.nodup_cons] at hnodup
    rw [List.foldl_cons, ih ?_ hnodup.2, size_erase he, List.length_cons]
    · omega
    · intro d hd
      rw [Map.get_erase, if_neg, hl d hd]
      rintro heq
      exact hnodup.1 (heq ▸ List.mem_map_of_mem hd)

/-- The first entries of a list of all by age are removed. -/
theorem evicts_eraseOldest {l : List (String × Entry α)} (hperm : l.Perm m.toList)
    (hsorted : l.Pairwise fun a b => a.2.storedAt ≤ b.2.storedAt) :
    Evicts maxEntries m
      ((l.take (m.size - maxEntries)).foldl (fun m e => m.erase e.1) m) := by
  have hmem : ∀ (key : String) (entry : Entry α), (key, entry) ∈ l ↔ m[key]? = some entry := by
    intro key entry
    rw [hperm.mem_iff, Std.ExtTreeMap.mem_toList_iff_getElem?_eq_some]
  have hnodup : (l.map Prod.fst).Nodup := by
    rw [(hperm.map Prod.fst).nodup_iff, List.Nodup, List.pairwise_map]
    exact (Map.pairwise_lt_toList m).imp fun h => ne_of_lt h
  have hlen : l.length = m.size := by
    rw [hperm.length_eq, Std.ExtTreeMap.length_toList]
  refine ⟨?_, ?_, ?_⟩
  · intro key entry h
    rw [get_foldl_erase] at h
    split_ifs at h
    exact h
  · rw [size_foldl_erase, List.length_take, hlen]
    · omega
    · exact fun e he => (hmem e.1 e.2).1 (List.mem_of_mem_take he)
    · exact hnodup.sublist ((List.take_sublist _ l).map Prod.fst)
  · intro key key' entry entry' hentry hnone hentry'
    rw [get_foldl_erase] at hnone hentry'
    split_ifs at hentry' with hkept
    have hremoved : key ∈ (l.take (m.size - maxEntries)).map Prod.fst := by
      by_contra h
      rw [if_neg h, hentry] at hnone
      cases hnone
    -- the removed entry stands before the kept one
    obtain ⟨⟨k, e⟩, htake, rfl⟩ := List.mem_map.1 hremoved
    have he : entry = e := by
      have := (hmem k e).1 (List.mem_of_mem_take htake)
      rw [hentry] at this
      exact Option.some.inj this
    subst he
    have hdrop : (key', entry') ∈ l.drop (m.size - maxEntries) := by
      have hin := (hmem key' entry').2 hentry'
      rw [← List.take_append_drop (m.size - maxEntries) l, List.mem_append] at hin
      exact hin.resolve_left fun h => hkept (List.mem_map_of_mem h)
    rw [← List.take_append_drop (m.size - maxEntries) l, List.pairwise_append] at hsorted
    exact hsorted.2.2 _ htake _ hdrop

/-! ### Histories -/

/-- A cache with the entries that were written under their keys so far, the last one first, and the
last reading of the clock. -/
structure Logged (α : Type) where
  entries : Store α := ∅
  writes : List (String × Entry α) := []
  now : ℕ := 0

namespace Logged

/-- The entry that was written last under a key. -/
def last (s : Logged α) (key : String) : Option (Entry α) :=
  (s.writes.find? fun w => w.1 = key).map Prod.snd

/-- The history with one more write, and the entries that are there after it. -/
def write (s : Logged α) (entries : Store α) (now : ℕ) (key : String) (entry : Entry α) :
    Logged α :=
  ⟨entries, (key, entry) :: s.writes, now⟩

theorem last_write (s : Logged α) (entries : Store α) (now : ℕ) (key key' : String)
    (entry : Entry α) :
    (s.write entries now key entry).last key' = if key = key' then some entry else s.last key' := by
  unfold last write
  by_cases h : key = key'
  · simp [h]
  · simp [h]

/-- Every entry is the one that was written last under its key, and there are not too many. -/
structure Current (maxEntries : ℕ) (s : Logged α) : Prop where
  last : ∀ (key : String) (entry : Entry α), s.entries[key]? = some entry → s.last key = some entry
  past : ∀ (key : String) (entry : Entry α), s.entries[key]? = some entry → entry.storedAt ≤ s.now
  size : s.entries.size ≤ maxEntries

variable {s : Logged α} {now : ℕ}

theorem Current.empty (maxEntries : ℕ) : Current maxEntries ({} : Logged α) := by
  refine ⟨?_, ?_, Nat.zero_le _⟩
  · intro key entry h
    simp at h
  · intro key entry h
    simp at h

/-- Time passes. -/
theorem Current.tick (h : Current maxEntries s) (hnow : s.now ≤ now) :
    Current maxEntries ⟨s.entries, s.writes, now⟩ :=
  ⟨h.last, fun key entry hentry => (h.past key entry hentry).trans hnow, h.size⟩

theorem Current.erase (h : Current maxEntries s) (hnow : s.now ≤ now) (key : String) :
    Current maxEntries ⟨s.entries.erase key, s.writes, now⟩ := by
  have hkept : ∀ (key' : String) (entry : Entry α), (s.entries.erase key)[key']? = some entry →
      s.entries[key']? = some entry := by
    intro key' entry hentry
    rw [Map.get_erase] at hentry
    split_ifs at hentry
    exact hentry
  refine ⟨?_, ?_, ?_⟩
  · exact fun key' entry hentry => h.last key' entry (hkept key' entry hentry)
  · exact fun key' entry hentry => (h.past key' entry (hkept key' entry hentry)).trans hnow
  · exact le_trans Std.ExtTreeMap.size_erase_le h.size

theorem Current.lookup (h : Current maxEntries s) (hnow : s.now ≤ now) (config : Config)
    (checked : ℕ) (key : String) :
    Current maxEntries ⟨(config.lookup checked s.entries key).2, s.writes, now⟩ := by
  unfold Config.lookup
  cases s.entries[key]? with
  | none => exact h.tick hnow
  | some entry =>
    simp only
    split_ifs
    · exact h.tick hnow
    · exact h.erase hnow key

/-- A write, after which others were removed. -/
theorem Current.write (h : Current maxEntries s) (hnow : s.now ≤ now) {key : String}
    {entry : Entry α} (hentry : entry.storedAt ≤ now) {entries : Store α}
    (hevicts : Evicts maxEntries (s.entries.insert key entry) entries) :
    Current maxEntries (s.write entries now key entry) := by
  refine ⟨?_, ?_, hevicts.size_le⟩
  · intro key' entry' hentry'
    have hkept := hevicts.kept key' entry' hentry'
    rw [Map.get_insert] at hkept
    rw [last_write]
    split_ifs at hkept ⊢ with hk
    · exact hkept
    · exact h.last key' entry' hkept
  · intro key' entry' hentry'
    have hkept := hevicts.kept key' entry' hentry'
    rw [Map.get_insert] at hkept
    split_ifs at hkept with hk
    · cases hkept
      exact hentry
    · exact (h.past key' entry' hkept).trans hnow

/-- In a cache without room there is nothing, whatever was to be written. -/
theorem Current.write_zero (h : Current 0 s) (key : String) (entry : Entry α) :
    Current 0 (s.write s.entries now key entry) := by
  have hnone : ∀ key' : String, s.entries[key']? = none := by
    intro key'
    rw [Std.ExtTreeMap.eq_empty_iff_size_eq_zero.2 (Nat.le_zero.1 h.size)]
    simp
  refine ⟨?_, ?_, h.size⟩
  · intro key' entry' hentry'
    cases (hnone key').symm.trans hentry'
  · intro key' entry' hentry'
    cases (hnone key').symm.trans hentry'

/-- An insertion that does nothing when there is no room, and evicts when there is. -/
theorem Current.insert (h : Current maxEntries s) (hnow : s.now ≤ now) {key : String} {value : α}
    {entries : Store α} (hzero : maxEntries = 0 → entries = s.entries)
    (hevicts : maxEntries ≠ 0 → Evicts maxEntries (s.entries.insert key ⟨value, now⟩) entries) :
    Current maxEntries (s.write entries now key ⟨value, now⟩) := by
  by_cases hmax : maxEntries = 0
  · rw [hzero hmax]
    subst hmax
    exact h.write_zero key _
  · exact h.write hnow le_rfl (hevicts hmax)

/-- The promise of a look-up and an insertion in a state: there are not too many entries; an insertion
removes the oldest entries and no others; what is served was written last under its key, and is
younger than the time to live. -/
structure Promises (config : Config) (get : ℕ → Store α → String → Option α × Store α)
    (insert : (String → ℕ) → ℕ → Store α → String → α → Store α) (s : Logged α) : Prop where
  size : s.entries.size ≤ config.maxEntries
  evicts : ∀ (order : String → ℕ) (now : ℕ) (key : String) (value : α), config.maxEntries ≠ 0 →
    Evicts config.maxEntries (s.entries.insert key ⟨value, now⟩)
      (insert order now s.entries key value)
  served : ∀ (now : ℕ) (key : String) (value : α), s.now ≤ now →
    (get now s.entries key).1 = some value → ∃ entry, s.last key = some entry ∧
      entry.value = value ∧ entry.storedAt ≤ now ∧ ∀ ttl ∈ config.ttl, now < entry.storedAt + ttl

theorem lt_of_isFresh {config : Config} {entry : Entry α} (h : config.isFresh now entry = true)
    (hpast : entry.storedAt ≤ now) : ∀ ttl ∈ config.ttl, now < entry.storedAt + ttl := by
  intro ttl httl
  unfold Config.isFresh at h
  rw [Option.mem_def.1 httl] at h
  have hlt := of_decide_eq_true h
  omega

/-- The invariant is enough, when the look-up serves fresh entries and the insertion evicts. -/
theorem Current.promises {config : Config} {get : ℕ → Store α → String → Option α × Store α}
    {insert : (String → ℕ) → ℕ → Store α → String → α → Store α}
    (h : Current config.maxEntries s)
    (hget : ∀ now m key value, (get now m key).1 = some value →
      ∃ entry, m[key]? = some entry ∧ config.isFresh now entry = true ∧ entry.value = value)
    (hinsert : ∀ order now m key value, config.maxEntries ≠ 0 →
      Evicts config.maxEntries (m.insert key ⟨value, now⟩) (insert order now m key value)) :
    Promises config get insert s := by
  refine ⟨h.size, fun order now key value => hinsert order now s.entries key value, ?_⟩
  intro now key value hnow hserved
  obtain ⟨entry, hentry, hfresh, hvalue⟩ := hget now s.entries key value hserved
  have hpast := (h.past key entry hentry).trans hnow
  exact ⟨entry, h.last key entry hentry, hvalue, hpast, lt_of_isFresh hfresh hpast⟩

end Logged

end Cache
end Rust
