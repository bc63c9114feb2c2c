import Gittree.Lib.Map

/-!
# Caches with a time to live and a bound

A cache holds values under text keys, each with the instant at which it was stored.  An entry is
served while it is younger than the time to live; when there are too many entries the oldest go
first, and of several oldest the one that the iteration of the hash map meets first.

`Sound P m` says that every entry of the cache has the property `P`, which may depend on its key.

* `Sound.evictIfNeeded`, `Sound.insert`, `Sound.erase`, `Sound.mono`: the ways to keep it;
* `of_lookup`: what is served has the property.
-/

namespace Rust
namespace Cache

/-- The time to live, if there is one, and the greatest number of entries. -/
structure Config where
  ttl : Option ℕ
  maxEntries : ℕ

/-- A value and the instant at which it was stored. -/
structure Entry (α : Type) where
  value : α
  storedAt : ℕ

/-- The entries by key. -/
abbrev Store (α : Type) : Type := Map (Entry α)

variable {α : Type}

/-- `is_fresh` at an instant. -/
def Config.isFresh (config : Config) (now : ℕ) (entry : Entry α) : Bool :=
  match config.ttl with
  | some ttl => now - entry.storedAt < ttl
  | none => true

/-- With a time to live of zero nothing is served. -/
theorem not_isFresh_of_zero {config : Config} (h : config.ttl = some 0) (now : ℕ)
    (entry : Entry α) : config.isFresh now entry = false := by
  simp [Config.isFresh, h]

/-- The key of the oldest entry; `order` is the order of iteration. -/
def oldest (order : String → ℕ) (m : Store α) : Option String :=
  let entries := m.toList.insertionSort fun a b => order a.1 ≤ order b.1
  (entries.foldl (fun best entry =>
    match best with
    | none => some entry
    | some b => if entry.2.storedAt < b.2.storedAt then some entry else some b) none).map Prod.fst

/-- The loop of `evict_if_needed`, which takes at most as many rounds as there are entries. -/
def evictLoop (order : String → ℕ) (maxEntries : ℕ) : ℕ → Store α → Store α
  | 0, m => m
  | rounds + 1, m =>
    if m.size > maxEntries then
      match oldest order m with
      | some key => evictLoop order maxEntries rounds (m.erase key)
      | none => m
    else m

/-- `evict_if_needed`. -/
def Config.evictIfNeeded (config : Config) (order : String → ℕ) (m : Store α) : Store α :=
  if config.maxEntries = 0 then ∅ else evictLoop order config.maxEntries m.size m

/-- A look-up: the value if the entry is fresh, and the cache without it if it is not. -/
def Config.lookup (config : Config) (now : ℕ) (m : Store α) (key : String) : Option α × Store α :=
  match m[key]? with
  | some entry => if config.isFresh now entry then (some entry.value, m) else (none, m.erase key)
  | none => (none, m)

/-- A new entry, for which others may have to go. -/
def Config.put (config : Config) (order : String → ℕ) (now : ℕ) (m : Store α) (key : String)
    (value : α) : Store α :=
  config.evictIfNeeded order (m.insert key ⟨value, now⟩)

/-! ### Properties of all entries -/

/-- Every entry has the property. -/
def Sound (P : String → α → Prop) (m : Store α) : Prop :=
  ∀ (key : String) (entry : Entry α), m[key]? = some entry → P key entry.value

variable {P Q : String → α → Prop} {m : Store α}

theorem Sound.empty : Sound P (∅ : Store α) := by
  intro key entry h
  simp at h

theorem Sound.mono (h : Sound P m) (hPQ : ∀ key value, P key value → Q key value) : Sound Q m :=
  fun key entry hentry => hPQ key entry.value (h key entry hentry)

theorem Sound.insert (h : Sound P m) {key : String} {entry : Entry α} (hentry : P key entry.value) :
    Sound P (m.insert key entry) := by
  intro key' entry' h'
  rw [Map.get_insert] at h'
  split_ifs at h' with hk
  · cases h'
    exact hk ▸ hentry
  · exact h key' entry' h'

/-- All other entries may be known to have the property only. -/
theorem Sound.insert_of_ne {key : String} {entry : Entry α}
    (h : ∀ key' entry', key' ≠ key → m[key']? = some entry' → P key' entry'.value)
    (hentry : P key entry.value) : Sound P (m.insert key entry) := by
  intro key' entry' h'
  rw [Map.get_insert] at h'
  split_ifs at h' with hk
  · cases h'
    exact hk ▸ hentry
  · exact h key' entry' (Ne.symm hk) h'

theorem Sound.erase (h : Sound P m) (key : String) : Sound P (m.erase key) := by
  intro key' entry' h'
  rw [Map.get_erase] at h'
  split_ifs at h' with hk
  exact h key' entry' h'

theorem Sound.evictLoop (h : Sound P m) (order : String → ℕ) (maxEntries rounds : ℕ) :
    Sound P (evictLoop order maxEntries rounds m) := by
  induction rounds generalizing m with
  | zero => exact h
  | succ rounds ih =>
    unfold Cache.evictLoop
    split_ifs with hsize
    · cases oldest order m with
      | none => exact h
      | some key => exact ih (h.erase key)
    · exact h

/-- Eviction removes entries and changes none. -/
theorem Sound.evictIfNeeded (h : Sound P m) (config : Config) (order : String → ℕ) :
    Sound P (config.evictIfNeeded order m) := by
  unfold Config.evictIfNeeded
  split_ifs with hzero
  · exact .empty
  · exact h.evictLoop order _ _

theorem Sound.put (h : Sound P m) (config : Config) (order : String → ℕ) (now : ℕ) {key : String}
    {value : α} (hvalue : P key value) : Sound P (config.put order now m key value) :=
  Sound.evictIfNeeded (h.insert hvalue) config order

theorem Sound.lookup (h : Sound P m) (config : Config) (now : ℕ) (key : String) :
    Sound P (config.lookup now m key).2 := by
  unfold Config.lookup
  cases m[key]? with
  | none => exact h
  | some entry =>
    simp only
    split_ifs with hfresh
    · exact h
    · exact h.erase key

/-- What is served is a fresh entry. -/
theorem exists_of_lookup {config : Config} {now : ℕ} {key : String} {value : α}
    (h : (config.lookup now m key).1 = some value) :
    ∃ entry, m[key]? = some entry ∧ config.isFresh now entry = true ∧ entry.value = value := by
  unfold Config.lookup at h
  cases hentry : m[key]? with
  | none =>
    rw [hentry] at h
    cases h
  | some entry =>
    rw [hentry] at h
    simp only at h
    split_ifs at h with hfresh
    exact ⟨entry, rfl, hfresh, Option.some.inj h⟩

end Cache
end Rust
