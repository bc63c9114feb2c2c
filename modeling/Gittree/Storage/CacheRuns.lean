import Gittree.Lib.CacheRuns
import Gittree.Storage.Cache

/-!
# One map of the storage cache over time

A map of `CachedRepositories` of `crates/storage/src/cache.rs` with what the repositories do to it:
look-ups, which may remove a stale entry, insertions with an eviction, the change of a fresh entry
in place, and removals, at instants that do not decrease.

* `MapCall.current_of_reach`: every entry is the one that was written last under its key, and there
  are not too many;
* `traced_of_reach`: in every run of the repositories with a clock that does not decrease each of
  the three maps has such a history.
-/

namespace Gittree

open Rust

/-- What a repository does to a map; `stored` is the reading that is stored with a changed entry, and
is taken before the one that its age is checked with. -/
inductive MapCall (α : Type)
  | get (key : String)
  | insert (order : String → ℕ) (key : String) (value : α)
  | change (stored : ℕ) (key : String) (f : α → α)
  | remove (key : String)

namespace MapCall

variable {α : Type}

/-- A fresh entry is changed in place, a stale one removed. -/
def changeEntry (config : Cache.Config) (s : Cache.Logged α) (stored now : ℕ) (key : String)
    (f : α → α) : Cache.Logged α :=
  match s.entries[key]? with
  | some entry =>
    if config.isFresh now entry then
      s.write (s.entries.insert key ⟨f entry.value, stored⟩) now key ⟨f entry.value, stored⟩
    else ⟨s.entries.erase key, s.writes, now⟩
  | none => ⟨s.entries, s.writes, now⟩

/-- One call at an instant, and what a look-up serves. -/
def step (config : Cache.Config) (s : Cache.Logged α) :
    ℕ × MapCall α → Option (Cache.Logged α × Option α)
  | (now, .get key) =>
    let found := config.lookup now s.entries key
    some (⟨found.2, s.writes, now⟩, found.1)
  | (now, .insert order key value) =>
    some (s.write (config.put order now s.entries key value) now key ⟨value, now⟩, none)
  | (now, .change stored key f) => some (changeEntry config s stored now key f, none)
  | (now, .remove key) => some (⟨s.entries.erase key, s.writes, now⟩, none)

/-- The readings of the clock do not decrease. -/
def InTime (s : Cache.Logged α) : ℕ × MapCall α → Prop
  | (now, .change stored _ _) => s.now ≤ stored ∧ stored ≤ now
  | (now, _) => s.now ≤ now

variable {config : Cache.Config} {s t : Cache.Logged α}

theorem current_changeEntry (h : Cache.Logged.Current config.maxEntries s) {stored now : ℕ}
    (hstored : s.now ≤ stored) (hnow : stored ≤ now) (key : String) (f : α → α) :
    Cache.Logged.Current config.maxEntries (changeEntry config s stored now key f) := by
  unfold changeEntry
  cases hentry : s.entries[key]? with
  | none => exact h.tick (hstored.trans hnow)
  | some entry =>
    simp only
    split_ifs
    · refine h.write (hstored.trans hnow) hnow (.refl ?_)
      have hmem : s.entries.contains key = true :=
        Std.ExtTreeMap.mem_iff_contains.1 (Map.mem_iff.2 ⟨entry, hentry⟩)
      rw [Std.ExtTreeMap.size_insert, if_pos hmem]
      exact h.size
    · exact h.erase (hstored.trans hnow) key

theorem current_step (h : Cache.Logged.Current config.maxEntries s) {a : ℕ × MapCall α}
    {o : Option α} (hok : InTime s a) (hstep : step config s a = some (t, o)) :
    Cache.Logged.Current config.maxEntries t := by
  obtain ⟨now, call⟩ := a
  cases call with
  | get key =>
    cases hstep
    exact h.lookup hok config now key
  | insert order key value =>
    cases hstep
    exact h.write hok le_rfl (Cache.evicts_evictIfNeeded config order _)
  | remove key =>
    cases hstep
    exact h.erase hok key
  | change stored key f =>
    cases hstep
    exact current_changeEntry h hok.1 hok.2 key f

/-- The invariant of every history. -/
theorem current_of_reach (h : Runs.Reach (step config) InTime (· = {}) s) :
    Cache.Logged.Current config.maxEntries s := by
  refine h.invariant ?_ ?_
  · rintro _ rfl
    exact .empty config.maxEntries
  · exact fun _ _ _ _ hcurrent hok hstep => current_step hcurrent hok hstep

end MapCall

/-! ### The maps of the repositories -/

namespace CachedRepositories

section

variable {α : Type} {config : Cache.Config} {now checked : ℕ} {m : Cache.Store α}

/-- The map has a history up to an instant. -/
def Traced (config : Cache.Config) (now : ℕ) (m : Cache.Store α) : Prop :=
  ∃ s : Cache.Logged α, Runs.Reach (MapCall.step config) MapCall.InTime (· = {}) s ∧ s.entries = m ∧
    s.now ≤ now

theorem Traced.empty (config : Cache.Config) (now : ℕ) : Traced config now (∅ : Cache.Store α) :=
  ⟨{}, .start rfl, rfl, Nat.zero_le now⟩

theorem Traced.mono (h : Traced config now m) (hle : now ≤ checked) : Traced config checked m := by
  obtain ⟨s, hreach, hentries, hnow⟩ := h
  exact ⟨s, hreach, hentries, hnow.trans hle⟩

theorem Traced.lookup (h : Traced config now m) (key : String) :
    Traced config now (config.lookup now m key).2 := by
  obtain ⟨s, hreach, rfl, hnow⟩ := h
  exact ⟨_, .step (a := (now, .get key)) hreach hnow rfl, rfl, le_rfl⟩

theorem Traced.put (h : Traced config now m) (order : String → ℕ) (key : String) (value : α) :
    Traced config now (config.put order now m key value) := by
  obtain ⟨s, hreach, rfl, hnow⟩ := h
  exact ⟨_, .step (a := (now, .insert order key value)) hreach hnow rfl, rfl, le_rfl⟩

theorem Traced.erase (h : Traced config now m) (key : String) :
    Traced config now (m.erase key) := by
  obtain ⟨s, hreach, rfl, hnow⟩ := h
  exact ⟨_, .step (a := (now, .remove key)) hreach hnow rfl, rfl, le_rfl⟩

/-- A list is extended in place. -/
theorem Traced.extend {m : Cache.Store (List α)} (h : Traced config now m) (hle : now ≤ checked)
    (key : String) (record : α) :
    Traced config checked (CachedRepositories.extend config checked now m key record) := by
  obtain ⟨s, hreach, rfl, hnow⟩ := h
  have hchange : (MapCall.changeEntry config s now checked key fun records => records ++ [record]) =
      ⟨CachedRepositories.extend config checked now s.entries key record,
        (MapCall.changeEntry config s now checked key fun records => records ++ [record]).writes,
        checked⟩ := by
    unfold MapCall.changeEntry CachedRepositories.extend
    cases s.entries[key]? with
    | none => rfl
    | some entry =>
      simp only
      split_ifs
      · rfl
      · rfl
  refine ⟨_, .step (a := (checked, .change now key fun records => records ++ [record])) hreach
    ⟨hnow, hle⟩ rfl, ?_, ?_⟩
  · rw [hchange]
  · rw [hchange]

theorem Traced.offer (h : Traced config now m) (hle : now ≤ checked) (order : String → ℕ)
    (age : α → ℤ) (key : String) (record : α) :
    Traced config checked (CachedRepositories.offer config order age checked now m key record) := by
  unfold CachedRepositories.offer
  cases m[key]? with
  | none => exact (h.put order key record).mono hle
  | some entry =>
    simp only
    split_ifs
    · exact h.mono hle
    · exact (h.put order key record).mono hle

theorem Traced.readLatest {clock : ℕ → ℕ} (hclock : Monotone clock) {readings : ℕ}
    (h : Traced config (clock readings) m) (order : String → ℕ) (key : String) (inner : Option α) :
    Traced config (clock (readings + 2))
      (CachedRepositories.readLatest config clock order readings m key inner).2 := by
  have hlookup := h.lookup key
  unfold CachedRepositories.readLatest
  cases hread : config.lookup (clock readings) m key with
  | mk value m' =>
    rw [hread] at hlookup
    cases value with
    | some cached => exact hlookup.mono (hclock (by omega))
    | none =>
      cases inner with
      | none => exact hlookup.mono (hclock (by omega))
      | some record =>
        have hnext := hlookup.mono (hclock (Nat.le_succ readings))
        exact (hnext.put order key record).mono (hclock (Nat.le_succ (readings + 1)))

end

/-- The three maps have histories. -/
structure AllTraced (config : Cache.Config) (clock : ℕ → ℕ) (s : CachedRepositories) : Prop where
  lists : Traced config (clock s.readings) s.lists
  announcements : Traced config (clock s.readings) s.latestAnnouncements
  states : Traced config (clock s.readings) s.latestStates

variable {config : Cache.Config} {clock : ℕ → ℕ} {s t : CachedRepositories}

theorem AllTraced.listAnnouncements (hclock : Monotone clock) (h : AllTraced config clock s)
    (orders : Orders) (pubkey : List UInt8) (identifier : String) :
    AllTraced config clock (s.listAnnouncements config clock orders pubkey identifier).2 := by
  have hlookup := h.lists.lookup (repoKey pubkey identifier)
  unfold CachedRepositories.listAnnouncements
  split_ifs
  · exact h
  · simp only
    have hnext : clock s.readings ≤ clock (s.readings + 1) := hclock (Nat.le_succ _)
    have hlast : clock (s.readings + 1) ≤ clock (s.readings + 2) := hclock (Nat.le_succ _)
    cases hread : config.lookup (clock s.readings) s.lists (repoKey pubkey identifier) with
    | mk value lists =>
      rw [hread] at hlookup
      cases value with
      | some cached => exact ⟨hlookup.mono hnext, h.announcements.mono hnext, h.states.mono hnext⟩
      | none =>
        refine ⟨((hlookup.mono hnext).put _ _ _).mono hlast, ?_, h.states.mono (hnext.trans hlast)⟩
        have hlatest := h.announcements.mono hnext
        simp only
        split_ifs
        · exact (hlatest.erase _).mono hlast
        · cases maxByKey RepoAnnouncementRecord.createdAt
              (s.announcements.listAnnouncements pubkey identifier) with
          | none => exact hlatest.mono hlast
          | some record => exact (hlatest.put _ _ _).mono hlast

theorem AllTraced.step (hclock : Monotone clock) (h : AllTraced config clock s)
    {a : Operation × Orders} {answer : Answer}
    (hstep : CachedRepositories.step config clock s a = some (t, answer)) :
    AllTraced config clock t := by
  obtain ⟨operation, orders⟩ := a
  cases operation with
  | insertAnnouncement record =>
    cases hstep
    unfold insertAnnouncement
    split_ifs
    · exact ⟨h.lists, h.announcements, h.states⟩
    · refine ⟨?_, ?_, h.states.mono (hclock (by simp only; omega))⟩
      · exact (h.lists.extend (hclock (Nat.le_succ _)) _ _).mono (hclock (by simp only; omega))
      · exact (h.announcements.offer (hclock (by omega)) _ _ _ _).mono (hclock (by simp only; omega))
  | listAnnouncements pubkey identifier =>
    cases hstep
    exact h.listAnnouncements hclock orders pubkey identifier
  | latestAnnouncement pubkey identifier =>
    cases hstep
    unfold latestAnnouncement
    simp only
    split_ifs
    · exact h
    · exact ⟨h.lists.mono (hclock (by simp only; omega)), h.announcements.readLatest hclock _ _ _,
        h.states.mono (hclock (by simp only; omega))⟩
  | insertState record =>
    cases hstep
    unfold insertState
    split_ifs
    · exact ⟨h.lists, h.announcements, h.states⟩
    · refine ⟨h.lists.mono (hclock (by simp only; omega)),
        h.announcements.mono (hclock (by simp only; omega)), ?_⟩
      exact (h.states.offer (hclock (by omega)) _ _ _ _).mono (hclock (by simp only; omega))
  | latestState pubkey identifier =>
    cases hstep
    unfold latestState
    simp only
    split_ifs
    · exact h
    · exact ⟨h.lists.mono (hclock (by simp only; omega)),
        h.announcements.mono (hclock (by simp only; omega)), h.states.readLatest hclock _ _ _⟩

/-- In every run the three maps have histories, so that what holds of all histories holds of them. -/
theorem traced_of_reach {ok : CachedRepositories → Operation × Orders → Prop}
    (hclock : Monotone clock)
    (h : Runs.Reach (CachedRepositories.step config clock) ok Cold s) :
    AllTraced config clock s := by
  refine h.invariant ?_ fun _ _ _ _ htraced _ hstep => htraced.step hclock hstep
  rintro s ⟨hlists, hannouncements, hstates⟩
  refine ⟨?_, ?_, ?_⟩
  · rw [hlists]
    exact .empty config _
  · rw [hannouncements]
    exact .empty config _
  · rw [hstates]
    exact .empty config _

/-- None of the maps ever has more entries than the bound. -/
theorem size_le_of_reach {ok : CachedRepositories → Operation × Orders → Prop}
    (hclock : Monotone clock)
    (h : Runs.Reach (CachedRepositories.step config clock) ok Cold s) :
    s.lists.size ≤ config.maxEntries ∧ s.latestAnnouncements.size ≤ config.maxEntries ∧
      s.latestStates.size ≤ config.maxEntries := by
  obtain ⟨⟨lists, hlists, hl, -⟩, ⟨announcements, hannouncements, ha, -⟩,
    ⟨states, hstates, hs, -⟩⟩ := traced_of_reach hclock h
  rw [← hl, ← ha, ← hs]
  exact ⟨(MapCall.current_of_reach hlists).size, (MapCall.current_of_reach hannouncements).size,
    (MapCall.current_of_reach hstates).size⟩

end CachedRepositories
end Gittree
