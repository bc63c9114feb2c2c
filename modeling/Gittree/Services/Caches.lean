import Gittree.Services.Admission
import Gittree.Storage.CacheRuns

/-!
# The caches over time

`AdmissionCache` of `services/admission/src/lib.rs`, `StateCache` of `services/state/src/lib.rs` and
the maps of `CachedRepositories` under every sequence of look-ups and insertions, at instants that
do not decrease.  The hash maps are iterated in an arbitrary order at every eviction.

* `Admission.evicts_evictOldest`: the eviction by sorting;
* `StateCache`: the three maps of the state service, evicted by repeated minimum;
* `caches_bounded_and_fresh`: no map has too many entries, the oldest ones go, and what is served was
  stored last and is young enough.
-/

namespace Gittree

open Rust

/-- A look-up, or an insertion with the order of iteration for its eviction. -/
inductive CacheCall (α : Type)
  | get (key : String)
  | insert (order : String → ℕ) (key : String) (value : α)

/-- One call of a cache at an instant, and what a look-up serves. -/
def CacheCall.step {α : Type} (get : ℕ → Cache.Store α → String → Option α × Cache.Store α)
    (insert : (String → ℕ) → ℕ → Cache.Store α → String → α → Cache.Store α) (s : Cache.Logged α) :
    ℕ × CacheCall α → Option (Cache.Logged α × Option α)
  | (now, .get key) =>
    let found := get now s.entries key
    some (⟨found.2, s.writes, now⟩, found.1)
  | (now, .insert order key value) =>
    some (s.write (insert order now s.entries key value) now key ⟨value, now⟩, none)

/-! ### The admission cache -/

namespace Admission

variable {config : Cache.Config}

theorem evicts_evictOldest {α : Type} (maxEntries : ℕ) (order : String → ℕ) (m : Cache.Store α) :
    Cache.Evicts maxEntries m (evictOldest maxEntries order m) := by
  unfold evictOldest
  split_ifs with hsize
  · exact .refl hsize
  · refine Cache.evicts_eraseOldest
      ((List.perm_insertionSort _ _).trans (List.perm_insertionSort _ _)) ?_
    have : IsTrans (String × Cache.Entry α) fun a b => a.2.storedAt ≤ b.2.storedAt :=
      ⟨fun _ _ _ => le_trans⟩
    have : Std.Total fun a b : String × Cache.Entry α => a.2.storedAt ≤ b.2.storedAt :=
      ⟨fun a b => le_total a.2.storedAt b.2.storedAt⟩
    exact List.pairwise_insertionSort _ _

theorem evicts_cacheInsert (order : String → ℕ) (now : ℕ) (entries : Cache.Store AdmissionDecision)
    (key : String) (decision : AdmissionDecision) (h : config.maxEntries ≠ 0) :
    Cache.Evicts config.maxEntries (entries.insert key ⟨decision, now⟩)
      (cacheInsert config order now entries key decision) := by
  unfold cacheInsert
  rw [if_neg h]
  exact evicts_evictOldest config.maxEntries order _

theorem exists_of_cacheGet (now : ℕ) (entries : Cache.Store AdmissionDecision) (key : String)
    (decision : AdmissionDecision) (h : (cacheGet config now entries key).1 = some decision) :
    ∃ entry, entries[key]? = some entry ∧ config.isFresh now entry = true ∧
      entry.value = decision := by
  unfold cacheGet at h
  split_ifs at h
  exact Cache.exists_of_lookup h

/-- The runs of `AdmissionCache`. -/
def cacheStep (config : Cache.Config) (s : Cache.Logged AdmissionDecision) :
    ℕ × CacheCall AdmissionDecision →
      Option (Cache.Logged AdmissionDecision × Option AdmissionDecision) :=
  CacheCall.step (cacheGet config) (cacheInsert config) s

theorem current_cacheStep {s t : Cache.Logged AdmissionDecision}
    (h : Cache.Logged.Current config.maxEntries s) {a : ℕ × CacheCall AdmissionDecision}
    {o : Option AdmissionDecision} (hnow : s.now ≤ a.1) (hstep : cacheStep config s a = some (t, o)) :
    Cache.Logged.Current config.maxEntries t := by
  obtain ⟨now, call⟩ := a
  cases call with
  | get key =>
    cases hstep
    unfold cacheGet
    split_ifs
    · exact h.tick hnow
    · exact h.lookup hnow config now key
  | insert order key decision =>
    cases hstep
    exact h.insert hnow (fun hzero => if_pos hzero)
      (evicts_cacheInsert order now s.entries key decision)

theorem promises_of_reach {s : Cache.Logged AdmissionDecision}
    (h : Runs.Reach (cacheStep config) (fun s a => s.now ≤ a.1) (· = {}) s) :
    Cache.Logged.Promises config (cacheGet config) (cacheInsert config) s := by
  have hcurrent : Cache.Logged.Current config.maxEntries s := by
    refine h.invariant ?_ fun _ _ _ _ hs hnow hstep => current_cacheStep hs hnow hstep
    rintro _ rfl
    exact .empty config.maxEntries
  exact hcurrent.promises exists_of_cacheGet evicts_cacheInsert

end Admission

/-! ### The state cache -/

/-- `StateCache`: the entries for the state, the maintainers and the relay compatibility of
requests. -/
structure StateCache (σ μ ρ : Type) where
  stateEntries : Cache.Store σ := ∅
  maintainerEntries : Cache.Store μ := ∅
  relayEntries : Cache.Store ρ := ∅

namespace StateCache

section

variable {α : Type} (config : Cache.Config)

/-- `evict_if_needed`, which takes at most as many rounds as there are entries. -/
def evictIfNeeded (order : String → ℕ) (m : Cache.Store α) : Cache.Store α :=
  Cache.evictLoop order config.maxEntries m.size m

/-- The look-up of the three maps. -/
def getEntry (now : ℕ) (m : Cache.Store α) (key : String) : Option α × Cache.Store α :=
  if config.maxEntries = 0 then (none, m) else config.lookup now m key

/-- The insertion of the three maps. -/
def insertEntry (order : String → ℕ) (now : ℕ) (m : Cache.Store α) (key : String) (value : α) :
    Cache.Store α :=
  if config.maxEntries = 0 then m else evictIfNeeded config order (m.insert key ⟨value, now⟩)

end

section

variable {σ μ ρ : Type} (config : Cache.Config) (now : ℕ) (c : StateCache σ μ ρ) (key : String)

/-- `get_state`. -/
def getState : Option σ × StateCache σ μ ρ :=
  let found := getEntry config now c.stateEntries key
  (found.1, { c with stateEntries := found.2 })

/-- `insert_state`. -/
def insertState (order : String → ℕ) (value : σ) : StateCache σ μ ρ :=
  { c with stateEntries := insertEntry config order now c.stateEntries key value }

/-- `get_maintainers`. -/
def getMaintainers : Option μ × StateCache σ μ ρ :=
  let found := getEntry config now c.maintainerEntries key
  (found.1, { c with maintainerEntries := found.2 })

/-- `insert_maintainers`. -/
def insertMaintainers (order : String → ℕ) (value : μ) : StateCache σ μ ρ :=
  { c with maintainerEntries := insertEntry config order now c.maintainerEntries key value }

/-- `get_relay_compatibility`. -/
def getRelayCompatibility : Option ρ × StateCache σ μ ρ :=
  let found := getEntry config now c.relayEntries key
  (found.1, { c with relayEntries := found.2 })

/-- `insert_relay_compatibility`. -/
def insertRelayCompatibility (order : String → ℕ) (value : ρ) : StateCache σ μ ρ :=
  { c with relayEntries := insertEntry config order now c.relayEntries key value }

end

/-- The calls. -/
inductive Call (σ μ ρ : Type)
  | getState (key : String)
  | insertState (order : String → ℕ) (key : String) (value : σ)
  | getMaintainers (key : String)
  | insertMaintainers (order : String → ℕ) (key : String) (value : μ)
  | getRelayCompatibility (key : String)
  | insertRelayCompatibility (order : String → ℕ) (key : String) (value : ρ)

/-- What a call serves. -/
inductive Served (σ μ ρ : Type)
  | state (value : Option σ)
  | maintainers (value : Option μ)
  | relayCompatibility (value : Option ρ)
  | nothing

/-- The cache with what was inserted so far, the last first, and the last reading of the clock. -/
structure History (σ μ ρ : Type) where
  cache : StateCache σ μ ρ := {}
  states : List (String × Cache.Entry σ) := []
  maintainers : List (String × Cache.Entry μ) := []
  relays : List (String × Cache.Entry ρ) := []
  now : ℕ := 0

section

variable {σ μ ρ : Type} (config : Cache.Config)

/-- One call at an instant. -/
def step (h : History σ μ ρ) :
    ℕ × Call σ μ ρ → Option (History σ μ ρ × Served σ μ ρ)
  | (now, .getState key) =>
    let found := getState config now h.cache key
    some ({ h with cache := found.2, now }, .state found.1)
  | (now, .insertState order key value) =>
    some ({ h with
      cache := insertState config now h.cache key order value
      states := (key, ⟨value, now⟩) :: h.states
      now }, .nothing)
  | (now, .getMaintainers key) =>
    let found := getMaintainers config now h.cache key
    some ({ h with cache := found.2, now }, .maintainers found.1)
  | (now, .insertMaintainers order key value) =>
    some ({ h with
      cache := insertMaintainers config now h.cache key order value
      maintainers := (key, ⟨value, now⟩) :: h.maintainers
      now }, .nothing)
  | (now, .getRelayCompatibility key) =>
    let found := getRelayCompatibility config now h.cache key
    some ({ h with cache := found.2, now }, .relayCompatibility found.1)
  | (now, .insertRelayCompatibility order key value) =>
    some ({ h with
      cache := insertRelayCompatibility config now h.cache key order value
      relays := (key, ⟨value, now⟩) :: h.relays
      now }, .nothing)

variable {config}

/-- The history of each map. -/
def History.ofStates (h : History σ μ ρ) : Cache.Logged σ := ⟨h.cache.stateEntries, h.states, h.now⟩

def History.ofMaintainers (h : History σ μ ρ) : Cache.Logged μ :=
  ⟨h.cache.maintainerEntries, h.maintainers, h.now⟩

def History.ofRelays (h : History σ μ ρ) : Cache.Logged ρ := ⟨h.cache.relayEntries, h.relays, h.now⟩

/-! ### What the maps hold -/

variable {α : Type}

theorem evicts_insertEntry (order : String → ℕ) (now : ℕ) (m : Cache.Store α) (key : String)
    (value : α) (h : config.maxEntries ≠ 0) :
    Cache.Evicts config.maxEntries (m.insert key ⟨value, now⟩)
      (insertEntry config order now m key value) := by
  unfold insertEntry evictIfNeeded
  rw [if_neg h]
  exact Cache.evicts_evictLoop order (Nat.sub_le _ _)

theorem exists_of_getEntry (now : ℕ) (m : Cache.Store α) (key : String) (value : α)
    (h : (getEntry config now m key).1 = some value) :
    ∃ entry, m[key]? = some entry ∧ config.isFresh now entry = true ∧ entry.value = value := by
  unfold getEntry at h
  split_ifs at h
  exact Cache.exists_of_lookup h

theorem current_getEntry {s : Cache.Logged α} (h : Cache.Logged.Current config.maxEntries s)
    {now : ℕ} (hnow : s.now ≤ now) (key : String) :
    Cache.Logged.Current config.maxEntries
      ⟨(getEntry config now s.entries key).2, s.writes, now⟩ := by
  unfold getEntry
  split_ifs
  · exact h.tick hnow
  · exact h.lookup hnow config now key

theorem current_insertEntry {s : Cache.Logged α} (h : Cache.Logged.Current config.maxEntries s)
    {now : ℕ} (hnow : s.now ≤ now) (order : String → ℕ) (key : String) (value : α) :
    Cache.Logged.Current config.maxEntries
      (s.write (insertEntry config order now s.entries key value) now key ⟨value, now⟩) :=
  h.insert hnow (fun hzero => if_pos hzero) (evicts_insertEntry order now s.entries key value)

/-- The invariant of the three maps. -/
structure AllCurrent (maxEntries : ℕ) (h : History σ μ ρ) : Prop where
  states : Cache.Logged.Current maxEntries h.ofStates
  maintainers : Cache.Logged.Current maxEntries h.ofMaintainers
  relays : Cache.Logged.Current maxEntries h.ofRelays

theorem AllCurrent.step {h t : History σ μ ρ} (hcurrent : AllCurrent config.maxEntries h)
    {a : ℕ × Call σ μ ρ} {o : Served σ μ ρ} (hnow : h.now ≤ a.1)
    (hstep : StateCache.step config h a = some (t, o)) : AllCurrent config.maxEntries t := by
  obtain ⟨hstates, hmaintainers, hrelays⟩ := hcurrent
  obtain ⟨now, call⟩ := a
  cases call with
  | getState key =>
    cases hstep
    exact ⟨current_getEntry hstates hnow key, hmaintainers.tick hnow, hrelays.tick hnow⟩
  | insertState order key value =>
    cases hstep
    exact ⟨current_insertEntry hstates hnow order key value, hmaintainers.tick hnow,
      hrelays.tick hnow⟩
  | getMaintainers key =>
    cases hstep
    exact ⟨hstates.tick hnow, current_getEntry hmaintainers hnow key, hrelays.tick hnow⟩
  | insertMaintainers order key value =>
    cases hstep
    exact ⟨hstates.tick hnow, current_insertEntry hmaintainers hnow order key value,
      hrelays.tick hnow⟩
  | getRelayCompatibility key =>
    cases hstep
    exact ⟨hstates.tick hnow, hmaintainers.tick hnow, current_getEntry hrelays hnow key⟩
  | insertRelayCompatibility order key value =>
    cases hstep
    exact ⟨hstates.tick hnow, hmaintainers.tick hnow,
      current_insertEntry hrelays hnow order key value⟩

theorem current_of_reach {h : History σ μ ρ}
    (hreach : Runs.Reach (step config) (fun h a => h.now ≤ a.1) (· = {}) h) :
    AllCurrent config.maxEntries h := by
  refine hreach.invariant ?_ fun _ _ _ _ hcurrent hnow hstep => hcurrent.step hnow hstep
  rintro _ rfl
  exact ⟨.empty config.maxEntries, .empty config.maxEntries, .empty config.maxEntries⟩

theorem promises {s : Cache.Logged α} (h : Cache.Logged.Current config.maxEntries s) :
    Cache.Logged.Promises config (getEntry config) (insertEntry config) s :=
  h.promises exists_of_getEntry evicts_insertEntry

end

end StateCache

/-- In every run of the admission cache, of the state cache and of a map of the storage cache, with
readings that do not decrease: there are never too many entries, an insertion removes the oldest ones
only, and what is served was stored last and is younger than the time to live.  Both evictions come
to an end: any number of rounds from the number of entries on leaves no entry too many. -/
theorem caches_bounded_and_fresh (config : Cache.Config) (σ μ ρ β : Type) :
    (∀ s, Runs.Reach (Admission.cacheStep config) (fun s a => s.now ≤ a.1) (· = {}) s →
        Cache.Logged.Promises config (Admission.cacheGet config) (Admission.cacheInsert config) s) ∧
      (∀ h : StateCache.History σ μ ρ,
        Runs.Reach (StateCache.step config) (fun h a => h.now ≤ a.1) (· = {}) h →
          Cache.Logged.Promises config (StateCache.getEntry config) (StateCache.insertEntry config)
              h.ofStates ∧
            Cache.Logged.Promises config (StateCache.getEntry config) (StateCache.insertEntry config)
              h.ofMaintainers ∧
            Cache.Logged.Promises config (StateCache.getEntry config) (StateCache.insertEntry config)
              h.ofRelays) ∧
      (∀ s : Cache.Logged β, Runs.Reach (MapCall.step config) MapCall.InTime (· = {}) s →
        Cache.Logged.Promises config config.lookup config.put s) ∧
      (∀ (order : String → ℕ) (m : Cache.Store β),
        Cache.Evicts config.maxEntries m (Admission.evictOldest config.maxEntries order m) ∧
          ∀ rounds, m.size ≤ rounds →
            Cache.Evicts config.maxEntries m (Cache.evictLoop order config.maxEntries rounds m) ∧
              Cache.evictLoop order config.maxEntries rounds m =
                Cache.evictLoop order config.maxEntries m.size m) := by
  refine ⟨fun s h => Admission.promises_of_reach h, ?_, ?_, ?_⟩
  · intro h hreach
    obtain ⟨hstates, hmaintainers, hrelays⟩ := StateCache.current_of_reach hreach
    exact ⟨StateCache.promises hstates, StateCache.promises hmaintainers,
      StateCache.promises hrelays⟩
  · intro s hreach
    exact (MapCall.current_of_reach hreach).promises (fun _ _ _ _ => Cache.exists_of_lookup)
      fun order now m key value _ => Cache.evicts_evictIfNeeded config order _
  · intro order m
    refine ⟨Admission.evicts_evictOldest config.maxEntries order m, ?_⟩
    intro rounds hrounds
    have henough : m.size - config.maxEntries ≤ rounds := by
      omega
    exact ⟨Cache.evicts_evictLoop order henough,
      Cache.evictLoop_eq_evictLoop order (Nat.sub_le _ _) henough⟩

end Gittree
