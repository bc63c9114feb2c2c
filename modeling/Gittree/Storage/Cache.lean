import Gittree.Lib.Cache
import Gittree.Lib.Runs
import Gittree.Storage.Repos

/-!
# The storage cache

`CachedRepositories` of `crates/storage/src/cache.rs` over `InMemoryRepositories`: the lists of
announcements, the newest announcements and the newest states of repositories are kept in three
caches, which are filled by reads and brought up to date by writes.

The clock is a function of the number of its readings.  Every operation has its own readings, as
many as it may make; `Orders` are the orders in which the hash maps are iterated at an operation.

* `CachedRepositories.Coherent`: the entries of the caches are what the tables hold;
* `answer_of_reach`: a read answers what the tables hold, as long as no record that is older than
  what is stored meets a cache without a fresh entry for its repository.
-/

namespace Gittree

open Rust

/-- The orders in which the cache of lists and a cache of newest records are iterated. -/
structure Orders where
  lists : String → ℕ
  latest : String → ℕ

/-- `CachedRepositories`: the tables of the inner repositories, the caches, and the number of
readings of the clock. -/
structure CachedRepositories where
  announcements : Announcements
  states : States
  lists : Cache.Store (List RepoAnnouncementRecord) := ∅
  latestAnnouncements : Cache.Store RepoAnnouncementRecord := ∅
  latestStates : Cache.Store RepoStateRecord := ∅
  readings : ℕ := 0

namespace CachedRepositories

section

variable {α : Type} (config : Cache.Config) (clock : ℕ → ℕ)

/-- The cached list of a repository after an insertion: a fresh list is extended, a stale one
dropped. -/
def extend (checked now : ℕ) (m : Cache.Store (List α)) (key : String) (record : α) :
    Cache.Store (List α) :=
  match m[key]? with
  | some entry =>
    if config.isFresh checked entry then m.insert key ⟨entry.value ++ [record], now⟩
    else m.erase key
  | none => m

/-- The cached newest record of a repository after an insertion: the new record, unless a fresh entry
is newer. -/
def offer (order : String → ℕ) (age : α → ℤ) (checked now : ℕ) (m : Cache.Store α) (key : String)
    (record : α) : Cache.Store α :=
  match m[key]? with
  | some entry =>
    if config.isFresh checked entry ∧ age entry.value > age record then m
    else config.put order now m key record
  | none => config.put order now m key record

/-- `insert_announcement`. -/
def insertAnnouncement (orders : Orders) (s : CachedRepositories)
    (record : RepoAnnouncementRecord) : CachedRepositories :=
  if config.maxEntries = 0 then
    { s with announcements := s.announcements.insertAnnouncement record }
  else
    let key := repoKey record.pubkey record.identifier
    let now := clock s.readings
    { s with
      announcements := s.announcements.insertAnnouncement record
      lists := extend config (clock (s.readings + 1)) now s.lists key record
      latestAnnouncements := offer config orders.latest RepoAnnouncementRecord.createdAt
        (clock (s.readings + 2)) now s.latestAnnouncements key record
      readings := s.readings + 3 }

/-- `list_announcements`. -/
def listAnnouncements (orders : Orders) (s : CachedRepositories) (pubkey : List UInt8)
    (identifier : String) : List RepoAnnouncementRecord × CachedRepositories :=
  if config.maxEntries = 0 then (s.announcements.listAnnouncements pubkey identifier, s)
  else
    let key := repoKey pubkey identifier
    match config.lookup (clock s.readings) s.lists key with
    | (some cached, lists) => (cached, { s with lists, readings := s.readings + 1 })
    | (none, lists) =>
      let records := s.announcements.listAnnouncements pubkey identifier
      let now := clock (s.readings + 1)
      (records,
        { s with
          lists := config.put orders.lists now lists key records
          latestAnnouncements :=
            if records = [] then s.latestAnnouncements.erase key
            else
              match maxByKey RepoAnnouncementRecord.createdAt records with
              | some record => config.put orders.latest now s.latestAnnouncements key record
              | none => s.latestAnnouncements
          readings := s.readings + 2 })

/-- A read of a newest record through its cache; `inner` is the answer of the inner repository. -/
def readLatest (order : String → ℕ) (readings : ℕ) (m : Cache.Store α) (key : String)
    (inner : Option α) : Option α × Cache.Store α :=
  match config.lookup (clock readings) m key with
  | (some cached, m) => (some cached, m)
  | (none, m) =>
    match inner with
    | none => (none, m)
    | some record => (some record, config.put order (clock (readings + 1)) m key record)

/-- `latest_announcement`. -/
def latestAnnouncement (orders : Orders) (s : CachedRepositories) (pubkey : List UInt8)
    (identifier : String) : Option RepoAnnouncementRecord × CachedRepositories :=
  let inner := s.announcements.latestAnnouncement pubkey identifier
  if config.maxEntries = 0 then (inner, s)
  else
    let read := readLatest config clock orders.latest s.readings s.latestAnnouncements
      (repoKey pubkey identifier) inner
    (read.1, { s with latestAnnouncements := read.2, readings := s.readings + 2 })

/-- `insert_state`. -/
def insertState (orders : Orders) (s : CachedRepositories) (record : RepoStateRecord) :
    CachedRepositories :=
  if config.maxEntries = 0 then { s with states := s.states.insertState record }
  else
    { s with
      states := s.states.insertState record
      latestStates := offer config orders.latest RepoStateRecord.createdAt (clock (s.readings + 1))
        (clock s.readings) s.latestStates (repoKey record.pubkey record.identifier) record
      readings := s.readings + 2 }

/-- `latest_state`. -/
def latestState (orders : Orders) (s : CachedRepositories) (pubkey : List UInt8)
    (identifier : String) : Option RepoStateRecord × CachedRepositories :=
  let inner := s.states.latestState pubkey identifier
  if config.maxEntries = 0 then (inner, s)
  else
    let read := readLatest config clock orders.latest s.readings s.latestStates
      (repoKey pubkey identifier) inner
    (read.1, { s with latestStates := read.2, readings := s.readings + 2 })

end

/-! ### Runs -/

/-- The operations. -/
inductive Operation
  | insertAnnouncement (record : RepoAnnouncementRecord)
  | listAnnouncements (pubkey : List UInt8) (identifier : String)
  | latestAnnouncement (pubkey : List UInt8) (identifier : String)
  | insertState (record : RepoStateRecord)
  | latestState (pubkey : List UInt8) (identifier : String)

/-- The answers to operations. -/
inductive Answer
  | done
  | announcements (records : List RepoAnnouncementRecord)
  | announcement (record : Option RepoAnnouncementRecord)
  | state (record : Option RepoStateRecord)
  deriving DecidableEq

/-- One operation through the cache. -/
def step (config : Cache.Config) (clock : ℕ → ℕ) (s : CachedRepositories) :
    Operation × Orders → Option (CachedRepositories × Answer)
  | (.insertAnnouncement record, orders) =>
    some (s.insertAnnouncement config clock orders record, .done)
  | (.listAnnouncements pubkey identifier, orders) =>
    let read := s.listAnnouncements config clock orders pubkey identifier
    some (read.2, .announcements read.1)
  | (.latestAnnouncement pubkey identifier, orders) =>
    let read := s.latestAnnouncement config clock orders pubkey identifier
    some (read.2, .announcement read.1)
  | (.insertState record, orders) => some (s.insertState config clock orders record, .done)
  | (.latestState pubkey identifier, orders) =>
    let read := s.latestState config clock orders pubkey identifier
    some (read.2, .state read.1)

/-- What the inner repositories answer to an operation. -/
def innerAnswer (s : CachedRepositories) : Operation → Answer
  | .insertAnnouncement _ | .insertState _ => .done
  | .listAnnouncements pubkey identifier =>
    .announcements (s.announcements.listAnnouncements pubkey identifier)
  | .latestAnnouncement pubkey identifier =>
    .announcement (s.announcements.latestAnnouncement pubkey identifier)
  | .latestState pubkey identifier => .state (s.states.latestState pubkey identifier)

/-- There is a fresh entry for a key. -/
def hasFresh {α : Type} (config : Cache.Config) (now : ℕ) (m : Cache.Store α) (key : String) : Bool :=
  m[key]?.any fun entry => config.isFresh now entry

/-- The operations that leave the caches right: a record that is older than one of its repository
that is stored is inserted only while the cache has a fresh entry for the repository.  With no room
in the caches, or no time to live, there is nothing to ask for. -/
def inOrder (config : Cache.Config) (clock : ℕ → ℕ) (s : CachedRepositories) :
    Operation × Orders → Bool
  | (.insertAnnouncement record, _) =>
    config.maxEntries == 0 || config.ttl == some 0 ||
      hasFresh config (clock (s.readings + 2)) s.latestAnnouncements
        (repoKey record.pubkey record.identifier) ||
      (s.announcements.listAnnouncements record.pubkey record.identifier).all fun old =>
        old.createdAt ≤ record.createdAt
  | (.insertState record, _) =>
    config.maxEntries == 0 || config.ttl == some 0 ||
      hasFresh config (clock (s.readings + 1)) s.latestStates
        (repoKey record.pubkey record.identifier) ||
      (s.states.table[repoKey record.pubkey record.identifier]?.getD []).all fun old =>
        old.createdAt ≤ record.createdAt
  | _ => true

/-! ### Coherence -/

section

variable {α : Type} {config : Cache.Config} {clock : ℕ → ℕ} {table : Map (List α)}

/-- The cached lists are those of a table. -/
def CoherentLists (table : Map (List α)) (m : Cache.Store (List α)) : Prop :=
  Cache.Sound (fun key records => table[key]?.getD [] = records) m

/-- The cached newest records are those of a table. -/
def CoherentLatest (age : α → ℤ) (table : Map (List α)) (m : Cache.Store α) : Prop :=
  Cache.Sound (fun key record => newest age (table[key]?.getD []) = some record) m

theorem getD_push_self (key : String) (record : α) :
    (table.push key record)[key]?.getD [] = table[key]?.getD [] ++ [record] := by
  rw [Map.get_push, if_pos rfl, Option.getD_some]

theorem getD_push_ne {key key' : String} (record : α) (h : key' ≠ key) :
    (table.push key record)[key']?.getD [] = table[key']?.getD [] := by
  rw [Map.get_push, if_neg (Ne.symm h)]

/-- A list that is extended stays the list of the table. -/
theorem coherentLists_extend {m : Cache.Store (List α)} (h : CoherentLists table m)
    (checked now : ℕ) (key : String) (record : α) :
    CoherentLists (table.push key record) (extend config checked now m key record) := by
  have hother : ∀ key' entry, key' ≠ key → m[key']? = some entry →
      (table.push key record)[key']?.getD [] = entry.value := by
    intro key' entry hne hentry
    rw [getD_push_ne record hne]
    exact h key' entry hentry
  unfold extend
  cases hentry : m[key]? with
  | none =>
    intro key' entry hentry'
    refine hother key' entry ?_ hentry'
    rintro rfl
    rw [hentry] at hentry'
    cases hentry'
  | some entry =>
    simp only
    split_ifs with hfresh
    · refine Cache.Sound.insert_of_ne hother ?_
      rw [getD_push_self, h key entry hentry]
    · intro key' entry' hentry'
      rw [Map.get_erase] at hentry'
      split_ifs at hentry' with hk
      exact hother key' entry' (Ne.symm hk) hentry'

/-- The newest record stays right when a fresh entry decides, or the new record is the newest. -/
theorem coherentLatest_offer {age : α → ℤ} {m : Cache.Store α} (h : CoherentLatest age table m)
    {checked : ℕ} {key : String} {record : α}
    (hok : hasFresh config checked m key = true ∨ ∀ old ∈ table[key]?.getD [], age old ≤ age record)
    (order : String → ℕ) (now : ℕ) :
    CoherentLatest age (table.push key record)
      (offer config order age checked now m key record) := by
  have hother : ∀ key' entry, key' ≠ key → m[key']? = some entry →
      newest age ((table.push key record)[key']?.getD []) = some entry.value := by
    intro key' entry hne hentry
    rw [getD_push_ne record hne]
    exact h key' entry hentry
  have hput : (∀ old ∈ table[key]?.getD [], age old ≤ age record) →
      CoherentLatest age (table.push key record) (config.put order now m key record) := by
    intro hall
    refine Cache.Sound.evictIfNeeded (Cache.Sound.insert_of_ne hother ?_) config order
    rw [getD_push_self]
    exact newest_append_of_le hall
  unfold offer
  cases hentry : m[key]? with
  | none =>
    refine hput (hok.resolve_left ?_)
    simp [hasFresh, hentry]
  | some entry =>
    have hnewest := h key entry hentry
    simp only
    split_ifs with hnewer
    · -- the entry stays, and is the newest record still
      intro key' entry' hentry'
      by_cases hk : key' = key
      · subst hk
        rw [hentry] at hentry'
        cases hentry'
        rw [getD_push_self, newest_append, hnewest]
        simp only [if_pos hnewer.2]
      · exact hother key' entry' hk hentry'
    · refine hput ?_
      rcases hok with hfresh | hall
      · have hle : age entry.value ≤ age record := by
          simp only [hasFresh, hentry, Option.any_some] at hfresh
          by_contra hlt
          exact hnewer ⟨hfresh, not_le.1 hlt⟩
        exact fun old hold => (le_of_newest hnewest hold).trans hle
      · exact hall

/-- A read through a right cache answers what the table holds, and leaves the cache right. -/
theorem readLatest_eq {age : α → ℤ} {m : Cache.Store α} {key : String}
    (h : config.ttl = some 0 ∨ CoherentLatest age table m) (order : String → ℕ) (readings : ℕ) :
    (readLatest config clock order readings m key (newest age (table[key]?.getD []))).1 =
      newest age (table[key]?.getD []) := by
  unfold readLatest
  cases hread : config.lookup (clock readings) m key with
  | mk value m' =>
    cases value with
    | none => cases newest age (table[key]?.getD []) <;> rfl
    | some cached =>
      obtain ⟨entry, hentry, hfresh, rfl⟩ := Cache.exists_of_lookup (congrArg Prod.fst hread)
      rcases h with hzero | h
      · rw [Cache.not_isFresh_of_zero hzero] at hfresh
        cases hfresh
      · exact (h key entry hentry).symm

theorem coherentLatest_readLatest {age : α → ℤ} {m : Cache.Store α} {key : String}
    (h : CoherentLatest age table m) (order : String → ℕ) (readings : ℕ) :
    CoherentLatest age table
      (readLatest config clock order readings m key (newest age (table[key]?.getD []))).2 := by
  have hlookup := Cache.Sound.lookup h config (clock readings) key
  unfold readLatest
  cases hread : config.lookup (clock readings) m key with
  | mk value m' =>
    rw [hread] at hlookup
    cases value with
    | some cached => exact hlookup
    | none =>
      cases hnewest : newest age (table[key]?.getD []) with
      | none => exact hlookup
      | some record => exact hlookup.put config order _ hnewest

end

/-- The entries of the caches are what the tables hold.  With a time to live of zero the newest
records may be wrong, for they are never served. -/
structure Coherent (config : Cache.Config) (s : CachedRepositories) : Prop where
  lists : CoherentLists s.announcements.table s.lists
  announcements : config.ttl = some 0 ∨
    CoherentLatest RepoAnnouncementRecord.createdAt s.announcements.table s.latestAnnouncements
  states : config.ttl = some 0 ∨
    CoherentLatest RepoStateRecord.createdAt s.states.table s.latestStates

variable {config : Cache.Config} {clock : ℕ → ℕ} {s t : CachedRepositories}

theorem Coherent.insertAnnouncement (h : Coherent config s) {record : RepoAnnouncementRecord}
    {orders : Orders} (hmax : config.maxEntries ≠ 0)
    (hok : inOrder config clock s (.insertAnnouncement record, orders) = true) :
    Coherent config (s.insertAnnouncement config clock orders record) := by
  unfold CachedRepositories.insertAnnouncement
  rw [if_neg hmax]
  refine ⟨coherentLists_extend h.lists _ _ _ _, ?_, h.states⟩
  by_cases hzero : config.ttl = some 0
  · exact .inl hzero
  · refine .inr (coherentLatest_offer (h.announcements.resolve_left hzero) ?_ _ _)
    simp only [inOrder, Bool.or_eq_true, beq_iff_eq, List.all_eq_true, decide_eq_true_eq, hmax, hzero,
      false_or] at hok
    exact hok

theorem Coherent.insertState (h : Coherent config s) {record : RepoStateRecord} {orders : Orders}
    (hmax : config.maxEntries ≠ 0)
    (hok : inOrder config clock s (.insertState record, orders) = true) :
    Coherent config (s.insertState config clock orders record) := by
  unfold CachedRepositories.insertState
  rw [if_neg hmax]
  refine ⟨h.lists, h.announcements, ?_⟩
  by_cases hzero : config.ttl = some 0
  · exact .inl hzero
  · refine .inr (coherentLatest_offer (h.states.resolve_left hzero) ?_ _ _)
    simp only [inOrder, Bool.or_eq_true, beq_iff_eq, List.all_eq_true, decide_eq_true_eq, hmax, hzero,
      false_or] at hok
    exact hok

/-- The list that is read, and the caches afterwards. -/
theorem Coherent.listAnnouncements (h : Coherent config s) (hmax : config.maxEntries ≠ 0)
    (clock : ℕ → ℕ) (orders : Orders) (pubkey : List UInt8) (identifier : String) :
    (s.listAnnouncements config clock orders pubkey identifier).1 =
        s.announcements.listAnnouncements pubkey identifier ∧
      Coherent config (s.listAnnouncements config clock orders pubkey identifier).2 := by
  have hlookup := Cache.Sound.lookup h.lists config (clock s.readings) (repoKey pubkey identifier)
  unfold CachedRepositories.listAnnouncements
  rw [if_neg hmax]
  simp only
  cases hread : config.lookup (clock s.readings) s.lists (repoKey pubkey identifier) with
  | mk value lists =>
    rw [hread] at hlookup
    cases value with
    | some cached =>
      obtain ⟨entry, hentry, -, rfl⟩ := Cache.exists_of_lookup (congrArg Prod.fst hread)
      exact ⟨(h.lists _ entry hentry).symm, hlookup, h.announcements, h.states⟩
    | none =>
      refine ⟨rfl, hlookup.put config _ _ rfl, h.announcements.imp_right fun hlatest => ?_, h.states⟩
      simp only
      split_ifs with hempty
      · exact hlatest.erase _
      · rw [maxByKey_eq_newest]
        cases hnewest : newest RepoAnnouncementRecord.createdAt
            (s.announcements.listAnnouncements pubkey identifier) with
        | none => exact hlatest
        | some record => exact hlatest.put config _ _ hnewest

theorem Coherent.latestAnnouncement (h : Coherent config s) (hmax : config.maxEntries ≠ 0)
    (clock : ℕ → ℕ) (orders : Orders) (pubkey : List UInt8) (identifier : String) :
    (s.latestAnnouncement config clock orders pubkey identifier).1 =
        s.announcements.latestAnnouncement pubkey identifier ∧
      Coherent config (s.latestAnnouncement config clock orders pubkey identifier).2 := by
  unfold CachedRepositories.latestAnnouncement
  simp only [if_neg hmax]
  exact ⟨readLatest_eq h.announcements _ _, h.lists,
    h.announcements.imp_right fun hlatest => coherentLatest_readLatest hlatest _ _, h.states⟩

theorem Coherent.latestState (h : Coherent config s) (hmax : config.maxEntries ≠ 0)
    (clock : ℕ → ℕ) (orders : Orders) (pubkey : List UInt8) (identifier : String) :
    (s.latestState config clock orders pubkey identifier).1 =
        s.states.latestState pubkey identifier ∧
      Coherent config (s.latestState config clock orders pubkey identifier).2 := by
  unfold CachedRepositories.latestState
  simp only [if_neg hmax]
  exact ⟨readLatest_eq h.states _ _, h.lists, h.announcements,
    h.states.imp_right fun hlatest => coherentLatest_readLatest hlatest _ _⟩

/-- An operation keeps the caches right. -/
theorem Coherent.step (h : Coherent config s) (hmax : config.maxEntries ≠ 0)
    {o : Operation × Orders} {answer : Answer} (hok : inOrder config clock s o = true)
    (hstep : step config clock s o = some (t, answer)) : Coherent config t := by
  obtain ⟨o, orders⟩ := o
  cases o with
  | insertAnnouncement record =>
    cases hstep
    exact h.insertAnnouncement hmax hok
  | listAnnouncements pubkey identifier =>
    cases hstep
    exact (h.listAnnouncements hmax clock orders pubkey identifier).2
  | latestAnnouncement pubkey identifier =>
    cases hstep
    exact (h.latestAnnouncement hmax clock orders pubkey identifier).2
  | insertState record =>
    cases hstep
    exact h.insertState hmax hok
  | latestState pubkey identifier =>
    cases hstep
    exact (h.latestState hmax clock orders pubkey identifier).2

/-- From right caches every operation is answered as the tables answer it. -/
theorem Coherent.answer (h : Coherent config s) (hmax : config.maxEntries ≠ 0) {o : Operation}
    {orders : Orders} {answer : Answer}
    (hstep : CachedRepositories.step config clock s (o, orders) = some (t, answer)) :
    answer = s.innerAnswer o := by
  cases o with
  | insertAnnouncement record | insertState record =>
    cases hstep
    rfl
  | listAnnouncements pubkey identifier =>
    cases hstep
    exact congrArg Answer.announcements (h.listAnnouncements hmax clock orders pubkey identifier).1
  | latestAnnouncement pubkey identifier =>
    cases hstep
    exact congrArg Answer.announcement (h.latestAnnouncement hmax clock orders pubkey identifier).1
  | latestState pubkey identifier =>
    cases hstep
    exact congrArg Answer.state (h.latestState hmax clock orders pubkey identifier).1

/-- With the cache disabled every operation is the inner one. -/
theorem answer_of_disabled (hmax : config.maxEntries = 0) {o : Operation} {orders : Orders}
    {answer : Answer} (hstep : step config clock s (o, orders) = some (t, answer)) :
    answer = s.innerAnswer o := by
  cases o with
  | insertAnnouncement record | insertState record =>
    cases hstep
    rfl
  | listAnnouncements pubkey identifier =>
    cases hstep
    simp only [CachedRepositories.listAnnouncements, if_pos hmax, innerAnswer]
  | latestAnnouncement pubkey identifier =>
    cases hstep
    simp only [CachedRepositories.latestAnnouncement, if_pos hmax, innerAnswer]
  | latestState pubkey identifier =>
    cases hstep
    simp only [CachedRepositories.latestState, if_pos hmax, innerAnswer]

/-- Nothing is cached yet. -/
def Cold (s : CachedRepositories) : Prop :=
  s.lists = ∅ ∧ s.latestAnnouncements = ∅ ∧ s.latestStates = ∅

/-- Whatever the time to live, the bound and the clock: every operation is answered as the inner
repositories answer it, as long as the records come in an order that the caches can follow. -/
theorem answer_of_reach {o : Operation} {orders : Orders} {answer : Answer}
    (hreach : Runs.Reach (step config clock) (fun s a => inOrder config clock s a = true) Cold s)
    (hstep : step config clock s (o, orders) = some (t, answer)) : answer = s.innerAnswer o := by
  by_cases hmax : config.maxEntries = 0
  · exact answer_of_disabled hmax hstep
  · have hcoherent : Coherent config s := by
      refine hreach.invariant (I := Coherent config) ?_ ?_
      · rintro s ⟨hlists, hannouncements, hstates⟩
        refine ⟨?_, .inr ?_, .inr ?_⟩
        · rw [hlists]
          exact Cache.Sound.empty
        · rw [hannouncements]
          exact Cache.Sound.empty
        · rw [hstates]
          exact Cache.Sound.empty
      · intro s o t answer hs hok ht
        exact hs.step hmax hok ht
    exact hcoherent.answer hmax hstep

/-! ### Instances -/

/-- A state of one repository with the given age. -/
def sampleState (createdAt : ℤ) : RepoStateRecord where
  eventId := [1]
  pubkey := [2]
  identifier := "repo"
  createdAt := createdAt
  stateJson := ""

/-- The default settings, in seconds. -/
def defaultConfig : Cache.Config := ⟨some 30, 1024⟩

/-- A clock that stands still but for one minute after its second reading. -/
def minuteClock (readings : ℕ) : ℕ := if readings < 2 then 0 else 60

/-- Orders that meet all keys at once. -/
def anyOrders : Orders := ⟨fun _ => 0, fun _ => 0⟩

theorem monotone_minuteClock : Monotone minuteClock := by
  intro a b hab
  unfold minuteClock
  split_ifs <;> omega

/-- States in the order of their age, a minute apart. -/
theorem answer_of_reach_states : ∃ s t : CachedRepositories,
    Runs.Reach (step defaultConfig minuteClock)
      (fun s a => inOrder defaultConfig minuteClock s a = true) Cold s ∧
    step defaultConfig minuteClock s (.latestState [2] "repo", anyOrders) =
      some (t, .state (some (sampleState 20))) ∧
    Answer.state (some (sampleState 20)) = s.innerAnswer (.latestState [2] "repo") := by
  have hrun : ((Runs.exec (Runs.guarded (step defaultConfig minuteClock) fun s a =>
      inOrder defaultConfig minuteClock s a = true) ⟨∅, ∅, ∅, ∅, ∅, 0⟩
        [(.insertState (sampleState 10), anyOrders), (.insertState (sampleState 20), anyOrders)]).bind
          fun r => (step defaultConfig minuteClock r.1
            (.latestState [2] "repo", anyOrders)).map Prod.snd) =
      some (.state (some (sampleState 20))) := by
    decide +kernel
  obtain ⟨⟨s, outputs⟩, hexec, hread⟩ := Option.bind_eq_some_iff.1 hrun
  obtain ⟨⟨t, answer⟩, hstep, hanswer⟩ := Option.map_eq_some_iff.1 hread
  cases hanswer
  have hreach : Runs.Reach (step defaultConfig minuteClock)
      (fun s a => inOrder defaultConfig minuteClock s a = true) Cold s :=
    .of_exec_guarded ⟨rfl, rfl, rfl⟩ hexec
  exact ⟨s, t, hreach, hstep, answer_of_reach hreach hstep⟩

/-- A state that is older than the one stored a minute before replaces it in the cache. -/
theorem not_transparent : ¬ ∀ (config : Cache.Config) (clock : ℕ → ℕ), Monotone clock →
    ∀ (s t : CachedRepositories) (o : Operation) (orders : Orders) (answer : Answer),
      Runs.Reach (step config clock) (fun _ _ => True) Cold s →
        step config clock s (o, orders) = some (t, answer) → answer = s.innerAnswer o := by
  intro h
  have hrun : ((Runs.exec (step defaultConfig minuteClock) ⟨∅, ∅, ∅, ∅, ∅, 0⟩
        [(.insertState (sampleState 20), anyOrders), (.insertState (sampleState 10), anyOrders)]).bind
          fun r => (step defaultConfig minuteClock r.1
            (.latestState [2] "repo", anyOrders)).map fun read =>
              (read.2, r.1.innerAnswer (.latestState [2] "repo"))) =
      some (.state (some (sampleState 10)), .state (some (sampleState 20))) := by
    decide +kernel
  obtain ⟨⟨s, outputs⟩, hexec, hread⟩ := Option.bind_eq_some_iff.1 hrun
  obtain ⟨⟨t, answer⟩, hstep, hanswer⟩ := Option.map_eq_some_iff.1 hread
  obtain ⟨rfl, hinner⟩ := Prod.mk.inj hanswer
  have hreach : Runs.Reach (step defaultConfig minuteClock) (fun _ _ => True) Cold s :=
    .of_exec (.start ⟨rfl, rfl, rfl⟩) (fun _ _ _ => trivial) hexec
  have heq := h _ _ monotone_minuteClock s t _ _ _ hreach hstep
  rw [hinner] at heq
  exact absurd heq (by decide)

end CachedRepositories
end Gittree
