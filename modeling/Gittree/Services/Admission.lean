import Gittree.Core.Admission
import Gittree.Lib.Cache
import Gittree.Lib.Runs
import Gittree.Storage.Repos

/-!
# The admission service

`services/admission/src/lib.rs`: a request to admit an event is decided by the core rules, by what
the storage knows of the relay that is asked for, and by the existence of the repository that the
event refers to.  Decisions are cached under the kind, the key and the id of the event.

The storage is its three look-ups; the clock is a sequence of readings, of which a cached request
makes two at most.

* `cached_sound`: what the cache holds was answered to the request that stored it;
* `verdict_of_reach`: when a cached answer is the right one.
-/

namespace Gittree

open Rust

namespace Admission

/-- `KIND_GITTREE_CONTROL`. -/
def kindGittreeControl : ℕ := 29000

/-- `AdmissionRequest`, whose kind is any `u64`. -/
structure Request where
  kind : ℕ
  pubkey : String
  eventId : String
  tags : Tags
  relayUrl : Option String
  sourceIp : Option String
  deriving DecidableEq

/-- The errors of `AdmissionError` that a request can meet. -/
inductive Error
  | invalidKind (kind : ℕ)
  | core (err : CoreError)
  deriving DecidableEq, Repr

/-- `RelayCompatibilityMode`. -/
inductive Mode
  | strict
  | warn
  | allow
  deriving DecidableEq, Repr

/-- `AdmissionStorage`: whether a relay is recorded as compatible, and the newest announcement and
state of a repository. -/
structure Storage where
  relayCompatibility : String → Except StorageError (Option Bool)
  latestAnnouncement : List UInt8 → String → Except StorageError (Option RepoAnnouncementRecord)
  latestState : List UInt8 → String → Except StorageError (Option RepoStateRecord)

/-- `AdmissionRequest::kind_u32`. -/
def Request.kindU32 (request : Request) : Except Error ℕ := do
  Result.ensure (request.kind < 2 ^ 32) (.invalidKind request.kind)
  return request.kind

/-- `is_control_admin`. -/
def isControlAdmin (pubkey : String) (adminKeys : List String) : Bool :=
  adminKeys.any fun key => Str.toAsciiLowercase key == Str.toAsciiLowercase pubkey

/-- `evaluate_request_with_admin_keys`. -/
def evaluateRequestWithAdminKeys (parseUrl : String → Option Url) (request : Request)
    (adminKeys : List String) : Except Error AdmissionDecision := do
  let kind ← request.kindU32
  if kind = kindGittreeControl then
    if isControlAdmin request.pubkey adminKeys then return .accept
    else return .reject "control event not authorized"
  else
    (evaluateAdmission parseUrl kind request.pubkey request.eventId request.tags
      request.relayUrl).mapError .core

/-- What a relay that is not known to be compatible makes of a decision. -/
def Mode.onIncompatible (mode : Mode) (decision : AdmissionDecision) (reason : String) :
    AdmissionDecision :=
  match mode with
  | .strict => .reject reason
  | .warn | .allow => decision

/-- The part of `evaluate_request_with_storage_mode` about the relay; `none` goes on. -/
def checkRelay (storage : Storage) (mode : Mode) (decision : AdmissionDecision)
    (relayUrl : String) : Option AdmissionDecision :=
  match storage.relayCompatibility relayUrl with
  | .ok (some true) => none
  | .ok (some false) =>
    some (mode.onIncompatible decision ("relay incompatible: " ++ relayUrl))
  | .ok none => some (mode.onIncompatible decision ("relay compatibility missing: " ++ relayUrl))
  | .error err => some (mode.onIncompatible decision ("storage error: " ++ err.display))

/-- `repo_address_from_filters`. -/
def repoAddressFromFilters (filters : List EventFilter) : Option RepoAddress :=
  filters.findSome? fun filter =>
    (filter.tags["a"]?.getD []).findSome? fun value => Result.toOption (RepoAddress.parse value)

/-- `repo_address_from_tags`: the first `a` tag decides. -/
def repoAddressFromTags : Tags → Except CoreError RepoAddress
  | [] => .error (.missingField "a")
  | [] :: tags => repoAddressFromTags tags
  | (kind :: rest) :: tags =>
    if kind = "a" ∨ kind = "A" then
      match rest with
      | [] => .error (.invalidTag "a" "")
      | value :: _ => RepoAddress.parse value
    else repoAddressFromTags tags

/-- `repo_exists`. -/
def repoExists (storage : Storage) (address : RepoAddress) : Except StorageError Bool := do
  let pubkey ← Result.okOr (Hex.decode address.pubkey) (.invalidHex "pubkey" address.pubkey)
  if (← storage.latestAnnouncement pubkey address.identifier).isSome then return true
  else return (← storage.latestState pubkey address.identifier).isSome

/-- The part of `evaluate_request_with_storage_mode` about related events. -/
def checkRelated (storage : Storage) (request : Request) (filters : List EventFilter) :
    AdmissionDecision :=
  match (repoAddressFromFilters filters).or
      (Result.toOption (repoAddressFromTags request.tags)) with
  | none => .reject "missing repo address for related event checks"
  | some address =>
    match repoExists storage address with
    | .ok true => .requiresRelatedEvents filters
    | .ok false => .reject "repository not found for related event checks"
    | .error err => .reject ("storage error: " ++ err.display)

/-- `evaluate_request_with_storage_mode`. -/
def evaluateRequestWithStorageMode (parseUrl : String → Option Url) (storage : Storage) (mode : Mode)
    (adminKeys : List String) (request : Request) : Except Error AdmissionDecision := do
  let decision ← evaluateRequestWithAdminKeys parseUrl request adminKeys
  match request.relayUrl.bind (checkRelay storage mode decision) with
  | some decided => return decided
  | none =>
    match decision with
    | .requiresRelatedEvents filters => return checkRelated storage request filters
    | decision => return decision

/-! ### The cache -/

/-- `AdmissionCache::cache_key`. -/
def cacheKey (request : Request) : String :=
  toString request.kind ++ ":" ++ request.pubkey ++ ":" ++ request.eventId

/-- `evict_if_needed`: the entries in the order of their age, and of several of one age in the order
in which the hash map is iterated; the first ones are removed. -/
def evictOldest {α : Type} (maxEntries : ℕ) (order : String → ℕ) (m : Cache.Store α) :
    Cache.Store α :=
  if m.size ≤ maxEntries then m
  else
    let iterated := m.toList.insertionSort fun a b => order a.1 ≤ order b.1
    let oldest := iterated.insertionSort fun a b => a.2.storedAt ≤ b.2.storedAt
    (oldest.take (m.size - maxEntries)).foldl (fun m entry => m.erase entry.1) m

/-- `AdmissionCache::get`. -/
def cacheGet (config : Cache.Config) (now : ℕ) (entries : Cache.Store AdmissionDecision)
    (key : String) : Option AdmissionDecision × Cache.Store AdmissionDecision :=
  if config.maxEntries = 0 then (none, entries) else config.lookup now entries key

/-- `AdmissionCache::insert`. -/
def cacheInsert (config : Cache.Config) (order : String → ℕ) (now : ℕ)
    (entries : Cache.Store AdmissionDecision) (key : String) (decision : AdmissionDecision) :
    Cache.Store AdmissionDecision :=
  if config.maxEntries = 0 then entries
  else evictOldest config.maxEntries order (entries.insert key ⟨decision, now⟩)

/-- What does not change between requests. -/
structure Settings where
  parseUrl : String → Option Url
  storage : Storage
  mode : Mode
  adminKeys : List String
  config : Cache.Config
  clock : ℕ → ℕ

/-- The entries of the cache, the readings of the clock so far, and the request that stored the decision
of each key last. -/
structure State where
  entries : Cache.Store AdmissionDecision
  readings : ℕ
  sources : Map Request

variable (settings : Settings)

/-- The answer without a cache. -/
def Settings.evaluate (request : Request) : Except Error AdmissionDecision :=
  evaluateRequestWithStorageMode settings.parseUrl settings.storage settings.mode settings.adminKeys
    request

/-- `evaluate_request_cached_mode`, with an order of iteration for the eviction. -/
def step (s : State) (a : Request × (String → ℕ)) :
    Option (State × Except Error AdmissionDecision) :=
  let key := cacheKey a.1
  let found := cacheGet settings.config (settings.clock s.readings) s.entries key
  match found.1 with
  | some cached => some (⟨found.2, s.readings + 2, s.sources⟩, .ok cached)
  | none =>
    match settings.evaluate a.1 with
    | .error err => some (⟨found.2, s.readings + 2, s.sources⟩, .error err)
    | .ok decision =>
      let entries := cacheInsert settings.config a.2 (settings.clock (s.readings + 1)) found.2 key
        decision
      let sources :=
        if settings.config.maxEntries = 0 then s.sources else s.sources.insert key a.1
      some (⟨entries, s.readings + 2, sources⟩, .ok decision)

/-- An empty cache. -/
def Fresh (s : State) : Prop := s.entries = ∅

/-- Two requests differ at most in the address of the client. -/
def SameQuestion (a b : Request) : Prop := { a with sourceIp := none } = { b with sourceIp := none }

theorem sameQuestion_refl (request : Request) : SameQuestion request request := rfl

/-- Where the cache serves an entry, the request repeats the question of the request that stored it. -/
def Repeats (s : State) (request : Request) : Prop :=
  (cacheGet settings.config (settings.clock s.readings) s.entries (cacheKey request)).1.isSome =
      true →
    ∀ earlier, s.sources[cacheKey request]? = some earlier → SameQuestion earlier request

/-- Every request is answered. -/
theorem exists_step (s : State) (a : Request × (String → ℕ)) :
    ∃ t answer, step settings s a = some (t, answer) := by
  unfold step
  simp only
  split
  · exact ⟨_, _, rfl⟩
  · split
    · exact ⟨_, _, rfl⟩
    · exact ⟨_, _, rfl⟩

/-! ### What the cache holds -/

variable {settings}

/-- The address of the client decides nothing. -/
theorem evaluate_congr {a b : Request} (h : SameQuestion a b) :
    settings.evaluate a = settings.evaluate b := by
  obtain ⟨kind, pubkey, eventId, tags, relayUrl, ip⟩ := a
  obtain ⟨kind', pubkey', eventId', tags', relayUrl', ip'⟩ := b
  obtain ⟨rfl, rfl, rfl, rfl, rfl⟩ : kind = kind' ∧ pubkey = pubkey' ∧ eventId = eventId' ∧
      tags = tags' ∧ relayUrl = relayUrl' := by
    simpa [SameQuestion] using h
  rfl

theorem sound_evictOldest {α : Type} {P : String → α → Prop} {m : Cache.Store α}
    (h : Cache.Sound P m) (maxEntries : ℕ) (order : String → ℕ) :
    Cache.Sound P (evictOldest maxEntries order m) := by
  have herase : ∀ (l : List (String × Cache.Entry α)) (m : Cache.Store α), Cache.Sound P m →
      Cache.Sound P (l.foldl (fun m entry => m.erase entry.1) m) := by
    intro l
    induction l with
    | nil => exact fun m hm => hm
    | cons entry l ih => exact fun m hm => ih _ (hm.erase entry.1)
  unfold evictOldest
  split_ifs
  · exact h
  · exact herase _ m h

/-- A cached decision was the answer to the request that stored it. -/
def Answered (settings : Settings) (sources : Map Request) (key : String)
    (decision : AdmissionDecision) : Prop :=
  ∃ request, sources[key]? = some request ∧ settings.evaluate request = .ok decision

theorem sound_cacheGet {P : String → AdmissionDecision → Prop}
    {entries : Cache.Store AdmissionDecision} (h : Cache.Sound P entries) (config : Cache.Config)
    (now : ℕ) (key : String) : Cache.Sound P (cacheGet config now entries key).2 := by
  unfold cacheGet
  split_ifs
  · exact h
  · exact h.lookup config now key

/-- The step keeps that. -/
theorem sound_step {s t : State} {a : Request × (String → ℕ)}
    {answer : Except Error AdmissionDecision}
    (h : Cache.Sound (Answered settings s.sources) s.entries)
    (hstep : step settings s a = some (t, answer)) :
    Cache.Sound (Answered settings t.sources) t.entries := by
  have hget := sound_cacheGet h settings.config (settings.clock s.readings) (cacheKey a.1)
  unfold step at hstep
  simp only at hstep
  split at hstep
  · cases hstep
    exact hget
  · split at hstep
    · cases hstep
      exact hget
    · rename_i decision hdecision
      cases hstep
      unfold cacheInsert
      simp only
      split_ifs
      · exact hget
      · refine sound_evictOldest (Cache.Sound.insert_of_ne ?_ ?_) _ _
        · intro key entry hne hentry
          obtain ⟨earlier, hearlier, hanswer⟩ := hget key entry hentry
          exact ⟨earlier, by rw [Map.get_insert, if_neg hne.symm, hearlier], hanswer⟩
        · exact ⟨a.1, Map.get_insert_self _ _ _, hdecision⟩

theorem cached_sound {s : State} {ok : State → Request × (String → ℕ) → Prop}
    (hreach : Runs.Reach (step settings) ok Fresh s) :
    Cache.Sound (Answered settings s.sources) s.entries := by
  refine hreach.invariant ?_ fun s a t answer hs _ hstep => sound_step hs hstep
  intro s hentries
  rw [show s.entries = ∅ from hentries]
  exact Cache.Sound.empty

/-- A served decision is that of an entry. -/
theorem of_cacheGet {P : String → AdmissionDecision → Prop}
    {entries : Cache.Store AdmissionDecision} {key : String} {decision : AdmissionDecision} {now : ℕ}
    (h : Cache.Sound P entries)
    (hget : (cacheGet settings.config now entries key).1 = some decision) : P key decision := by
  unfold cacheGet at hget
  split_ifs at hget
  obtain ⟨entry, hentry, -, rfl⟩ := Cache.exists_of_lookup hget
  exact h key entry hentry

/-- In a run every answer is the one without a cache, if each request that is served from the cache
repeats the question of the request that stored the entry. -/
theorem verdict_of_reach {s t : State} {request : Request} {order : String → ℕ}
    {answer : Except Error AdmissionDecision}
    (hreach : Runs.Reach (step settings) (fun s a => Repeats settings s a.1) Fresh s)
    (hrepeats : Repeats settings s request)
    (hstep : step settings s (request, order) = some (t, answer)) :
    answer = settings.evaluate request := by
  unfold step at hstep
  simp only at hstep
  split at hstep
  · rename_i cached hcached
    cases hstep
    obtain ⟨earlier, hsource, hanswer⟩ := of_cacheGet (cached_sound hreach) hcached
    rw [← hanswer]
    exact evaluate_congr (hrepeats (Option.isSome_of_eq_some hcached) earlier hsource)
  · split at hstep
    · rename_i err herr
      cases hstep
      exact herr.symm
    · rename_i decision hdecision
      cases hstep
      exact hdecision.symm

/-! ### One state at two relays -/

/-- A storage that knows no relay and no repository, and the default cache. -/
def strictSettings : Settings where
  parseUrl := fun _ => none
  storage := ⟨fun _ => .ok none, fun _ _ => .ok none, fun _ _ => .ok none⟩
  mode := .strict
  adminKeys := []
  config := ⟨some 30, 1024⟩
  clock := fun _ => 0

/-- A request about a state, for a relay or for none. -/
def stateRequest (relayUrl : Option String) : Request where
  kind := kindGitRepoState
  pubkey := "pubkey"
  eventId := "event"
  tags := []
  relayUrl
  sourceIp := none

/-- The event is accepted. -/
def isAccepted : Except Error AdmissionDecision → Bool
  | .ok .accept => true
  | _ => false

/-- An empty cache. -/
def emptyCache : State := ⟨∅, 0, ∅⟩

theorem fresh_emptyCache : Fresh emptyCache := rfl

/-- An order that meets all keys at once. -/
def anyOrder : String → ℕ := fun _ => 0

/-- The state is accepted without a relay, and then for a relay that is not known. -/
theorem cached_for_another_relay : ∃ s t answer,
    Runs.Reach (step strictSettings) (fun _ _ => True) Fresh s ∧
      step strictSettings s (stateRequest (some "wss://relay.example"), anyOrder) =
        some (t, answer) ∧
      answer ≠ strictSettings.evaluate (stateRequest (some "wss://relay.example")) := by
  have hrun : ((Runs.exec (step strictSettings) emptyCache [(stateRequest none, anyOrder)]).bind
      fun r => (step strictSettings r.1 (stateRequest (some "wss://relay.example"),
        anyOrder)).map fun answered => isAccepted answered.2) = some true := by
    decide +kernel
  obtain ⟨⟨s, outputs⟩, hexec, hread⟩ := Option.bind_eq_some_iff.1 hrun
  obtain ⟨⟨t, answer⟩, hstep, haccepted⟩ := Option.map_eq_some_iff.1 hread
  refine ⟨s, t, answer, .of_exec (.start fresh_emptyCache) (fun _ _ _ => trivial) hexec, hstep, ?_⟩
  have hrejected : isAccepted (strictSettings.evaluate (stateRequest (some "wss://relay.example"))) =
      false := by
    decide +kernel
  rintro rfl
  rw [hrejected] at haccepted
  cases haccepted

/-- The same question asked again, which is answered from the cache. -/
theorem verdict_of_reach_repeated : ∃ s t answer,
    Runs.Reach (step strictSettings) (fun s a => Repeats strictSettings s a.1) Fresh s ∧
      (cacheGet strictSettings.config 0 s.entries (cacheKey (stateRequest none))).1.isSome = true ∧
      step strictSettings s (stateRequest none, anyOrder) = some (t, answer) ∧
      answer = strictSettings.evaluate (stateRequest none) := by
  have hrun : (step strictSettings emptyCache (stateRequest none, anyOrder)).map (fun r =>
      ((cacheGet strictSettings.config 0 r.1.entries (cacheKey (stateRequest none))).1.isSome,
        r.1.sources[cacheKey (stateRequest none)]?)) = some (true, some (stateRequest none)) := by
    decide +kernel
  obtain ⟨⟨s, first⟩, hs, hfacts⟩ := Option.map_eq_some_iff.1 hrun
  simp only [Prod.mk.injEq] at hfacts
  obtain ⟨hserved, hsource⟩ := hfacts
  have hfirst : Repeats strictSettings emptyCache (stateRequest none) := by
    intro _ earlier hearlier
    rw [show emptyCache.sources = ∅ from rfl, Std.ExtTreeMap.getElem?_empty] at hearlier
    cases hearlier
  have hreach : Runs.Reach (step strictSettings) (fun s a => Repeats strictSettings s a.1) Fresh s :=
    Runs.Reach.step (a := (stateRequest none, anyOrder)) (.start fresh_emptyCache) hfirst hs
  have hrepeats : Repeats strictSettings s (stateRequest none) := by
    intro _ earlier hearlier
    rw [hsource, Option.some.injEq] at hearlier
    rw [← hearlier]
    exact sameQuestion_refl _
  obtain ⟨t, answer, ht⟩ := exists_step strictSettings s (stateRequest none, anyOrder)
  exact ⟨s, t, answer, hreach, hserved, ht, verdict_of_reach hreach hrepeats ht⟩

end Admission
end Gittree
