import Gittree.Services.Maintainers

/-!
# The state a push is judged by

`latest_state` of `services/state/src/lib.rs`, which the pre-receive hook asks for the state of a
repository.  It answers the newest state of the key of the repository; the keys that may push are
those of `Services.Maintainers`.

* `latestState_cases`: what is answered;
* `judgedBy_iff`: when that is the newest state of a set of keys;
* `push_state_iff`: the same for the maintainers.
-/

namespace Gittree

open Rust

/-- `StateResponse`. -/
structure StateResponse where
  eventId : String
  pubkey : String
  identifier : String
  createdAt : ℤ
  state : Map String

/-- `latest_state` of the state service. -/
def StateService.latestState (fromStr : String → Except String (Map String)) (t : States)
    (pubkeyHex identifier : String) : Except StateServiceError StateResponse := do
  Result.ensure (Str.trim identifier ≠ "") (.invalidInput "identifier" identifier)
  let pubkey ← Result.okOr (Hex.decode pubkeyHex) (.storage (.invalidHex "pubkey" pubkeyHex))
  let record ← Result.okOr (t.latestState pubkey identifier) (.notFound pubkeyHex identifier)
  let state ← (record.stateMap fromStr).mapError .storage
  return {
    eventId := Hex.encode record.eventId
    pubkey := Hex.encode record.pubkey
    identifier := record.identifier
    createdAt := record.createdAt
    state }

/-- A response shows a stored state. -/
structure StateResponse.Shows (response : StateResponse)
    (fromStr : String → Except String (Map String)) (record : RepoStateRecord) : Prop where
  eventId : response.eventId = Hex.encode record.eventId
  pubkey : response.pubkey = Hex.encode record.pubkey
  identifier : response.identifier = record.identifier
  createdAt : response.createdAt = record.createdAt
  state : fromStr record.stateJson = .ok response.state

/-- A state for an identifier of one of some keys. -/
def RepoStateRecord.IsStateOf (record : RepoStateRecord) (keys : Set (List UInt8))
    (identifier : String) : Prop :=
  record.identifier = identifier ∧ record.pubkey ∈ keys

/-- The answer is the newest state that any of some keys has for an identifier. -/
def JudgedBy (fromStr : String → Except String (Map String)) (records : List RepoStateRecord)
    (identifier : String) (answer : Except StateServiceError StateResponse)
    (keys : Set (List UInt8)) : Prop :=
  (∃ response, ∃ record ∈ records, answer = .ok response ∧ response.Shows fromStr record ∧
    record.IsStateOf keys identifier ∧
    ∀ other ∈ records, other.IsStateOf keys identifier → other.createdAt ≤ record.createdAt) ∨
  (∃ pubkey, answer = .error (.notFound pubkey identifier)) ∧
    ∀ record ∈ records, ¬ record.IsStateOf keys identifier

/-- A key is among some keys and has a state that no state of theirs is newer than, or neither that
key nor the others have a state. -/
def OwnNewest (records : List RepoStateRecord) (identifier : String) (root : List UInt8)
    (keys : Set (List UInt8)) : Prop :=
  (root ∈ keys ∧ ∃ record ∈ records, record.IsStateOf {root} identifier ∧
    ∀ other ∈ records, other.IsStateOf keys identifier → other.createdAt ≤ record.createdAt) ∨
  ∀ record ∈ records, ¬ record.IsStateOf {root} identifier ∧ ¬ record.IsStateOf keys identifier

section

variable {fromStr : String → Except String (Map String)} {records : List RepoStateRecord}
  {pubkey identifier : String} {root : List UInt8}

theorem latestState_none {t : States} (hroot : Names pubkey root)
    (hblank : Str.trim identifier ≠ "") (h : t.latestState root identifier = none) :
    StateService.latestState fromStr t pubkey identifier =
      .error (.notFound pubkey identifier) := by
  unfold StateService.latestState
  rw [show Hex.decode pubkey = some root from hroot, Result.ensure, if_pos hblank]
  show (Result.okOr (t.latestState root identifier)
    (StateServiceError.notFound pubkey identifier) >>= _) = _
  rw [h]
  rfl

theorem latestState_some {t : States} {record : RepoStateRecord} {state : Map String}
    (hroot : Names pubkey root) (hblank : Str.trim identifier ≠ "")
    (h : t.latestState root identifier = some record)
    (hread : fromStr record.stateJson = .ok state) :
    ∃ response, StateService.latestState fromStr t pubkey identifier = .ok response ∧
      response.Shows fromStr record := by
  refine ⟨⟨Hex.encode record.eventId, Hex.encode record.pubkey, record.identifier,
    record.createdAt, state⟩, ?_, ⟨rfl, rfl, rfl, rfl, hread⟩⟩
  unfold StateService.latestState
  rw [show Hex.decode pubkey = some root from hroot, Result.ensure, if_pos hblank]
  show (Result.okOr (t.latestState root identifier)
    (StateServiceError.notFound pubkey identifier) >>= _) = _
  rw [h]
  show ((record.stateMap fromStr).mapError StateServiceError.storage >>= _) = _
  rw [RepoStateRecord.stateMap, hread]
  rfl

/-- The answer is the newest state of the key, or that it has none. -/
theorem latestState_cases (hroot : Names pubkey root) (hblank : Str.trim identifier ≠ "")
    (hread : ∀ record ∈ records, ∃ state, fromStr record.stateJson = .ok state) :
    (∃ response, ∃ record ∈ records,
      StateService.latestState fromStr (.ofList records) pubkey identifier = .ok response ∧
      response.Shows fromStr record ∧ record.IsStateOf {root} identifier ∧
      ∀ other ∈ records, other.IsStateOf {root} identifier → other.createdAt ≤ record.createdAt) ∨
    StateService.latestState fromStr (.ofList records) pubkey identifier =
        .error (.notFound pubkey identifier) ∧
      ∀ record ∈ records, ¬ record.IsStateOf {root} identifier := by
  have hmem : ∀ record, record ∈ records.filter (fun record => record.pubkey = root ∧
      record.identifier = identifier) ↔ record ∈ records ∧ record.IsStateOf {root} identifier := by
    intro record
    rw [List.mem_filter, decide_eq_true_eq, RepoStateRecord.IsStateOf, Set.mem_singleton_iff,
      and_comm (a := record.pubkey = root)]
  have hlatest := States.latestState_ofList records root identifier
  cases hnewest : newest RepoStateRecord.createdAt (records.filter fun record =>
      record.pubkey = root ∧ record.identifier = identifier) with
  | none =>
    rw [hnewest] at hlatest
    refine .inr ⟨latestState_none hroot hblank hlatest, fun record hrecord hstate => ?_⟩
    have hin := (hmem record).2 ⟨hrecord, hstate⟩
    rw [newest_eq_none_iff.1 hnewest] at hin
    cases hin
  | some record =>
    rw [hnewest] at hlatest
    obtain ⟨hrecord, hstate⟩ := (hmem record).1 (mem_of_newest hnewest)
    obtain ⟨state, hs⟩ := hread record hrecord
    obtain ⟨response, hanswer, hshows⟩ := latestState_some hroot hblank hlatest hs
    refine .inl ⟨response, record, hrecord, hanswer, hshows, hstate, fun other hother ho => ?_⟩
    exact le_of_newest hnewest ((hmem other).2 ⟨hother, ho⟩)

/-- The answer is the newest state of some keys exactly if the key asked for is one of them and has
it, or none is there. -/
theorem judgedBy_iff (hroot : Names pubkey root) (hblank : Str.trim identifier ≠ "")
    (hread : ∀ record ∈ records, ∃ state, fromStr record.stateJson = .ok state)
    (keys : Set (List UInt8)) :
    JudgedBy fromStr records identifier
        (StateService.latestState fromStr (.ofList records) pubkey identifier) keys ↔
      OwnNewest records identifier root keys := by
  rcases latestState_cases hroot hblank hread with
    ⟨response, record, hrecord, hanswer, hshows, hown, hmax⟩ | ⟨hanswer, hnone⟩
  · rw [hanswer]
    constructor
    · rintro (⟨response', record', hrecord', heq, hshows', hstate, hmax'⟩ | ⟨⟨_, heq⟩, -⟩)
      · cases heq
        -- a response shows the key of its state, so the newest state is the key's own
        have hkey : record'.pubkey = record.pubkey :=
          Hex.encode_injective (hshows'.pubkey.symm.trans hshows.pubkey)
        have hkey' : record'.pubkey = root := hkey.trans hown.2
        exact .inl ⟨hkey' ▸ hstate.2, record', hrecord', ⟨hstate.1, hkey'⟩, hmax'⟩
      · cases heq
    · rintro (⟨hmem, own, hown', hstate, hmax'⟩ | hnone)
      · have hkey : record.pubkey = root := hown.2
        refine .inl ⟨response, record, hrecord, rfl, hshows, ⟨hown.1, hkey ▸ hmem⟩, ?_⟩
        exact fun other hother ho => (hmax' other hother ho).trans (hmax own hown' hstate)
      · exact absurd hown (hnone record hrecord).1
  · rw [hanswer]
    constructor
    · rintro (⟨_, _, _, heq, -⟩ | ⟨-, hnone'⟩)
      · cases heq
      · exact .inr fun record hrecord => ⟨hnone record hrecord, hnone' record hrecord⟩
    · rintro (⟨-, own, hown, hstate, -⟩ | hnone')
      · exact absurd hstate (hnone own hown)
      · exact .inr ⟨⟨pubkey, rfl⟩, fun record hrecord => (hnone' record hrecord).2⟩

end

/-- A push is judged by the newest state of the maintainers, whichever of the three resolvers names
them, exactly if the key of the repository is one of them and has the newest state, or there is
none. -/
theorem push_state_iff {fromStr : String → Except String (Map String)} {t : Announcements}
    {states : List RepoStateRecord} {repo : NormalizedRepo} {root : List UInt8}
    {records : List RepoAnnouncementRecord} {events : List CoreEvent}
    (hroot : Names repo.pubkey root) (hblank : Str.trim repo.identifier ≠ "")
    (hlisting : t.Listing records events)
    (hread : ∀ record ∈ states, ∃ state, fromStr record.stateJson = .ok state) :
    ∃ pushers response collected,
      GitHttp.resolveMaintainers t repo = some (.ok pushers) ∧
      StateService.resolveMaintainers t repo.pubkey repo.identifier = some (.ok response) ∧
      collectMaintainers events repo.pubkey repo.identifier = some collected ∧
      ((∀ maintainers ∈ [pushers, response.maintainers, collected],
          JudgedBy fromStr states repo.identifier
            (StateService.latestState fromStr (.ofList states) repo.pubkey repo.identifier)
            (keySet maintainers)) ↔
        OwnNewest states repo.identifier root
            {b | Search.Met (newestMaintainers t repo.identifier) root b} ∧
          OwnNewest states repo.identifier root
            {b | Search.Reached (newestMaintainers t repo.identifier) root b} ∧
          OwnNewest states repo.identifier root {b | Hex.IsLower repo.pubkey ∧
            Search.Reached (firstMaintainers records repo.identifier) root b}) := by
  obtain ⟨pushers, hpushers, hmet⟩ := GitHttp.keySet_resolveMaintainers (t := t) hroot
  obtain ⟨response, hresponse, hreached⟩ :=
    StateService.keySet_resolveMaintainers (t := t) hroot hblank
  obtain ⟨collected, hcollected, hfirst⟩ :=
    keySet_collectMaintainers repo.identifier hlisting.carried hroot
  refine ⟨pushers, response, collected, hpushers, hresponse, hcollected, ?_⟩
  simp only [List.forall_mem_cons, List.not_mem_nil, false_implies, implies_true, and_true,
    judgedBy_iff hroot hblank hread, hmet, hreached, hfirst]

/-! ### A newer state of another maintainer -/

/-- The announcement of the listed maintainer. -/
def friendRecord : RepoAnnouncementRecord where
  eventId := List.replicate 32 2
  pubkey := List.replicate 32 34
  identifier := "demo"
  name := none
  description := none
  rootCommit := none
  cloneUrls := []
  webUrls := []
  relays := []
  blossoms := []
  hashtags := []
  maintainers := []
  createdAt := 2
  checked := isHexLen_of_mem_nil

/-- The event of that announcement. -/
def friendEvent : CoreEvent where
  kind := kindGitRepoAnnouncement
  pubkey := friendKey
  createdAt := 2
  tags := [["d", "demo"]]

/-- The announcements of both maintainers. -/
def bothAnnounced : Announcements :=
  ((∅ : Announcements).insertAnnouncement ownerRecord).insertAnnouncement friendRecord

/-- A state of a key at a time. -/
def demoState (key : List UInt8) (createdAt : ℤ) : RepoStateRecord where
  eventId := List.replicate 32 3
  pubkey := key
  identifier := "demo"
  createdAt
  stateJson := "\x7b\x7d"

/-- Reads a state without refs. -/
def readEmpty (text : String) : Except String (Map String) :=
  if text = "\x7b\x7d" then .ok ∅ else .error "expected value at line 1 column 1"

/-- The owner's state, and a newer one of the other maintainer. -/
def demoStates : List RepoStateRecord :=
  [demoState (List.replicate 32 17) 10, demoState (List.replicate 32 34) 20]

theorem listing_bothAnnounced :
    bothAnnounced.Listing [ownerRecord, friendRecord] [ownerEvent, friendEvent] := by
  refine ⟨by decide +kernel, .cons carries_ownerEvent (.cons ?_ .nil)⟩
  exact CoreEvent.carries_of_parsed rfl rfl rfl (by decide +kernel)

theorem readEmpty_demoStates :
    ∀ record ∈ demoStates, ∃ state, readEmpty record.stateJson = .ok state := by
  intro record hrecord
  refine ⟨∅, ?_⟩
  rcases List.mem_pair.1 hrecord with rfl | rfl
  · rfl
  · rfl

/-- All three resolvers name both keys, and the push is judged by the older state. -/
theorem push_judged_by_older_state :
    GitHttp.resolveMaintainers bothAnnounced demoRepo = some (.ok [ownerKey, friendKey]) ∧
      StateService.resolveMaintainers bothAnnounced demoRepo.pubkey demoRepo.identifier =
        some (.ok ⟨"demo", [ownerKey, friendKey]⟩) ∧
      collectMaintainers [ownerEvent, friendEvent] demoRepo.pubkey demoRepo.identifier =
        some [ownerKey, friendKey] ∧
      ¬ JudgedBy readEmpty demoStates "demo"
        (StateService.latestState readEmpty (.ofList demoStates) ownerKey "demo")
        (keySet [ownerKey, friendKey]) := by
  refine ⟨by decide +kernel, by decide +kernel, by decide +kernel, ?_⟩
  rw [judgedBy_iff (show Names ownerKey _ from Hex.decode_encode _) (by decide +kernel)
    readEmpty_demoStates]
  have hfriend : (demoState (List.replicate 32 34) 20).IsStateOf (keySet [ownerKey, friendKey])
      "demo" :=
    ⟨rfl, friendKey, by simp, Hex.decode_encode _⟩
  rintro (⟨-, own, hown, hstate, hmax⟩ | hnone)
  · have hle := hmax _ (by simp [demoStates]) hfriend
    rcases List.mem_pair.1 hown with rfl | rfl
    · exact absurd hle (by decide)
    · exact absurd hstate.2 (by decide +kernel)
  · exact (hnone _ (by simp [demoStates])).2 hfriend

/-- Without the newer state the push is judged by the newest. -/
theorem push_state_iff_demoRepo : ∃ pushers,
    GitHttp.resolveMaintainers bothAnnounced demoRepo = some (.ok pushers) ∧
      JudgedBy readEmpty [demoState (List.replicate 32 17) 10] "demo"
        (StateService.latestState readEmpty (.ofList [demoState (List.replicate 32 17) 10])
          ownerKey "demo") (keySet pushers) := by
  have hread : ∀ record ∈ [demoState (List.replicate 32 17) 10],
      ∃ state, readEmpty record.stateJson = .ok state := by
    intro record hrecord
    exact ⟨∅, by rw [List.mem_singleton.1 hrecord]; rfl⟩
  obtain ⟨pushers, response, collected, hpushers, -, -, hiff⟩ :=
    push_state_iff (show Names demoRepo.pubkey _ from Hex.decode_encode _) (by decide +kernel)
      listing_bothAnnounced hread
  have hown : ∀ keys : Set (List UInt8), List.replicate 32 17 ∈ keys →
      OwnNewest [demoState (List.replicate 32 17) 10] "demo" (List.replicate 32 17) keys := by
    intro keys hkeys
    refine .inl ⟨hkeys, _, List.mem_singleton.2 rfl, ⟨rfl, rfl⟩, fun other hother _ => ?_⟩
    rw [List.mem_singleton.1 hother]
  have hall := hiff.2 ⟨hown _ (.inl rfl), hown _ (.refl ⟨_, rfl⟩),
    hown _ ⟨by decide +kernel, .refl ⟨_, rfl⟩⟩⟩
  exact ⟨pushers, hpushers, hall pushers List.mem_cons_self⟩

end Gittree
