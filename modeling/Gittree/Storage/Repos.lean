import Gittree.Core.Nip34
import Gittree.Lib.Map
import Gittree.Lib.Newest
import Gittree.Storage.Error
import Mathlib.Data.List.Sort

/-!
# Announcements, states and mappings of repositories, and accounts

`crates/storage/src/repo.rs`, `repo_mapping.rs`, `account.rs` and the parts of
`InMemoryRepositories` that keep announcements, states, mappings and accounts.  Announcements,
states and mappings are keyed by the hexadecimal key and the identifier of the repository; a mapping
is also kept under the name of its Forgejo repository.

* `repoKey_injective`: different repositories have different table keys;
* `latestAnnouncement_insert`: what is inserted is the newest announcement, unless there is a newer
  one.
-/

namespace Gittree

open Rust

/-- `InMemoryRepositories::key`. -/
def repoKey (pubkey : List UInt8) (identifier : String) : String :=
  Hex.encode pubkey ++ ":" ++ identifier

/-- No encoded key contains the separator, so the first `:` of a table key ends the key. -/
theorem repoKey_injective {p p' : List UInt8} {i i' : String} (h : repoKey p i = repoKey p' i') :
    p = p' ∧ i = i' := by
  unfold repoKey at h
  have hcolon : ∀ bytes : List UInt8, ':' ∉ (Hex.encode bytes).toList :=
    fun bytes hm => (Hex.mem_encode hm).2.2 rfl
  obtain ⟨hp, hi⟩ := Str.append_char_inj_left (hcolon p) (hcolon p') h
  exact ⟨Hex.encode_injective hp, hi⟩

/-! ### Announcements -/

/-- `RepoAnnouncementRecord`; it is only ever made from a valid announcement, whose maintainers are
keys. -/
structure RepoAnnouncementRecord where
  eventId : List UInt8
  pubkey : List UInt8
  identifier : String
  name : Option String
  description : Option String
  rootCommit : Option String
  cloneUrls : List String
  webUrls : List String
  relays : List String
  blossoms : List String
  hashtags : List String
  maintainers : List String
  createdAt : ℤ
  checked : ∀ key ∈ maintainers, Str.isHexLen key 64 = true
  deriving DecidableEq, Repr

/-- `RepoAnnouncementRecord::new`. -/
def RepoAnnouncementRecord.new (eventId pubkey : String) (createdAt : ℤ) (a : RepoAnnouncement) :
    Except StorageError RepoAnnouncementRecord :=
  match h : a.validate with
  | .error err => .error (.invalidField "announcement" err.display)
  | .ok () => do
    let eventId ← decodeHex32 "event_id" eventId
    let pubkey ← decodeHex32 "pubkey" pubkey
    return {
      eventId, pubkey, createdAt
      identifier := a.identifier
      name := a.name
      description := a.description
      rootCommit := a.rootCommit
      cloneUrls := a.clone
      webUrls := a.web
      relays := a.relays
      blossoms := a.blossoms
      hashtags := a.hashtags
      maintainers := a.maintainers
      checked := (RepoAnnouncement.validate_eq_ok.1 h).maintainers }

/-- What a record takes from the event and the announcement that it is made of. -/
structure RepoAnnouncementRecord.MadeOf (record : RepoAnnouncementRecord) (pubkey : String)
    (createdAt : ℤ) (a : RepoAnnouncement) : Prop where
  valid : a.Valid
  key : Str.isHexLen pubkey 64 = true
  pubkey : Hex.decode pubkey = some record.pubkey
  identifier : record.identifier = a.identifier
  maintainers : record.maintainers = a.maintainers
  createdAt : record.createdAt = createdAt

theorem RepoAnnouncementRecord.madeOf {eventId pubkey : String} {createdAt : ℤ}
    {a : RepoAnnouncement} {record : RepoAnnouncementRecord}
    (h : RepoAnnouncementRecord.new eventId pubkey createdAt a = .ok record) :
    record.MadeOf pubkey createdAt a := by
  unfold RepoAnnouncementRecord.new at h
  split at h
  · cases h
  · rename_i hvalid
    obtain ⟨id, -, h⟩ := Result.bind_eq_ok.1 h
    obtain ⟨key, hkey, h⟩ := Result.bind_eq_ok.1 h
    obtain ⟨hlen, hdecode⟩ := decodeHex32_eq_ok.1 hkey
    rw [← Result.pure_eq_ok.1 h]
    exact ⟨RepoAnnouncement.validate_eq_ok.1 hvalid, hlen, hdecode, rfl, rfl, rfl⟩

/-- A valid announcement of an event with 32-byte names has a record. -/
theorem RepoAnnouncementRecord.exists_new {eventId pubkey : List UInt8} {a : RepoAnnouncement}
    (createdAt : ℤ) (hvalid : a.Valid) (hevent : eventId.length = 32)
    (hpubkey : pubkey.length = 32) :
    ∃ record, RepoAnnouncementRecord.new (Hex.encode eventId) (Hex.encode pubkey) createdAt a =
      .ok record := by
  unfold RepoAnnouncementRecord.new
  split
  · rename_i err herr
    rw [RepoAnnouncement.validate_eq_ok.2 hvalid] at herr
    cases herr
  · rw [decodeHex32_encode hevent, decodeHex32_encode hpubkey]
    exact ⟨_, rfl⟩

/-- The announcements of `InMemoryRepositories`, each in the list of its repository. -/
structure Announcements where
  table : Map (List RepoAnnouncementRecord)
  keyed : ∀ (k : String) (records : List RepoAnnouncementRecord), table[k]? = some records →
    ∀ record ∈ records, k = repoKey record.pubkey record.identifier

namespace Announcements

instance : EmptyCollection Announcements := ⟨⟨∅, by simp⟩⟩

@[simp] theorem table_empty : (∅ : Announcements).table = ∅ := rfl

/-- `insert_announcement`. -/
def insertAnnouncement (t : Announcements) (record : RepoAnnouncementRecord) : Announcements where
  table := t.table.push (repoKey record.pubkey record.identifier) record
  keyed := by
    intro k records h found hfound
    rw [Map.get_push] at h
    split_ifs at h with hk
    · cases h
      rcases List.mem_append.1 hfound with hold | hnew
      · cases hget : t.table[repoKey record.pubkey record.identifier]? with
        | none => simp [hget] at hold
        | some old =>
          rw [hget] at hold
          rw [← hk]
          exact t.keyed _ old hget found hold
      · rw [List.mem_singleton.1 hnew, hk]
    · exact t.keyed k records h found hfound

/-- `list_announcements`. -/
def listAnnouncements (t : Announcements) (pubkey : List UInt8) (identifier : String) :
    List RepoAnnouncementRecord :=
  t.table[repoKey pubkey identifier]?.getD []

/-- `latest_announcement`: the last record after a stable sort by `created_at`. -/
def latestAnnouncement (t : Announcements) (pubkey : List UInt8) (identifier : String) :
    Option RepoAnnouncementRecord :=
  ((t.listAnnouncements pubkey identifier).insertionSort
    fun a b => a.createdAt ≤ b.createdAt).getLast?

theorem mem_of_latestAnnouncement {t : Announcements} {pubkey : List UInt8} {identifier : String}
    {record : RepoAnnouncementRecord} (h : t.latestAnnouncement pubkey identifier = some record) :
    record ∈ t.listAnnouncements pubkey identifier :=
  (List.mem_insertionSort _).1 (List.mem_of_getLast? h)

/-- There is a newest announcement when there is one. -/
theorem exists_latestAnnouncement {t : Announcements} {pubkey : List UInt8} {identifier : String} :
    (∃ record, t.latestAnnouncement pubkey identifier = some record) ↔
      ∃ record, record ∈ t.listAnnouncements pubkey identifier := by
  constructor
  · rintro ⟨record, h⟩
    exact ⟨record, mem_of_latestAnnouncement h⟩
  · rintro ⟨record, h⟩
    unfold latestAnnouncement
    rw [← Option.isSome_iff_exists, List.getLast?_isSome]
    exact List.ne_nil_of_mem ((List.mem_insertionSort _).2 h)

/-- A record that is listed belongs to the repository it is listed under. -/
theorem of_mem_listAnnouncements {t : Announcements} {pubkey : List UInt8} {identifier : String}
    {record : RepoAnnouncementRecord} (h : record ∈ t.listAnnouncements pubkey identifier) :
    record.pubkey = pubkey ∧ record.identifier = identifier := by
  unfold listAnnouncements at h
  cases hget : t.table[repoKey pubkey identifier]? with
  | none => simp [hget] at h
  | some records =>
    rw [hget] at h
    obtain ⟨hp, hi⟩ := repoKey_injective (t.keyed _ _ hget record h)
    exact ⟨hp.symm, hi.symm⟩

theorem listAnnouncements_insert (t : Announcements) (record : RepoAnnouncementRecord)
    (pubkey : List UInt8) (identifier : String) :
    (t.insertAnnouncement record).listAnnouncements pubkey identifier =
      if record.pubkey = pubkey ∧ record.identifier = identifier then
        t.listAnnouncements pubkey identifier ++ [record]
      else t.listAnnouncements pubkey identifier := by
  unfold insertAnnouncement listAnnouncements
  rw [Map.get_push]
  by_cases h : record.pubkey = pubkey ∧ record.identifier = identifier
  · rw [if_pos (by rw [h.1, h.2]), if_pos h, h.1, h.2, Option.getD_some]
  · rw [if_neg (fun hk => h (repoKey_injective hk)), if_neg h]

/-- What is inserted is the newest announcement, unless there is a newer one. -/
theorem latestAnnouncement_insert {t : Announcements} {record : RepoAnnouncementRecord}
    (h : ∀ old ∈ t.listAnnouncements record.pubkey record.identifier,
      old.createdAt ≤ record.createdAt) :
    (t.insertAnnouncement record).latestAnnouncement record.pubkey record.identifier =
      some record := by
  unfold latestAnnouncement
  rw [listAnnouncements_insert, if_pos ⟨rfl, rfl⟩]
  exact newest_append_of_le h

end Announcements

/-! ### States -/

/-- `RepoStateRecord`. -/
structure RepoStateRecord where
  eventId : List UInt8
  pubkey : List UInt8
  identifier : String
  createdAt : ℤ
  stateJson : String
  deriving DecidableEq, Repr

/-- `state_map`, over the reader of `serde_json`. -/
def RepoStateRecord.stateMap (fromStr : String → Except String (Map String))
    (record : RepoStateRecord) : Except StorageError (Map String) :=
  (fromStr record.stateJson).mapError (.serialization "state")

/-- The states of `InMemoryRepositories`. -/
structure States where
  table : Map (List RepoStateRecord)

namespace States

instance : EmptyCollection States := ⟨⟨∅⟩⟩

/-- `insert_state`. -/
def insertState (t : States) (record : RepoStateRecord) : States where
  table := t.table.push (repoKey record.pubkey record.identifier) record

/-- `latest_state`: the last record after a stable sort by `created_at`. -/
def latestState (t : States) (pubkey : List UInt8) (identifier : String) : Option RepoStateRecord :=
  newest RepoStateRecord.createdAt (t.table[repoKey pubkey identifier]?.getD [])

/-- The table after some insertions. -/
def ofList (records : List RepoStateRecord) : States := records.foldl insertState ∅

theorem table_ofList (records : List RepoStateRecord) : (ofList records).table =
    Map.group (records.map fun record => (repoKey record.pubkey record.identifier, record)) := by
  have hfold : ∀ t : States, (records.foldl insertState t).table =
      (records.map fun record => (repoKey record.pubkey record.identifier, record)).foldl
        (fun m e => m.push e.1 e.2) t.table := by
    intro t
    induction records generalizing t with
    | nil => rfl
    | cons record records ih => exact ih (t.insertState record)
  exact hfold ∅

/-- The newest state of a repository is the newest of those that were inserted for it. -/
theorem latestState_ofList (records : List RepoStateRecord) (pubkey : List UInt8)
    (identifier : String) : (ofList records).latestState pubkey identifier =
      newest RepoStateRecord.createdAt (records.filter fun record =>
        record.pubkey = pubkey ∧ record.identifier = identifier) := by
  have hunder : Map.under (records.map fun record =>
      (repoKey record.pubkey record.identifier, record)) (repoKey pubkey identifier) =
      records.filter fun record => record.pubkey = pubkey ∧ record.identifier = identifier := by
    unfold Map.under
    rw [List.filter_map, List.map_map]
    have hkey : ((fun e : String × RepoStateRecord => e.1 == repoKey pubkey identifier) ∘
        fun record => (repoKey record.pubkey record.identifier, record)) =
        fun record => decide (record.pubkey = pubkey ∧ record.identifier = identifier) := by
      funext record
      rw [Function.comp_apply, beq_eq_decide, decide_eq_decide]
      exact ⟨repoKey_injective, fun h => by rw [h.1, h.2]⟩
    rw [hkey]
    exact List.map_id _
  unfold latestState
  rw [table_ofList, Map.get_group, hunder]
  split_ifs with hempty
  · rw [hempty]
    rfl
  · rfl

end States

/-! ### Mappings -/

/-- `RepoMappingRecord`. -/
structure RepoMappingRecord where
  forgejoOwner : String
  forgejoRepo : String
  pubkey : List UInt8
  identifier : String
  deriving DecidableEq, Repr

/-- `InMemoryRepositories::forgejo_key`. -/
def forgejoKey (owner repo : String) : String := owner ++ "/" ++ repo

/-- The mappings of `InMemoryRepositories`. -/
structure Mappings where
  byForgejo : Map RepoMappingRecord
  byRepo : Map RepoMappingRecord
  keyed : ∀ (k : String) (record : RepoMappingRecord), byRepo[k]? = some record →
    k = repoKey record.pubkey record.identifier

namespace Mappings

instance : EmptyCollection Mappings := ⟨⟨∅, ∅, by simp⟩⟩

@[simp] theorem byRepo_empty : (∅ : Mappings).byRepo = ∅ := rfl

/-- `upsert_mapping`. -/
def upsertMapping (t : Mappings) (record : RepoMappingRecord) : Mappings where
  byForgejo := t.byForgejo.insert (forgejoKey record.forgejoOwner record.forgejoRepo) record
  byRepo := t.byRepo.insert (repoKey record.pubkey record.identifier) record
  keyed := by
    intro k found h
    rw [Map.get_insert] at h
    split_ifs at h with hk
    · cases h
      exact hk.symm
    · exact t.keyed k found h

/-- `mapping_by_forgejo`. -/
def mappingByForgejo (t : Mappings) (owner repo : String) : Option RepoMappingRecord :=
  t.byForgejo[forgejoKey owner repo]?

/-- `mapping_by_repo`. -/
def mappingByRepo (t : Mappings) (pubkey : List UInt8) (identifier : String) :
    Option RepoMappingRecord :=
  t.byRepo[repoKey pubkey identifier]?

theorem mappingByRepo_upsert (t : Mappings) (record : RepoMappingRecord) (pubkey : List UInt8)
    (identifier : String) :
    (t.upsertMapping record).mappingByRepo pubkey identifier =
      if record.pubkey = pubkey ∧ record.identifier = identifier then some record
      else t.mappingByRepo pubkey identifier := by
  unfold upsertMapping mappingByRepo
  rw [Map.get_insert]
  by_cases h : record.pubkey = pubkey ∧ record.identifier = identifier
  · rw [if_pos (by rw [h.1, h.2]), if_pos h]
  · rw [if_neg (fun hk => h (repoKey_injective hk)), if_neg h]

/-- A mapping that is found belongs to the repository it was found under. -/
theorem of_mappingByRepo {t : Mappings} {pubkey : List UInt8} {identifier : String}
    {record : RepoMappingRecord} (h : t.mappingByRepo pubkey identifier = some record) :
    record.pubkey = pubkey ∧ record.identifier = identifier := by
  obtain ⟨hp, hi⟩ := repoKey_injective (t.keyed _ _ h)
  exact ⟨hp.symm, hi.symm⟩

end Mappings

/-! ### Accounts -/

/-- `AccountRecord`. -/
structure AccountRecord where
  pubkey : List UInt8
  forgejoUsername : String
  deriving DecidableEq, Repr

/-- The accounts of `InMemoryRepositories`, by key and by user name. -/
structure Accounts where
  byPubkey : Map AccountRecord
  byUsername : Map AccountRecord

namespace Accounts

instance : EmptyCollection Accounts := ⟨⟨∅, ∅⟩⟩

/-- `upsert_account`: a user name belongs to one key, and a renamed account gives its old name up. -/
def upsertAccount (t : Accounts) (record : AccountRecord) : Except StorageError Accounts := do
  let key := Hex.encode record.pubkey
  Result.ensure (∀ existing ∈ t.byUsername[record.forgejoUsername]?, existing.pubkey = record.pubkey)
    (.internal "account username already exists")
  let byUsername := match t.byPubkey[key]? with
    | some existing =>
      if existing.forgejoUsername ≠ record.forgejoUsername then
        t.byUsername.erase existing.forgejoUsername
      else t.byUsername
    | none => t.byUsername
  return ⟨t.byPubkey.insert key record, byUsername.insert record.forgejoUsername record⟩

/-- `account_by_pubkey`. -/
def accountByPubkey (t : Accounts) (pubkey : List UInt8) : Option AccountRecord :=
  t.byPubkey[Hex.encode pubkey]?

end Accounts
end Gittree
