import Gittree.Core.RepoEvents
import Gittree.Services.GitHttp

/-!
# Maintainers of a repository

`resolve_maintainers` of `services/git-http/src/lib.rs`, which decides who may push, and of
`services/state/src/lib.rs`, which reports the maintainers, beside `collect_maintainers` of
`Core.RepoEvents`.  All three follow the keys that announcements list from the key of the repository:
the first two take the newest announcement of a key from a table, the third takes the first one from
a list of events.

As sets of bytes their answers are what a search of a graph of keys reaches or meets.

* `GitHttp.keySet_resolveMaintainers`, `StateService.keySet_resolveMaintainers`,
  `keySet_collectMaintainers`: what each of them answers;
* `reached_first_iff`: where the first announcements lead where the newest ones lead;
* `resolvers_agree`: when the answers are the same.
-/

namespace Gittree

open Rust

namespace Announcements

/-- All records of the table. -/
def records (t : Announcements) : List RepoAnnouncementRecord := t.table.values.flatten

/-- The keys that any record lists. -/
def listed (t : Announcements) : List String :=
  t.records.flatMap RepoAnnouncementRecord.maintainers

/-- A search visits each listed key at most once, and pushes at most all of them each time. -/
def searchFuel (t : Announcements) : ℕ := 1 + t.listed.length * (t.listed.length + 1)

theorem mem_records {t : Announcements} {record : RepoAnnouncementRecord} :
    record ∈ t.records ↔ record ∈ t.listAnnouncements record.pubkey record.identifier := by
  unfold records listAnnouncements
  rw [List.mem_flatten]
  constructor
  · rintro ⟨group, hgroup, hrecord⟩
    obtain ⟨k, hk⟩ := Map.mem_values.1 hgroup
    rw [← t.keyed k group hk record hrecord, hk]
    exact hrecord
  · intro h
    cases hget : t.table[repoKey record.pubkey record.identifier]? with
    | none => simp [hget] at h
    | some group =>
      rw [hget] at h
      exact ⟨group, Map.mem_values.2 ⟨_, hget⟩, h⟩

theorem mem_records_of_latest {t : Announcements} {pubkey : List UInt8} {identifier : String}
    {record : RepoAnnouncementRecord} (h : t.latestAnnouncement pubkey identifier = some record) :
    record ∈ t.records := by
  have hlisted := mem_of_latestAnnouncement h
  obtain ⟨rfl, rfl⟩ := of_mem_listAnnouncements hlisted
  exact mem_records.2 hlisted

theorem length_maintainers_le {t : Announcements} {record : RepoAnnouncementRecord}
    (h : record ∈ t.records) : record.maintainers.length ≤ t.listed.length := by
  have hmem : record.maintainers ∈ t.records.map RepoAnnouncementRecord.maintainers :=
    List.mem_map_of_mem h
  have hsub := (List.sublist_flatten_of_mem hmem).length_le
  rwa [← List.flatMap_def] at hsub

end Announcements

/-! ### The two services -/

/-- A turn of the loop of git-http's `resolve_maintainers`: the keys to push.  A key without an
announcement stays among the maintainers.  A key with letters beyond ASCII is not hexadecimal and
ends the loop with an error, so `to_lowercase` is that of ASCII. -/
def GitHttp.visit (t : Announcements) (identifier pubkey : String) :
    Except GitHttpHttpError (Option (List String)) := do
  let bytes ← Result.okOr (Hex.decode pubkey) (.internal "invalid maintainer pubkey")
  match t.latestAnnouncement bytes identifier with
  | none => return some []
  | some announcement => return some (announcement.maintainers.map Str.toAsciiLowercase)

/-- `resolve_maintainers` of git-http; `none` would be a loop that does not end. -/
def GitHttp.resolveMaintainers (t : Announcements) (repo : NormalizedRepo) :
    Option (Except GitHttpHttpError (List String)) :=
  (Search.explore (GitHttp.visit t repo.identifier) t.searchFuel
    [Str.toAsciiLowercase repo.pubkey] []).map fun result => result.map Str.sort

/-- `StateServiceError`. -/
inductive StateServiceError
  | invalidInput (field value : String)
  | notFound (pubkey identifier : String)
  | relayNotFound (relayUrl : String)
  | storage (err : StorageError)
  deriving DecidableEq, Repr

/-- `MaintainersResponse`. -/
structure MaintainersResponse where
  identifier : String
  maintainers : List String
  deriving DecidableEq, Repr

namespace StateService

/-- A turn of the loop of the state service's `resolve_maintainers`, which skips a key without an
announcement. -/
def visit (t : Announcements) (identifier pubkey : String) :
    Except StateServiceError (Option (List String)) := do
  let bytes ← Result.okOr (Hex.decode pubkey) (.storage (.invalidHex "pubkey" pubkey))
  match t.latestAnnouncement bytes identifier with
  | none => return none
  | some announcement => return some announcement.maintainers

/-- `resolve_maintainers` of the state service; `none` would be a loop that does not end. -/
def resolveMaintainers (t : Announcements) (pubkeyHex identifier : String) :
    Option (Except StateServiceError MaintainersResponse) :=
  if Str.trim identifier = "" then some (.error (.invalidInput "identifier" identifier))
  else
    (Search.explore (visit t identifier) t.searchFuel [pubkeyHex] []).map fun result =>
      result.map fun seen => ⟨identifier, Str.sort seen⟩

end StateService

/-! ### The events of a table -/

/-- An event with the key, the time, the identifier and the maintainers of a stored announcement. -/
structure CoreEvent.Carries (event : CoreEvent) (record : RepoAnnouncementRecord) : Prop where
  kind : event.kind = kindGitRepoAnnouncement
  pubkey : event.pubkey = Hex.encode record.pubkey
  createdAt : event.createdAt = record.createdAt
  tags : ∃ a, RepoAnnouncement.fromTags event.tags = .ok a ∧ a.identifier = record.identifier ∧
    a.maintainers = record.maintainers

/-- The events of the announcements of a table, in some order. -/
structure Announcements.Listing (t : Announcements) (records : List RepoAnnouncementRecord)
    (events : List CoreEvent) : Prop where
  perm : records.Perm t.records
  carried : List.Forall₂ CoreEvent.Carries events records

/-! ### Keys as bytes -/

/-- The bytes of some keys. -/
def keySet (keys : List String) : Set (List UInt8) := {b | ∃ key ∈ keys, Hex.decode key = some b}

/-- The keys that the newest announcement of a key lists. -/
def newestMaintainers (t : Announcements) (identifier : String) (pubkey : List UInt8) :
    Option (List (List UInt8)) :=
  (t.latestAnnouncement pubkey identifier).map fun record =>
    record.maintainers.filterMap Hex.decode

/-- The keys in lower case that the first of the announcements of a key lists. -/
def firstMaintainers (records : List RepoAnnouncementRecord) (identifier : String)
    (pubkey : List UInt8) : Option (List (List UInt8)) :=
  (records.find? fun record => record.pubkey = pubkey ∧ record.identifier = identifier).map
    fun record => (record.maintainers.filter fun key => Hex.IsLower key).filterMap Hex.decode

@[simp] theorem keySet_sort (keys : List String) : keySet (Str.sort keys) = keySet keys := by
  ext b
  simp [keySet]

/-- A text is the name of a key. -/
def Names (key : String) (b : List UInt8) : Prop := Hex.decode key = some b

/-- The listed keys of a record are read. -/
theorem RepoAnnouncementRecord.exists_names {record : RepoAnnouncementRecord} {key : String}
    (h : key ∈ record.maintainers) : ∃ b, Names key b := by
  obtain ⟨b, hb, -⟩ := (Hex.isHexLen_iff_decode (n := 32)).1 (record.checked key h)
  exact ⟨b, hb⟩

/-- Two graphs of texts and bytes have the same nodes and edges: what can be reached in one names
what can be reached in the other. -/
theorem keySet_reached {next : String → Option (List String)}
    {next' : List UInt8 → Option (List (List UInt8))} {R : String → List UInt8 → Prop}
    (hR : ∀ key b, R key b → Names key b) (hto : Search.Simulates R next next')
    (hfrom : Search.Simulates (fun b key => R key b) next' next) {root : String} {b : List UInt8}
    (hroot : R root b) {keys : List String} (hkeys : ∀ key, key ∈ keys ↔ Search.Reached next root key) :
    keySet keys = {c | Search.Reached next' b c} := by
  ext c
  constructor
  · rintro ⟨key, hkey, hc⟩
    obtain ⟨d, hd, hreach⟩ := hto.reached hroot ((hkeys key).1 hkey)
    obtain rfl : d = c := Option.some.inj ((hR key d hd).symm.trans hc)
    exact hreach
  · intro hreach
    obtain ⟨key, hkey, hreach⟩ := hfrom.reached hroot hreach
    exact ⟨key, (hkeys key).2 hreach, hR key c hkey⟩

/-! ### What git-http answers -/

section

variable {t : Announcements} {identifier : String}

/-- The keys that git-http pushes for a key. -/
def GitHttp.pushed (t : Announcements) (identifier key : String) : Option (List String) :=
  (Hex.decode key).map fun bytes => ((t.latestAnnouncement bytes identifier).map fun record =>
    record.maintainers.map Str.toAsciiLowercase).getD []

theorem GitHttp.visit_eq (key : String) : GitHttp.visit t identifier key =
    match GitHttp.pushed t identifier key with
    | none => .error (.internal "invalid maintainer pubkey")
    | some keys => .ok (some keys) := by
  unfold GitHttp.visit GitHttp.pushed
  cases Hex.decode key with
  | none => rfl
  | some bytes =>
    rw [Option.map_some]
    show (match t.latestAnnouncement bytes identifier with
      | none => (.ok (some []) : Except GitHttpHttpError (Option (List String)))
      | some record => .ok (some (record.maintainers.map Str.toAsciiLowercase))) = _
    cases t.latestAnnouncement bytes identifier with
    | none => rfl
    | some record => rfl

/-- Every key that is pushed is the lower-case form of a listed key. -/
theorem GitHttp.mem_pushed {key other : String} {keys : List String}
    (h : GitHttp.pushed t identifier key = some keys) (hother : other ∈ keys) :
    ∃ bytes record, Names key bytes ∧ t.latestAnnouncement bytes identifier = some record ∧
      ∃ listed ∈ record.maintainers, Str.toAsciiLowercase listed = other := by
  obtain ⟨bytes, hbytes, rfl⟩ := Option.map_eq_some_iff.1 h
  cases hlatest : t.latestAnnouncement bytes identifier with
  | none => simp [hlatest] at hother
  | some record =>
    rw [hlatest] at hother
    obtain ⟨listed, hlisted, hlower⟩ := List.mem_map.1 hother
    exact ⟨bytes, record, hbytes, hlatest, listed, hlisted, hlower⟩

theorem GitHttp.simulates_pushed : Search.Simulates Names (GitHttp.pushed t identifier)
    (Search.filled (newestMaintainers t identifier)) := by
  intro key b keys hkey hkeys
  refine ⟨_, rfl, fun other hother _ => ?_⟩
  obtain ⟨bytes, record, hbytes, hlatest, listed, hlisted, rfl⟩ := GitHttp.mem_pushed hkeys hother
  obtain rfl : bytes = b := Option.some.inj (hbytes.symm.trans hkey)
  obtain ⟨c, hc⟩ := RepoAnnouncementRecord.exists_names hlisted
  refine ⟨c, ?_, (Hex.decode_toAsciiLowercase listed).trans hc⟩
  rw [newestMaintainers, hlatest]
  exact List.mem_filterMap.2 ⟨listed, hlisted, hc⟩

theorem GitHttp.pushed_simulates : Search.Simulates (fun b key => Names key b)
    (Search.filled (newestMaintainers t identifier)) (GitHttp.pushed t identifier) := by
  intro b key bytes hkey hbytes
  refine ⟨_, by rw [GitHttp.pushed, hkey]; rfl, fun c hc _ => ?_⟩
  cases hbytes
  cases hlatest : t.latestAnnouncement b identifier with
  | none => simp [newestMaintainers, hlatest] at hc
  | some record =>
    rw [newestMaintainers, hlatest] at hc
    obtain ⟨listed, hlisted, hname⟩ := List.mem_filterMap.1 hc
    refine ⟨Str.toAsciiLowercase listed, ?_, (Hex.decode_toAsciiLowercase listed).trans hname⟩
    show _ ∈ ((t.latestAnnouncement b identifier).map _).getD []
    rw [hlatest]
    exact List.mem_map_of_mem hlisted

/-- git-http answers the root and every key that is listed on the way. -/
theorem GitHttp.keySet_resolveMaintainers {repo : NormalizedRepo} {root : List UInt8}
    (hroot : Names repo.pubkey root) :
    ∃ pushers, GitHttp.resolveMaintainers t repo = some (.ok pushers) ∧
      keySet pushers = {b | Search.Met (newestMaintainers t repo.identifier) root b} := by
  set lowered := Str.toAsciiLowercase repo.pubkey with hlowered
  have hname : Names lowered root := (Hex.decode_toAsciiLowercase repo.pubkey).trans hroot
  have hnodes : ∀ x ∈ lowered :: t.listed.map Str.toAsciiLowercase, ∃ b, Names x b := by
    intro x hx
    rcases List.mem_cons.1 hx with rfl | hx
    · exact ⟨root, hname⟩
    · obtain ⟨listed, hlisted, rfl⟩ := List.mem_map.1 hx
      obtain ⟨record, -, hmem⟩ := List.mem_flatMap.1 hlisted
      obtain ⟨b, hb⟩ := RepoAnnouncementRecord.exists_names hmem
      exact ⟨b, (Hex.decode_toAsciiLowercase listed).trans hb⟩
  have hvisited : ∀ x ∈ lowered :: t.listed.map Str.toAsciiLowercase,
      GitHttp.visit t repo.identifier x = .ok (GitHttp.pushed t repo.identifier x) := by
    intro x hx
    obtain ⟨b, hb⟩ := hnodes x hx
    rw [GitHttp.visit_eq, GitHttp.pushed, hb]
    rfl
  have hpushed : ∀ x ∈ lowered :: t.listed.map Str.toAsciiLowercase, ∀ keys,
      GitHttp.pushed t repo.identifier x = some keys →
      keys ⊆ lowered :: t.listed.map Str.toAsciiLowercase ∧ keys.length ≤ t.listed.length := by
    intro x _ keys hkeys
    constructor
    · intro other hother
      obtain ⟨bytes, record, -, hlatest, listed, hlisted, rfl⟩ := GitHttp.mem_pushed hkeys hother
      refine List.mem_cons_of_mem _ (List.mem_map_of_mem (List.mem_flatMap.2 ⟨record, ?_, hlisted⟩))
      exact Announcements.mem_records_of_latest hlatest
    · obtain ⟨bytes, -, rfl⟩ := Option.map_eq_some_iff.1 hkeys
      cases hlatest : t.latestAnnouncement bytes repo.identifier with
      | none => exact Nat.zero_le _
      | some record =>
        have hle := Announcements.length_maintainers_le
          (Announcements.mem_records_of_latest hlatest)
        simpa using hle
  obtain ⟨marked, hmarked⟩ := Search.explore_total hvisited hpushed t.searchFuel [lowered] []
    (by simp) (by simp [Search.unmarked, Announcements.searchFuel])
  refine ⟨Str.sort marked, ?_, ?_⟩
  · rw [GitHttp.resolveMaintainers, ← hlowered, hmarked]
    rfl
  · have hvisit : ∀ x o, GitHttp.visit t repo.identifier x = .ok o →
        GitHttp.pushed t repo.identifier x = o := by
      intro x o ho
      rw [GitHttp.visit_eq] at ho
      cases hp : GitHttp.pushed t repo.identifier x with
      | none => simp [hp] at ho
      | some keys =>
        rw [hp] at ho
        cases ho
        rfl
    rw [keySet_sort, keySet_reached (R := Names) (fun _ _ h => h) GitHttp.simulates_pushed
      GitHttp.pushed_simulates hname fun key => Search.mem_explore hvisit hmarked]
    ext b
    exact Search.reached_filled_iff

/-! ### What the state service answers -/

namespace StateService

/-- The keys that the state service pushes for a key with an announcement. -/
def pushed (t : Announcements) (identifier key : String) : Option (List String) :=
  (Hex.decode key).bind fun bytes =>
    (t.latestAnnouncement bytes identifier).map RepoAnnouncementRecord.maintainers

theorem visit_of_names {key : String} {bytes : List UInt8} (h : Names key bytes) :
    visit t identifier key = .ok (pushed t identifier key) := by
  unfold visit pushed
  rw [h]
  show (match t.latestAnnouncement bytes identifier with
    | none => (.ok none : Except StateServiceError (Option (List String)))
    | some record => .ok (some record.maintainers)) =
    .ok ((t.latestAnnouncement bytes identifier).map RepoAnnouncementRecord.maintainers)
  cases t.latestAnnouncement bytes identifier with
  | none => rfl
  | some record => rfl

theorem pushed_of_visit {key : String} {keys : Option (List String)}
    (h : visit t identifier key = .ok keys) : pushed t identifier key = keys := by
  cases hdecode : Hex.decode key with
  | none =>
    unfold visit at h
    rw [hdecode] at h
    cases h
  | some bytes =>
    rw [visit_of_names hdecode] at h
    exact Except.ok.inj h

theorem pushed_eq_some {key : String} {keys : List String} :
    pushed t identifier key = some keys ↔ ∃ bytes record, Names key bytes ∧
      t.latestAnnouncement bytes identifier = some record ∧ record.maintainers = keys := by
  unfold pushed
  rw [Option.bind_eq_some_iff]
  simp only [Option.map_eq_some_iff]
  constructor
  · rintro ⟨bytes, hbytes, record, hrecord, rfl⟩
    exact ⟨bytes, record, hbytes, hrecord, rfl⟩
  · rintro ⟨bytes, record, hbytes, hrecord, rfl⟩
    exact ⟨bytes, hbytes, record, hrecord, rfl⟩

theorem simulates_pushed :
    Search.Simulates Names (pushed t identifier) (newestMaintainers t identifier) := by
  intro key b keys hkey hkeys
  obtain ⟨bytes, record, hbytes, hlatest, rfl⟩ := pushed_eq_some.1 hkeys
  obtain rfl : bytes = b := Option.some.inj (hbytes.symm.trans hkey)
  refine ⟨record.maintainers.filterMap Hex.decode, by rw [newestMaintainers, hlatest]; rfl, ?_⟩
  intro listed hlisted _
  obtain ⟨c, hc⟩ := RepoAnnouncementRecord.exists_names hlisted
  exact ⟨c, List.mem_filterMap.2 ⟨listed, hlisted, hc⟩, hc⟩

theorem pushed_simulates : Search.Simulates (fun b key => Names key b)
    (newestMaintainers t identifier) (pushed t identifier) := by
  intro b key bytes hkey hbytes
  obtain ⟨record, hlatest, rfl⟩ := Option.map_eq_some_iff.1 hbytes
  refine ⟨record.maintainers, pushed_eq_some.2 ⟨b, record, hkey, hlatest, rfl⟩, fun c hc _ => ?_⟩
  exact List.mem_filterMap.1 hc

/-- The state service answers the keys with an announcement that can be reached. -/
theorem keySet_resolveMaintainers {pubkey : String} {root : List UInt8} (hroot : Names pubkey root)
    (hblank : Str.trim identifier ≠ "") :
    ∃ response, resolveMaintainers t pubkey identifier = some (.ok response) ∧
      keySet response.maintainers =
        {b | Search.Reached (newestMaintainers t identifier) root b} := by
  have hnodes : ∀ x ∈ pubkey :: t.listed, ∃ b, Names x b := by
    intro x hx
    rcases List.mem_cons.1 hx with rfl | hx
    · exact ⟨root, hroot⟩
    · obtain ⟨record, -, hmem⟩ := List.mem_flatMap.1 hx
      exact RepoAnnouncementRecord.exists_names hmem
  have hvisited : ∀ x ∈ pubkey :: t.listed,
      visit t identifier x = .ok (pushed t identifier x) := by
    intro x hx
    obtain ⟨b, hb⟩ := hnodes x hx
    exact visit_of_names hb
  have hpushed : ∀ x ∈ pubkey :: t.listed, ∀ keys, pushed t identifier x = some keys →
      keys ⊆ pubkey :: t.listed ∧ keys.length ≤ t.listed.length := by
    intro x _ keys hkeys
    obtain ⟨bytes, record, -, hlatest, rfl⟩ := pushed_eq_some.1 hkeys
    have hrecord := Announcements.mem_records_of_latest hlatest
    refine ⟨fun other hother => ?_, Announcements.length_maintainers_le hrecord⟩
    exact List.mem_cons_of_mem _ (List.mem_flatMap.2 ⟨record, hrecord, hother⟩)
  obtain ⟨marked, hmarked⟩ := Search.explore_total hvisited hpushed t.searchFuel [pubkey] []
    (by simp) (by simp [Search.unmarked, Announcements.searchFuel])
  refine ⟨⟨identifier, Str.sort marked⟩, ?_, ?_⟩
  · rw [resolveMaintainers, if_neg hblank, hmarked]
    rfl
  · rw [keySet_sort, keySet_reached (R := Names) (fun _ _ h => h) simulates_pushed
      pushed_simulates hroot fun key => Search.mem_explore (fun _ _ => pushed_of_visit) hmarked]

end StateService

/-! ### What the events say -/

/-- The first announcement of a key among the events is that of its first record. -/
theorem foundMaintainers_encode {records : List RepoAnnouncementRecord} {events : List CoreEvent}
    (h : List.Forall₂ CoreEvent.Carries events records) (b : List UInt8) :
    foundMaintainers events identifier (Hex.encode b) =
      (records.find? fun record => record.pubkey = b ∧ record.identifier = identifier).map
        RepoAnnouncementRecord.maintainers := by
  induction h with
  | nil => rfl
  | @cons event record events records hcarries _ ih =>
    unfold foundMaintainers findRepoAnnouncement at ih ⊢
    obtain ⟨a, ha, hid, hmaintainers⟩ := hcarries.tags
    rw [List.findSome?_cons, List.find?_cons]
    by_cases hmatch : record.pubkey = b ∧ record.identifier = identifier
    · have hsome : event.announcement (Hex.encode b) identifier = some a :=
        announcement_eq_some.2 ⟨hcarries.kind, by rw [hcarries.pubkey, hmatch.1], ha,
          hid.trans hmatch.2⟩
      rw [hsome]
      simp [hmatch, hmaintainers]
    · have hnone : event.announcement (Hex.encode b) identifier = none := by
        rw [Option.eq_none_iff_forall_ne_some]
        intro a' ha'
        obtain ⟨-, hp, ha', hi⟩ := announcement_eq_some.1 ha'
        rw [ha] at ha'
        cases ha'
        refine hmatch ⟨Hex.encode_injective (hcarries.pubkey.symm.trans hp), hid.symm.trans hi⟩
      rw [hnone]
      simpa [hmatch] using ih

theorem exists_carries {records : List RepoAnnouncementRecord} {events : List CoreEvent}
    (h : List.Forall₂ CoreEvent.Carries events records) {event : CoreEvent}
    (hevent : event ∈ events) : ∃ record ∈ records, event.Carries record := by
  induction h with
  | nil => cases hevent
  | cons hcarries _ ih =>
    rcases List.mem_cons.1 hevent with rfl | hevent
    · exact ⟨_, List.mem_cons_self, hcarries⟩
    · obtain ⟨record, hrecord, hcarries⟩ := ih hevent
      exact ⟨record, List.mem_cons_of_mem _ hrecord, hcarries⟩

/-- Only a key in lower case has an announcement among the events. -/
theorem eq_encode_of_foundMaintainers {records : List RepoAnnouncementRecord}
    {events : List CoreEvent} (h : List.Forall₂ CoreEvent.Carries events records) {key : String}
    {keys : List String} (hkeys : foundMaintainers events identifier key = some keys) :
    ∃ b, key = Hex.encode b := by
  obtain ⟨a, ha, -⟩ := Option.map_eq_some_iff.1 hkeys
  obtain ⟨event, hevent, ha⟩ := of_findRepoAnnouncement ha
  obtain ⟨record, -, hcarries⟩ := exists_carries h hevent
  exact ⟨record.pubkey, (announcement_eq_some.1 ha).2.1.symm.trans hcarries.pubkey⟩

/-- A key whose first announcement is followed. -/
def Spells (key : String) (b : List UInt8) : Prop := key = Hex.encode b

theorem simulates_found {records : List RepoAnnouncementRecord} {events : List CoreEvent}
    (h : List.Forall₂ CoreEvent.Carries events records) :
    Search.Simulates Spells (foundMaintainers events identifier)
      (firstMaintainers records identifier) := by
  rintro key b keys rfl hkeys
  rw [foundMaintainers_encode h] at hkeys
  obtain ⟨record, hrecord, rfl⟩ := Option.map_eq_some_iff.1 hkeys
  refine ⟨_, by rw [firstMaintainers, hrecord]; rfl, ?_⟩
  rintro listed hlisted ⟨keys', hnode⟩
  obtain ⟨c, rfl⟩ := eq_encode_of_foundMaintainers h hnode
  refine ⟨c, List.mem_filterMap.2 ⟨Hex.encode c, ?_, Hex.decode_encode c⟩, rfl⟩
  exact List.mem_filter.2 ⟨hlisted, decide_eq_true (Hex.isLower_encode c)⟩

theorem found_simulates {records : List RepoAnnouncementRecord} {events : List CoreEvent}
    (h : List.Forall₂ CoreEvent.Carries events records) :
    Search.Simulates (fun b key => Spells key b) (firstMaintainers records identifier)
      (foundMaintainers events identifier) := by
  rintro b key bytes rfl hbytes
  obtain ⟨record, hrecord, rfl⟩ := Option.map_eq_some_iff.1 hbytes
  refine ⟨record.maintainers, by rw [foundMaintainers_encode h, hrecord]; rfl, fun c hc _ => ?_⟩
  obtain ⟨listed, hlisted, hname⟩ := List.mem_filterMap.1 hc
  obtain ⟨hmem, hlower⟩ := List.mem_filter.1 hlisted
  exact ⟨listed, hmem, Hex.eq_encode_of_isLower (of_decide_eq_true hlower) hname⟩

/-- `collect_maintainers` answers what can be reached over the first announcements from a key in
lower case, and nothing for another spelling of it. -/
theorem keySet_collectMaintainers (identifier : String) {records : List RepoAnnouncementRecord}
    {events : List CoreEvent} (h : List.Forall₂ CoreEvent.Carries events records) {pubkey : String}
    {root : List UInt8} (hroot : Names pubkey root) :
    ∃ keys, collectMaintainers events pubkey identifier = some keys ∧ keySet keys =
      {b | Hex.IsLower pubkey ∧ Search.Reached (firstMaintainers records identifier) root b} := by
  obtain ⟨keys, hkeys⟩ := collectMaintainers_eq_some events pubkey identifier
  refine ⟨keys, hkeys, ?_⟩
  by_cases hlower : Hex.IsLower pubkey
  · have hspells : Spells pubkey root := Hex.eq_encode_of_isLower hlower hroot
    rw [keySet_reached (R := Spells) (by rintro key b rfl; exact Hex.decode_encode b)
      (simulates_found h) (found_simulates h) hspells fun key => mem_collectMaintainers hkeys]
    ext b
    exact ⟨fun hb => ⟨hlower, hb⟩, fun hb => hb.2⟩
  · ext b
    constructor
    · rintro ⟨key, hkey, -⟩
      obtain ⟨keys', hnode⟩ := ((mem_collectMaintainers hkeys).1 hkey).1
      obtain ⟨c, rfl⟩ := eq_encode_of_foundMaintainers h hnode
      exact absurd (Hex.isLower_encode c) hlower
    · rintro ⟨hlower', -⟩
      exact absurd hlower' hlower

/-! ### When the answers agree -/

/-- A key has an announcement for the identifier. -/
def Announced (t : Announcements) (identifier : String) (pubkey : List UInt8) : Prop :=
  ∃ record, t.latestAnnouncement pubkey identifier = some record

theorem isNode_newestMaintainers {b : List UInt8} :
    Search.IsNode (newestMaintainers t identifier) b ↔ Announced t identifier b := by
  unfold Search.IsNode newestMaintainers Announced
  simp only [Option.map_eq_some_iff]
  constructor
  · rintro ⟨_, record, hrecord, -⟩
    exact ⟨record, hrecord⟩
  · rintro ⟨record, hrecord⟩
    exact ⟨_, record, hrecord, rfl⟩

/-- The key of the repository and every key that is listed on the way have an announcement. -/
structure FullyAnnounced (t : Announcements) (identifier : String) (root : List UInt8) : Prop where
  announced : Announced t identifier root
  listed : ∀ b keys, Search.Reached (newestMaintainers t identifier) root b →
    newestMaintainers t identifier b = some keys → ∀ c ∈ keys, Announced t identifier c

/-- All announcements of a key for the identifier list the same keys, in lower case. -/
structure Settled (t : Announcements) (identifier : String) (pubkey : List UInt8) : Prop where
  same : ∀ record ∈ t.listAnnouncements pubkey identifier,
    ∀ other ∈ t.listAnnouncements pubkey identifier,
      ∀ key ∈ record.maintainers, key ∈ other.maintainers
  lower : ∀ record ∈ t.listAnnouncements pubkey identifier, ∀ key ∈ record.maintainers,
    Hex.IsLower key

/-- The first announcement of a key is one of those that are stored. -/
theorem firstMaintainers_eq_some {records : List RepoAnnouncementRecord}
    (hperm : records.Perm t.records) {b : List UInt8} {keys : List (List UInt8)}
    (h : firstMaintainers records identifier b = some keys) :
    ∃ record ∈ t.listAnnouncements b identifier,
      (record.maintainers.filter fun key => Hex.IsLower key).filterMap Hex.decode = keys := by
  obtain ⟨record, hfind, hkeys⟩ := Option.map_eq_some_iff.1 h
  have hmatch := List.find?_some hfind
  simp only [decide_eq_true_eq] at hmatch
  obtain ⟨rfl, rfl⟩ := hmatch
  have hstored : record ∈ t.records := hperm.mem_iff.1 (List.mem_of_find?_eq_some hfind)
  exact ⟨record, Announcements.mem_records.1 hstored, hkeys⟩

/-- A key has a first announcement when it has one at all. -/
theorem isNode_firstMaintainers {records : List RepoAnnouncementRecord}
    (hperm : records.Perm t.records) {b : List UInt8} :
    Search.IsNode (firstMaintainers records identifier) b ↔ Announced t identifier b := by
  rw [Announced, Announcements.exists_latestAnnouncement]
  constructor
  · rintro ⟨keys, hkeys⟩
    obtain ⟨record, hrecord, -⟩ := firstMaintainers_eq_some hperm hkeys
    exact ⟨record, hrecord⟩
  · rintro ⟨record, hrecord⟩
    obtain ⟨rfl, rfl⟩ := Announcements.of_mem_listAnnouncements hrecord
    have hmem : record ∈ records := hperm.mem_iff.2 (Announcements.mem_records.2 hrecord)
    have hfound : (records.find? fun other =>
        other.pubkey = record.pubkey ∧ other.identifier = record.identifier).isSome := by
      rw [List.find?_isSome]
      exact ⟨record, hmem, by simp⟩
    obtain ⟨first, hfirst⟩ := Option.isSome_iff_exists.1 hfound
    exact ⟨_, by rw [firstMaintainers, hfirst]; rfl⟩

/-- The first announcement of a settled key lists what the newest one lists. -/
theorem Settled.mem_iff {records : List RepoAnnouncementRecord} (hperm : records.Perm t.records)
    {b : List UInt8} (hsettled : Settled t identifier b) {newest first : List (List UInt8)}
    (hnewest : newestMaintainers t identifier b = some newest)
    (hfirst : firstMaintainers records identifier b = some first) (c : List UInt8) :
    c ∈ newest ↔ c ∈ first := by
  obtain ⟨latest, hlatest, rfl⟩ := Option.map_eq_some_iff.1 hnewest
  obtain ⟨record, hrecord, rfl⟩ := firstMaintainers_eq_some hperm hfirst
  have hstored := Announcements.mem_of_latestAnnouncement hlatest
  rw [List.mem_filterMap, List.mem_filterMap]
  constructor
  · rintro ⟨key, hkey, hname⟩
    refine ⟨key, List.mem_filter.2 ⟨hsettled.same _ hstored _ hrecord key hkey, ?_⟩, hname⟩
    exact decide_eq_true (hsettled.lower _ hstored key hkey)
  · rintro ⟨key, hkey, hname⟩
    exact ⟨key, hsettled.same _ hrecord _ hstored key (List.mem_of_mem_filter hkey), hname⟩

/-- Among settled keys the first announcements lead where the newest ones lead. -/
theorem reached_first_iff {records : List RepoAnnouncementRecord} (hperm : records.Perm t.records)
    {root : List UInt8} (hsettled : ∀ b, Search.Reached (newestMaintainers t identifier) root b →
      Settled t identifier b) (b : List UInt8) :
    Search.Reached (newestMaintainers t identifier) root b ↔
      Search.Reached (firstMaintainers records identifier) root b := by
  refine Search.reached_congr (fun c => ?_) (fun c newest first hc hnewest hfirst => ?_) b
  · rw [isNode_newestMaintainers, isNode_firstMaintainers hperm]
  · exact (hsettled c hc).mem_iff hperm hnewest hfirst

/-- git-http answers the root and the keys that are listed on the way over newest announcements, and
the state service those of them that are announced.  The events of the announcements, in any order,
yield what the state service answers, when the root is in lower case and the keys that are reached are
settled. -/
theorem resolvers_agree {repo : NormalizedRepo} {root : List UInt8} (t : Announcements)
    (hroot : Names repo.pubkey root) (hblank : Str.trim repo.identifier ≠ "") :
    ∃ pushers response,
      GitHttp.resolveMaintainers t repo = some (.ok pushers) ∧
      StateService.resolveMaintainers t repo.pubkey repo.identifier = some (.ok response) ∧
      keySet pushers = {b | Search.Met (newestMaintainers t repo.identifier) root b} ∧
      keySet response.maintainers = {b ∈ keySet pushers | Announced t repo.identifier b} ∧
      (keySet pushers = keySet response.maintainers ↔ FullyAnnounced t repo.identifier root) ∧
      ∀ records events, t.Listing records events →
        ∃ collected, collectMaintainers events repo.pubkey repo.identifier = some collected ∧
          (Hex.IsLower repo.pubkey →
            (∀ b, Search.Reached (newestMaintainers t repo.identifier) root b →
              Settled t repo.identifier b) →
            keySet collected = keySet response.maintainers) := by
  obtain ⟨pushers, hpushers, hmet⟩ := GitHttp.keySet_resolveMaintainers (t := t) hroot
  obtain ⟨response, hresponse, hreached⟩ :=
    StateService.keySet_resolveMaintainers (t := t) hroot hblank
  refine ⟨pushers, response, hpushers, hresponse, hmet, ?_, ?_, fun records events hlisting => ?_⟩
  · rw [hmet, hreached]
    ext b
    rw [Set.mem_ofPred_eq, ← Search.met_and_isNode_iff, isNode_newestMaintainers]
    rfl
  · rw [hmet, hreached, Search.met_eq_reached_iff]
    simp only [isNode_newestMaintainers]
    exact ⟨fun h => ⟨h.1, h.2⟩, fun h => ⟨h.announced, h.listed⟩⟩
  · obtain ⟨collected, hcollected, hfirst⟩ :=
      keySet_collectMaintainers repo.identifier hlisting.carried hroot
    refine ⟨collected, hcollected, fun hlower hsettled => ?_⟩
    rw [hfirst, hreached]
    ext b
    rw [Set.mem_ofPred_eq, Set.mem_ofPred_eq, reached_first_iff hlisting.perm hsettled]
    exact ⟨fun h => h.2, fun h => ⟨hlower, h⟩⟩

end

/-! ### A repository and its maintainer -/

/-- The key of the repository of the examples, and of the maintainer that it lists. -/
def ownerKey : String := Hex.encode (List.replicate 32 17)

def friendKey : String := Hex.encode (List.replicate 32 34)

/-- The announcement that lists the maintainer. -/
def ownerRecord : RepoAnnouncementRecord where
  eventId := List.replicate 32 1
  pubkey := List.replicate 32 17
  identifier := "demo"
  name := none
  description := none
  rootCommit := none
  cloneUrls := []
  webUrls := []
  relays := []
  blossoms := []
  hashtags := []
  maintainers := [friendKey]
  createdAt := 1
  checked := by decide +kernel

/-- The event of that announcement. -/
def ownerEvent : CoreEvent where
  kind := kindGitRepoAnnouncement
  pubkey := ownerKey
  createdAt := 1
  tags := [["d", "demo"], ["maintainers", friendKey]]

/-- The same announcement at a later time. -/
def ownerAgain : RepoAnnouncementRecord :=
  { ownerRecord with eventId := List.replicate 32 2, createdAt := 2 }

/-- An announcement of the maintainer that lists the owner, and its event. -/
def mutualRecord : RepoAnnouncementRecord :=
  { ownerRecord with
    eventId := List.replicate 32 3
    pubkey := List.replicate 32 34
    maintainers := [ownerKey]
    checked := by decide +kernel }

def mutualEvent : CoreEvent :=
  { ownerEvent with pubkey := friendKey, tags := [["d", "demo"], ["maintainers", ownerKey]] }

/-- The announcements of the two. -/
def demoTable : Announcements :=
  ((∅ : Announcements).insertAnnouncement ownerAgain).insertAnnouncement mutualRecord
    |>.insertAnnouncement ownerRecord

/-- The repository whose maintainers are asked for. -/
def demoRepo : NormalizedRepo := ⟨"", "demo", "", ownerKey⟩

/-- The fields of an announcement are compared with those that its tags are read as. -/
theorem CoreEvent.carries_of_parsed {event : CoreEvent} {record : RepoAnnouncementRecord}
    (hkind : event.kind = kindGitRepoAnnouncement) (hkey : event.pubkey = Hex.encode record.pubkey)
    (htime : event.createdAt = record.createdAt)
    (hparsed : ((Result.toOption (RepoAnnouncement.fromTags event.tags)).map fun a =>
      (a.identifier, a.maintainers)) = some (record.identifier, record.maintainers)) :
    event.Carries record := by
  obtain ⟨a, ha, heq⟩ := Option.map_eq_some_iff.1 hparsed
  obtain ⟨hid, hmaintainers⟩ := Prod.mk.inj heq
  exact ⟨hkind, hkey, htime, a, Result.toOption_eq_some.1 ha, hid, hmaintainers⟩

theorem carries_ownerEvent : ownerEvent.Carries ownerRecord :=
  CoreEvent.carries_of_parsed rfl rfl rfl (by decide +kernel)

/-- The announcements of the table, the older one of the owner first. -/
theorem listing_demoTable : demoTable.Listing [ownerRecord, mutualRecord, ownerAgain]
    [ownerEvent, mutualEvent, { ownerEvent with createdAt := 2 }] := by
  refine ⟨by decide +kernel, .cons carries_ownerEvent (.cons ?_ (.cons ?_ .nil))⟩
  · exact CoreEvent.carries_of_parsed rfl rfl rfl (by decide +kernel)
  · exact CoreEvent.carries_of_parsed rfl rfl rfl (by decide +kernel)

/-- A key whose announcements list one key is settled. -/
theorem settled_of_singleton {t : Announcements} {identifier : String} {pubkey other : List UInt8}
    (h : ∀ record ∈ t.listAnnouncements pubkey identifier, record.maintainers = [Hex.encode other]) :
    Settled t identifier pubkey := by
  constructor
  · intro record hrecord record' hrecord' key hkey
    rwa [h record' hrecord', ← h record hrecord]
  · intro record hrecord key hkey
    rw [h record hrecord, List.mem_singleton] at hkey
    rw [hkey]
    exact Hex.isLower_encode other

/-- The owner and its maintainer list each other, and are all that is reached. -/
theorem reached_demoTable {b : List UInt8}
    (h : Search.Reached (newestMaintainers demoTable "demo") (List.replicate 32 17) b) :
    ∃ c, newestMaintainers demoTable "demo" b = some [c] ∧ Announced demoTable "demo" c ∧
      ∀ record ∈ demoTable.listAnnouncements b "demo", record.maintainers = [Hex.encode c] := by
  have howner : newestMaintainers demoTable "demo" (List.replicate 32 17) =
      some [List.replicate 32 34] := by decide +kernel
  have hfriend : newestMaintainers demoTable "demo" (List.replicate 32 34) =
      some [List.replicate 32 17] := by decide +kernel
  have hclosed : Search.Closed (newestMaintainers demoTable "demo") (List.replicate 32 17)
      {List.replicate 32 17, List.replicate 32 34} := by
    refine ⟨fun _ => Or.inl rfl, ?_⟩
    rintro x (rfl | rfl) l hl y hy -
    · obtain rfl := Option.some.inj (howner.symm.trans hl)
      exact Or.inr (List.mem_singleton.1 hy)
    · obtain rfl := Option.some.inj (hfriend.symm.trans hl)
      exact Or.inl (List.mem_singleton.1 hy)
  rcases (Search.isLeast_reached _ _).2 hclosed h with rfl | rfl
  · exact ⟨_, howner, isNode_newestMaintainers.1 ⟨_, hfriend⟩, by decide +kernel⟩
  · exact ⟨_, hfriend, isNode_newestMaintainers.1 ⟨_, howner⟩, by decide +kernel⟩

/-- The three answers for that repository are the same, though the older announcement of the owner
comes first. -/
theorem resolvers_agree_demoTable : ∃ pushers response collected,
    GitHttp.resolveMaintainers demoTable demoRepo = some (.ok pushers) ∧
      StateService.resolveMaintainers demoTable demoRepo.pubkey demoRepo.identifier =
        some (.ok response) ∧
      collectMaintainers [ownerEvent, mutualEvent, { ownerEvent with createdAt := 2 }]
        demoRepo.pubkey demoRepo.identifier = some collected ∧
      keySet pushers = keySet response.maintainers ∧
      keySet collected = keySet response.maintainers ∧
      response.maintainers = [ownerKey, friendKey] := by
  have hcomputed : StateService.resolveMaintainers demoTable demoRepo.pubkey demoRepo.identifier =
      some (.ok ⟨"demo", [ownerKey, friendKey]⟩) := by decide +kernel
  have hfull : FullyAnnounced demoTable "demo" (List.replicate 32 17) := by
    refine ⟨isNode_newestMaintainers.1 ⟨[List.replicate 32 34], by decide +kernel⟩, ?_⟩
    intro b keys hb hkeys c hc
    obtain ⟨d, hlisted, hannounced, -⟩ := reached_demoTable hb
    obtain rfl := Option.some.inj (hlisted.symm.trans hkeys)
    rwa [List.mem_singleton.1 hc]
  obtain ⟨pushers, response, hpushers, hresponse, -, -, hannounced, hcore⟩ :=
    resolvers_agree demoTable (show Names demoRepo.pubkey _ from Hex.decode_encode _)
      (by decide +kernel)
  obtain ⟨collected, hcollected, hagree⟩ := hcore _ _ listing_demoTable
  have hsame := hagree (Hex.isLower_encode _) fun b hb => by
    obtain ⟨c, -, -, hrecords⟩ := reached_demoTable hb
    exact settled_of_singleton hrecords
  refine ⟨pushers, response, collected, hpushers, hresponse, hcollected, hannounced.2 hfull, hsame, ?_⟩
  rw [hcomputed] at hresponse
  cases hresponse
  rfl

/-! ### Where the answers differ -/

theorem isHexLen_of_mem_nil : ∀ key ∈ ([] : List String), Str.isHexLen key 64 = true := nofun

/-- The announcement of a key with a letter in its name. -/
def letterRecord : RepoAnnouncementRecord :=
  { ownerRecord with
    pubkey := List.replicate 32 170
    maintainers := []
    checked := isHexLen_of_mem_nil }

/-- The name of that key in upper case. -/
def upperKey : String := "AAAAAAAAAAAAAAAAAAAAAAAAAAAAAAAAAAAAAAAAAAAAAAAAAAAAAAAAAAAAAAAA"

/-- A listed key without an announcement may push, but is not reported; and a root that is not in
lower case is reported, but not collected. -/
theorem resolvers_disagree :
    (∃ pushers response,
      GitHttp.resolveMaintainers ((∅ : Announcements).insertAnnouncement ownerRecord) demoRepo =
          some (.ok pushers) ∧
        StateService.resolveMaintainers ((∅ : Announcements).insertAnnouncement ownerRecord)
          demoRepo.pubkey demoRepo.identifier = some (.ok response) ∧
        Str.isHexLen demoRepo.pubkey 64 = true ∧ Str.trim demoRepo.identifier ≠ "" ∧
        keySet pushers ≠ keySet response.maintainers) ∧
    ∃ pubkey response,
      Str.isHexLen pubkey 64 = true ∧
        StateService.resolveMaintainers ((∅ : Announcements).insertAnnouncement letterRecord)
          pubkey "demo" = some (.ok response) ∧
        collectMaintainers [⟨kindGitRepoAnnouncement, Hex.encode letterRecord.pubkey, 1,
          [["d", "demo"]]⟩] pubkey "demo" = some [] ∧
        keySet response.maintainers ≠ keySet [] := by
  constructor
  · refine ⟨[ownerKey, friendKey], ⟨"demo", [ownerKey]⟩, by decide +kernel, by decide +kernel,
      by decide +kernel, by decide +kernel, fun heq => ?_⟩
    have hfriend : List.replicate 32 34 ∈ keySet [ownerKey, friendKey] :=
      ⟨friendKey, by simp, Hex.decode_encode _⟩
    rw [heq] at hfriend
    obtain ⟨key, hkey, hdecode⟩ := hfriend
    rw [List.mem_singleton.1 hkey, ownerKey, Hex.decode_encode] at hdecode
    exact absurd hdecode (by decide +kernel)
  · have hletter : Names upperKey (List.replicate 32 170) := by
      unfold Names
      decide +kernel
    refine ⟨upperKey, ⟨"demo", [upperKey]⟩, by decide +kernel,
      by decide +kernel, by decide +kernel, fun heq => ?_⟩
    have hroot : List.replicate 32 170 ∈ keySet [upperKey] := ⟨_, by simp, hletter⟩
    rw [heq] at hroot
    obtain ⟨key, hkey, -⟩ := hroot
    cases hkey

end Gittree
