import Gittree.Core.Nip34Events

/-!
# References between events

`crates/core/src/event_refs.rs` and `event_filters.rs`: the events and addresses that the tags of an
event refer to, and the filters that ask a relay for what is related to an event.  An address is a
kind, a key and an identifier, joined by colons.

* `address_of_plain`, `address_of_colon`: the addresses of repositories, by their identifiers;
* `addressable_iff`: the repositories that can be referred to.
-/

namespace Gittree

open Rust

/-! ### References -/

/-- `EventReferences`. -/
structure EventReferences where
  eventIds : List String
  addressPointers : List String
  deriving DecidableEq, Repr

/-- `EventReferences::new`. -/
def EventReferences.new : EventReferences := ⟨[], []⟩

/-- One tag of `collect_event_references`. -/
def EventReferences.addTag (refs : EventReferences) : List String → EventReferences
  | key :: value :: _ =>
    if key = "a" ∨ key = "A" then
      { refs with addressPointers := pushUnique refs.addressPointers value }
    else if key = "e" ∨ key = "E" then { refs with eventIds := pushUnique refs.eventIds value }
    else if key = "q" then
      if Str.containsChar value ':' then
        { refs with addressPointers := pushUnique refs.addressPointers value }
      else { refs with eventIds := pushUnique refs.eventIds value }
    else refs
  | _ => refs

/-- `collect_event_references`. -/
def collectEventReferences (tags : Tags) : EventReferences :=
  tags.foldl EventReferences.addTag .new

/-- `is_addressable_kind`. -/
def isAddressableKind (kind : ℕ) : Bool := decide (30000 ≤ kind) && decide (kind < 40000)

/-- `find_d_tag`: the first `d` tag with a value. -/
def findDTag (tags : Tags) : Option String :=
  tags.findSome? fun tag =>
    match tag with
    | name :: value :: _ => if name = "d" then some value else none
    | _ => none

/-- `collect_event_references_with_self`. -/
def collectEventReferencesWithSelf (kind : ℕ) (pubkey eventId : String) (tags : Tags) :
    EventReferences :=
  let refs := collectEventReferences tags
  if isAddressableKind kind then
    let pointer := match findDTag tags with
      | some identifier => toString kind ++ ":" ++ pubkey ++ ":" ++ identifier
      | none => toString kind ++ ":" ++ pubkey
    { refs with addressPointers := pushUnique refs.addressPointers pointer }
  else { refs with eventIds := pushUnique refs.eventIds eventId }

/-! ### Filters -/

/-- `EventFilter`. -/
structure EventFilter where
  ids : List String
  kinds : List ℕ
  authors : List String
  tags : Map (List String)
  limit : Option ℕ

/-- `EventFilter::new`. -/
def EventFilter.new : EventFilter where
  ids := []
  kinds := []
  authors := []
  tags := ∅
  limit := none

/-- `EventFilter::with_limit`. -/
def EventFilter.withLimit (filter : EventFilter) (limit : ℕ) : EventFilter :=
  { filter with limit := some limit }

/-- `related_kinds`. -/
def relatedKinds (kind : ℕ) : List ℕ :=
  if kind = kindGitRepoState then [kindGitRepoState, kindGitRepoAnnouncement] else [kind]

/-- `build_pointer_filter`. -/
def buildPointerFilter (pointer : String) : Option EventFilter :=
  match Str.split pointer ':' with
  | [kind, author, identifier] =>
    (Str.parseUnsigned kind (2 ^ 32)).map fun kind =>
      { EventFilter.new with
        kinds := relatedKinds kind
        authors := [author]
        tags := EventFilter.new.tags.insert "d" [identifier] }
  | [kind, author] =>
    (Str.parseUnsigned kind (2 ^ 32)).map fun kind =>
      { EventFilter.new with
        kinds := relatedKinds kind
        authors := [author] }
  | _ => none

/-- The filter on two names of a tag. -/
def tagFilter (lower upper : String) (values : List String) : EventFilter :=
  { EventFilter.new with tags := (EventFilter.new.tags.insert lower values).insert upper values }

/-- `build_related_event_filters`. -/
def buildRelatedEventFilters (kind : ℕ) (pubkey eventId : String) (tags : Tags) :
    List EventFilter :=
  let refs := collectEventReferencesWithSelf kind pubkey eventId tags
  let byId := if refs.eventIds = [] then [] else [{ EventFilter.new with ids := refs.eventIds }]
  let byPointer := refs.addressPointers.filterMap buildPointerFilter
  let byEventTag := if refs.eventIds = [] then [] else [tagFilter "e" "E" refs.eventIds]
  let byAddressTag :=
    if refs.addressPointers = [] then [] else [tagFilter "a" "A" refs.addressPointers]
  let byQuote := { EventFilter.new with
    tags := EventFilter.new.tags.insert "q" (refs.addressPointers ++ refs.eventIds) }
  (byId ++ byPointer ++ byEventTag ++ byAddressTag ++ [byQuote]).map fun filter =>
    filter.withLimit 1

/-! ### What is collected -/

theorem addressPointers_addTag {refs : EventReferences} {tag : List String} {value : String}
    (h : value ∈ refs.addressPointers) : value ∈ (refs.addTag tag).addressPointers := by
  unfold EventReferences.addTag
  split
  · split_ifs
    · exact mem_pushUnique.2 (.inl h)
    · exact h
    · exact mem_pushUnique.2 (.inl h)
    · exact h
    · exact h
  · exact h

/-- The value of an `a` or `A` tag is collected. -/
theorem mem_addressPointers {tags : Tags} {key value : String} {rest : List String}
    (hkey : key = "a" ∨ key = "A") (h : (key :: value :: rest) ∈ tags) :
    value ∈ (collectEventReferences tags).addressPointers := by
  unfold collectEventReferences
  have hfold : ∀ (tags : Tags) (refs : EventReferences),
      value ∈ refs.addressPointers ∨ (key :: value :: rest) ∈ tags →
      value ∈ (tags.foldl EventReferences.addTag refs).addressPointers := by
    intro tags
    induction tags with
    | nil => exact fun refs h => h.elim id (by simp)
    | cons tag tags ih =>
      intro refs h
      refine ih (refs.addTag tag) ?_
      rcases h with hold | hmem
      · exact .inl (addressPointers_addTag hold)
      · rcases List.mem_cons.1 hmem with rfl | hmem
        · left
          rw [EventReferences.addTag, if_pos hkey]
          exact mem_pushUnique.2 (.inr rfl)
        · exact .inr hmem
  exact hfold tags .new (.inr h)

/-- The event itself takes no reference away. -/
theorem addressPointers_withSelf {kind : ℕ} {pubkey eventId value : String} {tags : Tags}
    (h : value ∈ (collectEventReferences tags).addressPointers) :
    value ∈ (collectEventReferencesWithSelf kind pubkey eventId tags).addressPointers := by
  unfold collectEventReferencesWithSelf
  simp only
  split_ifs
  · exact mem_pushUnique.2 (.inl h)
  · exact h

/-- The filter of a collected address is asked for. -/
theorem mem_buildRelatedEventFilters {kind : ℕ} {pubkey eventId pointer : String} {tags : Tags}
    {filter : EventFilter} (h : pointer ∈ (collectEventReferences tags).addressPointers)
    (hfilter : buildPointerFilter pointer = some filter) :
    filter.withLimit 1 ∈ buildRelatedEventFilters kind pubkey eventId tags := by
  have hpointer : pointer ∈
      (collectEventReferencesWithSelf kind pubkey eventId tags).addressPointers :=
    addressPointers_withSelf h
  refine List.mem_map_of_mem ?_
  simp only [List.mem_append]
  exact .inl (.inl (.inl (.inr (List.mem_filterMap.2 ⟨pointer, hpointer, hfilter⟩))))

/-! ### Addresses of repositories -/

/-- `Display` of a `RepoAddress`. -/
def RepoAddress.display (address : RepoAddress) : String :=
  "30617:" ++ address.pubkey ++ ":" ++ address.identifier

section

variable {pubkey identifier : String}

theorem not_mem_of_isHexLen {n : ℕ} (h : Str.isHexLen pubkey n = true) : ':' ∉ pubkey.toList := by
  intro hmem
  exact absurd ((Str.isHexLen_iff.1 h).2 ':' hmem) (by decide)

theorem split_address (identifier : String) (hpubkey : Str.isHexLen pubkey 64 = true) :
    Str.split (RepoAddress.display ⟨pubkey, identifier⟩) ':' =
      "30617" :: pubkey :: Str.split identifier ':' := by
  have hshape : RepoAddress.display ⟨pubkey, identifier⟩ =
      "30617" ++ String.singleton ':' ++ (pubkey ++ String.singleton ':' ++ identifier) := by
    rw [← String.toList_inj]
    simp [RepoAddress.display]
  rw [hshape, Str.split_append, Str.split_append, Str.split_eq_singleton (by decide),
    Str.split_eq_singleton (not_mem_of_isHexLen hpubkey)]
  rfl

/-- A text with a separator has at least two parts. -/
theorem split_of_mem {c : Char} (h : c ∈ identifier.toList) :
    ∃ first second rest, Str.split identifier c = first :: second :: rest := by
  obtain ⟨a, b, hab⟩ := List.append_of_mem h
  have hshape : identifier = String.ofList a ++ String.singleton c ++ String.ofList b := by
    rw [← String.toList_inj]
    simp [hab]
  have hne : ∀ s : String, Str.split s c ≠ [] := by
    intro s
    unfold Str.split
    simp [List.splitOn_ne_nil]
  obtain ⟨x, xs, hx⟩ := List.exists_cons_of_ne_nil (hne (String.ofList a))
  obtain ⟨y, ys, hy⟩ := List.exists_cons_of_ne_nil (hne (String.ofList b))
  rw [hshape, Str.split_append, hx, hy]
  cases xs with
  | nil => exact ⟨x, y, ys, rfl⟩
  | cons z zs => exact ⟨x, z, zs ++ y :: ys, rfl⟩

/-- The filter for a repository. -/
def addressFilter (pubkey identifier : String) : EventFilter :=
  { EventFilter.new with
    kinds := [kindGitRepoAnnouncement]
    authors := [pubkey]
    tags := EventFilter.new.tags.insert "d" [identifier] }

/-- The address of a repository whose identifier has no colon. -/
theorem address_of_plain (hpubkey : Str.isHexLen pubkey 64 = true)
    (hblank : Str.trim identifier ≠ "") (h : ':' ∉ identifier.toList) :
    RepoAddress.parse (RepoAddress.display ⟨pubkey, identifier⟩) = .ok ⟨pubkey, identifier⟩ ∧
      buildPointerFilter (RepoAddress.display ⟨pubkey, identifier⟩) =
        some (addressFilter pubkey identifier) := by
  have hsplit := split_address identifier hpubkey
  rw [Str.split_eq_singleton h] at hsplit
  have hne : identifier ≠ "" := by
    rintro rfl
    exact hblank (by decide)
  have hpne : pubkey ≠ "" := by
    rintro rfl
    exact absurd hpubkey (by decide)
  constructor
  · unfold RepoAddress.parse
    rw [hsplit]
    simp [RepoAddress.new, Result.ensure, hpubkey, hne, hpne]
    rfl
  · unfold buildPointerFilter
    rw [hsplit]
    have hkind : Str.parseUnsigned "30617" (2 ^ 32) = some kindGitRepoAnnouncement := by
      decide +kernel
    simp only [hkind, Option.map_some]
    rfl

/-- The address of a repository whose identifier has a colon is none. -/
theorem address_of_colon (hpubkey : Str.isHexLen pubkey 64 = true) (h : ':' ∈ identifier.toList) :
    RepoAddress.parse (RepoAddress.display ⟨pubkey, identifier⟩) =
        .error (.invalidField "a" (RepoAddress.display ⟨pubkey, identifier⟩)) ∧
      buildPointerFilter (RepoAddress.display ⟨pubkey, identifier⟩) = none := by
  obtain ⟨first, second, rest, hparts⟩ := split_of_mem h
  have hsplit := split_address identifier hpubkey
  rw [hparts] at hsplit
  constructor
  · unfold RepoAddress.parse
    rw [hsplit]
  · unfold buildPointerFilter
    rw [hsplit]

/-- A repository can be referred to: its address is read back, printed the same and accepted, and an
event with an `a` tag for it asks for it. -/
structure Addressable (pubkey identifier : String) : Prop where
  parse : RepoAddress.parse (RepoAddress.display ⟨pubkey, identifier⟩) = .ok ⟨pubkey, identifier⟩
  display : ∀ address, RepoAddress.parse (RepoAddress.display ⟨pubkey, identifier⟩) = .ok address →
    address.display = RepoAddress.display ⟨pubkey, identifier⟩
  validate : validateRepoAddress (RepoAddress.display ⟨pubkey, identifier⟩) = .ok ()
  filter : ∀ (kind : ℕ) (author eventId : String) (tags : Tags) (rest : List String),
    ("a" :: RepoAddress.display ⟨pubkey, identifier⟩ :: rest) ∈ tags →
    (addressFilter pubkey identifier).withLimit 1 ∈
      buildRelatedEventFilters kind author eventId tags

/-- A repository that can be announced can be referred to exactly if its identifier has no colon;
the address of another one is refused. -/
theorem addressable_iff {a : RepoAnnouncement} (hpubkey : Str.isHexLen pubkey 64 = true)
    (hvalid : a.validate = .ok ()) :
    (Addressable pubkey a.identifier ↔ ':' ∉ a.identifier.toList) ∧
      (':' ∈ a.identifier.toList →
        validateRepoAddress (RepoAddress.display ⟨pubkey, a.identifier⟩) =
            .error (.invalidField "a" (RepoAddress.display ⟨pubkey, a.identifier⟩)) ∧
          buildPointerFilter (RepoAddress.display ⟨pubkey, a.identifier⟩) = none) := by
  have hblank := (RepoAnnouncement.validate_eq_ok.1 hvalid).identifier
  refine ⟨⟨fun h hcolon => ?_, fun hplain => ?_⟩, fun hcolon => ?_⟩
  · have hparse := h.parse
    rw [(address_of_colon hpubkey hcolon).1] at hparse
    cases hparse
  · obtain ⟨hparse, hfilter⟩ := address_of_plain hpubkey hblank hplain
    refine ⟨hparse, fun address haddress => ?_, ?_, fun kind author eventId tags rest htag => ?_⟩
    · rw [hparse] at haddress
      cases haddress
      rfl
    · unfold validateRepoAddress
      rw [hparse]
      rfl
    · exact mem_buildRelatedEventFilters (mem_addressPointers (.inl rfl) htag) hfilter
  · obtain ⟨hparse, hfilter⟩ := address_of_colon hpubkey hcolon
    refine ⟨?_, hfilter⟩
    unfold validateRepoAddress
    rw [hparse]
    rfl

end

/-- An announcement that the validation accepts. -/
def announcementOf (identifier : String) : RepoAnnouncement where
  identifier
  name := none
  description := none
  rootCommit := none
  clone := ["https://gittr.ee/npub1example/repo.git"]
  web := []
  relays := ["wss://gittr.ee"]
  blossoms := []
  hashtags := []
  maintainers := []

theorem addressable_iff_repo :
    Addressable "1111111111111111111111111111111111111111111111111111111111111111" "repo" :=
  (addressable_iff (a := announcementOf "repo") (by decide +kernel) (by decide +kernel)).1.2
    (by decide)

/-- A repository with a colon in its identifier can be announced but not referred to. -/
theorem not_addressable_colon : (announcementOf "team:repo").validate = .ok () ∧
    ¬ Addressable "1111111111111111111111111111111111111111111111111111111111111111"
      "team:repo" := by
  refine ⟨by decide +kernel, fun h => ?_⟩
  have hparse := h.parse
  rw [(address_of_colon (by decide +kernel) (by decide)).1] at hparse
  cases hparse

end Gittree
