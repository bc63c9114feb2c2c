import Gittree.Core.EventRefs
import Gittree.Relay.MemorySession

/-!
# Related events

An event that is no announcement is admitted with `build_related_event_filters`: filters for the
events that its tags mention, for the addresses that they name, and for events that refer to the
same in their tags, the event's own id among them.  Each is a reason to admit the event, but
`handle_event` asks for all of them: a store with nothing but the announcement refuses the first
contribution to it.

* `query_eq_nil_iff`: when a query finds nothing;
* `checkRelated_eq_missing_iff`: when an event is refused for want of related events;
* `Relates`, `relates_iff`: what a store has to hold to admit the event;
* `admits_iff`: the events that are not refused.
-/

namespace Gittree

open Rust
open Rust.Json (Value)

/-! ### Queries for one event -/

/-- The store holds the event. -/
def MemoryStore.Stores (store : MemoryStore) (x : NostrEvent) : Prop :=
  ∃ id : String, store.state.events[id]? = some x

namespace MemoryStoreState

/-- What has been found stays found. -/
theorem takeEvents_ne_nil (filter : Filter) (remaining : ℕ) {results : List NostrEvent}
    (hresults : results ≠ []) (l : List NostrEvent) :
    takeEvents filter remaining results l ≠ .ok [] := by
  induction l generalizing remaining results with
  | nil =>
    intro h
    exact hresults (Except.ok.inj h)
  | cons event rest ih =>
    unfold takeEvents
    split_ifs
    · intro h
      exact hresults (Except.ok.inj h)
    · exact ih remaining hresults
    · split
      · exact nofun
      · split_ifs
        · exact ih (remaining - 1) (List.append_ne_nil_of_right_ne_nil results (List.cons_ne_nil _ _))
        · exact ih remaining hresults

/-- Nothing is found if all events can be read and none matches. -/
theorem takeEvents_eq_nil_iff (filter : Filter) {remaining : ℕ} (hpos : 0 < remaining)
    (l : List NostrEvent) :
    takeEvents filter remaining [] l = .ok [] ↔
      ∀ x ∈ l, (∀ tag ∈ x.tags, TagIndex.Indexable tag) ∧ filter.accepts x = false := by
  induction l with
  | nil => simp [takeEvents]
  | cons event rest ih =>
    rw [List.forall_mem_cons, ← ih]
    conv_lhs => unfold takeEvents
    rw [if_neg hpos.ne']
    simp only [List.any_nil, Bool.false_eq_true, if_false, List.nil_append]
    cases hindex : TagIndex.fromTags event.tags with
    | error err =>
      have hnot : ¬ ∀ tag ∈ event.tags, TagIndex.Indexable tag := by
        intro h
        obtain ⟨index, hi⟩ := TagIndex.fromTags_isOk_iff.2 h
        rw [hindex] at hi
        cases hi
      simp [hnot]
    | ok index =>
      have hread : ∀ tag ∈ event.tags, TagIndex.Indexable tag :=
        TagIndex.fromTags_isOk_iff.1 ⟨index, hindex⟩
      have haccepts : filter.accepts event = filter.matches event index := by
        unfold Filter.accepts
        rw [hindex]
      simp only
      split_ifs with hmatch
      · rw [haccepts, hmatch]
        simp only [Bool.true_eq_false, and_false, false_and, iff_false]
        exact takeEvents_ne_nil filter _ (List.cons_ne_nil _ _) rest
      · rw [haccepts, Bool.eq_false_iff.2 hmatch]
        constructor
        · exact fun h => ⟨⟨hread, rfl⟩, h⟩
        · exact fun h => h.2

/-- A query for one event finds nothing if all events can be read and none matches. -/
theorem query_eq_nil_iff (s : MemoryStoreState) {filter : Filter} (hlimit : filter.limit = some 1) :
    s.query [filter] = .ok [] ↔
      s.Indexed ∧ ∀ (id : String) (x : NostrEvent), s.events[id]? = some x →
        filter.accepts x = false := by
  have hquery : s.query [filter] = .ok [] ↔
      takeEvents filter 1 [] (s.events.values.insertionSort RepositoryStore.before) = .ok [] := by
    unfold query queryFilters queryFilters
    simp only [Result.bind_eq_ok, Except.ok.injEq, exists_eq_right, hlimit, Option.getD_some]
  rw [hquery, takeEvents_eq_nil_iff filter Nat.one_pos]
  simp only [List.mem_insertionSort, Map.mem_values]
  constructor
  · intro h
    exact ⟨fun id x hx => (h x ⟨id, hx⟩).1, fun id x hx => (h x ⟨id, hx⟩).2⟩
  · rintro ⟨hindexed, hnone⟩ x ⟨id, hx⟩
    exact ⟨hindexed id x hx, hnone id x hx⟩

end MemoryStoreState

/-! ### The related events of a session -/

namespace Session

/-- The refusal of an event for want of related events. -/
def missingRelated (event : NostrEvent) : ServerMessage := refused event.id "missing related events"

/-- The event is refused exactly if the events of the store can be read, and one of the filters
matches none of them. -/
theorem checkRelated_eq_missing_iff {store : MemoryStore} {event : NostrEvent}
    {filters : List EventFilter} (hlimit : ∀ filter ∈ filters, filter.limit = some 1) :
    checkRelated MemoryStore.eventStore store event filters = .error (missingRelated event) ↔
      store.state.Indexed ∧ ∃ filter ∈ filters, ∀ x, store.Stores x →
        (filterFromEventFilter filter).accepts x = false := by
  induction filters with
  | nil => simp [checkRelated]
  | cons filter rest ih =>
    obtain ⟨hfirst, hrest⟩ := List.forall_mem_cons.1 hlimit
    have hlimit : (filterFromEventFilter filter).limit = some 1 := hfirst
    have hempty := store.state.query_eq_nil_iff hlimit
    unfold checkRelated
    simp only [Result.bind_eq_error, Result.mapError_eq_error, Result.mapError_eq_ok,
      Result.ensure_eq_error, Result.ensure_eq_ok, ih hrest]
    constructor
    · rintro (⟨err, -, hnotice⟩ | ⟨found, hfound, ⟨hnil, -⟩ | ⟨-, -, hindexed, other, hmem, hnone⟩⟩)
      · cases hnotice
      · obtain rfl := not_not.1 hnil
        obtain ⟨hindexed, hnone⟩ := hempty.1 hfound
        refine ⟨hindexed, filter, List.mem_cons_self, ?_⟩
        rintro x ⟨id, hx⟩
        exact hnone id x hx
      · exact ⟨hindexed, other, List.mem_cons_of_mem filter hmem, hnone⟩
    · rintro ⟨hindexed, other, hmem, hnone⟩
      obtain ⟨found, hfound⟩ :=
        MemoryStoreState.query_isOk hindexed [filterFromEventFilter filter]
      refine Or.inr ⟨found, hfound, ?_⟩
      by_cases hnil : found = []
      · exact Or.inl ⟨not_not.2 hnil, rfl⟩
      · refine Or.inr ⟨(), hnil, hindexed, ?_⟩
        rcases List.mem_cons.1 hmem with rfl | hmem
        · have hquery := hempty.2 ⟨hindexed, fun id x hx => hnone x ⟨id, hx⟩⟩
          exact absurd (Except.ok.inj (hfound.symm.trans hquery)) hnil
        · exact ⟨other, hmem, hnone⟩

end Session

/-! ### What the store has to hold -/

/-- The references of an event, its own id among them. -/
def NostrEvent.references (event : NostrEvent) : EventReferences :=
  collectEventReferencesWithSelf event.kind event.pubkey event.id event.tags

/-- The filters that admission asks for. -/
def NostrEvent.relatedFilters (event : NostrEvent) : List EventFilter :=
  buildRelatedEventFilters event.kind event.pubkey event.id event.tags

/-- One of the values is under the name. -/
def TaggedAny (x : NostrEvent) (name : String) (values : List String) : Prop :=
  ∃ value ∈ values, TagIndex.Tagged x.tags name value

/-- The store has an event for everything that the event refers to, and events that refer to the
same. -/
structure Relates (store : MemoryStore) (event : NostrEvent) : Prop where
  /-- An event that is mentioned, or the event itself. -/
  mentioned : ∃ x, store.Stores x ∧ ∃ id ∈ event.references.eventIds, Str.startsWith x.id id = true
  /-- Every address that is named, with its identifier. -/
  addressed : ∀ pointer ∈ event.references.addressPointers, ∀ kind author identifier number,
    Str.split pointer ':' = [kind, author, identifier] →
    Str.parseUnsigned kind (2 ^ 32) = some number →
    ∃ x, store.Stores x ∧ x.kind ∈ relatedKinds number ∧ Str.startsWith x.pubkey author = true ∧
      TagIndex.Tagged x.tags "d" identifier
  /-- Every address that is named without an identifier. -/
  authored : ∀ pointer ∈ event.references.addressPointers, ∀ kind author number,
    Str.split pointer ':' = [kind, author] → Str.parseUnsigned kind (2 ^ 32) = some number →
    ∃ x, store.Stores x ∧ x.kind ∈ relatedKinds number ∧ Str.startsWith x.pubkey author = true
  /-- An event that refers twice to what is mentioned: with an `e` and with an `E` tag. -/
  mentioning : ∃ x, store.Stores x ∧ TaggedAny x "e" event.references.eventIds ∧
    TaggedAny x "E" event.references.eventIds
  /-- An event that refers twice to what is named: with an `a` and with an `A` tag. -/
  addressing : event.references.addressPointers ≠ [] → ∃ x, store.Stores x ∧
    TaggedAny x "a" event.references.addressPointers ∧
    TaggedAny x "A" event.references.addressPointers
  /-- An event that quotes something of it. -/
  quoting : ∃ x, store.Stores x ∧
    TaggedAny x "q" (event.references.addressPointers ++ event.references.eventIds)

namespace NostrEvent

theorem limit_of_mem_relatedFilters {event : NostrEvent} {filter : EventFilter}
    (h : filter ∈ event.relatedFilters) : filter.limit = some 1 := by
  unfold relatedFilters buildRelatedEventFilters at h
  obtain ⟨_, -, rfl⟩ := List.mem_map.1 h
  rfl

/-- What a filter for related events asks of a stored event. -/
theorem accepts_filterFromEventFilter {filter : EventFilter} {x : NostrEvent}
    (hindexed : ∀ tag ∈ x.tags, TagIndex.Indexable tag) :
    (filterFromEventFilter (filter.withLimit 1)).accepts x = true ↔
      (filter.ids = [] ∨ ∃ id ∈ filter.ids, Str.startsWith x.id id = true) ∧
      (filter.authors = [] ∨ ∃ author ∈ filter.authors, Str.startsWith x.pubkey author = true) ∧
      (filter.kinds = [] ∨ x.kind ∈ filter.kinds) ∧
      ∀ (name : String) (values : List String), filter.tags[name]? = some values →
        TaggedAny x name values := by
  rw [Filter.accepts_iff hindexed, Filter.selects_iff]
  simp only [filterFromEventFilter, EventFilter.withLimit, exists_eq_right, TaggedAny]
  simp [and_assoc]

theorem forall_get_insert {tags : Map (List String)} {name : String} {own : List String}
    {P : String → List String → Prop} :
    (∀ (other : String) (values : List String), (tags.insert name own)[other]? = some values →
      P other values) ↔
      P name own ∧ ∀ (other : String) (values : List String), name ≠ other →
        tags[other]? = some values → P other values := by
  simp only [Map.get_insert]
  constructor
  · intro h
    refine ⟨h name own (if_pos rfl), ?_⟩
    intro other values hne hget
    exact h other values ((if_neg hne).trans hget)
  · rintro ⟨hown, hrest⟩ other values hget
    split_ifs at hget with heq
    · obtain rfl := Option.some.inj hget
      exact heq ▸ hown
    · exact hrest other values heq hget

theorem forall_get_new {P : String → List String → Prop} :
    ∀ (other : String) (values : List String), EventFilter.new.tags[other]? = some values →
      P other values := by
  intro other values hget
  simp [EventFilter.new] at hget

variable {x : NostrEvent}

/-- The filter for the events that are mentioned. -/
def mentioned (ids : List String) : EventFilter := { EventFilter.new with ids }

/-- The filter for the events that quote something. -/
def quoting (values : List String) : EventFilter :=
  { EventFilter.new with tags := EventFilter.new.tags.insert "q" values }

theorem accepts_mentioned (hindexed : ∀ tag ∈ x.tags, TagIndex.Indexable tag) {ids : List String}
    (h : ids ≠ []) :
    (filterFromEventFilter ((mentioned ids).withLimit 1)).accepts x = true ↔
      ∃ id ∈ ids, Str.startsWith x.id id = true := by
  rw [accepts_filterFromEventFilter hindexed]
  simp only [mentioned, EventFilter.new, true_or, true_and, h, false_or]
  exact and_iff_left forall_get_new

theorem accepts_tagFilter (hindexed : ∀ tag ∈ x.tags, TagIndex.Indexable tag)
    {lower upper : String} (hne : lower ≠ upper) {values : List String} :
    (filterFromEventFilter ((tagFilter lower upper values).withLimit 1)).accepts x = true ↔
      TaggedAny x lower values ∧ TaggedAny x upper values := by
  rw [accepts_filterFromEventFilter hindexed]
  simp only [tagFilter, EventFilter.new, true_or, true_and]
  rw [forall_get_insert]
  constructor
  · rintro ⟨hupper, hrest⟩
    exact ⟨hrest lower values hne.symm (Map.get_insert_self _ _ _), hupper⟩
  · rintro ⟨hlower, hupper⟩
    refine ⟨hupper, fun other values' _ hget => ?_⟩
    exact forall_get_insert.2 ⟨hlower, fun other values' _ => forall_get_new other values'⟩
      other values' hget

theorem accepts_quoting (hindexed : ∀ tag ∈ x.tags, TagIndex.Indexable tag)
    {values : List String} :
    (filterFromEventFilter ((quoting values).withLimit 1)).accepts x = true ↔
      TaggedAny x "q" values := by
  rw [accepts_filterFromEventFilter hindexed]
  simp only [quoting, true_or, true_and, EventFilter.new]
  rw [forall_get_insert]
  exact and_iff_left fun other values' _ => forall_get_new other values'

theorem relatedKinds_ne_nil (kind : ℕ) : relatedKinds kind ≠ [] := by
  unfold relatedKinds
  split_ifs
  · exact List.cons_ne_nil _ _
  · exact List.cons_ne_nil _ _

/-- The filter for an address with an identifier. -/
def addressed (number : ℕ) (author identifier : String) : EventFilter :=
  { EventFilter.new with
    kinds := relatedKinds number
    authors := [author]
    tags := EventFilter.new.tags.insert "d" [identifier] }

/-- The filter for an address without an identifier. -/
def authored (number : ℕ) (author : String) : EventFilter :=
  { EventFilter.new with
    kinds := relatedKinds number
    authors := [author] }

theorem accepts_addressed (hindexed : ∀ tag ∈ x.tags, TagIndex.Indexable tag) {number : ℕ}
    {author identifier : String} :
    (filterFromEventFilter ((addressed number author identifier).withLimit 1)).accepts x = true ↔
      x.kind ∈ relatedKinds number ∧ Str.startsWith x.pubkey author = true ∧
        TagIndex.Tagged x.tags "d" identifier := by
  rw [accepts_filterFromEventFilter hindexed]
  simp only [addressed, EventFilter.new, true_or, true_and, relatedKinds_ne_nil, false_or,
    List.cons_ne_nil, List.mem_singleton, exists_eq_left]
  rw [forall_get_insert]
  constructor
  · rintro ⟨hauthor, hkind, ⟨value, hvalue, htag⟩, -⟩
    exact ⟨hkind, hauthor, List.mem_singleton.1 hvalue ▸ htag⟩
  · rintro ⟨hkind, hauthor, htag⟩
    exact ⟨hauthor, hkind, ⟨identifier, List.mem_singleton.2 rfl, htag⟩,
      fun other values _ => forall_get_new other values⟩

theorem accepts_authored (hindexed : ∀ tag ∈ x.tags, TagIndex.Indexable tag) {number : ℕ}
    {author : String} :
    (filterFromEventFilter ((authored number author).withLimit 1)).accepts x = true ↔
      x.kind ∈ relatedKinds number ∧ Str.startsWith x.pubkey author = true := by
  rw [accepts_filterFromEventFilter hindexed]
  simp only [authored, EventFilter.new, true_or, true_and, relatedKinds_ne_nil, false_or,
    List.cons_ne_nil, List.mem_singleton, exists_eq_left]
  constructor
  · rintro ⟨hauthor, hkind, -⟩
    exact ⟨hkind, hauthor⟩
  · rintro ⟨hkind, hauthor⟩
    exact ⟨hauthor, hkind, forall_get_new⟩

/-- The addresses that make a filter. -/
theorem buildPointerFilter_eq_some {pointer : String} {filter : EventFilter} :
    buildPointerFilter pointer = some filter ↔
      (∃ kind author identifier number, Str.split pointer ':' = [kind, author, identifier] ∧
        Str.parseUnsigned kind (2 ^ 32) = some number ∧ filter = addressed number author identifier) ∨
      ∃ kind author number, Str.split pointer ':' = [kind, author] ∧
        Str.parseUnsigned kind (2 ^ 32) = some number ∧ filter = authored number author := by
  unfold buildPointerFilter
  constructor
  · intro h
    split at h
    · next kind author identifier hsplit =>
      obtain ⟨number, hnumber, rfl⟩ := Option.map_eq_some_iff.1 h
      exact Or.inl ⟨kind, author, identifier, number, hsplit, hnumber, rfl⟩
    · next kind author hsplit =>
      obtain ⟨number, hnumber, rfl⟩ := Option.map_eq_some_iff.1 h
      exact Or.inr ⟨kind, author, number, hsplit, hnumber, rfl⟩
    · cases h
  · rintro (⟨kind, author, identifier, number, hsplit, hnumber, rfl⟩ |
      ⟨kind, author, number, hsplit, hnumber, rfl⟩)
    · rw [hsplit]
      exact Option.map_eq_some_iff.2 ⟨number, hnumber, rfl⟩
    · rw [hsplit]
      exact Option.map_eq_some_iff.2 ⟨number, hnumber, rfl⟩

theorem eventIds_ne_nil {event : NostrEvent} (h : isAddressableKind event.kind = false) :
    event.references.eventIds ≠ [] := by
  unfold references collectEventReferencesWithSelf
  simp only [h, Bool.false_eq_true, if_false]
  exact List.ne_nil_of_mem (mem_pushUnique.2 (Or.inr rfl))

/-- Every filter for related events matches a stored event exactly if the store relates to the
event. -/
theorem relates_iff {store : MemoryStore} {event : NostrEvent} (hindexed : store.state.Indexed)
    (hkind : isAddressableKind event.kind = false) :
    (∀ filter ∈ event.relatedFilters, ∃ x, store.Stores x ∧
      (filterFromEventFilter filter).accepts x = true) ↔ Relates store event := by
  have hread : ∀ {x}, store.Stores x → ∀ tag ∈ x.tags, TagIndex.Indexable tag :=
    fun ⟨id, hx⟩ => hindexed id _ hx
  have hids := eventIds_ne_nil hkind
  have hfilters : event.relatedFilters =
      ([mentioned event.references.eventIds] ++
        event.references.addressPointers.filterMap buildPointerFilter ++
        [tagFilter "e" "E" event.references.eventIds] ++
        (if event.references.addressPointers = [] then []
          else [tagFilter "a" "A" event.references.addressPointers]) ++
        [quoting (event.references.addressPointers ++ event.references.eventIds)]).map
        fun filter => filter.withLimit 1 := by
    unfold relatedFilters buildRelatedEventFilters
    rw [show collectEventReferencesWithSelf event.kind event.pubkey event.id event.tags =
      event.references from rfl]
    simp only [if_neg hids]
    rfl
  rw [hfilters]
  simp only [List.forall_mem_map, List.forall_mem_append, List.forall_mem_singleton]
  constructor
  · rintro ⟨⟨⟨⟨hmentioned, hpointers⟩, hmentioning⟩, haddressing⟩, hquoting⟩
    refine ⟨?_, ?_, ?_, ?_, ?_, ?_⟩
    · obtain ⟨x, hx, haccepts⟩ := hmentioned
      exact ⟨x, hx, (accepts_mentioned (hread hx) hids).1 haccepts⟩
    · intro pointer hpointer kind author identifier number hsplit hnumber
      obtain ⟨x, hx, haccepts⟩ := hpointers _ (List.mem_filterMap.2 ⟨pointer, hpointer,
        buildPointerFilter_eq_some.2 (Or.inl ⟨kind, author, identifier, number, hsplit, hnumber, rfl⟩)⟩)
      exact ⟨x, hx, (accepts_addressed (hread hx)).1 haccepts⟩
    · intro pointer hpointer kind author number hsplit hnumber
      obtain ⟨x, hx, haccepts⟩ := hpointers _ (List.mem_filterMap.2 ⟨pointer, hpointer,
        buildPointerFilter_eq_some.2 (Or.inr ⟨kind, author, number, hsplit, hnumber, rfl⟩)⟩)
      exact ⟨x, hx, (accepts_authored (hread hx)).1 haccepts⟩
    · obtain ⟨x, hx, haccepts⟩ := hmentioning
      exact ⟨x, hx, (accepts_tagFilter (hread hx) (by decide)).1 haccepts⟩
    · intro hne
      obtain ⟨x, hx, haccepts⟩ := haddressing _ (by rw [if_neg hne]; exact List.mem_singleton.2 rfl)
      exact ⟨x, hx, (accepts_tagFilter (hread hx) (by decide)).1 haccepts⟩
    · obtain ⟨x, hx, haccepts⟩ := hquoting
      exact ⟨x, hx, (accepts_quoting (hread hx)).1 haccepts⟩
  · intro h
    refine ⟨⟨⟨⟨?_, ?_⟩, ?_⟩, ?_⟩, ?_⟩
    · obtain ⟨x, hx, hmentioned⟩ := h.mentioned
      exact ⟨x, hx, (accepts_mentioned (hread hx) hids).2 hmentioned⟩
    · intro filter hfilter
      obtain ⟨pointer, hpointer, hbuild⟩ := List.mem_filterMap.1 hfilter
      rcases buildPointerFilter_eq_some.1 hbuild with
        ⟨kind, author, identifier, number, hsplit, hnumber, rfl⟩ |
        ⟨kind, author, number, hsplit, hnumber, rfl⟩
      · obtain ⟨x, hx, hasked⟩ := h.addressed pointer hpointer _ _ _ _ hsplit hnumber
        exact ⟨x, hx, (accepts_addressed (hread hx)).2 hasked⟩
      · obtain ⟨x, hx, hasked⟩ := h.authored pointer hpointer _ _ _ hsplit hnumber
        exact ⟨x, hx, (accepts_authored (hread hx)).2 hasked⟩
    · obtain ⟨x, hx, hmentioning⟩ := h.mentioning
      exact ⟨x, hx, (accepts_tagFilter (hread hx) (by decide)).2 hmentioning⟩
    · intro filter hfilter
      split_ifs at hfilter with hne
      · exact absurd hfilter List.not_mem_nil
      · obtain rfl := List.mem_singleton.1 hfilter
        obtain ⟨x, hx, haddressing⟩ := h.addressing hne
        exact ⟨x, hx, (accepts_tagFilter (hread hx) (by decide)).2 haddressing⟩
    · obtain ⟨x, hx, hquoting⟩ := h.quoting
      exact ⟨x, hx, (accepts_quoting (hread hx)).2 hquoting⟩

end NostrEvent

/-! ### The event at the gate -/

/-- The kinds of patches, pull requests, issues and their states. -/
def isContributionKind (kind : ℕ) : Bool :=
  decide (kind ∈ [kindGitPatch, kindGitPullRequest, kindGitPullRequestUpdate, kindGitIssue]) ||
    isStatusKind kind

/-- The repository of an `a` tag of the event has its announcement in the store. -/
def AnnouncementStored (store : MemoryStore) (event : NostrEvent) : Prop :=
  ∃ x identifier rest, store.Stores x ∧ x.kind = kindGitRepoAnnouncement ∧
    findDTag x.tags = some identifier ∧
    ("a" :: RepoAddress.display ⟨x.pubkey, identifier⟩ :: rest) ∈ event.tags

namespace Session

/-- A contribution has passed the gates before admission, and admission asks for related events. -/
structure AsksRelated (s : Session) (env : Env) (repos : Repos MemoryStore) (value : Value)
    (event : NostrEvent) : Prop where
  read : NostrEvent.fromValue value = some event
  kind : isContributionKind event.kind = true
  limit : (s.rateLimitEvent env.instant).1 = false
  check : s.checkEvent env event = .ok ()
  auth : s.checkWriteAuth event = .ok ()
  member : s.ensureWriteMembership repos.memberships = .ok ()
  admission : s.admission = true
  decide : env.decide ⟨event.kind, event.pubkey, event.id, event.tags, s.relayUrl⟩ =
    .requiresRelatedEvents event.relatedFilters

theorem not_addressable_of_contribution {kind : ℕ} (h : isContributionKind kind = true) :
    isAddressableKind kind = false ∧ kind ≠ nip43JoinKind ∧ kind ≠ nip43LeaveKind := by
  have hlow : kind < 2000 := by
    simp only [isContributionKind, isStatusKind, kindGitPatch, kindGitPullRequest,
      kindGitPullRequestUpdate, kindGitIssue, List.mem_cons, List.not_mem_nil, or_false,
      Bool.or_eq_true, decide_eq_true_eq] at h
    omega
  refine ⟨?_, ?_, ?_⟩
  · simp only [isAddressableKind, Bool.and_eq_false_iff, decide_eq_false_iff_not]
    omega
  · unfold nip43JoinKind
    omega
  · unfold nip43LeaveKind
    omega

/-- What is answered to an event at the gate. -/
theorem AsksRelated.replies {s : Session} {env : Env} {repos : Repos MemoryStore} {value : Value}
    {event : NostrEvent} (h : s.AsksRelated env repos value event) :
    missingRelated event ∈ (s.handleEvent MemoryStore.eventStore env repos value).replies ↔
      checkRelated MemoryStore.eventStore repos.store event event.relatedFilters =
        .error (missingRelated event) := by
  obtain ⟨hit, limiter, hhit⟩ := s.exists_rateLimitEvent env.instant
  obtain rfl : hit = false := by
    have hlimit := h.limit
    rw [hhit] at hlimit
    exact hlimit
  obtain ⟨-, hjoin, hleave⟩ := not_addressable_of_contribution h.kind
  have hcheck : checkEvent { s with rateLimiter := limiter } env event = .ok () := h.check
  have hwrite : checkWrite { s with rateLimiter := limiter } MemoryStore.eventStore env repos event =
      checkRelated MemoryStore.eventStore repos.store event event.relatedFilters := by
    have hauth : checkWriteAuth { s with rateLimiter := limiter } event = .ok () := h.auth
    have hmember : ensureWriteMembership { s with rateLimiter := limiter } repos.memberships =
      .ok () := h.member
    unfold checkWrite checkAdmission
    rw [hauth, hmember]
    simp only [h.admission, if_true, h.decide]
    rfl
  unfold handleEvent
  rw [h.read]
  simp only [hhit]
  unfold acceptEvent handleMembershipEvent
  rw [hcheck]
  simp only [if_neg (not_or.2 ⟨hjoin, hleave⟩), hwrite]
  cases hrelated :
      checkRelated MemoryStore.eventStore repos.store event event.relatedFilters with
  | error message =>
    simp only [List.mem_singleton, Except.error.injEq]
    exact eq_comm
  | ok u =>
    simp only [reduceCtorEq, iff_false]
    unfold storeEvent missingRelated refused
    split
    · simp [StoreError.notice]
    · simp
    · simp

/-- A contribution is not refused for want of related events exactly if the store relates to it, or
holds an event that no query can read. -/
theorem admits_iff {s : Session} {env : Env} {repos : Repos MemoryStore} {value : Value}
    {event : NostrEvent} (h : s.AsksRelated env repos value event) :
    missingRelated event ∉ (s.handleEvent MemoryStore.eventStore env repos value).replies ↔
      ¬ repos.store.state.Indexed ∨ Relates repos.store event := by
  rw [h.replies, checkRelated_eq_missing_iff fun _ => NostrEvent.limit_of_mem_relatedFilters]
  by_cases hindexed : repos.store.state.Indexed
  · rw [← NostrEvent.relates_iff hindexed (not_addressable_of_contribution h.kind).1]
    simp [hindexed]
  · simp [hindexed]

/-! ### A first issue -/

/-- The announcement of a repository. -/
def repoAnnouncement : NostrEvent where
  id := "8cb20f83542bb729a01fd62385c67c3f78845b8d366ea0fe4874419a328a109f"
  pubkey := "f9308a019258c31049344f85f89d5229b531c845836f99b08601f113bce036f9"
  createdAt := 1
  kind := kindGitRepoAnnouncement
  tags := [["d", "repo"], ["clone", "https://gittr.ee/npub1example/repo.git"],
    ["relays", "wss://gittr.ee"]]
  content := ""
  sig := "ed225193c2e78d360c5c6eff14c4c12d011fe270641f083e759583e7ff3ffe1c" ++
    "2122673788937fb5f82ded9a8acdf3b235bfdaebbd47760af57f24b41e010bb2"

/-- An issue of another key. -/
def firstIssue : NostrEvent where
  id := "eaee3418553bfaeb5c9f0c7bf4c472913b74c72dcc0234383622cc4e7418f6fd"
  pubkey := "2f8bde4d1a07209355b4a7250a5c5128e88b84bddc619ab7cba8d569b240efe4"
  createdAt := 2
  kind := kindGitIssue
  tags := [["a", "30617:f9308a019258c31049344f85f89d5229b531c845836f99b08601f113bce036f9:repo"],
    ["subject", "typo"]]
  content := "there is a typo"
  sig := "6626110a31ee696bcc1779b60dee1d2e3f838f7f85eb77113e9fbbe537007d13" ++
    "ae618e4a41f75d8541c0642d0c3ee4ecc8066f0ac4327805aa8e736c8131566c"

/-- Admission answers as it does for a contribution. -/
def issueEnv : Env :=
  { Relay.noteEnv with
    crypto := NostrEvent.signedBy [firstIssue]
    decide := fun event => .requiresRelatedEvents
      (buildRelatedEventFilters event.kind event.pubkey event.eventId event.tags) }

/-- The store has the announcement. -/
def announcedRepos : Repos MemoryStore := ⟨(MemoryStore.new.insert repoAnnouncement).2, ∅⟩

/-- A session with an admission service. -/
def gatedSession : Session := { admission := true }

theorem asksRelated_firstIssue :
    gatedSession.AsksRelated issueEnv announcedRepos firstIssue.toValue firstIssue where
  read := by decide +kernel
  kind := by decide
  limit := rfl
  check := by decide +kernel
  auth := rfl
  member := rfl
  admission := rfl
  decide := rfl

theorem admits_iff_firstIssue :
    missingRelated firstIssue ∉
        (gatedSession.handleEvent MemoryStore.eventStore issueEnv announcedRepos
          firstIssue.toValue).replies ↔
      ¬ announcedRepos.store.state.Indexed ∨ Relates announcedRepos.store firstIssue :=
  admits_iff asksRelated_firstIssue

/-- The first issue of a repository that is announced in the store is refused. -/
theorem not_admits : ¬ ∀ s env repos value event, AsksRelated s env repos value event →
    AnnouncementStored repos.store event →
    missingRelated event ∉ (s.handleEvent MemoryStore.eventStore env repos value).replies := by
  intro h
  have hstored : announcedRepos.store.state.events[repoAnnouncement.id]? = some repoAnnouncement := by
    decide +kernel
  have hannounced : AnnouncementStored announcedRepos.store firstIssue :=
    ⟨repoAnnouncement, "repo", [], ⟨_, hstored⟩, rfl, rfl, List.mem_cons_self⟩
  refine h gatedSession issueEnv announcedRepos firstIssue.toValue firstIssue
    asksRelated_firstIssue hannounced ?_
  decide +kernel

end Session
end Gittree
