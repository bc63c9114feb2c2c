import Gittree.Lib.Select
import Gittree.Relay.StoreWrites

/-!
# Reading from the two stores

A `MemoryStore` and a `RepositoryStore` that hold the same events are asked the same filters.  The
memory store goes through its events in order and tests each with `Filter::matches`.  The
repository store compiles each filter to a query, tests the answers again only if an id or an
author is not a full hexadecimal text, and sorts the events of all filters at the end.  So the two
differ in the events that a query misreads, in limits that are applied before the events of other
filters are dropped, and in the order of the answer.

* `ordered`: the events of the memory store as `query` goes through them;
* `query_memory`, `takeRecords_plan`: what the two loops select;
* `Filter.Misreads`, `planned_ne_accepts_iff`: the events on which a plan and its filter differ;
* `Filter.Turn`: a filter that both stores answer alike after other filters;
* `reads_agree`: when the two answers are the same.
-/

namespace Gittree

open Rust

/-! ### Regrouped tags -/

theorem tagged_iff {tags : List (List String)} {name value : String} :
    TagIndex.Tagged tags name value ↔
      ∃ tag ∈ tags.flatMap tagRecords, Str.trim tag.name = name ∧ tag.value = value := by
  unfold TagIndex.Tagged
  constructor
  · rintro ⟨first, values, hm, hname, hv⟩
    exact ⟨⟨first, value⟩, List.mem_flatMap.2 ⟨_, hm, List.mem_map.2 ⟨value, hv, rfl⟩⟩, hname, rfl⟩
  · rintro ⟨tag, hm, hname, rfl⟩
    obtain ⟨_ | ⟨first, values⟩, ht, hr⟩ := List.mem_flatMap.1 hm
    · cases hr
    · obtain ⟨value, hv, rfl⟩ := List.mem_map.1 hr
      exact ⟨first, values, ht, hname, hv⟩

/-- Regrouping keeps the pairs of a name and a value. -/
theorem mem_flatMap_groupTags {records : List TagRecord} {tag : TagRecord} :
    tag ∈ (groupTags records).flatMap tagRecords ↔ tag ∈ records := by
  obtain ⟨name, value⟩ := tag
  unfold groupTags
  rw [List.flatMap_map, List.mem_flatMap]
  constructor
  · rintro ⟨⟨k, values⟩, hm, ht⟩
    obtain ⟨rfl, -⟩ := Map.mem_toList_group.1 hm
    obtain ⟨v, hv, ⟨⟩⟩ := List.mem_map.1 ht
    exact Events.mem_tagEntries.1 (Map.mem_under.1 hv)
  · intro h
    have hunder := Map.mem_under.2 (Events.mem_tagEntries.2 h)
    exact ⟨(name, _), Map.mem_toList_group.2 ⟨rfl, List.ne_nil_of_mem hunder⟩,
      List.mem_map.2 ⟨value, hunder, rfl⟩⟩

theorem tagged_groupTags {tags : List (List String)} {name value : String} :
    TagIndex.Tagged (groupTags (tags.flatMap tagRecords)) name value ↔
      TagIndex.Tagged tags name value := by
  simp only [tagged_iff, mem_flatMap_groupTags]

/-- Regrouped tags can be indexed if the tags can. -/
theorem indexable_groupTags {tags : List (List String)}
    (h : ∀ tag ∈ tags, TagIndex.Indexable tag) :
    ∀ tag ∈ groupTags (tags.flatMap tagRecords), TagIndex.Indexable tag := by
  -- a pair of a name and a value comes from a tag that can be indexed
  have hpair : ∀ name value, (⟨name, value⟩ : TagRecord) ∈ tags.flatMap tagRecords →
      Str.trim name ≠ "" ∧ Str.trim value ≠ "" := by
    intro name value hm
    obtain ⟨_ | ⟨first, values⟩, ht, hr⟩ := List.mem_flatMap.1 hm
    · cases hr
    · obtain ⟨_, hv, ⟨⟩⟩ := List.mem_map.1 hr
      exact ⟨(h _ ht).1, (h _ ht).2 value hv⟩
  intro tag htag
  obtain ⟨⟨name, values⟩, he, rfl⟩ := List.mem_map.1 htag
  obtain ⟨rfl, hne⟩ := Map.mem_toList_group.1 he
  have hvalue : ∀ value ∈ Map.under (Events.tagEntries (tags.flatMap tagRecords)) name,
      Str.trim name ≠ "" ∧ Str.trim value ≠ "" :=
    fun value hv => hpair name value (Events.mem_tagEntries.1 (Map.mem_under.1 hv))
  obtain ⟨value, hv⟩ := List.exists_mem_of_ne_nil _ hne
  exact ⟨(hvalue value hv).1, fun v hv => (hvalue v hv).2⟩

namespace RecordOf

variable {event : NostrEvent} {tenantId : String} {record : EventRecord}

theorem indexable (hof : RecordOf event tenantId record) (hstore : event.Storable)
    (hindex : ∀ tag ∈ event.tags, TagIndex.Indexable tag) :
    ∀ tag ∈ (recordToEvent record).tags, TagIndex.Indexable tag := by
  rw [hof.recordToEvent_eq hstore.idLower hstore.pubkeyLower hstore.sigLower]
  exact indexable_groupTags hindex

/-- A filter accepts an event as it comes back from its record exactly if it accepts the event. -/
theorem accepts_recordToEvent (hof : RecordOf event tenantId record) (hstore : event.Storable)
    (hindex : ∀ tag ∈ event.tags, TagIndex.Indexable tag) (filter : Filter) :
    filter.accepts (recordToEvent record) = filter.accepts event := by
  rw [Bool.eq_iff_iff, Filter.accepts_iff (hof.indexable hstore hindex),
    Filter.accepts_iff hindex,
    hof.recordToEvent_eq hstore.idLower hstore.pubkeyLower hstore.sigLower]
  simp only [tagged_groupTags]
  rfl

end RecordOf

/-! ### The events in order -/

namespace RepositoryStore

instance : Std.Total before := ⟨by
  intro x y
  unfold before
  rcases lt_trichotomy x.createdAt y.createdAt with h | h | h
  · exact Or.inr (Or.inl h)
  · rcases le_total x.id y.id with hid | hid
    · exact Or.inl (Or.inr ⟨h.symm, hid⟩)
    · exact Or.inr (Or.inr ⟨h, hid⟩)
  · exact Or.inl (Or.inl h)⟩

instance : IsTrans NostrEvent before := ⟨by
  intro x y z hxy hyz
  unfold before at hxy hyz ⊢
  rcases hxy with hxy | ⟨hxy, hid⟩
  · rcases hyz with hyz | ⟨hyz, -⟩
    · exact Or.inl (hyz.trans hxy)
    · exact Or.inl (hyz ▸ hxy)
  · rcases hyz with hyz | ⟨hyz, hid'⟩
    · exact Or.inl (hxy ▸ hyz)
    · exact Or.inr ⟨hyz.trans hxy, hid.trans hid'⟩⟩

theorem id_eq_of_before {x y : NostrEvent} (hxy : before x y) (hyx : before y x) :
    x.id = y.id := by
  unfold before at hxy hyx
  rcases hxy with h | ⟨h, hid⟩
  · rcases hyx with h' | ⟨h', -⟩
    · exact absurd (h.trans h') (lt_irrefl _)
    · exact absurd h (h' ▸ lt_irrefl _)
  · rcases hyx with h' | ⟨-, hid'⟩
    · exact absurd h' (h ▸ lt_irrefl _)
    · exact le_antisymm hid hid'

/-- The order of the records is the order of their events. -/
theorem before_recordToEvent (a b : EventRecord) :
    before (recordToEvent a) (recordToEvent b) ↔ Events.before a b := by
  unfold before Events.before recordToEvent
  simp only [Hex.encode_le_iff]

end RepositoryStore

/-- The events of the memory store in the order in which `query` goes through them. -/
def MemoryStoreState.ordered (s : MemoryStoreState) : List NostrEvent :=
  s.events.values.insertionSort RepositoryStore.before

namespace Mirrors

variable {tenantId : String} {s : MemoryStoreState} {events : Events}

/-- Every event is stored under its id. -/
theorem keyed (h : Mirrors tenantId s events) {k : String} {x : NostrEvent}
    (hx : s.events[k]? = some x) : x.id = k := by
  obtain ⟨record, hr, hof⟩ := h.left k x hx
  rw [events.keyed k record hr, (h.storable k x hx).eventKey_eq hof]

theorem mem_ordered (h : Mirrors tenantId s events) {x : NostrEvent} :
    x ∈ s.ordered ↔ s.events[x.id]? = some x := by
  unfold MemoryStoreState.ordered
  rw [List.mem_insertionSort, Map.mem_values]
  constructor
  · rintro ⟨k, hk⟩
    rwa [h.keyed hk]
  · intro hx
    exact ⟨x.id, hx⟩

theorem eq_of_id_eq (h : Mirrors tenantId s events) {x y : NostrEvent} (hx : x ∈ s.ordered)
    (hy : y ∈ s.ordered) (hid : x.id = y.id) : x = y := by
  rw [h.mem_ordered] at hx hy
  rw [hid, hy] at hx
  exact (Option.some.inj hx).symm

theorem nodup_values (h : Mirrors tenantId s events) : s.events.values.Nodup := by
  unfold Map.values
  refine List.Nodup.map_on ?_ (Map.nodup_toList _)
  rintro ⟨k, x⟩ hx ⟨k', y⟩ hy hxy
  have hx := h.keyed (Std.ExtTreeMap.mem_toList_iff_getElem?_eq_some.1 hx)
  have hy := h.keyed (Std.ExtTreeMap.mem_toList_iff_getElem?_eq_some.1 hy)
  obtain rfl : x = y := hxy
  rw [← hx, ← hy]

theorem nodup_ordered (h : Mirrors tenantId s events) : s.ordered.Nodup :=
  (List.perm_insertionSort _ _).nodup_iff.2 h.nodup_values

theorem pairwise_ordered (s : MemoryStoreState) : s.ordered.Pairwise RepositoryStore.before :=
  List.pairwise_insertionSort _ _

/-- The records of the table, as a function of the stored events. -/
def Recorded (tenantId : String) (s : MemoryStoreState) (events : Events)
    (record : NostrEvent → EventRecord) : Prop :=
  ∀ x ∈ s.ordered, events.table[x.id]? = some (record x) ∧ RecordOf x tenantId (record x)

theorem exists_recorded (h : Mirrors tenantId s events) :
    ∃ record, Recorded tenantId s events record := by
  have hrecord : ∀ x, ∃ record, x ∈ s.ordered →
      events.table[x.id]? = some record ∧ RecordOf x tenantId record := by
    intro x
    by_cases hx : x ∈ s.ordered
    · obtain ⟨record, hr, hof⟩ := h.left x.id x (h.mem_ordered.1 hx)
      exact ⟨record, fun _ => ⟨hr, hof⟩⟩
    · exact ⟨⟨"", [], [], 0, 0, "", [], []⟩, fun hx' => absurd hx' hx⟩
  exact Classical.skolem.1 hrecord

/-- The tables of the two stores run through the same ids. -/
theorem values_table (h : Mirrors tenantId s events) {record : NostrEvent → EventRecord}
    (hrecord : Recorded tenantId s events record) :
    events.table.values = s.events.values.map record := by
  have hlist : events.table.toList = s.events.toList.map fun e => (e.1, record e.2) := by
    refine Map.toList_eq_of_sorted ?_ ?_
    · rw [List.pairwise_map]
      exact Map.pairwise_lt_toList _
    · intro k found
      simp only [List.mem_map, Prod.exists, Prod.mk.injEq,
        Std.ExtTreeMap.mem_toList_iff_getElem?_eq_some]
      constructor
      · intro hk
        obtain ⟨x, hx, -⟩ := h.right k found hk
        have hid := h.keyed hx
        obtain ⟨hr, -⟩ := hrecord x (h.mem_ordered.2 (hid ▸ hx))
        rw [hid, hk, Option.some.injEq] at hr
        exact ⟨k, x, hx, rfl, hr.symm⟩
      · rintro ⟨_, x, hx, rfl, rfl⟩
        have hid := h.keyed hx
        obtain ⟨hr, -⟩ := hrecord x (h.mem_ordered.2 (hid ▸ hx))
        rwa [hid] at hr
  unfold Map.values
  rw [hlist, List.map_map, List.map_map]
  rfl

theorem before_record (h : Mirrors tenantId s events) {record : NostrEvent → EventRecord}
    (hrecord : Recorded tenantId s events record) {x y : NostrEvent} (hx : x ∈ s.ordered)
    (hy : y ∈ s.ordered) :
    RepositoryStore.before x y ↔ Events.before (record x) (record y) := by
  have hx' := h.storable _ _ (h.mem_ordered.1 hx)
  have hy' := h.storable _ _ (h.mem_ordered.1 hy)
  rw [← RepositoryStore.before_recordToEvent,
    (hrecord x hx).2.recordToEvent_eq hx'.idLower hx'.pubkeyLower hx'.sigLower,
    (hrecord y hy).2.recordToEvent_eq hy'.idLower hy'.pubkeyLower hy'.sigLower]
  rfl

/-- A query answers the records of the ordered events that match it, up to its limit. -/
theorem queryEvents_eq (h : Mirrors tenantId s events) {record : NostrEvent → EventRecord}
    (hrecord : Recorded tenantId s events record) (query : EventQuery) :
    events.queryEvents query =
      match query.limit with
      | some limit =>
        ((s.ordered.filter fun x => Events.matchesQuery query (record x)).take limit).map record
      | none => (s.ordered.filter fun x => Events.matchesQuery query (record x)).map record := by
  have hvalues : ∀ x ∈ s.events.values, x ∈ s.ordered :=
    fun x hx => (List.mem_insertionSort _).2 hx
  have hsort : (events.table.values.filter (Events.matchesQuery query)).insertionSort
      Events.before =
        (s.ordered.filter fun x => Events.matchesQuery query (record x)).map record := by
    rw [h.values_table hrecord, List.filter_map]
    unfold MemoryStoreState.ordered
    rw [← Select.insertionSort_filter]
    · refine (List.map_insertionSort RepositoryStore.before Events.before record _ ?_).symm
      intro x hx y hy
      exact h.before_record hrecord (hvalues x (List.mem_of_mem_filter hx))
        (hvalues y (List.mem_of_mem_filter hy))
    · intro x hx y hy hxy hyx
      exact h.eq_of_id_eq (hvalues x hx) (hvalues y hy)
        (RepositoryStore.id_eq_of_before hxy hyx)
  unfold Events.queryEvents
  rw [hsort]
  cases query.limit with
  | none => rfl
  | some limit => exact (List.map_take).symm

end Mirrors

/-! ### What the loops select -/

/-- The stored events have tags that can be indexed. -/
def MemoryStoreState.Indexed (s : MemoryStoreState) : Prop :=
  ∀ (k : String) (x : NostrEvent), s.events[k]? = some x → ∀ tag ∈ x.tags, TagIndex.Indexable tag

/-- What the memory store takes for a filter. -/
def Filter.selector (filter : Filter) : Select.Selector NostrEvent where
  limit := filter.limit.getD (2 ^ 64 - 1)
  test := filter.accepts

namespace RepositoryStore

/-- Whether the plan of a filter takes the event that a record holds. -/
def planned (tenantId : String) (filter : Filter) (record : EventRecord) : Bool :=
  Events.matchesQuery { (buildQueryPlan filter).1 with tenantId := some tenantId } record &&
    (!(buildQueryPlan filter).2 || filter.accepts (recordToEvent record))

/-- The filters whose limit is applied by the query itself. -/
def pushesLimit (filter : Filter) : Bool := !(buildQueryPlan filter).2 && filter.limit.isSome

/-- What the repository store takes for a filter. -/
def planSelector (tenantId : String) (record : NostrEvent → EventRecord) (filter : Filter) :
    Select.Selector NostrEvent where
  limit := filter.limit.getD (2 ^ 64 - 1)
  test := fun x => planned tenantId filter (record x)

end RepositoryStore

namespace Mirrors

variable {tenantId : String} {s : MemoryStoreState} {events : Events} {taken l : List NostrEvent}

/-- The ids of the events that were taken tell whether an event was taken. -/
theorem seen_iff (h : Mirrors tenantId s events) {image : NostrEvent → NostrEvent}
    (himage : ∀ y ∈ s.ordered, (image y).id = y.id) (htaken : taken ⊆ s.ordered) {x : NostrEvent}
    (hx : x ∈ s.ordered) :
    ((taken.map image).any fun other => other.id == (image x).id) = true ↔ x ∈ taken := by
  simp only [List.any_eq_true, List.mem_map, beq_iff_eq]
  constructor
  · rintro ⟨_, ⟨y, hy, rfl⟩, hid⟩
    rw [himage y (htaken hy), himage x hx] at hid
    rwa [← h.eq_of_id_eq (htaken hy) hx hid]
  · intro hm
    exact ⟨_, ⟨x, hm, rfl⟩, rfl⟩

theorem indexable (h : Mirrors tenantId s events) (hindex : s.Indexed) {x : NostrEvent}
    (hx : x ∈ s.ordered) : ∀ tag ∈ x.tags, TagIndex.Indexable tag :=
  hindex _ x (h.mem_ordered.1 hx)

/-- The inner loop of the memory store. -/
theorem takeEvents_eq (h : Mirrors tenantId s events) (hindex : s.Indexed) (filter : Filter) (n : ℕ)
    (hl : l.Nodup) (hsub : l ⊆ s.ordered) (htaken : taken ⊆ s.ordered) :
    MemoryStoreState.takeEvents filter n taken l =
      .ok (taken ++ Select.fresh l taken ⟨n, filter.accepts⟩) := by
  have hloop := Select.loop_eq (MemoryStoreState.takeEvents filter) id id filter.accepts
    (fun _ _ => rfl) ?_ n hl hsub htaken
  · simpa only [List.map_id] using hloop
  · intro n taken x rest htaken hx
    have hseen : ((taken.map id).any fun other => other.id == (id x).id) = true ↔ x ∈ taken :=
      h.seen_iff (fun _ _ => rfl) htaken hx
    rw [List.map_id, id_eq] at hseen
    obtain ⟨index, hi⟩ := TagIndex.fromTags_isOk_iff.2 (h.indexable hindex hx)
    have haccepts : filter.accepts x = filter.matches x index := by
      unfold Filter.accepts
      rw [hi]
    rw [MemoryStoreState.takeEvents]
    simp only [List.map_id, id_eq, hseen, hi, haccepts]

theorem fresh_subset {selector : Select.Selector NostrEvent} (htaken : taken ⊆ s.ordered) :
    taken ++ Select.fresh s.ordered taken selector ⊆ s.ordered :=
  List.append_subset.2 ⟨htaken, fun _ hx => (Select.mem_filter_of_mem_fresh hx).1⟩

theorem queryFilters_memory (h : Mirrors tenantId s events) (hindex : s.Indexed)
    (filters : List Filter) (htaken : taken ⊆ s.ordered) :
    MemoryStoreState.queryFilters s.ordered taken filters =
      .ok (Select.run s.ordered taken (filters.map Filter.selector)) := by
  induction filters generalizing taken with
  | nil => rfl
  | cons filter rest ih =>
    rw [MemoryStoreState.queryFilters,
      h.takeEvents_eq hindex filter _ h.nodup_ordered (List.Subset.refl _) htaken]
    exact ih (fresh_subset htaken)

/-- The answer of the memory store. -/
theorem query_memory (h : Mirrors tenantId s events) (hindex : s.Indexed)
    (filters : List Filter) :
    s.query filters = .ok (Select.run s.ordered [] (filters.map Filter.selector)) :=
  h.queryFilters_memory hindex filters (List.nil_subset _)

variable {record : NostrEvent → EventRecord}

theorem id_recordToEvent (h : Mirrors tenantId s events)
    (hrecord : Recorded tenantId s events record) {x : NostrEvent} (hx : x ∈ s.ordered) :
    (recordToEvent (record x)).id = x.id :=
  (h.storable _ _ (h.mem_ordered.1 hx)).eventKey_eq (hrecord x hx).2

theorem accepts_record (h : Mirrors tenantId s events) (hindex : s.Indexed)
    (hrecord : Recorded tenantId s events record) (filter : Filter) {x : NostrEvent}
    (hx : x ∈ s.ordered) : filter.accepts (recordToEvent (record x)) = filter.accepts x :=
  (hrecord x hx).2.accepts_recordToEvent (h.storable _ _ (h.mem_ordered.1 hx))
    (h.indexable hindex hx) filter

/-- The inner loop of the repository store. -/
theorem takeRecords_eq (h : Mirrors tenantId s events) (hindex : s.Indexed)
    (hrecord : Recorded tenantId s events record) (filter : Filter) (post : Bool) (n : ℕ)
    (hl : l.Nodup) (hsub : l ⊆ s.ordered) (htaken : taken ⊆ s.ordered) :
    RepositoryStore.takeRecords filter post n (taken.map fun x => recordToEvent (record x))
        (l.map record) =
      .ok ((taken ++ Select.fresh l taken
        ⟨n, fun x => !post || filter.accepts (recordToEvent (record x))⟩).map
          fun x => recordToEvent (record x)) := by
  refine Select.loop_eq (RepositoryStore.takeRecords filter post) _ record _ (fun _ _ => rfl) ?_ n
    hl hsub htaken
  intro n taken x rest htaken hx
  have hx' := h.mem_ordered.1 hx
  have hseen := h.seen_iff (fun y hy => h.id_recordToEvent hrecord hy) htaken hx
  obtain ⟨index, hi⟩ := TagIndex.fromTags_isOk_iff.2
    ((hrecord x hx).2.indexable (h.storable _ _ hx') (h.indexable hindex hx))
  have haccepts : filter.accepts (recordToEvent (record x)) =
      filter.matches (recordToEvent (record x)) index := by
    unfold Filter.accepts
    rw [hi]
  rw [RepositoryStore.takeRecords]
  simp only [hseen, hi, haccepts, List.map_append, List.map_cons, List.map_nil]
  cases post <;> simp

/-- What one filter adds to the answer of the repository store. -/
theorem takeRecords_plan (h : Mirrors tenantId s events) (hindex : s.Indexed)
    (hrecord : Recorded tenantId s events record) (filter : Filter) (htaken : taken ⊆ s.ordered) :
    RepositoryStore.takeRecords filter (buildQueryPlan filter).2
        (filter.limit.getD (2 ^ 64 - 1)) (taken.map fun x => recordToEvent (record x))
        (events.queryEvents { (buildQueryPlan filter).1 with tenantId := some tenantId }) =
      .ok ((taken ++ (if RepositoryStore.pushesLimit filter then Select.cut else Select.fresh)
        s.ordered taken (RepositoryStore.planSelector tenantId record filter)).map
          fun x => recordToEvent (record x)) := by
  have hlimit : (buildQueryPlan filter).1.limit =
      if (buildQueryPlan filter).2 then none else filter.limit := rfl
  rw [h.queryEvents_eq hrecord]
  unfold RepositoryStore.pushesLimit RepositoryStore.planSelector RepositoryStore.planned
  simp only [hlimit]
  have hsub : ∀ p : NostrEvent → Bool, s.ordered.filter p ⊆ s.ordered :=
    fun p => List.filter_subset_self _
  have hnodup : ∀ p : NostrEvent → Bool, (s.ordered.filter p).Nodup :=
    fun p => h.nodup_ordered.filter p
  cases hpost : (buildQueryPlan filter).2 with
  | true =>
    simp only [if_true, Bool.not_true, Bool.false_and, Bool.false_or, Bool.false_eq_true, if_false]
    rw [h.takeRecords_eq hindex hrecord filter true _ (hnodup _) (hsub _) htaken,
      Select.fresh_filter]
    rfl
  | false =>
    simp only [Bool.false_eq_true, if_false, Bool.not_false, Bool.true_and, Bool.true_or,
      Bool.and_true]
    cases filter.limit with
    | none =>
      simp only [Option.isSome_none, Bool.false_eq_true, if_false]
      rw [h.takeRecords_eq hindex hrecord filter false _ (hnodup _) (hsub _) htaken,
        Select.fresh_filter]
      simp
    | some limit =>
      simp only [Option.isSome_some, if_true, Option.getD_some]
      rw [h.takeRecords_eq hindex hrecord filter false _
        ((hnodup _).sublist (List.take_sublist _ _))
        (List.Subset.trans (List.take_subset _ _) (hsub _)) htaken, ← Select.fresh_take_filter]
      simp

end Mirrors

/-! ### Plans that decide as their filter does -/

/-- A full hexadecimal text that an id starts with is the id. -/
theorem eq_of_startsWith {id text : String} (hid : Str.isHexLen id 64 = true)
    (htext : Str.len text = 64) (hdecode : (Hex.decode text).isSome = true)
    (h : Str.startsWith id text = true) : text = id := by
  obtain ⟨r, hr⟩ := Str.startsWith_iff.1 h
  obtain ⟨bytes, hbytes⟩ := Option.isSome_iff_exists.1 hdecode
  have hlen : text.toList.length = 64 := by
    rw [← htext, Str.len_eq_length_of_hex]
    exact List.all_eq_true.2 (Hex.hexdigit_of_decode hbytes)
  have hsum := congrArg (fun t => t.toList.length) hr
  simp only [(Str.isHexLen_iff.1 hid).1, String.toList_append, List.length_append, hlen] at hsum
  have hempty : r.toList = [] := List.length_eq_zero_iff.1 (by omega)
  rw [hr, String.toList_eq_nil_iff.1 hempty, String.append_empty]

/-- Only full ids or keys. -/
def FullHex (texts : List String) : Prop :=
  ∀ text ∈ texts, Str.len text = 64 ∧ (Hex.decode text).isSome = true

instance (texts : List String) : Decidable (FullHex texts) :=
  inferInstanceAs (Decidable (∀ text ∈ texts, _ ∧ _))

theorem exactHexFilters_eq (texts : List String) :
    exactHexFilters texts = if FullHex texts then (texts, false) else ([], true) := by
  have hall : (texts.all fun text => Str.len text == 64 && (Hex.decode text).isSome) = true ↔
      FullHex texts := by
    simp [List.all_eq_true, FullHex]
  unfold exactHexFilters
  by_cases hnil : texts = []
  · subst hnil
    simp [FullHex]
  · simp only [hnil, if_false, hall]

/-- Listed texts that decode to the bytes of an id are that id up to their letter case. -/
theorem hexListed_iff {texts : List String} {id : String} {bytes : List UInt8} (hid : Hex.IsLower id)
    (hbytes : Hex.decode id = some bytes) : Events.hexListed texts bytes = true ↔
      ∃ text ∈ texts, Str.toAsciiLowercase text = id := by
  unfold Events.hexListed
  simp only [List.any_eq_true, beq_iff_eq]
  refine exists_congr fun text => and_congr_right fun _ => ?_
  rw [← Hex.decode_toAsciiLowercase]
  constructor
  · intro hd
    exact eq_of_decode_eq (Str.toAsciiLowercase_toAsciiLowercase text) hid hd hbytes
  · intro heq
    rw [heq, hbytes]

/-- What a filter accepts by its prefixes, its plan does not refuse. -/
theorem exactHexFilters_complete {texts : List String} {id : String} {bytes : List UInt8}
    (hid : Str.isHexLen id 64 = true) (hbytes : Hex.decode id = some bytes)
    (h : (texts.isEmpty || texts.any fun text => Str.startsWith id text) = true) :
    ((exactHexFilters texts).1.isEmpty || Events.hexListed (exactHexFilters texts).1 bytes) =
      true := by
  rw [exactHexFilters_eq]
  split_ifs with hfull
  · -- all texts are full, so the one that matches is the id
    simp only [Bool.or_eq_true, List.any_eq_true, Events.hexListed, beq_iff_eq] at h ⊢
    refine h.imp_right ?_
    rintro ⟨text, hm, hstart⟩
    obtain rfl := eq_of_startsWith hid (hfull text hm).1 (hfull text hm).2 hstart
    exact ⟨text, hm, hbytes⟩
  · rfl

/-- Every tag condition of the filter that names values is met by a tag of exactly that name. -/
def Filter.NamesTags (filter : Filter) (event : NostrEvent) : Prop :=
  ∀ (name : String) (values : List String), filter.tags[name]? = some values → values ≠ [] →
    ∃ tag ∈ event.tags.flatMap tagRecords, tag.name = name ∧ tag.value ∈ values

/-- The ids and authors of the filter are full. -/
def Filter.Full (filter : Filter) : Prop := FullHex filter.ids ∧ FullHex filter.authors

instance (filter : Filter) : Decidable filter.Full := inferInstanceAs (Decidable (_ ∧ _))

/-- The filter with full ids and authors, compared without their letter case, without the tag
conditions that name no value, and with the blanks around the names of tags. -/
structure Filter.PassesLoosely (filter : Filter) (event : NostrEvent) : Prop where
  ids : filter.ids = [] ∨ ∃ text ∈ filter.ids, Str.toAsciiLowercase text = event.id
  authors : filter.authors = [] ∨ ∃ text ∈ filter.authors, Str.toAsciiLowercase text = event.pubkey
  kinds : (filter.kinds.isEmpty || filter.kinds.contains event.kind) = true
  since : (filter.since.all fun since => decide (since ≤ event.createdAt)) = true
  until_ : (filter.until.all fun limit => decide (event.createdAt ≤ limit)) = true
  tags : filter.NamesTags event

/-- The repository store misreads an event: a filter accepts it by a tag with blanks around its name
only; or a filter with full ids and authors refuses it, but not when letter case, blanks and empty
value lists are passed over. -/
def Filter.Misreads (filter : Filter) (event : NostrEvent) : Prop :=
  (filter.accepts event = true ∧ ¬ filter.NamesTags event) ∨
    (filter.accepts event = false ∧ filter.Full ∧ filter.PassesLoosely event)

/-- The filters that misread no event by their own form: every tag condition names a value, and the
ids and authors are in lower case. -/
structure Filter.Plain (filter : Filter) : Prop where
  values : ∀ (name : String) (values : List String), filter.tags[name]? = some values → values ≠ []
  ids : ∀ text ∈ filter.ids, Hex.IsLower text
  authors : ∀ text ∈ filter.authors, Hex.IsLower text

/-- The tag names of an event that a filter asks for have no blanks around them. -/
def Filter.NamesTrimmed (filter : Filter) (event : NostrEvent) : Prop :=
  ∀ tag ∈ event.tags.flatMap tagRecords, tag.name ∈ filter.tags ∨ Str.trim tag.name ∈ filter.tags →
    Str.trim tag.name = tag.name

theorem Filter.mem_tags_of_get {filter : Filter} {name : String} {values : List String}
    (h : filter.tags[name]? = some values) : name ∈ filter.tags := by
  rw [Std.ExtTreeMap.mem_iff_isSome_getElem?, h]
  rfl

/-- A plain filter does not misread an event without blanks around the names that it asks for. -/
theorem Filter.Plain.not_misreads {filter : Filter} {event : NostrEvent} (hplain : filter.Plain)
    (hindex : ∀ tag ∈ event.tags, TagIndex.Indexable tag) (hnames : filter.NamesTrimmed event) :
    ¬ filter.Misreads event := by
  have haccepts := @Filter.accepts_iff filter event hindex
  rintro (⟨hacc, hnot⟩ | ⟨hrefused, -, hpasses⟩)
  · refine hnot fun name values hv _ => ?_
    obtain ⟨value, hm, htag⟩ := (haccepts.1 hacc).2 name values hv
    obtain ⟨tag, ht, hname, rfl⟩ := tagged_iff.1 htag
    refine ⟨tag, ht, ?_, hm⟩
    rw [← hname]
    exact (hnames tag ht (Or.inr (hname ▸ Filter.mem_tags_of_get hv))).symm
  · -- lower-case texts that are an id up to their letter case are the id
    have hlisted : ∀ (texts : List String) (id : String), (∀ text ∈ texts, Hex.IsLower text) →
        (texts = [] ∨ ∃ text ∈ texts, Str.toAsciiLowercase text = id) →
          (texts.isEmpty || texts.any fun text => Str.startsWith id text) = true := by
      intro texts id hlower h
      simp only [Bool.or_eq_true, List.isEmpty_iff, List.any_eq_true]
      refine h.imp_right ?_
      rintro ⟨text, hm, rfl⟩
      refine ⟨text, hm, Str.startsWith_iff.2 ⟨"", ?_⟩⟩
      rw [hlower text hm, String.append_empty]
    have hacc : filter.accepts event = true := by
      refine haccepts.2 ⟨?_, fun name values hv => ?_⟩
      · unfold Filter.selects
        simp only [Bool.and_eq_true]
        exact ⟨⟨⟨⟨hlisted _ _ hplain.ids hpasses.ids, hlisted _ _ hplain.authors hpasses.authors⟩,
          hpasses.kinds⟩, hpasses.since⟩, hpasses.until_⟩
      · obtain ⟨tag, ht, rfl, hm⟩ := hpasses.tags name values hv (hplain.values name values hv)
        exact ⟨tag.value, hm,
          tagged_iff.2 ⟨tag, ht, hnames tag ht (Or.inl (Filter.mem_tags_of_get hv)), rfl⟩⟩
    rw [hacc] at hrefused
    cases hrefused

theorem buildQueryPlan_snd (filter : Filter) :
    (buildQueryPlan filter).2 = !decide filter.Full := by
  show ((exactHexFilters filter.ids).2 || (exactHexFilters filter.authors).2) = _
  rw [exactHexFilters_eq, exactHexFilters_eq]
  by_cases hids : FullHex filter.ids <;> by_cases hauthors : FullHex filter.authors <;>
    simp [Filter.Full, hids, hauthors]

namespace RecordOf

variable {event : NostrEvent} {tenantId : String} {record : EventRecord} {filter : Filter}

theorem mem_planTags {name value : String} :
    (⟨name, value⟩ : TagRecord) ∈ (buildQueryPlan filter).1.tags ↔
      ∃ values, filter.tags[name]? = some values ∧ value ∈ values := by
  unfold buildQueryPlan
  simp only [List.mem_flatMap, List.mem_map, Prod.exists, TagRecord.mk.injEq,
    Std.ExtTreeMap.mem_toList_iff_getElem?_eq_some]
  constructor
  · rintro ⟨_, values, hv, _, hm, rfl, rfl⟩
    exact ⟨values, hv, hm⟩
  · rintro ⟨values, hv, hm⟩
    exact ⟨name, values, hv, value, hm, rfl, rfl⟩

theorem tagsMatch_iff_namesTags (hof : RecordOf event tenantId record) :
    Events.tagsMatch (buildQueryPlan filter).1.tags record.tags = true ↔ filter.NamesTags event := by
  rw [Events.tagsMatch_iff, hof.tags_eq]
  constructor
  · intro h name values hv hne
    obtain ⟨value, hm⟩ := List.exists_mem_of_ne_nil _ hne
    obtain ⟨tag, ht, hwanted, hname⟩ := h ⟨name, value⟩ (mem_planTags.2 ⟨values, hv, hm⟩)
    obtain ⟨values', hv', hm'⟩ := mem_planTags.1 hwanted
    obtain rfl : tag.name = name := hname
    rw [hv, Option.some.injEq] at hv'
    exact ⟨tag, ht, rfl, hv' ▸ hm'⟩
  · intro h w hw
    obtain ⟨values, hv, hm⟩ := mem_planTags.1 hw
    obtain ⟨tag, ht, hname, hvalue⟩ := h w.name values hv (List.ne_nil_of_mem hm)
    exact ⟨tag, ht, mem_planTags.2 ⟨values, hname ▸ hv, hvalue⟩, hname⟩

/-- What the query of a plan asks of the record of an event. -/
theorem matchesQuery_plan_iff (hof : RecordOf event tenantId record) :
    Events.matchesQuery { (buildQueryPlan filter).1 with tenantId := some tenantId } record = true ↔
      ((exactHexFilters filter.ids).1.isEmpty ||
        Events.hexListed (exactHexFilters filter.ids).1 record.id) = true ∧
      ((exactHexFilters filter.authors).1.isEmpty ||
        Events.hexListed (exactHexFilters filter.authors).1 record.pubkey) = true ∧
      (filter.kinds.isEmpty || filter.kinds.contains event.kind) = true ∧
      (filter.since.all fun since => decide (since ≤ event.createdAt)) = true ∧
      (filter.until.all fun limit => decide (event.createdAt ≤ limit)) = true ∧
      filter.NamesTags event := by
  rw [← hof.tagsMatch_iff_namesTags]
  unfold Events.matchesQuery
  simp only [Option.all_some, hof.tenantId_eq, hof.kind_eq, hof.createdAt_eq, beq_self_eq_true,
    Bool.true_and, Bool.and_eq_true, and_assoc]
  rfl

/-- The plan of a filter decides differently on an event than the filter exactly if it misreads the
event. -/
theorem planned_ne_accepts_iff (hof : RecordOf event tenantId record) (hstore : event.Storable)
    (hindex : ∀ tag ∈ event.tags, TagIndex.Indexable tag) :
    RepositoryStore.planned tenantId filter record ≠ filter.accepts event ↔
      filter.Misreads event := by
  unfold RepositoryStore.planned Filter.Misreads
  rw [hof.accepts_recordToEvent hstore hindex, buildQueryPlan_snd]
  cases hacc : filter.accepts event with
  | true =>
    -- the query refuses an accepted event by the names of its tags only
    have haccepts := (Filter.accepts_iff hindex).1 hacc
    unfold Filter.selects at haccepts
    simp only [Bool.and_eq_true, and_assoc] at haccepts
    obtain ⟨hids, hauthors, hkinds, hsince, huntil, -⟩ := haccepts
    have hmatch := @matchesQuery_plan_iff event tenantId record filter hof
    simp only [exactHexFilters_complete hstore.idHex hof.id hids,
      exactHexFilters_complete hstore.pubkeyHex hof.pubkey hauthors, hkinds, hsince, huntil,
      true_and] at hmatch
    simp only [Bool.or_true, Bool.and_true, ne_eq, hmatch, true_and, reduceCtorEq, false_and,
      or_false]
  | false =>
    simp only [Bool.or_false, Bool.not_not, reduceCtorEq, false_and, false_or, true_and, ne_eq,
      Bool.not_eq_false, Bool.and_eq_true, decide_eq_true_eq, hof.matchesQuery_plan_iff]
    rw [and_comm]
    refine and_congr_right fun hfull => ?_
    simp only [exactHexFilters_eq, if_pos hfull.1, if_pos hfull.2, Bool.or_eq_true,
      List.isEmpty_iff, hexListed_iff hstore.idLower hof.id,
      hexListed_iff hstore.pubkeyLower hof.pubkey]
    constructor
    · rintro ⟨hids, hauthors, hkinds, hsince, huntil, htags⟩
      exact ⟨hids, hauthors, by simpa using hkinds, hsince, huntil, htags⟩
    · rintro ⟨hids, hauthors, hkinds, hsince, huntil, htags⟩
      exact ⟨hids, hauthors, by simpa using hkinds, hsince, huntil, htags⟩

end RecordOf

/-! ### Agreement -/

/-- Both stores answer the filters with the same ids in the same order, and only with events that
one of the filters accepts. -/
def ReadsAgree (tenantId : String) (s : MemoryStoreState) (events : Events)
    (filters : List Filter) : Prop :=
  ∃ found found', s.query filters = .ok found ∧
    RepositoryStore.query tenantId events filters = .ok found' ∧
    found.map (·.id) = found'.map (·.id) ∧
    (∀ x ∈ found, ∃ filter ∈ filters, filter.accepts x = true) ∧
    ∀ x ∈ found', ∃ filter ∈ filters, filter.accepts x = true

/-- The number of stored events before an event, in the order of `query`, that pass a test. -/
def MemoryStoreState.ahead (s : MemoryStoreState) (p : NostrEvent → Bool) (x : NostrEvent) : ℕ :=
  (s.events.values.filter fun y =>
    p y && decide (RepositoryStore.before y x ∧ y.id ≠ x.id)).length

/-- A property of each filter of a request, and of the events that the filters before it return. -/
def MemoryStoreState.EachTurn (s : MemoryStoreState) (P : List NostrEvent → Filter → Prop)
    (filters : List Filter) : Prop :=
  Select.Stages Filter.selector P s.ordered [] filters

namespace Filter

variable (s : MemoryStoreState) (taken : List NostrEvent) (filter : Filter)

/-- What a filter returns: the first events that it accepts, up to its limit. -/
def first : List NostrEvent := (s.ordered.filter filter.accepts).take filter.selector.limit

/-- What a filter adds to the events that are returned already: the first others that it accepts, up
to its limit. -/
def adds : List NostrEvent := Select.fresh s.ordered taken filter.selector

/-- The filter has a limit, and only full ids and authors. -/
def Limited : Prop := filter.Full ∧ filter.limit.isSome = true

/-- A filter can be asked after those that returned some events: what it adds comes after these, a
filter with a limit and full ids and authors adds no more than it returns, and it reaches its limit
before the first event that it misreads. -/
structure Turn : Prop where
  order : ∀ x ∈ taken, ∀ y ∈ filter.adds s taken, RepositoryStore.before x y
  limit : filter.Limited → ∀ y ∈ filter.adds s taken, y ∈ filter.first s
  readsFirst : filter.Limited → ∀ x ∈ s.events.values, filter.Misreads x →
    filter.selector.limit ≤ s.ahead filter.accepts x
  readsNew : ¬ filter.Limited → ∀ x ∈ s.events.values, x ∉ taken → filter.Misreads x →
    filter.selector.limit ≤ s.ahead (fun y => filter.accepts y && decide (y ∉ taken)) x

/-- A filter that misreads no stored event, and has a limit only with full ids and authors. -/
structure Clear : Prop where
  reads : ∀ x ∈ s.events.values, ¬ filter.Misreads x
  full : filter.limit.isSome = true → filter.Full
  few : filter.limit = none → s.events.values.length < 2 ^ 64

variable {filter}

theorem pushesLimit_iff : RepositoryStore.pushesLimit filter = true ↔ filter.Limited := by
  unfold RepositoryStore.pushesLimit Limited
  rw [buildQueryPlan_snd, Bool.not_not, Bool.and_eq_true, decide_eq_true_eq]

end Filter

namespace Mirrors

variable {tenantId : String} {s : MemoryStoreState} {events : Events} {taken l : List NostrEvent}
  {record : NostrEvent → EventRecord}

theorem mem_values_iff {s : MemoryStoreState} {x : NostrEvent} :
    x ∈ s.events.values ↔ x ∈ s.ordered :=
  (List.mem_insertionSort _).symm

theorem planned_ne_accepts_iff (h : Mirrors tenantId s events) (hindex : s.Indexed)
    (hrecord : Recorded tenantId s events record) (filter : Filter) {x : NostrEvent}
    (hx : x ∈ s.ordered) : RepositoryStore.planned tenantId filter (record x) ≠ filter.accepts x ↔
      filter.Misreads x :=
  (hrecord x hx).2.planned_ne_accepts_iff (h.storable _ _ (h.mem_ordered.1 hx))
    (h.indexable hindex hx)

/-- The events before a place of the ordered list. -/
theorem ahead_eq (h : Mirrors tenantId s events) {front back : List NostrEvent}
    {x : NostrEvent} (heq : s.ordered = front ++ x :: back) (p : NostrEvent → Bool) :
    s.ahead p x = (front.filter p).length := by
  have hnodup := h.nodup_ordered
  have hsorted := pairwise_ordered s
  have hmem : ∀ y, y ∈ front ++ x :: back → y ∈ s.ordered := fun y hy => heq ▸ hy
  unfold MemoryStoreState.ahead
  rw [← ((List.perm_insertionSort RepositoryStore.before _).filter _).length_eq]
  show (s.ordered.filter _).length = _
  rw [heq] at hnodup hsorted ⊢
  obtain ⟨-, hback, hfront⟩ := List.pairwise_append.1 hsorted
  have hx : x ∉ front ∧ x ∉ back := by
    have hmid := List.nodup_middle.1 hnodup
    simpa using (List.nodup_cons.1 hmid).1
  rw [List.filter_append, List.length_append]
  have hfilter : (front.filter fun y =>
      p y && decide (RepositoryStore.before y x ∧ y.id ≠ x.id)) = front.filter p := by
    refine List.filter_congr fun y hy => ?_
    have hne : y.id ≠ x.id := by
      intro hid
      have hyx := h.eq_of_id_eq (hmem y (by simp [hy])) (hmem x (by simp)) hid
      exact hx.1 (hyx ▸ hy)
    simp [hfront y hy x List.mem_cons_self, hne]
  have hnone : ((x :: back).filter fun y =>
      p y && decide (RepositoryStore.before y x ∧ y.id ≠ x.id)) = [] := by
    refine List.filter_eq_nil_iff.2 fun y hy => ?_
    rcases List.mem_cons.1 hy with rfl | hy
    · simp
    · have hafter := (List.pairwise_cons.1 hback).1 y hy
      intro htrue
      simp only [Bool.and_eq_true, decide_eq_true_eq] at htrue
      exact htrue.2.2 (RepositoryStore.id_eq_of_before htrue.2.1 hafter)
  rw [hfilter, hnone, List.length_nil, Nat.add_zero]

/-- Two tests select the same first events exactly if wherever they differ, the limit is reached. -/
theorem take_ordered_eq_iff (h : Mirrors tenantId s events) {p q : NostrEvent → Bool} (n : ℕ) :
    (s.ordered.filter p).take n = (s.ordered.filter q).take n ↔
      ∀ x ∈ s.ordered, p x ≠ q x → n ≤ s.ahead p x := by
  rw [Select.take_filter_eq_iff h.nodup_ordered]
  constructor
  · intro hplaces x hx hne
    obtain ⟨front, back, heq⟩ := List.append_of_mem hx
    rw [h.ahead_eq heq]
    exact hplaces front x back heq hne
  · intro hahead front x back heq hne
    rw [← h.ahead_eq heq]
    exact hahead x (by simp [heq]) hne

/-- A filter whose turn it is adds what it adds to the answer of the memory store. -/
theorem takeRecords_turn (h : Mirrors tenantId s events) (hindex : s.Indexed)
    (hrecord : Recorded tenantId s events record) {filter : Filter} (hturn : filter.Turn s taken)
    (htaken : taken ⊆ s.ordered) :
    RepositoryStore.takeRecords filter (buildQueryPlan filter).2
        (filter.limit.getD (2 ^ 64 - 1)) (taken.map fun x => recordToEvent (record x))
        (events.queryEvents { (buildQueryPlan filter).1 with tenantId := some tenantId }) =
      .ok ((taken ++ Select.fresh s.ordered taken filter.selector).map
        fun x => recordToEvent (record x)) := by
  rw [h.takeRecords_plan hindex hrecord filter htaken]
  have hmisreads : ∀ x ∈ s.ordered, filter.accepts x ≠
      RepositoryStore.planned tenantId filter (record x) → filter.Misreads x :=
    fun x hx hne => (h.planned_ne_accepts_iff hindex hrecord filter hx).1 hne.symm
  split_ifs with hpush
  · rw [Filter.pushesLimit_iff] at hpush
    have hfirst := (h.take_ordered_eq_iff filter.selector.limit).2 fun x hx hne =>
      hturn.readsFirst hpush x (mem_values_iff.2 hx) (hmisreads x hx hne)
    have hcut : Select.cut s.ordered taken (RepositoryStore.planSelector tenantId record filter) =
        Select.cut s.ordered taken filter.selector :=
      congrArg (List.filter fun x => decide (x ∉ taken)) hfirst.symm
    rw [hcut, (Select.cut_eq_fresh_iff h.nodup_ordered).2 (hturn.limit hpush)]
  · rw [Filter.pushesLimit_iff] at hpush
    have hfresh : Select.fresh s.ordered taken filter.selector =
        Select.fresh s.ordered taken (RepositoryStore.planSelector tenantId record filter) := by
      refine (h.take_ordered_eq_iff filter.selector.limit).2 fun x hx hne => ?_
      by_cases hx' : x ∈ taken
      · simp [hx'] at hne
      · refine hturn.readsNew hpush x (mem_values_iff.2 hx) hx' (hmisreads x hx fun heq => hne ?_)
        exact congrArg (fun b => b && decide (x ∉ taken)) heq
    rw [hfresh]

theorem queryFilters_turns (h : Mirrors tenantId s events) (hindex : s.Indexed)
    (hrecord : Recorded tenantId s events record) {filters : List Filter}
    (hturns : Select.Stages Filter.selector (fun taken filter => filter.Turn s taken) s.ordered taken
      filters) (htaken : taken ⊆ s.ordered) :
    RepositoryStore.queryFilters tenantId events (taken.map fun x => recordToEvent (record x))
        filters =
      .ok ((Select.run s.ordered taken (filters.map Filter.selector)).map
        fun x => recordToEvent (record x)) := by
  induction filters generalizing taken with
  | nil => rfl
  | cons filter rest ih =>
    rw [RepositoryStore.queryFilters]
    simp only
    rw [h.takeRecords_turn hindex hrecord hturns.1 htaken]
    exact ih hturns.2 (fresh_subset htaken)

/-- Sorting what comes back from the records is sorting the events. -/
theorem insertionSort_map (h : Mirrors tenantId s events)
    (hrecord : Recorded tenantId s events record) (hl : l ⊆ s.ordered) :
    (l.map fun x => recordToEvent (record x)).insertionSort RepositoryStore.before =
      (l.insertionSort RepositoryStore.before).map fun x => recordToEvent (record x) := by
  refine (List.map_insertionSort RepositoryStore.before RepositoryStore.before _ l ?_).symm
  intro x hx y hy
  rw [RepositoryStore.before_recordToEvent]
  exact h.before_record hrecord (hl hx) (hl hy)

theorem map_id_image (h : Mirrors tenantId s events)
    (hrecord : Recorded tenantId s events record) (hl : l ⊆ s.ordered) :
    (l.map fun x => recordToEvent (record x)).map (·.id) = l.map (·.id) := by
  rw [List.map_map]
  exact List.map_congr_left fun x hx => h.id_recordToEvent hrecord (hl hx)

/-- The stored events of a list of ids. -/
theorem filterMap_ids (h : Mirrors tenantId s events) (hl : l ⊆ s.ordered) :
    (l.map (·.id)).filterMap (fun id => s.events[id]?) = l := by
  rw [List.filterMap_map]
  conv_rhs => rw [← List.filterMap_some (l := l)]
  exact List.filterMap_congr fun x hx => h.mem_ordered.1 (hl hx)

/-- What the memory store returns is stored and accepted by one of the filters. -/
theorem mem_run_selectors {filters : List Filter} {x : NostrEvent}
    (hx : x ∈ Select.run s.ordered [] (filters.map Filter.selector)) :
    x ∈ s.ordered ∧ ∃ filter ∈ filters, filter.accepts x = true := by
  obtain ⟨hl, selector, hs, htest⟩ := (Select.mem_run hx).resolve_left List.not_mem_nil
  obtain ⟨filter, hf, rfl⟩ := List.mem_map.1 hs
  exact ⟨hl, filter, hf, htest⟩

/-- Where the repository store selects some events, the answers are the same exactly if these in order
are the events that the memory store selects. -/
theorem readsAgree_iff_of_selected (h : Mirrors tenantId s events) (hindex : s.Indexed)
    (hrecord : Recorded tenantId s events record) {filters : List Filter} (hl : l ⊆ s.ordered)
    (hquery : RepositoryStore.queryFilters tenantId events [] filters =
      .ok (l.map fun x => recordToEvent (record x))) :
    ReadsAgree tenantId s events filters ↔
      Select.run s.ordered [] (filters.map Filter.selector) =
        l.insertionSort RepositoryStore.before := by
  have hsort : l.insertionSort RepositoryStore.before ⊆ s.ordered :=
    fun x hx => hl ((List.mem_insertionSort _).1 hx)
  have hrepo : RepositoryStore.query tenantId events filters =
      .ok ((l.insertionSort RepositoryStore.before).map fun x => recordToEvent (record x)) := by
    unfold RepositoryStore.query
    rw [hquery, Except.map, h.insertionSort_map hrecord hl]
  have hrun : Select.run s.ordered [] (filters.map Filter.selector) ⊆ s.ordered :=
    fun x hx => (mem_run_selectors hx).1
  unfold ReadsAgree
  simp only [h.query_memory hindex, hrepo, Except.ok.injEq]
  constructor
  · rintro ⟨_, _, rfl, rfl, hids, -⟩
    rw [h.map_id_image hrecord hsort] at hids
    have hlookup := congrArg (List.filterMap fun id => s.events[id]?) hids
    rwa [h.filterMap_ids hrun, h.filterMap_ids hsort] at hlookup
  · intro heq
    refine ⟨_, _, rfl, rfl, ?_, fun x hx => (mem_run_selectors hx).2, ?_⟩
    · rw [h.map_id_image hrecord hsort, heq]
    · rw [← heq]
      intro y hy
      obtain ⟨x, hx, rfl⟩ := List.mem_map.1 hy
      obtain ⟨hxo, filter, hf, hfx⟩ := mem_run_selectors hx
      exact ⟨filter, hf, by rw [h.accepts_record hindex hrecord filter hxo, hfx]⟩

/-- Filters that are each asked in their turn. -/
theorem readsAgree_of_turns (h : Mirrors tenantId s events) (hindex : s.Indexed)
    {filters : List Filter} (hturns : s.EachTurn (fun taken filter => filter.Turn s taken) filters) :
    ReadsAgree tenantId s events filters := by
  obtain ⟨record, hrecord⟩ := h.exists_recorded
  have hsub : Select.run s.ordered [] (filters.map Filter.selector) ⊆ s.ordered :=
    fun x hx => (mem_run_selectors hx).1
  have hquery := h.queryFilters_turns hindex hrecord hturns (List.nil_subset _)
  refine (h.readsAgree_iff_of_selected hindex hrecord hsub hquery).2 ?_
  have hsorted := (Select.pairwise_run_iff (pairwise_ordered s) Filter.selector filters).2
    ⟨List.Pairwise.nil, hturns.imp fun _ _ hturn => hturn.order⟩
  exact (List.Pairwise.insertionSort_eq hsorted).symm

/-- Whatever the filters are, the repository store selects some of the stored events. -/
theorem exists_queryFilters (h : Mirrors tenantId s events) (hindex : s.Indexed)
    (hrecord : Recorded tenantId s events record) (filters : List Filter)
    (htaken : taken ⊆ s.ordered) :
    ∃ l ⊆ s.ordered, RepositoryStore.queryFilters tenantId events
        (taken.map fun x => recordToEvent (record x)) filters =
      .ok (l.map fun x => recordToEvent (record x)) := by
  induction filters generalizing taken with
  | nil => exact ⟨taken, htaken, rfl⟩
  | cons filter rest ih =>
    rw [RepositoryStore.queryFilters]
    simp only
    rw [h.takeRecords_plan hindex hrecord filter htaken]
    refine ih (List.append_subset.2 ⟨htaken, fun x hx => ?_⟩)
    split_ifs at hx
    · exact List.mem_of_mem_filter (List.mem_of_mem_take (Select.mem_cut.1 hx).1)
    · exact (Select.mem_filter_of_mem_fresh hx).1

/-- Answers that are the same are in order. -/
theorem ordered_of_readsAgree (h : Mirrors tenantId s events) (hindex : s.Indexed)
    {filters : List Filter} (hagree : ReadsAgree tenantId s events filters) :
    s.EachTurn (fun taken filter => ∀ x ∈ taken, ∀ y ∈ filter.adds s taken,
      RepositoryStore.before x y) filters := by
  obtain ⟨record, hrecord⟩ := h.exists_recorded
  obtain ⟨l, hl, hquery⟩ := h.exists_queryFilters hindex hrecord filters (List.nil_subset _)
  have hrun := (h.readsAgree_iff_of_selected hindex hrecord hl hquery).1 hagree
  refine ((Select.pairwise_run_iff (pairwise_ordered s) Filter.selector filters).1 ?_).2
  rw [hrun]
  exact List.pairwise_insertionSort _ _

/-! ### Requests that are read clearly -/

theorem queryFilters_clear (h : Mirrors tenantId s events) (hindex : s.Indexed)
    (hrecord : Recorded tenantId s events record) {filters : List Filter}
    (hclear : ∀ filter ∈ filters, filter.Clear s) (htaken : taken ⊆ s.ordered) :
    RepositoryStore.queryFilters tenantId events (taken.map fun x => recordToEvent (record x))
        filters =
      .ok ((Select.cutRun s.ordered taken (filters.map Filter.selector)).map
        fun x => recordToEvent (record x)) := by
  induction filters generalizing taken with
  | nil => rfl
  | cons filter rest ih =>
    obtain ⟨hfirst, hrest⟩ := List.forall_mem_cons.1 hclear
    have hplan : ∀ x ∈ s.ordered,
        RepositoryStore.planned tenantId filter (record x) = filter.accepts x := by
      intro x hx
      by_contra hne
      exact hfirst.reads x (mem_values_iff.2 hx)
        ((h.planned_ne_accepts_iff hindex hrecord filter hx).1 hne)
    have hcut : (if RepositoryStore.pushesLimit filter then Select.cut else Select.fresh)
        s.ordered taken (RepositoryStore.planSelector tenantId record filter) =
          Select.cut s.ordered taken filter.selector := by
      unfold RepositoryStore.planSelector Filter.selector
      rw [← Select.cut_congr hplan]
      split_ifs with hpush
      · rfl
      · -- without a limit there are too few events to cut any off
        have hnone : filter.limit = none := by
          by_contra hsome
          have hsome := Option.isSome_iff_ne_none.2 hsome
          exact hpush (Filter.pushesLimit_iff.2 ⟨hfirst.full hsome, hsome⟩)
        refine (Select.cut_eq_fresh_of_length ?_).symm
        have hfew := hfirst.few hnone
        have hlen : (s.ordered.filter fun x =>
            RepositoryStore.planned tenantId filter (record x)).length ≤ s.events.values.length :=
          (List.length_filter_le _ _).trans (List.length_insertionSort _ _).le
        simp only [hnone, Option.getD_none]
        omega
    rw [RepositoryStore.queryFilters]
    simp only
    rw [h.takeRecords_plan hindex hrecord filter htaken, hcut]
    refine ih hrest (List.append_subset.2 ⟨htaken, fun x hx => ?_⟩)
    exact List.mem_of_mem_filter (List.mem_of_mem_take (Select.mem_cut.1 hx).1)

/-- The selected events are those of the other run in order, exactly if they are in order and each of
them is selected by a filter alone. -/
theorem run_eq_sort_cutRun_iff (h : Mirrors tenantId s events) (filters : List Filter) :
    Select.run s.ordered [] (filters.map Filter.selector) =
        (Select.cutRun s.ordered [] (filters.map Filter.selector)).insertionSort
          RepositoryStore.before ↔
      s.EachTurn (fun taken filter =>
        (∀ x ∈ taken, ∀ y ∈ filter.adds s taken, RepositoryStore.before x y) ∧
          ∀ y ∈ filter.adds s taken, ∃ other ∈ filters, y ∈ other.first s) filters := by
  have hfirst : ∀ x, x ∈ Select.cutRun s.ordered [] (filters.map Filter.selector) ↔
      ∃ other ∈ filters, x ∈ other.first s := by
    intro x
    rw [Select.mem_cutRun]
    simp [Filter.first, Filter.selector]
  have hturns : s.EachTurn (fun taken filter =>
        (∀ x ∈ taken, ∀ y ∈ filter.adds s taken, RepositoryStore.before x y) ∧
          ∀ y ∈ filter.adds s taken, ∃ other ∈ filters, y ∈ other.first s) filters ↔
      (Select.run s.ordered [] (filters.map Filter.selector)).Pairwise RepositoryStore.before ∧
        ∀ x ∈ Select.run s.ordered [] (filters.map Filter.selector),
          ∃ other ∈ filters, x ∈ other.first s := by
    rw [Select.pairwise_run_iff (pairwise_ordered s), Select.forall_mem_run_iff]
    unfold MemoryStoreState.EachTurn
    rw [Select.stages_and]
    simp [Filter.adds]
  rw [hturns]
  constructor
  · intro heq
    refine ⟨heq ▸ List.pairwise_insertionSort _ _, fun x hx => ?_⟩
    rw [heq, List.mem_insertionSort] at hx
    exact (hfirst x).1 hx
  · rintro ⟨hsorted, hsub⟩
    -- neither run returns an event twice, so they are told apart by their members only
    have hperm : (Select.run s.ordered [] (filters.map Filter.selector)).Perm
        (Select.cutRun s.ordered [] (filters.map Filter.selector)) := by
      refine (List.perm_ext_iff_of_nodup (Select.nodup_run h.nodup_ordered _ List.nodup_nil)
        (Select.nodup_cutRun h.nodup_ordered _ List.nodup_nil)).2 fun x => ⟨?_, ?_⟩
      · exact fun hx => (hfirst x).2 (hsub x hx)
      · exact fun hx => Select.cutRun_subset_run (List.Subset.refl _) hx
    refine List.Perm.eq_of_pairwise ?_ hsorted (List.pairwise_insertionSort _ _)
      (hperm.trans (List.perm_insertionSort _ _).symm)
    intro x y hx hy hxy hyx
    refine h.eq_of_id_eq (mem_run_selectors hx).1 ?_ (RepositoryStore.id_eq_of_before hxy hyx)
    exact (mem_run_selectors (hperm.mem_iff.2 ((List.mem_insertionSort _).1 hy))).1

/-- Clear filters are answered alike exactly if what each of them adds comes after what the others
have returned and is what one of the filters returns alone. -/
theorem readsAgree_clear_iff (h : Mirrors tenantId s events) (hindex : s.Indexed)
    {filters : List Filter} (hclear : ∀ filter ∈ filters, filter.Clear s) :
    ReadsAgree tenantId s events filters ↔ s.EachTurn (fun taken filter =>
      (∀ x ∈ taken, ∀ y ∈ filter.adds s taken, RepositoryStore.before x y) ∧
        ∀ y ∈ filter.adds s taken, ∃ other ∈ filters, y ∈ other.first s) filters := by
  obtain ⟨record, hrecord⟩ := h.exists_recorded
  have hquery := h.queryFilters_clear hindex hrecord hclear (List.nil_subset _)
  rw [h.readsAgree_iff_of_selected hindex hrecord ?_ hquery, h.run_eq_sort_cutRun_iff]
  exact fun x hx =>
    (mem_run_selectors (Select.cutRun_subset_run (List.Subset.refl _) hx)).1

/-! ### One filter -/

/-- One filter is answered alike exactly if it reaches its limit before the first event that it
misreads. -/
theorem readsAgree_singleton_iff (h : Mirrors tenantId s events) (hindex : s.Indexed)
    (filter : Filter) :
    ReadsAgree tenantId s events [filter] ↔ ∀ x ∈ s.events.values, filter.Misreads x →
      filter.selector.limit ≤ s.ahead filter.accepts x := by
  obtain ⟨record, hrecord⟩ := h.exists_recorded
  have hquery : RepositoryStore.queryFilters tenantId events [] [filter] =
      .ok (((s.ordered.filter fun x => RepositoryStore.planned tenantId filter (record x)).take
        filter.selector.limit).map fun x => recordToEvent (record x)) := by
    have hstep := h.takeRecords_plan hindex hrecord filter (List.nil_subset _)
    have hcut : (if RepositoryStore.pushesLimit filter then Select.cut else Select.fresh)
        s.ordered [] (RepositoryStore.planSelector tenantId record filter) =
          Select.fresh s.ordered [] (RepositoryStore.planSelector tenantId record filter) := by
      split_ifs
      · exact Select.cut_nil _ _
      · rfl
    rw [hcut, List.nil_append, Select.fresh_nil, List.map_nil] at hstep
    rw [RepositoryStore.queryFilters]
    simp only
    rw [hstep]
    rfl
  have hsorted : ((s.ordered.filter fun x =>
      RepositoryStore.planned tenantId filter (record x)).take filter.selector.limit).Pairwise
        RepositoryStore.before :=
    ((pairwise_ordered s).filter _).sublist (List.take_sublist _ _)
  rw [h.readsAgree_iff_of_selected hindex hrecord
    (List.Subset.trans (List.take_subset _ _) (List.filter_subset_self _)) hquery,
    hsorted.insertionSort_eq]
  show [] ++ Select.fresh s.ordered [] filter.selector = _ ↔ _
  rw [List.nil_append, Select.fresh_nil]
  show (s.ordered.filter filter.accepts).take filter.selector.limit = _ ↔ _
  rw [h.take_ordered_eq_iff]
  refine forall_congr' fun x => ?_
  rw [mem_values_iff]
  refine imp_congr_right fun hx => ?_
  rw [ne_comm, h.planned_ne_accepts_iff hindex hrecord filter hx]

end Mirrors

/-- Two stores that hold the same events, with tags that can be indexed, answer a list of filters
alike if each filter can be asked in its turn, and only if what each filter adds comes after what was
returned before.  When no filter misreads a stored event and only filters with full ids and authors
have limits, they do exactly if that holds and what each filter adds is what one of the filters
returns alone; one filter they answer alike exactly if it reaches its limit before the first event
that it misreads. -/
theorem reads_agree {tenantId : String} {s : MemoryStoreState} {events : Events}
    (h : Mirrors tenantId s events) (hindex : s.Indexed) :
    (∀ filters : List Filter, s.EachTurn (fun taken filter => filter.Turn s taken) filters →
      ReadsAgree tenantId s events filters) ∧
    (∀ filters : List Filter, ReadsAgree tenantId s events filters →
      s.EachTurn (fun taken filter => ∀ x ∈ taken, ∀ y ∈ filter.adds s taken,
        RepositoryStore.before x y) filters) ∧
    (∀ filters : List Filter, (∀ filter ∈ filters, filter.Clear s) →
      (ReadsAgree tenantId s events filters ↔ s.EachTurn (fun taken filter =>
        (∀ x ∈ taken, ∀ y ∈ filter.adds s taken, RepositoryStore.before x y) ∧
          ∀ y ∈ filter.adds s taken, ∃ other ∈ filters, y ∈ other.first s) filters)) ∧
    ∀ filter : Filter, ReadsAgree tenantId s events [filter] ↔
      ∀ x ∈ s.events.values, filter.Misreads x →
        filter.selector.limit ≤ s.ahead filter.accepts x :=
  ⟨fun _ hturns => h.readsAgree_of_turns hindex hturns,
    fun _ hagree => h.ordered_of_readsAgree hindex hagree,
    fun _ hclear => h.readsAgree_clear_iff hindex hclear,
    fun filter => h.readsAgree_singleton_iff hindex filter⟩

namespace Stores

/-- The record of the text note. -/
def noteRecord : EventRecord where
  tenantId := "default"
  id := List.replicate 32 0xaa
  pubkey := List.replicate 32 0x11
  createdAt := 1
  kind := 1
  content := ""
  sig := List.replicate 64 0
  tags := []

/-- A memory store with the text note. -/
def noteState : MemoryStoreState := empty.memory.state.put textNote

/-- A table with the record of the text note. -/
def noteTable : Events := empty.table.insertEvent noteRecord

theorem mirrors_note : Mirrors "default" noteState noteTable := by
  have hrecord : eventToRecord textNote "default" = .ok noteRecord := by decide +kernel
  exact (mirrors_empty "default").put (storable_authored 1 1 (by decide +kernel) (by simp))
    (eventToRecord_eq_ok.1 hrecord) (by simp [empty, MemoryStore.new])

theorem eq_of_get_noteState {k : String} {x : NostrEvent} (h : noteState.events[k]? = some x) :
    x = textNote := by
  unfold noteState at h
  rw [MemoryStoreState.get_put] at h
  split_ifs at h
  · exact (Option.some.inj h).symm
  · simp [empty, MemoryStore.new] at h

theorem indexed_noteState : noteState.Indexed := by
  intro k x hx tag htag
  rw [eq_of_get_noteState hx] at htag
  cases htag

/-- A reaction and a later note. -/
def reaction : NostrEvent :=
  authored "cccccccccccccccccccccccccccccccccccccccccccccccccccccccccccccccc" 3 7 []

def laterNote : NostrEvent :=
  authored "dddddddddddddddddddddddddddddddddddddddddddddddddddddddddddddddd" 5 1 []

def reactionRecord : EventRecord :=
  { noteRecord with id := List.replicate 32 0xcc, createdAt := 3, kind := 7 }

def laterRecord : EventRecord :=
  { noteRecord with id := List.replicate 32 0xdd, createdAt := 5 }

/-- Both stores with the two notes and the reaction. -/
def mixedState : MemoryStoreState := (noteState.put reaction).put laterNote

def mixedTable : Events := (noteTable.insertEvent reactionRecord).insertEvent laterRecord

theorem mirrors_mixed : Mirrors "default" mixedState mixedTable := by
  have hreaction : eventToRecord reaction "default" = .ok reactionRecord := by decide +kernel
  have hlater : eventToRecord laterNote "default" = .ok laterRecord := by decide +kernel
  have hboth := mirrors_note.put (storable_authored 3 7 (by decide +kernel) (by simp))
    (eventToRecord_eq_ok.1 hreaction) (by decide +kernel)
  exact hboth.put (storable_authored 5 1 (by decide +kernel) (by simp))
    (eventToRecord_eq_ok.1 hlater) (by decide +kernel)

theorem tags_mixed : ∀ x ∈ mixedState.events.values, x.tags = [] := by decide +kernel

theorem indexed_mixed : mixedState.Indexed := by
  intro k x hx tag htag
  rw [tags_mixed x (Map.mem_values.2 ⟨k, hx⟩)] at htag
  cases htag

theorem not_misreads_mixed {filter : Filter} (hplain : filter.Plain) :
    ∀ x ∈ mixedState.events.values, ¬ filter.Misreads x := by
  intro x hx
  obtain ⟨k, hk⟩ := Map.mem_values.1 hx
  refine hplain.not_misreads (indexed_mixed k x hk) ?_
  rw [Filter.NamesTrimmed, tags_mixed x hx]
  intro tag htag
  cases htag

/-- The latest note. -/
def oneNote : Filter := { kinds := [1], limit := some 1 }

/-- The latest reactions. -/
def reactions : Filter := { kinds := [7], limit := some 20 }

/-- The two filters are asked in turn, though the second accepts an event that comes before an older
note. -/
theorem reads_agree_mixed : Mirrors "default" mixedState mixedTable ∧ mixedState.Indexed ∧
    ReadsAgree "default" mixedState mixedTable [oneNote, reactions] := by
  have hone : oneNote.Plain := ⟨by simp [oneNote], by simp [oneNote], by simp [oneNote]⟩
  have hreactions : reactions.Plain :=
    ⟨by simp [reactions], by simp [reactions], by simp [reactions]⟩
  refine ⟨mirrors_mixed, indexed_mixed,
    (reads_agree mirrors_mixed indexed_mixed).1 [oneNote, reactions] ⟨?_, ?_, trivial⟩⟩
  · refine ⟨by simp, fun _ => ?_, ?_, ?_⟩
    · decide +kernel
    · exact fun _ x hx hmis => absurd hmis (not_misreads_mixed hone x hx)
    · exact fun _ x hx _ hmis => absurd hmis (not_misreads_mixed hone x hx)
  · refine ⟨?_, fun _ => ?_, ?_, ?_⟩
    · decide +kernel
    · decide +kernel
    · exact fun _ x hx hmis => absurd hmis (not_misreads_mixed hreactions x hx)
    · exact fun _ x hx _ hmis => absurd hmis (not_misreads_mixed hreactions x hx)

/-- A filter that asks for a tag and names no value. -/
def noValues : Filter := { tags := (∅ : Map (List String)).insert "e" [] }

/-- No event matches a tag condition without values, but its plan has no tag condition at all. -/
theorem not_reads_agree : ¬ ∀ (tenantId : String) (s : MemoryStoreState) (events : Events),
    Mirrors tenantId s events → s.Indexed →
      ∀ filters : List Filter, ReadsAgree tenantId s events filters := by
  intro h
  obtain ⟨found, found', hmemory, hrepo, hids, -⟩ :=
    h "default" noteState noteTable mirrors_note indexed_noteState [noValues]
  have hnone : (noteState.query [noValues]).toOption.map (List.map NostrEvent.id) = some [] := by
    decide +kernel
  have hnote : (RepositoryStore.query "default" noteTable [noValues]).toOption.map
      (List.map NostrEvent.id) = some [textNote.id] := by
    decide +kernel
  rw [hmemory] at hnone
  rw [hrepo] at hnote
  have hids' := (Option.some.inj hnone).symm.trans (hids.trans (Option.some.inj hnote))
  cases hids'

end Stores
end Gittree
