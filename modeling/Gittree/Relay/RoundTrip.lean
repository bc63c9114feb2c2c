import Gittree.Relay.Store

/-!
# Which events come back from the store

The store flattens the tags of an event to pairs and groups them by name when it reads them back.
So an event comes back as it was inserted exactly when its tags already are such groups: the names
strictly increase, and every tag has a value.

* `groupTags_flatMap`: regrouping is the identity on those tags only;
* `recordToEvent_eq_iff`: the same for the record of an event;
* `stored_event_intact_iff`: the same through `insert`, `get` and `query`.
-/

namespace Gittree

open Rust

/-- Tags that are groups: the names strictly increase, and every tag has a value. -/
structure Grouped (tags : List (List String)) : Prop where
  names : tags.Pairwise fun a b => a.headD "" < b.headD ""
  values : ∀ tag ∈ tags, 2 ≤ tag.length

instance (tags : List (List String)) : Decidable (Grouped tags) :=
  decidable_of_iff ((tags.Pairwise fun a b => a.headD "" < b.headD "") ∧
    ∀ tag ∈ tags, 2 ≤ tag.length) ⟨fun h => ⟨h.1, h.2⟩, fun h => ⟨h.1, h.2⟩⟩

/-- What `group_tags` answers is grouped. -/
theorem grouped_groupTags (records : List TagRecord) : Grouped (groupTags records) := by
  constructor
  · unfold groupTags
    rw [List.pairwise_map]
    exact Map.pairwise_lt_toList _
  · intro tag ht
    obtain ⟨⟨name, values⟩, he, rfl⟩ := List.mem_map.1 ht
    have hget := Std.ExtTreeMap.mem_toList_iff_getElem?_eq_some.1 he
    rw [Map.get_group] at hget
    split_ifs at hget with hne
    cases hget
    exact Nat.succ_le_succ (List.length_pos_iff.2 hne)

theorem under_append {entries others : List (String × String)} (k : String) :
    Map.under (entries ++ others) k = Map.under entries k ++ Map.under others k := by
  simp [Map.under]

theorem under_tagRecords (name : String) (values : List String) (k : String) :
    Map.under (Events.tagEntries (tagRecords (name :: values))) k =
      if name = k then values else [] := by
  induction values with
  | nil => simp [Map.under, tagRecords, Events.tagEntries]
  | cons value rest ih =>
    have hcons : Events.tagEntries (tagRecords (name :: value :: rest)) =
        [(name, value)] ++ Events.tagEntries (tagRecords (name :: rest)) := rfl
    rw [hcons, under_append, ih]
    split_ifs with hk <;> simp [Map.under, hk]

/-- In grouped tags the values under a name are those of the one tag that has it. -/
theorem under_of_grouped {tags : List (List String)} (h : Grouped tags) (k : String)
    (values : List String) :
    (Map.under (Events.tagEntries (tags.flatMap tagRecords)) k = values ∧ values ≠ []) ↔
      (k, values) ∈ tags.map fun tag => (tag.headD "", tag.tail) := by
  induction tags generalizing values with
  | nil =>
    simp only [List.flatMap_nil, List.map_nil, List.not_mem_nil, iff_false]
    rintro ⟨hu, hne⟩
    exact hne hu.symm
  | cons tag rest ih =>
    have hrest : Grouped rest :=
      ⟨(List.pairwise_cons.1 h.names).2, fun t ht => h.values t (List.mem_cons_of_mem _ ht)⟩
    have hlen := h.values tag List.mem_cons_self
    cases tag with
    | nil => simp at hlen
    | cons name vs =>
      have hvs : vs ≠ [] := by
        rintro rfl
        simp at hlen
      have hsplit : Events.tagEntries (((name :: vs) :: rest).flatMap tagRecords) =
          Events.tagEntries (tagRecords (name :: vs)) ++
            Events.tagEntries (rest.flatMap tagRecords) := by
        simp [Events.tagEntries]
      rw [hsplit, under_append, under_tagRecords, List.map_cons, List.mem_cons, ← ih hrest]
      by_cases hk : name = k
      · -- no later tag has this name
        have hnone : Map.under (Events.tagEntries (rest.flatMap tagRecords)) k = [] := by
          by_contra hne
          obtain ⟨t, ht, he⟩ := List.mem_map.1 ((ih hrest _).1 ⟨rfl, hne⟩)
          have hlt := (List.pairwise_cons.1 h.names).1 t ht
          rw [(Prod.mk.inj he).1, ← hk] at hlt
          exact lt_irrefl _ hlt
        rw [if_pos hk, hnone, List.append_nil]
        constructor
        · rintro ⟨rfl, -⟩
          exact Or.inl (by simp [hk])
        · rintro (he | ⟨rfl, hne⟩)
          · cases he
            exact ⟨rfl, hvs⟩
          · exact absurd rfl hne
      · rw [if_neg hk, List.nil_append]
        constructor
        · exact Or.inr
        · rintro (he | he)
          · cases he
            exact absurd rfl hk
          · exact he

/-- Flattening and regrouping is the identity on grouped tags only. -/
theorem groupTags_flatMap (tags : List (List String)) :
    groupTags (tags.flatMap tagRecords) = tags ↔ Grouped tags := by
  constructor
  · intro h
    rw [← h]
    exact grouped_groupTags _
  · intro h
    have hlist : (Map.group (Events.tagEntries (tags.flatMap tagRecords))).toList =
        tags.map fun tag => (tag.headD "", tag.tail) := by
      apply Map.toList_eq_of_sorted
      · rw [List.pairwise_map]
        exact h.names
      · intro k values
        rw [Map.get_group, ← under_of_grouped h]
        split_ifs with hne
        · simp only [false_iff, not_and, not_not]
          rintro rfl
          exact hne
        · rw [Option.some.injEq]
          constructor
          · rintro rfl
            exact ⟨rfl, hne⟩
          · exact And.left
    unfold groupTags
    rw [hlist, List.map_map]
    conv_rhs => rw [← List.map_id tags]
    apply List.map_congr_left
    intro tag ht
    cases tag with
    | nil => exact absurd (h.values [] ht) (by simp)
    | cons name values => rfl

theorem collectTagValues_eq_under (tags : List (List String)) (name : String) :
    collectTagValues tags name =
      Map.under (Events.tagEntries (tags.flatMap tagRecords)) name := by
  induction tags with
  | nil => rfl
  | cons tag rest ih =>
    have hsplit : Events.tagEntries ((tag :: rest).flatMap tagRecords) =
        Events.tagEntries (tagRecords tag) ++ Events.tagEntries (rest.flatMap tagRecords) := by
      simp [Events.tagEntries]
    unfold collectTagValues at ih ⊢
    rw [List.flatMap_cons, ih, hsplit, under_append]
    cases tag with
    | nil => rfl
    | cons first values =>
      rw [under_tagRecords]
      simp

/-- Regrouping keeps the values under a name, in order. -/
theorem collectTagValues_groupTags (tags : List (List String)) (name : String) :
    collectTagValues (groupTags (tags.flatMap tagRecords)) name = collectTagValues tags name := by
  rw [collectTagValues_eq_under, collectTagValues_eq_under]
  have hentries : (groupTags (tags.flatMap tagRecords)).map (fun tag => (tag.headD "", tag.tail)) =
      (Map.group (Events.tagEntries (tags.flatMap tagRecords))).toList := by
    unfold groupTags
    rw [List.map_map]
    exact List.map_id _
  -- both sides are the values of the one group of that name
  have hvalues : ∀ values, values ≠ [] →
      (Map.under (Events.tagEntries ((groupTags (tags.flatMap tagRecords)).flatMap tagRecords)) name
        = values ↔ Map.under (Events.tagEntries (tags.flatMap tagRecords)) name = values) := by
    intro values hne
    have hgrouped := under_of_grouped (grouped_groupTags (tags.flatMap tagRecords)) name values
    rw [hentries, Map.mem_toList_group] at hgrouped
    exact ⟨fun h => (hgrouped.1 ⟨h, hne⟩).1, fun h => (hgrouped.2 ⟨h, hne⟩).1⟩
  by_cases hnil : Map.under (Events.tagEntries (tags.flatMap tagRecords)) name = []
  · rw [hnil]
    by_contra hne
    exact hne ((hvalues _ hne).1 rfl ▸ hnil)
  · exact (hvalues _ hnil).2 rfl

/-- A record keeps the replaceable key of its event. -/
theorem RecordOf.replaceableKey_eq {event : NostrEvent} {tenantId : String} {record : EventRecord}
    (h : RecordOf event tenantId record) (hkey : Hex.IsLower event.pubkey) :
    replaceableKey (recordToEvent record) = replaceableKey event := by
  have hpubkey : Hex.encode record.pubkey = event.pubkey :=
    (Hex.encode_of_decode h.pubkey).trans hkey
  unfold replaceableKey recordToEvent
  simp only [hpubkey, h.kind_eq, h.tags_eq, collectTagValues_groupTags]

/-- An event in lower case comes back from its record exactly when its tags are grouped. -/
theorem recordToEvent_eq_iff {event : NostrEvent} {tenantId : String} {record : EventRecord}
    (hr : RecordOf event tenantId record) (hid : Hex.IsLower event.id)
    (hkey : Hex.IsLower event.pubkey) (hsig : Hex.IsLower event.sig) :
    recordToEvent record = event ↔ Grouped event.tags := by
  rw [← groupTags_flatMap, hr.recordToEvent_eq hid hkey hsig]
  constructor
  · intro h
    exact congrArg NostrEvent.tags h
  · intro h
    rw [h]

namespace RepositoryStore

/-! ### Tables of one tenant -/

/-- The tables that the operations of one tenant's store can reach. -/
inductive Reachable (tenantId : String) : Events → Prop
  | empty : Reachable tenantId ∅
  | insert {events events' : Events} {event : NostrEvent} {outcome : StoreOutcome}
    (hr : Reachable tenantId events)
    (hi : RepositoryStore.insert tenantId events event = .ok (outcome, events')) :
    Reachable tenantId events'
  | delete {events events' : Events} {id : String} {removed : Bool}
    (hr : Reachable tenantId events)
    (hd : RepositoryStore.delete tenantId events id = .ok (removed, events')) :
    Reachable tenantId events'

/-- All records belong to the tenant. -/
def OwnedBy (tenantId : String) (events : Events) : Prop :=
  ∀ (k : String) (record : EventRecord), events.table[k]? = some record → record.tenantId = tenantId

theorem OwnedBy.within {tenantId : String} {events events' : Events} (h : OwnedBy tenantId events)
    (hw : events'.Within events) : OwnedBy tenantId events' :=
  fun k record hk => h k record (hw k record hk)

theorem OwnedBy.insertEvent {tenantId : String} {events : Events} (h : OwnedBy tenantId events)
    {record : EventRecord} (hr : record.tenantId = tenantId) :
    OwnedBy tenantId (events.insertEvent record) := by
  intro k found hk
  rw [Events.get_insertEvent] at hk
  split_ifs at hk with hkey
  · cases hold : events.table[eventKey record.id]? with
    | none =>
      rw [hold] at hk
      cases hk
      exact hr
    | some old =>
      rw [hold] at hk
      cases hk
      exact h _ _ hold
  · exact h k found hk

theorem Reachable.ownedBy {tenantId : String} {events : Events} (h : Reachable tenantId events) :
    OwnedBy tenantId events := by
  induction h with
  | empty =>
    intro k record hk
    simp at hk
  | insert hr hi ih =>
    obtain ⟨record, hrec, hins⟩ := insert_eq_ok hi
    cases hins with
    | stored => exact ih
    | superseded => exact ih
    | added kept hget hsup hkept =>
      exact (ih.within (.of_without hkept)).insertEvent (by rw [(eventToRecord_eq_ok.1 hrec).rest])
  | delete hr hd ih => exact ih.within (.of_without (without_delete hd))

/-- In a table of one tenant an inserted event is found under its id. -/
theorem get_of_inserted {tenantId : String} {events events' : Events} {event : NostrEvent}
    (ho : OwnedBy tenantId events)
    (hi : insert tenantId events event = .ok (.inserted, events')) :
    ∃ record, RecordOf event tenantId record ∧
      events'.table[eventKey record.id]? = some record := by
  obtain ⟨record, hrec, hins⟩ := insert_eq_ok hi
  refine ⟨record, eventToRecord_eq_ok.1 hrec, ?_⟩
  cases hins with
  | added kept hget hsup hkept =>
    have hfree : events.table[eventKey record.id]? = none := by
      cases hold : events.table[eventKey record.id]? with
      | none => rfl
      | some old =>
        rw [Events.getEvent_eq_some.2 ⟨hold, ho _ _ hold⟩] at hget
        cases hget
    rw [Events.get_insertEvent, if_pos rfl, hkept.get_eq_none hfree, Option.getD_none]

/-- An event in lower case that a tenant's store inserts comes back intact, through `get` and
through every query that answers its id, exactly when its tags are grouped; and the same holds of
the conversion to a record and back. -/
theorem stored_event_intact_iff (crypto : Crypto) {tenantId : String} {events events' : Events}
    {event : NostrEvent} (hreach : Reachable tenantId events) (hid : Hex.IsLower event.id)
    (hkey : Hex.IsLower event.pubkey) (hsig : Hex.IsLower event.sig)
    (hi : insert tenantId events event = .ok (.inserted, events')) :
    ((get tenantId events' event.id = .ok (some event) ∧
        ∀ filters results, query tenantId events' filters = .ok results →
          ∀ x ∈ results, x.id = event.id →
            x = event ∧ x.computeId crypto = event.computeId crypto) ↔
      Grouped event.tags) ∧
    ∀ record, eventToRecord event tenantId = .ok record →
      (recordToEvent record = event ↔ Grouped event.tags) := by
  obtain ⟨record, hrec, htab⟩ := get_of_inserted hreach.ownedBy hi
  have htenant : record.tenantId = tenantId := by rw [hrec.rest]
  have hget : get tenantId events' event.id = .ok (some (recordToEvent record)) :=
    get_eq_ok.2 ⟨record.id, hrec.id, by
      rw [Events.getEvent_eq_some.2 ⟨htab, htenant⟩, Option.map_some]⟩
  have hback := recordToEvent_eq_iff hrec hid hkey hsig
  refine ⟨⟨?_, ?_⟩, fun record' hrec' => ?_⟩
  · rintro ⟨hsame, -⟩
    rw [hget, Except.ok.injEq, Option.some.injEq] at hsame
    exact hback.1 hsame
  · intro hgrouped
    have heq := hback.2 hgrouped
    refine ⟨by rw [hget, heq], ?_⟩
    intro filters results hq x hx hxid
    -- the record behind the answer has the id of the event, hence its key, hence is its record
    obtain ⟨found, hfound, -, rfl⟩ := mem_query hq hx
    have hkeys : eventKey found.id = eventKey record.id := by
      have : Hex.encode found.id = Hex.encode record.id :=
        (show Hex.encode found.id = event.id from hxid).trans
          (congrArg NostrEvent.id heq).symm
      exact this
    rw [hkeys, htab, Option.some.injEq] at hfound
    rw [← hfound, heq]
    exact ⟨rfl, rfl⟩
  · exact recordToEvent_eq_iff (eventToRecord_eq_ok.1 hrec') hid hkey hsig

/-! ### Two notes with the same tags -/

/-- A note with the given tags. -/
def sampleNote (tags : List (List String)) : NostrEvent where
  id := Hex.encode (List.replicate 32 17)
  pubkey := Hex.encode (List.replicate 32 34)
  createdAt := 1
  kind := 1
  tags := tags
  content := "hello"
  sig := Hex.encode (List.replicate 64 51)

theorem isLower_sampleNote (tags : List (List String)) :
    Hex.IsLower (sampleNote tags).id ∧ Hex.IsLower (sampleNote tags).pubkey ∧
      Hex.IsLower (sampleNote tags).sig :=
  ⟨Hex.isLower_encode _, Hex.isLower_encode _, Hex.isLower_encode _⟩

theorem stored_event_intact_sample :
    ∃ events', insert "default" ∅ (sampleNote [["e", "1"], ["p", "2", "3"]]) =
        .ok (.inserted, events') ∧
      get "default" events' (sampleNote []).id =
        .ok (some (sampleNote [["e", "1"], ["p", "2", "3"]])) := by
  obtain ⟨events', hi⟩ := Result.exists_of_map_fst (x := insert "default" ∅
    (sampleNote [["e", "1"], ["p", "2", "3"]])) (a := .inserted) (by decide +kernel)
  obtain ⟨hid, hkey, hsig⟩ := isLower_sampleNote [["e", "1"], ["p", "2", "3"]]
  have hall := stored_event_intact_iff ⟨fun _ => [], fun _ => true, fun _ => true,
    fun _ _ _ => true, fun _ => true, fun _ _ => []⟩ .empty hid hkey hsig hi
  exact ⟨events', hi, (hall.1.2 (by decide +kernel)).1⟩

/-- Tags out of order, one name twice and a tag without a value: the event that comes back has
other tags and another canonical text. -/
theorem stored_event_regrouped :
    Reachable "default" ∅ ∧
      ((insert "default" ∅ (sampleNote [["p", "2"], ["e", "1"], ["p", "3"], ["-"]])).bind fun r =>
        (get "default" r.2 (sampleNote []).id).map fun found => (r.1, found)) =
        .ok (.inserted, some (sampleNote [["e", "1"], ["p", "2", "3"]])) ∧
      (sampleNote [["e", "1"], ["p", "2", "3"]]).canonicalJson ≠
        (sampleNote [["p", "2"], ["e", "1"], ["p", "3"], ["-"]]).canonicalJson := by
  constructor
  · exact Reachable.empty
  · decide +kernel

end RepositoryStore
end Gittree
