import Gittree.Lib.Map
import Gittree.Storage.Error
import Mathlib.Data.List.Sort

/-!
# The event table

`crates/storage/src/event.rs` and the `EventRepository` of `InMemoryRepositories`.  A record holds
the tags of its event flattened to pairs of a name and a value; the table is keyed by the encoded
event id alone, while every operation compares the tenant of the record it finds.

The in-memory operations fail only on a poisoned lock, which no run produces, so they are total
here.
-/

namespace Gittree

open Rust

/-- `TagRecord`. -/
structure TagRecord where
  name : String
  value : String
  deriving DecidableEq, Repr

/-- `EventRecord`. -/
structure EventRecord where
  tenantId : String
  id : List UInt8
  pubkey : List UInt8
  createdAt : ℤ
  kind : ℕ
  content : String
  sig : List UInt8
  tags : List TagRecord
  deriving DecidableEq, Repr

/-- `EventQuery`. -/
structure EventQuery where
  tenantId : Option String := none
  ids : List String := []
  authors : List String := []
  kinds : List ℕ := []
  since : Option ℤ := none
  «until» : Option ℤ := none
  tags : List TagRecord := []
  limit : Option ℕ := none

/-- The inner loop of `flatten_tags`. -/
def flattenValues (name : String) : List String → Except StorageError (List TagRecord)
  | [] => .ok []
  | value :: rest => do
    Result.ensure (value ≠ "") (.invalidField "tags" "empty tag value")
    let records ← flattenValues name rest
    return ⟨name, value⟩ :: records

/-- `flatten_tags`. -/
def flattenTags : List (List String) → Except StorageError (List TagRecord)
  | [] => .ok []
  | [] :: _ => .error (.invalidField "tags" "empty tag")
  | (name :: values) :: rest => do
    Result.ensure (name ≠ "") (.invalidField "tags" "empty tag name")
    let records ← flattenValues name values
    let others ← flattenTags rest
    return records ++ others

/-- `EventRecord::new`. -/
def EventRecord.new (tenantId id pubkey : String) (createdAt : ℤ) (kind : ℕ)
    (content sig : String) (tags : List (List String)) : Except StorageError EventRecord := do
  let tags ← flattenTags tags
  Result.ensure (Str.trim tenantId ≠ "") (.invalidField "tenant_id" tenantId)
  let id ← decodeHex "id" id 64
  let pubkey ← decodeHex "pubkey" pubkey 64
  let sig ← decodeHex "sig" sig 128
  return { tenantId, id, pubkey, createdAt, kind, content, sig, tags }

/-- The records of one tag. -/
def tagRecords : List String → List TagRecord
  | [] => []
  | name :: values => values.map fun value => ⟨name, value⟩

/-- The tags that `flatten_tags` accepts: a name, and no empty text. -/
def FlatTag : List String → Prop
  | [] => False
  | name :: values => name ≠ "" ∧ ∀ value ∈ values, value ≠ ""

theorem flattenValues_eq_ok {name : String} {values : List String} {records : List TagRecord} :
    flattenValues name values = .ok records ↔
      (∀ value ∈ values, value ≠ "") ∧ values.map (fun value => ⟨name, value⟩) = records := by
  induction values generalizing records with
  | nil => simp [flattenValues]
  | cons value rest ih =>
    simp only [flattenValues, Result.bind_eq_ok, Result.ensure_eq_ok, Result.pure_eq_ok,
      exists_const, ih, List.forall_mem_cons, List.map_cons]
    constructor
    · rintro ⟨hv, others, ⟨hr, rfl⟩, rfl⟩
      exact ⟨⟨hv, hr⟩, rfl⟩
    · rintro ⟨⟨hv, hr⟩, rfl⟩
      exact ⟨hv, _, ⟨hr, rfl⟩, rfl⟩

/-- The tags that are flattened, and to what. -/
theorem flattenTags_eq_ok {tags : List (List String)} {records : List TagRecord} :
    flattenTags tags = .ok records ↔
      (∀ tag ∈ tags, FlatTag tag) ∧ tags.flatMap tagRecords = records := by
  induction tags generalizing records with
  | nil => simp [flattenTags]
  | cons tag rest ih =>
    cases tag with
    | nil => simp [flattenTags, FlatTag]
    | cons name values =>
      simp only [flattenTags, Result.bind_eq_ok, Result.ensure_eq_ok, Result.pure_eq_ok,
        exists_const, flattenValues_eq_ok, ih, List.forall_mem_cons, List.flatMap_cons, FlatTag,
        tagRecords]
      constructor
      · rintro ⟨hn, _, ⟨hv, rfl⟩, _, ⟨hr, rfl⟩, rfl⟩
        exact ⟨⟨⟨hn, hv⟩, hr⟩, rfl⟩
      · rintro ⟨⟨⟨hn, hv⟩, hr⟩, rfl⟩
        exact ⟨hn, _, ⟨hv, rfl⟩, _, ⟨hr, rfl⟩, rfl⟩

/-! ### The table -/

/-- `event_key`. -/
def eventKey (eventId : List UInt8) : String := Hex.encode eventId

/-- The events of `InMemoryRepositories`, each under its own key. -/
structure Events where
  table : Map EventRecord
  keyed : ∀ (k : String) (record : EventRecord), table[k]? = some record → k = eventKey record.id

namespace Events

instance : EmptyCollection Events := ⟨⟨∅, by simp⟩⟩

@[simp] theorem table_empty : (∅ : Events).table = ∅ := rfl

/-- `insert_event`. -/
def insertEvent (events : Events) (record : EventRecord) : Events where
  table := events.table.orInsert (eventKey record.id) record
  keyed := by
    intro k found h
    rw [Map.get_orInsert] at h
    split_ifs at h with hk
    · cases hold : events.table[eventKey record.id]? with
      | none =>
        rw [hold] at h
        cases h
        exact hk.symm
      | some old =>
        rw [hold] at h
        cases h
        rw [← hk]
        exact events.keyed _ _ hold
    · exact events.keyed _ _ h

/-- Removal of one key. -/
def erase (events : Events) (key : String) : Events where
  table := events.table.erase key
  keyed := by
    intro k found h
    rw [Map.get_erase] at h
    split_ifs at h
    exact events.keyed _ _ h

/-- `get_event`. -/
def getEvent (events : Events) (tenantId : String) (eventId : List UInt8) : Option EventRecord :=
  events.table[eventKey eventId]?.filter fun record => record.tenantId == tenantId

/-- `delete_event`, with the answer whether a record was removed. -/
def deleteEvent (events : Events) (tenantId : String) (eventId : List UInt8) : Bool × Events :=
  match events.table[eventKey eventId]? with
  | some record =>
    if record.tenantId = tenantId then (true, events.erase (eventKey eventId)) else (false, events)
  | none => (false, events)

/-- Whether one of the hexadecimal texts stands for the bytes. -/
def hexListed (texts : List String) (bytes : List UInt8) : Bool :=
  texts.any fun text => Hex.decode text == some bytes

/-- Tag records as entries to be grouped by name. -/
def tagEntries (tags : List TagRecord) : List (String × String) :=
  tags.map fun tag => (tag.name, tag.value)

/-- The tag condition of `query_events`: every wanted name occurs with a wanted value. -/
def tagsMatch (wanted tags : List TagRecord) : Bool :=
  (Map.group (tagEntries wanted)).toList.all fun entry =>
    match (Map.group (tagEntries tags))[entry.1]? with
    | none => false
    | some values => values.any fun value => entry.2.contains value

/-- The filter closure of `query_events`. -/
def matchesQuery (query : EventQuery) (event : EventRecord) : Bool :=
  (query.tenantId.all fun tenantId => event.tenantId == tenantId) &&
    (query.ids.isEmpty || hexListed query.ids event.id) &&
    (query.authors.isEmpty || hexListed query.authors event.pubkey) &&
    (query.kinds.isEmpty || query.kinds.contains event.kind) &&
    (query.since.all fun since => decide (since ≤ event.createdAt)) &&
    (query.until.all fun limit => decide (event.createdAt ≤ limit)) &&
    tagsMatch query.tags event.tags

/-- Newest first, ties by id. -/
def before (left right : EventRecord) : Prop :=
  right.createdAt < left.createdAt ∨ right.createdAt = left.createdAt ∧ left.id ≤ right.id

instance : DecidableRel before := fun _ _ => inferInstanceAs (Decidable (_ ∨ _))

/-- `query_events`. -/
def queryEvents (events : Events) (query : EventQuery) : List EventRecord :=
  let results := (events.table.values.filter (matchesQuery query)).insertionSort before
  match query.limit with
  | some limit => results.take limit
  | none => results

/-! ### The tag condition -/

theorem mem_tagEntries {tags : List TagRecord} {name value : String} :
    (name, value) ∈ tagEntries tags ↔ ⟨name, value⟩ ∈ tags := by
  unfold tagEntries
  rw [List.mem_map]
  constructor
  · rintro ⟨tag, hm, ⟨⟩⟩
    exact hm
  · intro h
    exact ⟨_, h, rfl⟩

/-- Every wanted name occurs among the tags with one of the values wanted under it. -/
theorem tagsMatch_iff {wanted tags : List TagRecord} :
    tagsMatch wanted tags = true ↔ ∀ w ∈ wanted, ∃ tag ∈ tags, tag ∈ wanted ∧ tag.name = w.name := by
  unfold tagsMatch
  rw [List.all_eq_true]
  constructor
  · intro h w hw
    have hne : Map.under (tagEntries wanted) w.name ≠ [] :=
      List.ne_nil_of_mem (Map.mem_under.2 (mem_tagEntries.2 hw))
    have hentry := h _ (Map.mem_toList_group.2 ⟨rfl, hne⟩)
    simp only [Map.get_group] at hentry
    split_ifs at hentry
    obtain ⟨value, hv, hc⟩ := List.any_eq_true.1 hentry
    have hwanted := List.contains_iff_mem.1 hc
    exact ⟨⟨w.name, value⟩, mem_tagEntries.1 (Map.mem_under.1 hv),
      mem_tagEntries.1 (Map.mem_under.1 hwanted), rfl⟩
  · rintro h ⟨name, values⟩ hentry
    obtain ⟨rfl, hne⟩ := Map.mem_toList_group.1 hentry
    obtain ⟨value, hv⟩ := List.exists_mem_of_ne_nil _ hne
    obtain ⟨tag, hm, hw, rfl⟩ := h _ (mem_tagEntries.1 (Map.mem_under.1 hv))
    have hunder : tag.value ∈ Map.under (tagEntries tags) tag.name :=
      Map.mem_under.2 (mem_tagEntries.2 hm)
    simp only [Map.get_group]
    rw [if_neg (List.ne_nil_of_mem hunder)]
    exact List.any_eq_true.2 ⟨tag.value, hunder,
      List.contains_iff_mem.2 (Map.mem_under.2 (mem_tagEntries.2 hw))⟩

/-! ### What the operations do to the table -/

/-- Every record of the first table is in the second, under the same key. -/
def Within (events' events : Events) : Prop :=
  ∀ (k : String) (record : EventRecord),
    events'.table[k]? = some record → events.table[k]? = some record

theorem Within.refl (events : Events) : Within events events := fun _ _ h => h

theorem Within.trans {a b c : Events} (hab : Within a b) (hbc : Within b c) : Within a c :=
  fun k record h => hbc k record (hab k record h)

theorem Within.of_without {events' events : Events} {P : EventRecord → Prop}
    (h : events.table.Without P events'.table) : Within events' events :=
  fun k record hr => ((h k record).1 hr).1

theorem eventKey_injective {a b : List UInt8} (h : eventKey a = eventKey b) : a = b := by
  have hd := congrArg Hex.decode h
  unfold eventKey at hd
  rwa [Hex.decode_encode, Hex.decode_encode, Option.some.injEq] at hd

/-- A deletion removes the record with the id, if it is the tenant's. -/
theorem without_deleteEvent (events : Events) (tenantId : String) (eventId : List UInt8) :
    events.table.Without (fun record => record.tenantId = tenantId ∧ record.id = eventId)
      (events.deleteEvent tenantId eventId).2.table := by
  unfold deleteEvent
  cases he : events.table[eventKey eventId]? with
  | none =>
    refine fun k record => ⟨fun hr => ⟨hr, ?_⟩, And.left⟩
    rintro ⟨-, rfl⟩
    rw [← events.keyed k record hr, hr] at he
    cases he
  | some found =>
    have hkey : found.id = eventId := (eventKey_injective (events.keyed _ _ he)).symm
    simp only
    split_ifs with htenant
    · intro k record
      show (events.table.erase _)[k]? = some record ↔ _
      rw [Map.get_erase]
      constructor
      · intro hr
        split_ifs at hr with hk
        refine ⟨hr, ?_⟩
        rintro ⟨-, rfl⟩
        exact hk (events.keyed k record hr).symm
      · rintro ⟨hr, hnot⟩
        have hk : eventKey eventId ≠ k := by
          rintro rfl
          rw [he] at hr
          cases hr
          exact hnot ⟨htenant, hkey⟩
        rw [if_neg hk, hr]
    · refine fun k record => ⟨fun hr => ⟨hr, ?_⟩, And.left⟩
      rintro ⟨ht, rfl⟩
      rw [← events.keyed k record hr, hr] at he
      cases he
      exact htenant ht

theorem getEvent_eq_some {events : Events} {tenantId : String} {eventId : List UInt8}
    {record : EventRecord} :
    events.getEvent tenantId eventId = some record ↔
      events.table[eventKey eventId]? = some record ∧ record.tenantId = tenantId := by
  unfold getEvent
  rw [Option.filter_eq_some_iff]
  simp

/-- An inserted record is stored unless its key was taken. -/
theorem get_insertEvent (events : Events) (record : EventRecord) (k : String) :
    (events.insertEvent record).table[k]? =
      if eventKey record.id = k then some (events.table[eventKey record.id]?.getD record)
      else events.table[k]? :=
  Map.get_orInsert _ _ _ _

/-- A query answers stored records that match it. -/
theorem mem_queryEvents {events : Events} {query : EventQuery} {record : EventRecord}
    (h : record ∈ events.queryEvents query) :
    events.table[eventKey record.id]? = some record ∧ matchesQuery query record = true := by
  have hsort : record ∈ (events.table.values.filter (matchesQuery query)).insertionSort before := by
    unfold queryEvents at h
    cases hl : query.limit with
    | none => simpa only [hl] using h
    | some limit =>
      simp only [hl] at h
      exact List.mem_of_mem_take h
  rw [List.mem_insertionSort, List.mem_filter, Map.mem_values] at hsort
  obtain ⟨⟨k, hk⟩, hm⟩ := hsort
  exact ⟨events.keyed k record hk ▸ hk, hm⟩

/-- Without a limit, a query answers exactly the stored records that match it. -/
theorem mem_queryEvents_iff {events : Events} {query : EventQuery} (hlimit : query.limit = none)
    {record : EventRecord} :
    record ∈ events.queryEvents query ↔
      events.table[eventKey record.id]? = some record ∧ matchesQuery query record = true := by
  refine ⟨mem_queryEvents, ?_⟩
  rintro ⟨hr, hm⟩
  unfold queryEvents
  simp only [hlimit]
  rw [List.mem_insertionSort, List.mem_filter, Map.mem_values]
  exact ⟨⟨_, hr⟩, hm⟩

end Events
end Gittree
