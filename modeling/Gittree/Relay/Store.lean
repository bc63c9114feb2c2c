import Gittree.Relay.Event
import Gittree.Storage.Events

/-!
# The repository store of the relay

`services/relay/src/store.rs`: the keys of replaceable events, and `RepositoryStore`, which keeps
the events of one tenant in the event table of the storage crate.  A store operation that fails
leaves the table as it was.

* `insert_within`: an insertion only removes records, and adds the record of the inserted event;
* `getEvent_of_inserted`, `mem_query`: what `get` and `query` answer;
* `stored_event_intact_iff`: which events come back as they were inserted.
-/

namespace Gittree

open Rust

/-- `StoreOutcome`. -/
inductive StoreOutcome
  | inserted
  | duplicate
  deriving DecidableEq, Repr

/-- `StoreError`. -/
inductive StoreError
  | backend (message : String)
  deriving DecidableEq, Repr

def StoreError.display : StoreError → String
  | .backend message => "store error: " ++ message

/-- `ReplaceableKey`. -/
structure ReplaceableKey where
  kind : ℕ
  pubkey : String
  identifier : Option String
  deriving DecidableEq, Repr

/-- `is_replaceable_kind`. -/
def isReplaceableKind (kind : ℕ) : Bool :=
  kind == 0 || kind == 3 || (decide (10000 ≤ kind) && decide (kind < 20000))

/-- `is_parameterized_replaceable_kind`. -/
def isParameterizedReplaceableKind (kind : ℕ) : Bool :=
  decide (30000 ≤ kind) && decide (kind < 40000)

/-- `collect_tag_values`. -/
def collectTagValues (tags : List (List String)) (name : String) : List String :=
  tags.flatMap fun tag => if tag.head? = some name then tag.tail else []

/-- `replaceable_key`. -/
def replaceableKey (event : NostrEvent) : Option ReplaceableKey :=
  if isReplaceableKind event.kind then some ⟨event.kind, event.pubkey, none⟩
  else if isParameterizedReplaceableKind event.kind then
    (collectTagValues event.tags "d").head?.map fun identifier =>
      ⟨event.kind, event.pubkey, some identifier⟩
  else none

/-- `parse_address`: `kind:pubkey` with an optional third part; further parts are ignored. -/
def parseAddress (value : String) : Option ReplaceableKey :=
  match Str.split value ':' with
  | kindPart :: pubkey :: rest =>
    (Str.parseUnsigned kindPart (2 ^ 32)).map fun kind => ⟨kind, pubkey, rest.head?⟩
  | _ => none

/-- `event_to_record`. -/
def eventToRecord (event : NostrEvent) (tenantId : String) : Except StoreError EventRecord :=
  (EventRecord.new tenantId event.id event.pubkey event.createdAt event.kind event.content
    event.sig event.tags).mapError fun err => .backend err.display

/-- `group_tags`. -/
def groupTags (tags : List TagRecord) : List (List String) :=
  (Map.group (Events.tagEntries tags)).toList.map fun entry => entry.1 :: entry.2

/-- `record_to_event`. -/
def recordToEvent (record : EventRecord) : NostrEvent where
  id := Hex.encode record.id
  pubkey := Hex.encode record.pubkey
  createdAt := record.createdAt
  kind := record.kind
  tags := groupTags record.tags
  content := record.content
  sig := Hex.encode record.sig

/-- `exact_hex_filters`. -/
def exactHexFilters (values : List String) : List String × Bool :=
  if values = [] then ([], false)
  else if values.all fun value => Str.len value == 64 && (Hex.decode value).isSome then
    (values, false)
  else ([], true)

/-- `build_query_plan`: the query, and whether its answers must be filtered again. -/
def buildQueryPlan (filter : Filter) : EventQuery × Bool :=
  let ids := exactHexFilters filter.ids
  let authors := exactHexFilters filter.authors
  let needsPostFilter := ids.2 || authors.2
  ({ tenantId := none
     ids := ids.1
     authors := authors.1
     kinds := filter.kinds
     since := filter.since
     «until» := filter.until
     tags := filter.tags.toList.flatMap fun entry => entry.2.map fun value => ⟨entry.1, value⟩
     limit := if needsPostFilter then none else filter.limit },
    needsPostFilter)

/-- A record that holds an event for a tenant. -/
structure RecordOf (event : NostrEvent) (tenantId : String) (record : EventRecord) : Prop where
  tags : ∀ tag ∈ event.tags, FlatTag tag
  tenant : Str.trim tenantId ≠ ""
  idHex : Str.isHexLen event.id 64 = true
  pubkeyHex : Str.isHexLen event.pubkey 64 = true
  sigHex : Str.isHexLen event.sig 128 = true
  id : Hex.decode event.id = some record.id
  pubkey : Hex.decode event.pubkey = some record.pubkey
  sig : Hex.decode event.sig = some record.sig
  rest : record = { record with
    tenantId := tenantId, createdAt := event.createdAt, kind := event.kind,
    content := event.content, tags := event.tags.flatMap tagRecords }

/-- `event_to_record` makes the record that holds the event. -/
theorem eventToRecord_eq_ok {event : NostrEvent} {tenantId : String} {record : EventRecord} :
    eventToRecord event tenantId = .ok record ↔ RecordOf event tenantId record := by
  unfold eventToRecord EventRecord.new
  simp only [Result.mapError_eq_ok, Result.bind_eq_ok, Result.ensure_eq_ok, Result.pure_eq_ok,
    exists_const, flattenTags_eq_ok, decodeHex_eq_ok]
  constructor
  · rintro ⟨_, ⟨htags, rfl⟩, htenant, id, ⟨hid, hid'⟩, key, ⟨hkey, hkey'⟩, sig, ⟨hsig, hsig'⟩, rfl⟩
    exact ⟨htags, htenant, hid, hkey, hsig, hid', hkey', hsig', rfl⟩
  · rintro ⟨htags, htenant, hid, hkey, hsig, hid', hkey', hsig', hrest⟩
    exact ⟨_, ⟨htags, rfl⟩, htenant, _, ⟨hid, hid'⟩, _, ⟨hkey, hkey'⟩, _, ⟨hsig, hsig'⟩, hrest.symm⟩

namespace RecordOf

variable {event : NostrEvent} {tenantId : String} {record : EventRecord}

theorem tenantId_eq (h : RecordOf event tenantId record) : record.tenantId = tenantId := by
  rw [h.rest]

theorem createdAt_eq (h : RecordOf event tenantId record) : record.createdAt = event.createdAt := by
  rw [h.rest]

theorem kind_eq (h : RecordOf event tenantId record) : record.kind = event.kind := by
  rw [h.rest]

theorem tags_eq (h : RecordOf event tenantId record) :
    record.tags = event.tags.flatMap tagRecords := by
  rw [h.rest]

/-- A record gives back an event in lower case, with the tags regrouped. -/
theorem recordToEvent_eq (h : RecordOf event tenantId record) (hid : Hex.IsLower event.id)
    (hkey : Hex.IsLower event.pubkey) (hsig : Hex.IsLower event.sig) :
    recordToEvent record = { event with tags := groupTags (event.tags.flatMap tagRecords) } := by
  have hid' : Hex.encode record.id = event.id := (Hex.encode_of_decode h.id).trans hid
  have hkey' : Hex.encode record.pubkey = event.pubkey := (Hex.encode_of_decode h.pubkey).trans hkey
  have hsig' : Hex.encode record.sig = event.sig := (Hex.encode_of_decode h.sig).trans hsig
  unfold recordToEvent
  rw [hid', hkey', hsig', h.rest]

end RecordOf

namespace RepositoryStore

/-- The query for the records of a replaceable key. -/
def keyQuery (tenantId : String) (key : ReplaceableKey) : EventQuery where
  tenantId := some tenantId
  kinds := [key.kind]
  authors := [key.pubkey]
  tags := key.identifier.toList.map fun identifier => ⟨"d", identifier⟩

/-- The deletion of the records of a list. -/
def deleteAll (tenantId : String) (events : Events) (records : List EventRecord) : Events :=
  records.foldl (fun events record => (events.deleteEvent tenantId record.id).2) events

/-- The treatment of one `e` value in `apply_delete_repo`. -/
def deleteTarget (tenantId : String) (author : List UInt8) (createdAt : ℤ) (events : Events)
    (target : String) : Events :=
  match (Hex.decode target).bind fun bytes => events.getEvent tenantId bytes with
  | some record =>
    if record.pubkey = author ∧ record.createdAt ≤ createdAt then
      (events.deleteEvent tenantId record.id).2
    else events
  | none => events

/-- The treatment of one `a` value in `apply_delete_repo`. -/
def deleteAddress (tenantId : String) (event : NostrEvent) (events : Events) (address : String) :
    Events :=
  match parseAddress address with
  | some key =>
    if key.pubkey = event.pubkey then
      deleteAll tenantId events
        ((events.queryEvents (keyQuery tenantId key)).filter fun record =>
          record.createdAt ≤ event.createdAt)
    else events
  | none => events

/-- `apply_delete_repo`. -/
def applyDeleteRepo (tenantId : String) (events : Events) (event : NostrEvent) :
    Except StoreError Events := do
  let author ← Result.okOr (Hex.decode event.pubkey) (.backend "invalid pubkey")
  let events := (collectTagValues event.tags "e").foldl
    (deleteTarget tenantId author event.createdAt) events
  return (collectTagValues event.tags "a").foldl (deleteAddress tenantId event) events

/-- The test of `apply_replaceable_repo`: a stored record of the key is not older. -/
def superseded (tenantId : String) (events : Events) (event : NostrEvent) (key : ReplaceableKey) :
    Bool :=
  (events.queryEvents (keyQuery tenantId key)).any fun record => event.createdAt ≤ record.createdAt

/-- `apply_replaceable_repo`. -/
def applyReplaceableRepo (tenantId : String) (events : Events) (event : NostrEvent)
    (key : ReplaceableKey) : Bool × Events :=
  if superseded tenantId events event key then (true, events)
  else (false, deleteAll tenantId events (events.queryEvents (keyQuery tenantId key)))

/-- The end of `insert`: replaceable events, and the insertion itself. -/
def insertRecord (tenantId : String) (events : Events) (event : NostrEvent)
    (record : EventRecord) : StoreOutcome × Events :=
  match replaceableKey event with
  | none => (.inserted, events.insertEvent record)
  | some key =>
    match applyReplaceableRepo tenantId events event key with
    | (true, events) => (.duplicate, events)
    | (false, events) => (.inserted, events.insertEvent record)

/-- `insert`. -/
def insert (tenantId : String) (events : Events) (event : NostrEvent) :
    Except StoreError (StoreOutcome × Events) := do
  let record ← eventToRecord event tenantId
  if (events.getEvent tenantId record.id).isSome then return (.duplicate, events)
  if event.kind = 5 then
    let events ← applyDeleteRepo tenantId events event
    return insertRecord tenantId events event record
  return insertRecord tenantId events event record

/-- `get`. -/
def get (tenantId : String) (events : Events) (id : String) :
    Except StoreError (Option NostrEvent) := do
  let bytes ← Result.okOr (Hex.decode id) (.backend "invalid event id")
  return (events.getEvent tenantId bytes).map recordToEvent

/-- `delete`. -/
def delete (tenantId : String) (events : Events) (id : String) :
    Except StoreError (Bool × Events) := do
  let bytes ← Result.okOr (Hex.decode id) (.backend "invalid event id")
  return events.deleteEvent tenantId bytes

/-- The inner loop of `query`; `seen` holds the ids of `results`. -/
def takeRecords (filter : Filter) (needsPostFilter : Bool) :
    ℕ → List NostrEvent → List EventRecord → Except StoreError (List NostrEvent)
  | _, results, [] => .ok results
  | remaining, results, record :: rest =>
    if remaining = 0 then .ok results
    else
      let event := recordToEvent record
      if results.any fun other => other.id == event.id then
        takeRecords filter needsPostFilter remaining results rest
      else if needsPostFilter then
        match TagIndex.fromTags event.tags with
        | .error err => .error (.backend err.display)
        | .ok tags =>
          if filter.matches event tags then
            takeRecords filter needsPostFilter (remaining - 1) (results ++ [event]) rest
          else takeRecords filter needsPostFilter remaining results rest
      else takeRecords filter needsPostFilter (remaining - 1) (results ++ [event]) rest

/-- The outer loop of `query`. -/
def queryFilters (tenantId : String) (events : Events) :
    List NostrEvent → List Filter → Except StoreError (List NostrEvent)
  | results, [] => .ok results
  | results, filter :: rest => do
    let plan := buildQueryPlan filter
    let records := events.queryEvents { plan.1 with tenantId := some tenantId }
    let results ← takeRecords filter plan.2 (filter.limit.getD (2 ^ 64 - 1)) results records
    queryFilters tenantId events results rest

/-- Newest first, ties by id. -/
def before (left right : NostrEvent) : Prop :=
  right.createdAt < left.createdAt ∨ right.createdAt = left.createdAt ∧ left.id ≤ right.id

instance : DecidableRel before := fun _ _ => inferInstanceAs (Decidable (_ ∨ _))

/-- `query`. -/
def query (tenantId : String) (events : Events) (filters : List Filter) :
    Except StoreError (List NostrEvent) :=
  (queryFilters tenantId events [] filters).map fun results => results.insertionSort before

/-! ### What the operations do to the table -/

theorem without_deleteAll (tenantId : String) (events : Events) (records : List EventRecord) :
    events.table.Without
      (fun record => ∃ r ∈ records, record.tenantId = tenantId ∧ record.id = r.id)
      (deleteAll tenantId events records).table :=
  (Map.Without.foldl Events.table (I := fun _ => True)
    (fun events record _ => ⟨trivial, events.without_deleteEvent tenantId record.id⟩)
    records trivial).2

theorem without_deleteTarget (tenantId : String) (author : List UInt8) (createdAt : ℤ)
    (events : Events) (target : String) :
    events.table.Without
      (fun record => record.tenantId = tenantId ∧ Hex.decode target = some record.id ∧
        record.pubkey = author ∧ record.createdAt ≤ createdAt)
      (deleteTarget tenantId author createdAt events target).table := by
  unfold deleteTarget
  cases hb : (Hex.decode target).bind fun bytes => events.getEvent tenantId bytes with
  | none =>
    refine (Map.Without.refl _).congr_of_mem fun k record hr => iff_of_false id ?_
    rintro ⟨ht, hd, -⟩
    have hk := events.keyed k record hr
    rw [hd, Option.bind_some, Events.getEvent_eq_some.2 ⟨hk ▸ hr, ht⟩] at hb
    cases hb
  | some found =>
    obtain ⟨bytes, hd, hget⟩ := Option.bind_eq_some_iff.1 hb
    obtain ⟨hfound, htenant⟩ := Events.getEvent_eq_some.1 hget
    have hid : found.id = bytes := (Events.eventKey_injective (events.keyed _ _ hfound)).symm
    -- the record under the decoded id is the one that was found
    have honly : ∀ (k : String) (record : EventRecord), events.table[k]? = some record →
        Hex.decode target = some record.id → record = found := by
      intro k record hr hdr
      rw [hd, Option.some.injEq] at hdr
      rw [events.keyed k record hr, ← hdr, hfound] at hr
      exact (Option.some.inj hr).symm
    simp only
    split_ifs with hrank
    · refine (events.without_deleteEvent tenantId found.id).congr_of_mem fun k record hr => ?_
      constructor
      · rintro ⟨ht, hrid⟩
        have hdr : Hex.decode target = some record.id := by rw [hrid, hid, hd]
        rw [honly k record hr hdr] at ht ⊢
        exact ⟨ht, by rw [hid, hd], hrank⟩
      · rintro ⟨ht, hdr, -⟩
        exact ⟨ht, by rw [honly k record hr hdr]⟩
    · refine (Map.Without.refl _).congr_of_mem fun k record hr => iff_of_false id ?_
      rintro ⟨-, hdr, hr'⟩
      rw [honly k record hr hdr] at hr'
      exact hrank hr'

/-- The condition of the query for a replaceable key, on one record. -/
def AnswersKey (tenantId : String) (key : ReplaceableKey) (record : EventRecord) : Prop :=
  Events.matchesQuery (keyQuery tenantId key) record = true

theorem AnswersKey.tenant {tenantId : String} {key : ReplaceableKey} {record : EventRecord}
    (h : AnswersKey tenantId key record) : record.tenantId = tenantId := by
  unfold AnswersKey Events.matchesQuery at h
  simp only [keyQuery, Option.all_some, Bool.and_eq_true, beq_iff_eq] at h
  exact h.1.1.1.1.1.1

theorem mem_queryEvents_key {events : Events} {tenantId : String} {key : ReplaceableKey}
    {record : EventRecord} :
    record ∈ events.queryEvents (keyQuery tenantId key) ↔
      events.table[eventKey record.id]? = some record ∧ AnswersKey tenantId key record :=
  Events.mem_queryEvents_iff rfl

/-- The deletion of a selection of the records of a key. -/
theorem without_deleteKey (tenantId : String) (events : Events) (key : ReplaceableKey)
    (p : EventRecord → Bool) :
    events.table.Without (fun record => AnswersKey tenantId key record ∧ p record = true)
      (deleteAll tenantId events ((events.queryEvents (keyQuery tenantId key)).filter p)).table := by
  refine (without_deleteAll tenantId events _).congr_of_mem fun k record hr => ?_
  have hk := events.keyed k record hr
  constructor
  · rintro ⟨r, hm, -, hid⟩
    obtain ⟨hm, hp⟩ := List.mem_filter.1 hm
    obtain ⟨hstored, hans⟩ := mem_queryEvents_key.1 hm
    rw [← hid, ← hk, hr, Option.some.injEq] at hstored
    rw [hstored]
    exact ⟨hans, hp⟩
  · rintro ⟨hans, hp⟩
    exact ⟨record, List.mem_filter.2 ⟨mem_queryEvents_key.2 ⟨hk ▸ hr, hans⟩, hp⟩, hans.tenant, rfl⟩

theorem without_deleteAddress (tenantId : String) (event : NostrEvent) (events : Events)
    (address : String) :
    events.table.Without
      (fun record => ∃ key, parseAddress address = some key ∧ key.pubkey = event.pubkey ∧
        AnswersKey tenantId key record ∧ record.createdAt ≤ event.createdAt)
      (deleteAddress tenantId event events address).table := by
  unfold deleteAddress
  cases hp : parseAddress address with
  | none => exact (Map.Without.refl _).congr (by simp)
  | some key =>
    simp only
    split_ifs with hkey
    · refine (without_deleteKey tenantId events key fun record =>
        decide (record.createdAt ≤ event.createdAt)).congr fun record => ?_
      simp [hkey]
    · exact (Map.Without.refl _).congr (by simp [hkey])

/-- The records that `apply_delete_repo` removes. -/
def DeletesRecord (tenantId : String) (event : NostrEvent) (record : EventRecord) : Prop :=
  record.tenantId = tenantId ∧ record.createdAt ≤ event.createdAt ∧
    ((∃ target ∈ collectTagValues event.tags "e", Hex.decode target = some record.id ∧
        Hex.decode event.pubkey = some record.pubkey) ∨
      ∃ address ∈ collectTagValues event.tags "a", ∃ key, parseAddress address = some key ∧
        key.pubkey = event.pubkey ∧ AnswersKey tenantId key record)

theorem without_applyDeleteRepo {tenantId : String} {events events' : Events} {event : NostrEvent}
    (h : applyDeleteRepo tenantId events event = .ok events') :
    events.table.Without (DeletesRecord tenantId event) events'.table := by
  unfold applyDeleteRepo at h
  simp only [Result.bind_eq_ok, Result.okOr_eq_ok, Result.pure_eq_ok] at h
  obtain ⟨author, hauthor, rfl⟩ := h
  have htargets := (Map.Without.foldl Events.table (I := fun _ => True)
    (fun events target _ => ⟨trivial, without_deleteTarget tenantId author event.createdAt events
      target⟩) (collectTagValues event.tags "e") (s := events) trivial).2
  have haddresses := (Map.Without.foldl Events.table (I := fun _ => True)
    (fun events address _ => ⟨trivial, without_deleteAddress tenantId event events address⟩)
    (collectTagValues event.tags "a")
    (s := (collectTagValues event.tags "e").foldl
      (deleteTarget tenantId author event.createdAt) events) trivial).2
  refine (htargets.trans haddresses).congr fun record => ?_
  unfold DeletesRecord
  constructor
  · rintro (⟨target, hm, ht, hd, rfl, hle⟩ | ⟨address, hm, key, hp, hk, hans, hle⟩)
    · exact ⟨ht, hle, Or.inl ⟨target, hm, hd, hauthor⟩⟩
    · exact ⟨hans.tenant, hle, Or.inr ⟨address, hm, key, hp, hk, hans⟩⟩
  · rintro ⟨ht, hle, ⟨target, hm, hd, ha⟩ | ⟨address, hm, key, hp, hk, hans⟩⟩
    · rw [hauthor, Option.some.injEq] at ha
      exact Or.inl ⟨target, hm, ht, hd, ha.symm, hle⟩
    · exact Or.inr ⟨address, hm, key, hp, hk, hans, hle⟩

theorem without_delete {tenantId : String} {events events' : Events} {id : String} {removed : Bool}
    (h : delete tenantId events id = .ok (removed, events')) :
    events.table.Without
      (fun record => record.tenantId = tenantId ∧ Hex.decode id = some record.id)
      events'.table := by
  unfold delete at h
  simp only [Result.bind_eq_ok, Result.okOr_eq_ok, Result.pure_eq_ok] at h
  obtain ⟨bytes, hd, h⟩ := h
  have hw := events.without_deleteEvent tenantId bytes
  rw [h] at hw
  refine hw.congr fun record => ?_
  rw [hd, Option.some.injEq]
  exact and_congr_right fun _ => eq_comm

theorem superseded_iff {tenantId : String} {events : Events} {event : NostrEvent}
    {key : ReplaceableKey} :
    superseded tenantId events event key = true ↔
      ∃ (k : String) (record : EventRecord), events.table[k]? = some record ∧
        AnswersKey tenantId key record ∧ event.createdAt ≤ record.createdAt := by
  unfold superseded
  rw [List.any_eq_true]
  constructor
  · rintro ⟨record, hm, hle⟩
    obtain ⟨hr, hans⟩ := mem_queryEvents_key.1 hm
    exact ⟨_, record, hr, hans, of_decide_eq_true hle⟩
  · rintro ⟨k, record, hr, hans, hle⟩
    exact ⟨record, mem_queryEvents_key.2 ⟨events.keyed k record hr ▸ hr, hans⟩,
      decide_eq_true hle⟩

/-- The records that an insertion deletes or replaces. -/
def Displaces (tenantId : String) (event : NostrEvent) (record : EventRecord) : Prop :=
  event.kind = 5 ∧ DeletesRecord tenantId event record ∨
    ∃ key, replaceableKey event = some key ∧ AnswersKey tenantId key record

/-- The three ways an insertion can end: the id is taken, a newer event of the same key is stored,
or the record is inserted after the displaced records were removed. -/
inductive Insertion (tenantId : String) (events : Events) (event : NostrEvent)
    (record : EventRecord) : StoreOutcome → Events → Prop
  | stored (found : EventRecord) (hget : events.getEvent tenantId record.id = some found) :
    Insertion tenantId events event record .duplicate events
  | superseded (key : ReplaceableKey) (hget : events.getEvent tenantId record.id = none)
    (hkey : replaceableKey event = some key)
    (hsup : RepositoryStore.superseded tenantId events event key = true) :
    Insertion tenantId events event record .duplicate events
  | added (kept : Events) (hget : events.getEvent tenantId record.id = none)
    (hsup : ∀ key, replaceableKey event = some key →
      RepositoryStore.superseded tenantId events event key = false)
    (hkept : events.table.Without (Displaces tenantId event) kept.table) :
    Insertion tenantId events event record .inserted (kept.insertEvent record)

theorem replaceableKey_of_kind_five {event : NostrEvent} (h : event.kind = 5) :
    replaceableKey event = none := by
  simp [replaceableKey, isReplaceableKind, isParameterizedReplaceableKind, h]

theorem insertion_of_kind_five {tenantId : String} {events kept : Events} {event : NostrEvent}
    {record : EventRecord} (hget : events.getEvent tenantId record.id = none)
    (hkind : event.kind = 5)
    (hkept : events.table.Without (DeletesRecord tenantId event) kept.table) :
    Insertion tenantId events event record (insertRecord tenantId kept event record).1
      (insertRecord tenantId kept event record).2 := by
  have hkey := replaceableKey_of_kind_five hkind
  unfold insertRecord
  rw [hkey]
  refine .added kept hget (by simp [hkey]) (hkept.congr fun r => ?_)
  simp [Displaces, hkind, hkey]

theorem insertion_of_insertRecord {tenantId : String} {events : Events} {event : NostrEvent}
    {record : EventRecord} (hget : events.getEvent tenantId record.id = none)
    (hkind : event.kind ≠ 5) :
    Insertion tenantId events event record (insertRecord tenantId events event record).1
      (insertRecord tenantId events event record).2 := by
  unfold insertRecord
  cases hk : replaceableKey event with
  | none =>
    refine .added events hget (by simp [hk]) ((Map.Without.refl _).congr fun r => ?_)
    simp [Displaces, hkind, hk]
  | some key =>
    unfold applyReplaceableRepo
    cases hs : RepositoryStore.superseded tenantId events event key with
    | true =>
      simp only [hs, if_true]
      exact .superseded key hget hk hs
    | false =>
      simp only [hs, Bool.false_eq_true, if_false]
      have hdel := without_deleteKey tenantId events key fun _ => true
      rw [List.filter_true] at hdel
      refine .added _ hget ?_ (hdel.congr fun r => ?_)
      · rintro key' hk'
        rw [hk, Option.some.injEq] at hk'
        rw [← hk', hs]
      · simp [Displaces, hkind, hk]

/-- An insertion that answers is one of the three. -/
theorem insert_eq_ok {tenantId : String} {events events' : Events} {event : NostrEvent}
    {outcome : StoreOutcome} (h : insert tenantId events event = .ok (outcome, events')) :
    ∃ record, eventToRecord event tenantId = .ok record ∧
      Insertion tenantId events event record outcome events' := by
  unfold insert at h
  obtain ⟨record, hrec, h⟩ := Result.bind_eq_ok.1 h
  refine ⟨record, hrec, ?_⟩
  cases hget : events.getEvent tenantId record.id with
  | some found =>
    simp only [hget, Option.isSome_some, if_true, Result.pure_eq_ok, Prod.mk.injEq] at h
    obtain ⟨rfl, rfl⟩ := h
    exact .stored found hget
  | none =>
    simp only [hget, Option.isSome_none, Bool.false_eq_true, if_false] at h
    split_ifs at h with hkind
    · obtain ⟨kept, hdel, h⟩ := Result.bind_eq_ok.1 h
      rw [Result.pure_eq_ok] at h
      have hins := insertion_of_kind_five hget hkind (without_applyDeleteRepo hdel)
      rwa [h] at hins
    · rw [Result.pure_eq_ok] at h
      have hins := insertion_of_insertRecord hget hkind
      rwa [h] at hins

/-! ### What `get` and `query` answer -/

theorem get_eq_ok {tenantId : String} {events : Events} {id : String} {found : Option NostrEvent} :
    get tenantId events id = .ok found ↔
      ∃ bytes, Hex.decode id = some bytes ∧
        (events.getEvent tenantId bytes).map recordToEvent = found := by
  unfold get
  simp only [Result.bind_eq_ok, Result.okOr_eq_ok, Result.pure_eq_ok]

/-- The inner loop adds events of the records it is given. -/
theorem mem_takeRecords {filter : Filter} {post : Bool} {records : List EventRecord} {n : ℕ}
    {results results' : List NostrEvent}
    (h : takeRecords filter post n results records = .ok results') :
    ∀ x ∈ results', x ∈ results ∨ ∃ record ∈ records, x = recordToEvent record := by
  induction records generalizing n results with
  | nil =>
    cases h
    exact fun x hx => Or.inl hx
  | cons record rest ih =>
    -- every branch either stops, skips the record or appends it
    have skip : ∀ m, takeRecords filter post m results rest = .ok results' →
        ∀ x ∈ results', x ∈ results ∨ ∃ r ∈ record :: rest, x = recordToEvent r := by
      intro m hm x hx
      rcases ih hm x hx with hx | ⟨r, hr, rfl⟩
      · exact Or.inl hx
      · exact Or.inr ⟨r, List.mem_cons_of_mem _ hr, rfl⟩
    have keep : ∀ m, takeRecords filter post m (results ++ [recordToEvent record]) rest =
        .ok results' →
        ∀ x ∈ results', x ∈ results ∨ ∃ r ∈ record :: rest, x = recordToEvent r := by
      intro m hm x hx
      rcases ih hm x hx with hx | ⟨r, hr, rfl⟩
      · rcases List.mem_append.1 hx with hx | hx
        · exact Or.inl hx
        · exact Or.inr ⟨record, List.mem_cons_self, List.mem_singleton.1 hx⟩
      · exact Or.inr ⟨r, List.mem_cons_of_mem _ hr, rfl⟩
    simp only [takeRecords] at h
    split_ifs at h
    · cases h
      exact fun x hx => Or.inl hx
    · exact skip _ h
    · split at h
      · cases h
      · split_ifs at h
        · exact keep _ h
        · exact skip _ h
    · exact keep _ h

theorem mem_queryFilters {tenantId : String} {events : Events} {filters : List Filter}
    {results results' : List NostrEvent}
    (h : queryFilters tenantId events results filters = .ok results') :
    ∀ x ∈ results', x ∈ results ∨ ∃ record : EventRecord,
      events.table[eventKey record.id]? = some record ∧ record.tenantId = tenantId ∧
        x = recordToEvent record := by
  induction filters generalizing results with
  | nil =>
    cases h
    exact fun x hx => Or.inl hx
  | cons filter rest ih =>
    rw [queryFilters] at h
    obtain ⟨mid, hmid, h⟩ := Result.bind_eq_ok.1 h
    intro x hx
    rcases ih h x hx with hx | hx
    · rcases mem_takeRecords hmid x hx with hx | ⟨record, hr, rfl⟩
      · exact Or.inl hx
      · obtain ⟨htab, hm⟩ := Events.mem_queryEvents hr
        refine Or.inr ⟨record, htab, ?_, rfl⟩
        unfold Events.matchesQuery at hm
        simp only [Option.all_some, Bool.and_eq_true, beq_iff_eq] at hm
        exact hm.1.1.1.1.1.1
    · exact Or.inr hx

/-- A query answers events of records of the tenant. -/
theorem mem_query {tenantId : String} {events : Events} {filters : List Filter}
    {results : List NostrEvent} (h : query tenantId events filters = .ok results)
    {x : NostrEvent} (hx : x ∈ results) :
    ∃ record : EventRecord, events.table[eventKey record.id]? = some record ∧
      record.tenantId = tenantId ∧ x = recordToEvent record := by
  unfold query at h
  cases hq : queryFilters tenantId events [] filters with
  | error err =>
    rw [hq] at h
    cases h
  | ok found =>
    rw [hq] at h
    cases h
    rw [List.mem_insertionSort] at hx
    exact (mem_queryFilters hq x hx).resolve_left List.not_mem_nil

end RepositoryStore
end Gittree
