import Gittree.Lib.Runs
import Gittree.Relay.MemoryStore

/-!
# Writing to the two stores

The same operations on a `MemoryStore` and on a `RepositoryStore` of one tenant.  The memory store
finds the event that a new one replaces, or that an address names, in its index; the repository
store asks for the records of the kind and author that carry the identifier among their `d` values.
The two agree as long as every stored event that such a question finds has the key it is about, and
the deletions name events by their ids as they are written.

* `Mirrors`: the two stores hold the same events;
* `mirrors_insert`, `mirrors_delete`: one operation answers the same and keeps them so;
* `writes_agree`: the same for whole runs.
-/

namespace Gittree

open Rust

/-- The events that both stores take as they are: lower-case hexadecimal texts, and tags that can be
flattened. -/
structure NostrEvent.Storable (event : NostrEvent) : Prop where
  idHex : Str.isHexLen event.id 64 = true
  idLower : Hex.IsLower event.id
  pubkeyHex : Str.isHexLen event.pubkey 64 = true
  pubkeyLower : Hex.IsLower event.pubkey
  sigHex : Str.isHexLen event.sig 128 = true
  sigLower : Hex.IsLower event.sig
  tags : ∀ tag ∈ event.tags, FlatTag tag

/-- Two lower-case texts of the same bytes are the same. -/
theorem eq_of_decode_eq {a b : String} {bytes : List UInt8} (ha : Hex.IsLower a)
    (hb : Hex.IsLower b) (hda : Hex.decode a = some bytes) (hdb : Hex.decode b = some bytes) :
    a = b := by
  rw [← ha, ← hb, ← Hex.encode_of_decode hda, ← Hex.encode_of_decode hdb]

namespace NostrEvent.Storable

variable {event : NostrEvent} {tenantId : String}

theorem exists_record (h : event.Storable) (ht : Str.trim tenantId ≠ "") :
    ∃ record, RecordOf event tenantId record := by
  obtain ⟨id, hid, -⟩ := Hex.isHexLen_iff_decode (n := 32).1 h.idHex
  obtain ⟨pubkey, hpubkey, -⟩ := Hex.isHexLen_iff_decode (n := 32).1 h.pubkeyHex
  obtain ⟨sig, hsig, -⟩ := Hex.isHexLen_iff_decode (n := 64).1 h.sigHex
  exact ⟨⟨tenantId, id, pubkey, event.createdAt, event.kind, event.content, sig,
    event.tags.flatMap tagRecords⟩, h.tags, ht, h.idHex, h.pubkeyHex, h.sigHex, hid, hpubkey, hsig,
    rfl⟩

/-- The record of an event is stored under the id of the event. -/
theorem eventKey_eq (h : event.Storable) {record : EventRecord}
    (hr : RecordOf event tenantId record) : eventKey record.id = event.id :=
  (Hex.encode_of_decode hr.id).trans h.idLower

end NostrEvent.Storable

/-- The events that the question for a replaceable key finds: those of the kind and author that
carry the identifier among their `d` values. -/
def NostrEvent.Answers (event : NostrEvent) (key : ReplaceableKey) : Prop :=
  event.kind = key.kind ∧ event.pubkey = key.pubkey ∧
    ∀ identifier ∈ key.identifier, identifier ∈ collectTagValues event.tags "d"

theorem mem_collectTagValues {tags : List (List String)} {name value : String} :
    value ∈ collectTagValues tags name ↔ ⟨name, value⟩ ∈ tags.flatMap tagRecords := by
  unfold collectTagValues
  simp only [List.mem_flatMap]
  refine exists_congr fun tag => and_congr_right fun _ => ?_
  cases tag with
  | nil => simp [tagRecords]
  | cons first values =>
    simp only [tagRecords, List.head?_cons, Option.some.injEq, List.tail_cons, List.mem_map,
      TagRecord.mk.injEq]
    split_ifs with h
    · simp [h]
    · simp [h]

/-- An event has its own key among those it is found under. -/
theorem answers_of_replaceableKey {event : NostrEvent} {key : ReplaceableKey}
    (h : replaceableKey event = some key) : event.Answers key := by
  unfold replaceableKey at h
  split_ifs at h
  · cases h
    exact ⟨rfl, rfl, by simp⟩
  · obtain ⟨identifier, hi, rfl⟩ := Option.map_eq_some_iff.1 h
    refine ⟨rfl, rfl, ?_⟩
    rintro _ ⟨⟩
    exact List.mem_of_mem_head? hi

theorem pubkey_of_replaceableKey {event : NostrEvent} {key : ReplaceableKey}
    (h : replaceableKey event = some key) : key.pubkey = event.pubkey :=
  (answers_of_replaceableKey h).2.1.symm

theorem answersKey_iff {tenantId : String} {key : ReplaceableKey} {event : NostrEvent}
    {record : EventRecord} (he : Hex.IsLower event.pubkey) (hr : RecordOf event tenantId record)
    (hlower : Hex.IsLower key.pubkey) :
    RepositoryStore.AnswersKey tenantId key record ↔ event.Answers key := by
  have hauthor : Hex.decode key.pubkey = some record.pubkey ↔ event.pubkey = key.pubkey := by
    constructor
    · intro hd
      exact eq_of_decode_eq he hlower hr.pubkey hd
    · intro heq
      rw [← heq, hr.pubkey]
  have htags : Events.tagsMatch (key.identifier.toList.map fun identifier => ⟨"d", identifier⟩)
      record.tags = true ↔
        ∀ identifier ∈ key.identifier, identifier ∈ collectTagValues event.tags "d" := by
    rw [Events.tagsMatch_iff, hr.tags_eq]
    cases key.identifier with
    | none => simp
    | some identifier => simp [mem_collectTagValues]
  unfold RepositoryStore.AnswersKey Events.matchesQuery NostrEvent.Answers
  simp only [RepositoryStore.keyQuery, Option.all_some, hr.tenantId_eq, hr.kind_eq, htags,
    Events.hexListed, List.any_cons, List.any_nil, List.isEmpty_cons, List.isEmpty_nil,
    Option.all_none, Bool.and_eq_true, Bool.or_eq_true, beq_iff_eq, Bool.false_eq_true, false_or,
    or_false, and_true, List.contains_iff_mem, List.mem_singleton, hauthor]
  tauto

/-! ### The two stores side by side -/

/-- The memory store and the tenant's table hold the same events. -/
structure Mirrors (tenantId : String) (s : MemoryStoreState) (events : Events) : Prop where
  storable : ∀ (k : String) (x : NostrEvent), s.events[k]? = some x → x.Storable
  left : ∀ (k : String) (x : NostrEvent), s.events[k]? = some x →
    ∃ record, events.table[k]? = some record ∧ RecordOf x tenantId record
  right : ∀ (k : String) (record : EventRecord), events.table[k]? = some record →
    ∃ x, s.events[k]? = some x ∧ RecordOf x tenantId record

namespace Mirrors

variable {tenantId : String} {s s' : MemoryStoreState} {events events' : Events}

/-- Removal by corresponding conditions. -/
theorem without (h : Mirrors tenantId s events) {P : NostrEvent → Prop} {Q : EventRecord → Prop}
    (hs : s.events.Without P s'.events) (he : events.table.Without Q events'.table)
    (hPQ : ∀ (k : String) (x : NostrEvent) (record : EventRecord), s.events[k]? = some x →
      RecordOf x tenantId record → (P x ↔ Q record)) : Mirrors tenantId s' events' := by
  refine ⟨?_, ?_, ?_⟩
  · intro k x hx
    exact h.storable k x ((hs k x).1 hx).1
  · intro k x hx
    obtain ⟨hx, hP⟩ := (hs k x).1 hx
    obtain ⟨record, hr, hof⟩ := h.left k x hx
    exact ⟨record, (he k record).2 ⟨hr, fun hQ => hP ((hPQ k x record hx hof).2 hQ)⟩, hof⟩
  · intro k record hr
    obtain ⟨hr, hQ⟩ := (he k record).1 hr
    obtain ⟨x, hx, hof⟩ := h.right k record hr
    exact ⟨x, (hs k x).2 ⟨hx, fun hP => hQ ((hPQ k x record hx hof).1 hP)⟩, hof⟩

/-- The same event added to both. -/
theorem put (h : Mirrors tenantId s events) {event : NostrEvent} {record : EventRecord}
    (hstore : event.Storable) (hof : RecordOf event tenantId record)
    (hnone : s.events[event.id]? = none) :
    Mirrors tenantId (s.put event) (events.insertEvent record) := by
  have hkey := hstore.eventKey_eq hof
  have hfree : events.table[event.id]? = none := by
    refine Option.eq_none_iff_forall_ne_some.2 fun r hr => ?_
    obtain ⟨x, hx, -⟩ := h.right _ r hr
    rw [hnone] at hx
    cases hx
  have hget : ∀ k : String, (events.insertEvent record).table[k]? =
      if event.id = k then some record else events.table[k]? := by
    intro k
    rw [Events.get_insertEvent, hkey, hfree, Option.getD_none]
  refine ⟨?_, ?_, ?_⟩
  · intro k x hx
    rw [MemoryStoreState.get_put] at hx
    split_ifs at hx
    · cases hx
      exact hstore
    · exact h.storable k x hx
  · intro k x hx
    rw [MemoryStoreState.get_put] at hx
    rw [hget]
    split_ifs at hx ⊢
    · cases hx
      exact ⟨record, rfl, hof⟩
    · exact h.left k x hx
  · intro k r hr
    rw [hget] at hr
    rw [MemoryStoreState.get_put]
    split_ifs at hr ⊢
    · cases hr
      exact ⟨event, rfl, hof⟩
    · exact h.right k r hr

/-- An id is stored in both or in neither. -/
theorem mem_iff (h : Mirrors tenantId s events) (k : String) : k ∈ s.events ↔ k ∈ events.table := by
  simp only [Std.ExtTreeMap.mem_iff_isSome_getElem?, Option.isSome_iff_exists]
  constructor
  · rintro ⟨x, hx⟩
    obtain ⟨record, hr, -⟩ := h.left k x hx
    exact ⟨record, hr⟩
  · rintro ⟨record, hr⟩
    obtain ⟨x, hx, -⟩ := h.right k record hr
    exact ⟨x, hx⟩

theorem getEvent_iff (h : Mirrors tenantId s events) {event : NostrEvent} {record : EventRecord}
    (hstore : event.Storable) (hof : RecordOf event tenantId record) :
    (events.getEvent tenantId record.id).isSome = true ↔ event.id ∈ s.events := by
  rw [h.mem_iff, Std.ExtTreeMap.mem_iff_isSome_getElem?, Option.isSome_iff_exists,
    Option.isSome_iff_exists, ← hstore.eventKey_eq hof]
  refine exists_congr fun found => ?_
  rw [Events.getEvent_eq_some]
  refine and_iff_left_of_imp fun hfound => ?_
  obtain ⟨x, -, hx⟩ := h.right _ found hfound
  exact hx.tenantId_eq

end Mirrors

/-! ### Operations -/

/-- An operation of a store. -/
inductive StoreOp
  | insert (event : NostrEvent)
  | delete (id : String)

/-- What an operation answers. -/
inductive StoreAnswer
  | insert (outcome : StoreOutcome)
  | delete (removed : Bool)
  deriving DecidableEq, Repr

/-- The operations on events in lower-case hexadecimal with tags that can be flattened. -/
def StoreOp.Normal : StoreOp → Prop
  | .insert event => event.Storable
  | .delete id => Str.isHexLen id 64 = true ∧ Hex.IsLower id

/-- The insertions on which the questions of the repository store find what the index has: every
stored event that carries the identifier of a key has that key, for the key of the event and for
the addresses that a deletion names, and no `e` value names a stored event in upper case. -/
structure MemoryStoreState.Unambiguous (s : MemoryStoreState) (event : NostrEvent) : Prop where
  key : ∀ key, replaceableKey event = some key → ∀ (k : String) (x : NostrEvent),
    s.events[k]? = some x → x.Answers key → replaceableKey x = some key
  address : event.kind = 5 → ∀ address ∈ collectTagValues event.tags "a", ∀ key,
    parseAddress address = some key → key.pubkey = event.pubkey →
    ∀ (k : String) (x : NostrEvent), s.events[k]? = some x → x.createdAt ≤ event.createdAt →
      x.Answers key → replaceableKey x = some key
  target : event.kind = 5 → ∀ target ∈ collectTagValues event.tags "e",
    ∀ (k : String) (x : NostrEvent), s.events[k]? = some x → MemoryStoreState.Outranks event x →
      Hex.decode target = Hex.decode x.id → target = x.id

/-- The guard of a run: a normal operation, and for a new event an unambiguous insertion. -/
def MemoryStoreState.Clear (s : MemoryStoreState) : StoreOp → Prop
  | .insert event => event.id ∉ s.events → s.Unambiguous event
  | .delete _ => True

/-! ### One operation -/

section Step

variable {tenantId : String} {s : MemoryStoreState} {event x : NostrEvent} {record : EventRecord}
  {k : String}

theorem sameKey_iff (hstore : event.Storable) (hx : x.Storable)
    (hof : RecordOf x tenantId record) (hstored : s.events[k]? = some x)
    (hu : s.Unambiguous event) :
    MemoryStoreState.SameKey event x ↔ ∃ key, replaceableKey event = some key ∧
      RepositoryStore.AnswersKey tenantId key record := by
  refine exists_congr fun key => and_congr_right fun hkey => ?_
  have hlower : Hex.IsLower key.pubkey := pubkey_of_replaceableKey hkey ▸ hstore.pubkeyLower
  rw [answersKey_iff hx.pubkeyLower hof hlower]
  exact ⟨answers_of_replaceableKey, hu.key key hkey k x hstored⟩

theorem deletes_iff (hstore : event.Storable) (hx : x.Storable) (hof : RecordOf x tenantId record)
    (hstored : s.events[k]? = some x) (hkind : event.kind = 5) (hu : s.Unambiguous event) :
    MemoryStoreState.Deletes event x ↔ RepositoryStore.DeletesRecord tenantId event record := by
  have hauthor : x.pubkey = event.pubkey ↔ Hex.decode event.pubkey = some record.pubkey := by
    constructor
    · intro heq
      rw [← heq, hof.pubkey]
    · intro hd
      exact eq_of_decode_eq hx.pubkeyLower hstore.pubkeyLower hof.pubkey hd
  unfold MemoryStoreState.Deletes RepositoryStore.DeletesRecord
  rw [hof.tenantId_eq, hof.createdAt_eq]
  constructor
  · rintro ⟨⟨hpub, hle⟩, hm | ⟨address, hm, key, hp, hkey⟩⟩
    · exact ⟨rfl, hle, Or.inl ⟨x.id, hm, hof.id, hauthor.1 hpub⟩⟩
    · have hkeypub : key.pubkey = event.pubkey := (pubkey_of_replaceableKey hkey).trans hpub
      have hlower : Hex.IsLower key.pubkey := hkeypub ▸ hstore.pubkeyLower
      exact ⟨rfl, hle, Or.inr ⟨address, hm, key, hp, hkeypub,
        (answersKey_iff hx.pubkeyLower hof hlower).2 (answers_of_replaceableKey hkey)⟩⟩
  · rintro ⟨-, hle, ⟨target, hm, hd, hpub⟩ | ⟨address, hm, key, hp, hkeypub, hans⟩⟩
    · have hrank : MemoryStoreState.Outranks event x := ⟨hauthor.2 hpub, hle⟩
      have hid := hu.target hkind target hm k x hstored hrank (hd.trans hof.id.symm)
      exact ⟨hrank, Or.inl (hid ▸ hm)⟩
    · have hlower : Hex.IsLower key.pubkey := hkeypub ▸ hstore.pubkeyLower
      have hans := (answersKey_iff hx.pubkeyLower hof hlower).1 hans
      have hkey := hu.address hkind address hm key hp hkeypub k x hstored hle hans
      exact ⟨⟨hans.2.1.trans hkeypub, hle⟩, Or.inr ⟨address, hm, key, hp, hkey⟩⟩

theorem displaces_iff (hstore : event.Storable) (hx : x.Storable)
    (hof : RecordOf x tenantId record) (hstored : s.events[k]? = some x)
    (hu : s.Unambiguous event) :
    MemoryStoreState.Displaces event x ↔ RepositoryStore.Displaces tenantId event record :=
  or_congr (and_congr_right fun hkind => deletes_iff hstore hx hof hstored hkind hu)
    (sameKey_iff hstore hx hof hstored hu)

theorem superseded_iff_of_mirrors {events : Events} (h : Mirrors tenantId s events)
    (hstore : event.Storable) (hu : s.Unambiguous event) :
    s.Superseded event ↔ ∃ key, replaceableKey event = some key ∧
      RepositoryStore.superseded tenantId events event key = true := by
  simp only [RepositoryStore.superseded_iff]
  constructor
  · rintro ⟨k, x, hx, hsame, hle⟩
    obtain ⟨record, hr, hof⟩ := h.left k x hx
    obtain ⟨key, hkey, hans⟩ := (sameKey_iff hstore (h.storable k x hx) hof hx hu).1 hsame
    exact ⟨key, hkey, k, record, hr, hans, by rwa [hof.createdAt_eq]⟩
  · rintro ⟨key, hkey, k, record, hr, hans, hle⟩
    obtain ⟨x, hx, hof⟩ := h.right k record hr
    have hsame := (sameKey_iff hstore (h.storable k x hx) hof hx hu).2 ⟨key, hkey, hans⟩
    exact ⟨k, x, hx, hsame, by rwa [hof.createdAt_eq] at hle⟩

end Step

namespace RepositoryStore

/-- The insertion of an event that has a record answers. -/
theorem insert_total {tenantId : String} (events : Events) {event : NostrEvent}
    {record : EventRecord} (hof : RecordOf event tenantId record) :
    ∃ outcome events', insert tenantId events event = .ok (outcome, events') := by
  unfold insert applyDeleteRepo
  rw [eventToRecord_eq_ok.2 hof, hof.pubkey]
  dsimp only [Result.okOr, bind, Except.bind, pure, Except.pure]
  split_ifs <;> exact ⟨_, _, rfl⟩

end RepositoryStore

/-- An unambiguous insertion answers the same in both stores and keeps them alike. -/
theorem mirrors_insert {tenantId : String} {s : MemoryStoreState} {events : Events}
    {event : NostrEvent} (h : Mirrors tenantId s events) (hs : s.Consistent)
    (ht : Str.trim tenantId ≠ "") (hstore : event.Storable)
    (hu : event.id ∉ s.events → s.Unambiguous event) :
    ∃ events', RepositoryStore.insert tenantId events event = .ok ((s.insert event).1, events') ∧
      Mirrors tenantId (s.insert event).2 events' := by
  obtain ⟨record, hof⟩ := hstore.exists_record ht
  obtain ⟨outcome, events', hins⟩ := RepositoryStore.insert_total events hof
  obtain ⟨record', hrec, hcases⟩ := RepositoryStore.insert_eq_ok hins
  rw [eventToRecord_eq_ok.2 hof, Except.ok.injEq] at hrec
  subst hrec
  rw [hins]
  have hid := h.getEvent_iff hstore hof
  generalize hm : s.insert event = result
  have hmem := MemoryStoreState.insertion hs event
  rw [hm] at hmem
  obtain ⟨answer, s'⟩ := result
  -- the cases of the two stores match one by one
  cases hmem with
  | stored hstored =>
    cases hcases with
    | stored found hget => exact ⟨_, rfl, h⟩
    | superseded key hget hk hsup => simp [hget, hstored] at hid
    | added kept hget hsup hkept => simp [hget, hstored] at hid
  | superseded hnew hsup =>
    obtain ⟨key, hkey, hsup'⟩ := (superseded_iff_of_mirrors h hstore (hu hnew)).1 hsup
    cases hcases with
    | stored found hget => exact ⟨_, rfl, h⟩
    | superseded key hget hk hsup => exact ⟨_, rfl, h⟩
    | added kept hget hsup hkept =>
      rw [hsup key hkey] at hsup'
      cases hsup'
  | added kept hnew hsup hkept =>
    cases hcases with
    | stored found hget => simp [hget, hnew] at hid
    | superseded key hget hk hsup' =>
      exact absurd ((superseded_iff_of_mirrors h hstore (hu hnew)).2 ⟨key, hk, hsup'⟩) hsup
    | added kept' hget hsup' hkept' =>
      refine ⟨_, rfl, (h.without hkept.get hkept' ?_).put hstore hof ?_⟩
      · intro k x r hx hxr
        exact displaces_iff hstore (h.storable k x hx) hxr hx (hu hnew)
      · refine hkept.get.get_eq_none ?_
        rw [Std.ExtTreeMap.mem_iff_isSome_getElem?, Option.not_isSome_iff_eq_none] at hnew
        exact hnew

/-- So does a deletion. -/
theorem mirrors_delete {tenantId : String} {s : MemoryStoreState} {events : Events} {id : String}
    (h : Mirrors tenantId s events) (hs : s.Consistent) (hhex : Str.isHexLen id 64 = true)
    (hlower : Hex.IsLower id) :
    ∃ events', RepositoryStore.delete tenantId events id = .ok ((s.removeEvent id).1, events') ∧
      Mirrors tenantId (s.removeEvent id).2 events' := by
  obtain ⟨bytes, hbytes, -⟩ := Hex.isHexLen_iff_decode (n := 32).1 hhex
  have hkey : eventKey bytes = id := (Hex.encode_of_decode hbytes).trans hlower
  have hanswer : (events.deleteEvent tenantId bytes).1 = (s.removeEvent id).1 := by
    rw [MemoryStoreState.removeEvent_fst]
    unfold Events.deleteEvent
    rw [hkey]
    cases hr : events.table[id]? with
    | none =>
      have hnone : s.events[id]? = none := by
        refine Option.eq_none_iff_forall_ne_some.2 fun x hx => ?_
        obtain ⟨record, hr', -⟩ := h.left id x hx
        rw [hr] at hr'
        cases hr'
      rw [hnone]
      rfl
    | some record =>
      obtain ⟨x, hx, hof⟩ := h.right id record hr
      simp [hx, hof.tenantId_eq]
  have hdelete : RepositoryStore.delete tenantId events id =
      .ok ((s.removeEvent id).1, (events.deleteEvent tenantId bytes).2) := by
    unfold RepositoryStore.delete
    rw [hbytes, ← hanswer]
    rfl
  refine ⟨_, hdelete, h.without (MemoryStoreState.without_removeEvent hs id).get
    (RepositoryStore.without_delete hdelete) ?_⟩
  intro k x record hx hof
  rw [hof.tenantId_eq, hbytes, Option.some.injEq]
  constructor
  · rintro rfl
    exact ⟨rfl, Option.some.inj (hbytes.symm.trans hof.id)⟩
  · rintro ⟨-, rfl⟩
    exact eq_of_decode_eq (h.storable k x hx).idLower hlower hof.id hbytes

/-! ### Runs -/

namespace MemoryStore

/-- One operation of the memory store. -/
def apply (store : MemoryStore) : StoreOp → StoreAnswer × MemoryStore
  | .insert event => ((store.insert event).1 |> .insert, (store.insert event).2)
  | .delete id => ((store.delete id).1 |> .delete, (store.delete id).2)

end MemoryStore

namespace RepositoryStore

/-- One operation of the repository store; one that fails leaves the table as it was. -/
def apply (tenantId : String) (events : Events) :
    StoreOp → Except StoreError StoreAnswer × Events
  | .insert event =>
    match insert tenantId events event with
    | .ok (outcome, events') => (.ok (.insert outcome), events')
    | .error err => (.error err, events)
  | .delete id =>
    match delete tenantId events id with
    | .ok (removed, events') => (.ok (.delete removed), events')
    | .error err => (.error err, events)

end RepositoryStore

/-- The two stores, given the same operations. -/
structure Stores where
  memory : MemoryStore
  table : Events

namespace Stores

/-- Two empty stores. -/
def empty : Stores := ⟨MemoryStore.new, ∅⟩

/-- The same operation on both stores, with the two answers. -/
def step (tenantId : String) (stores : Stores) (op : StoreOp) :
    Option (Stores × StoreAnswer × Except StoreError StoreAnswer) :=
  some (⟨(stores.memory.apply op).2, (RepositoryStore.apply tenantId stores.table op).2⟩,
    (stores.memory.apply op).1, (RepositoryStore.apply tenantId stores.table op).1)

/-- The guard of a run: operations on storable events, and unambiguous insertions. -/
def Clear (stores : Stores) (op : StoreOp) : Prop :=
  op.Normal ∧ stores.memory.state.Clear op

/-- The stores hold the same ids. -/
def SameIds (stores : Stores) : Prop :=
  ∀ id, id ∈ stores.memory.state.events ↔ id ∈ stores.table.table

theorem mirrors_step {tenantId : String} (ht : Str.trim tenantId ≠ "") {stores stores' : Stores}
    {op : StoreOp} {answer : StoreAnswer} {answer' : Except StoreError StoreAnswer}
    (h : Mirrors tenantId stores.memory.state stores.table) (hclear : stores.Clear op)
    (hstep : step tenantId stores op = some (stores', answer, answer')) :
    Mirrors tenantId stores'.memory.state stores'.table ∧ answer' = .ok answer := by
  cases hstep
  obtain ⟨hnormal, hclear⟩ := hclear
  cases op with
  | insert event =>
    obtain ⟨events', hins, hmirrors⟩ :=
      mirrors_insert h stores.memory.consistent ht hnormal hclear
    simp only [RepositoryStore.apply, hins]
    exact ⟨hmirrors, rfl⟩
  | delete id =>
    obtain ⟨events', hdel, hmirrors⟩ :=
      mirrors_delete h stores.memory.consistent hnormal.1 hnormal.2
    simp only [RepositoryStore.apply, hdel]
    exact ⟨hmirrors, rfl⟩

theorem mirrors_empty (tenantId : String) : Mirrors tenantId empty.memory.state empty.table := by
  constructor <;> simp [empty, MemoryStore.new]

/-- In every run of unambiguous operations from empty stores, the stores hold the same ids, and the
next operation is answered the same by both and leaves them with the same ids. -/
theorem writes_agree {tenantId : String} (ht : Str.trim tenantId ≠ "") {stores : Stores}
    (h : Runs.Reach (step tenantId) Clear (· = empty) stores) :
    stores.SameIds ∧ ∀ op stores' answer answer', stores.Clear op →
      step tenantId stores op = some (stores', answer, answer') →
        answer' = .ok answer ∧ stores'.SameIds := by
  have hmirrors : Mirrors tenantId stores.memory.state stores.table := by
    refine h.invariant (I := fun s : Stores => Mirrors tenantId s.memory.state s.table) ?_ ?_
    · rintro _ rfl
      exact mirrors_empty tenantId
    · intro s op s' answers hs hclear hstep
      exact (mirrors_step ht hs hclear hstep).1
  refine ⟨hmirrors.mem_iff, fun op stores' answer answer' hclear hstep => ?_⟩
  obtain ⟨hnext, hanswer⟩ := mirrors_step ht hmirrors hclear hstep
  exact ⟨hanswer, hnext.mem_iff⟩

/-! ### Instances -/

/-- The author of the events below. -/
def author : String := "1111111111111111111111111111111111111111111111111111111111111111"

/-- Their signature; the stores do not look at it. -/
def signature : String := "0000000000000000000000000000000000000000000000000000000000000000" ++
  "0000000000000000000000000000000000000000000000000000000000000000"

/-- An event of the author. -/
def authored (id : String) (createdAt : ℤ) (kind : ℕ) (tags : List (List String)) :
    NostrEvent where
  id := id
  pubkey := author
  createdAt := createdAt
  kind := kind
  tags := tags
  content := ""
  sig := signature

theorem storable_authored {id : String} (createdAt : ℤ) (kind : ℕ) {tags : List (List String)}
    (hid : Str.isHexLen id 64 = true ∧ Hex.IsLower id) (htags : ∀ tag ∈ tags, FlatTag tag) :
    (authored id createdAt kind tags).Storable := by
  have hauthor : Str.isHexLen author 64 = true ∧ Hex.IsLower author := by decide +kernel
  have hsig : Str.isHexLen signature 128 = true ∧ Hex.IsLower signature := by decide +kernel
  exact ⟨hid.1, hid.2, hauthor.1, hauthor.2, hsig.1, hsig.2, htags⟩

/-- A profile. -/
def profile : NostrEvent :=
  authored "aaaaaaaaaaaaaaaaaaaaaaaaaaaaaaaaaaaaaaaaaaaaaaaaaaaaaaaaaaaaaaaa" 1 0 []

/-- A newer profile of the same author. -/
def newerProfile : NostrEvent :=
  authored "bbbbbbbbbbbbbbbbbbbbbbbbbbbbbbbbbbbbbbbbbbbbbbbbbbbbbbbbbbbbbbbb" 2 0 []

theorem storable_profile : profile.Storable :=
  storable_authored 1 0 (by decide +kernel) (by simp)

theorem storable_newerProfile : newerProfile.Storable :=
  storable_authored 2 0 (by decide +kernel) (by simp)

/-- Both stores after the first profile. -/
def profiled : Stores :=
  ⟨(empty.memory.apply (.insert profile)).2,
    (RepositoryStore.apply "default" empty.table (.insert profile)).2⟩

theorem events_profiled :
    profiled.memory.state.events = (∅ : Map NostrEvent).insert profile.id profile := by
  rfl

/-- A profile and then a newer one: both stores answer that the second is inserted. -/
theorem writes_agree_profiles : Runs.Reach (step "default") Clear (· = empty) profiled ∧
    profiled.Clear (.insert newerProfile) ∧ profiled.SameIds ∧
      ∀ stores' answer answer', step "default" profiled (.insert newerProfile) =
        some (stores', answer, answer') → answer' = .ok answer ∧ stores'.SameIds := by
  have hfirst : empty.Clear (.insert profile) := by
    refine ⟨storable_profile, fun _ => ⟨?_, ?_, ?_⟩⟩ <;> simp [empty, MemoryStore.new]
  have hreach : Runs.Reach (step "default") Clear (· = empty) profiled :=
    .step (.start rfl) hfirst rfl
  -- the only stored event is the first profile, which has the key of the second
  have hsecond : profiled.Clear (.insert newerProfile) := by
    refine ⟨storable_newerProfile, fun _ => ⟨?_, by rintro ⟨⟩, by rintro ⟨⟩⟩⟩
    rintro key ⟨⟩ k x hx -
    rw [events_profiled, Map.get_insert] at hx
    split_ifs at hx
    · cases hx
      rfl
    · simp at hx
  obtain ⟨hids, hnext⟩ := writes_agree (by decide) hreach
  exact ⟨hreach, hsecond, hids, fun stores' answer answer' => hnext _ _ _ _ hsecond⟩

/-- A text note. -/
def textNote : NostrEvent :=
  authored "aaaaaaaaaaaaaaaaaaaaaaaaaaaaaaaaaaaaaaaaaaaaaaaaaaaaaaaaaaaaaaaa" 1 1 []

/-- A deletion with an address of the kind of the note and no identifier. -/
def kindDeletion : NostrEvent :=
  authored "bbbbbbbbbbbbbbbbbbbbbbbbbbbbbbbbbbbbbbbbbbbbbbbbbbbbbbbbbbbbbbbb" 2 5 [["a", "1:" ++ author]]

/-- The memory store finds no replaceable event under the address and keeps the note; the
repository store deletes every note of the author. -/
theorem not_writes_agree : ¬ ∀ (tenantId : String) (stores : Stores), Str.trim tenantId ≠ "" →
    Runs.Reach (step tenantId) (fun _ op => op.Normal) (· = empty) stores → stores.SameIds := by
  intro h
  have hrun : ((Runs.exec (step "default") empty [.insert textNote, .insert kindDeletion]).map
      fun r => (decide (textNote.id ∈ r.1.memory.state.events),
        decide (textNote.id ∈ r.1.table.table))) = some (true, false) := by
    decide +kernel
  obtain ⟨⟨stores, answers⟩, hexec, hids⟩ := Option.map_eq_some_iff.1 hrun
  have hnormal : ∀ op ∈ [StoreOp.insert textNote, .insert kindDeletion], ∀ _ : Stores,
      op.Normal := by
    intro op hop _
    simp only [List.mem_cons, List.not_mem_nil, or_false] at hop
    rcases hop with rfl | rfl
    · exact storable_authored 1 1 (by decide +kernel) (by simp)
    · exact storable_authored 2 5 (by decide +kernel) (by simp [FlatTag])
  have hreach : Runs.Reach (step "default") (fun _ op => op.Normal) (· = empty) stores :=
    .of_exec (.start rfl) hnormal hexec
  have hsame := h "default" stores (by decide) hreach textNote.id
  simp only [Prod.mk.injEq, decide_eq_true_eq, decide_eq_false_iff_not] at hids
  exact hids.2 (hsame.1 hids.1)

end Stores
end Gittree
