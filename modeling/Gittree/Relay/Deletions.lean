import Gittree.Relay.MemoryRuns
import Gittree.Relay.RoundTrip

/-!
# What a deletion removes

A kind-5 event names the events it removes by id, or by an address of the form
`kind:pubkey:identifier`.  Both stores read an address with `parse_address`, which drops what
follows a third colon and reads the kind as a number; the memory store looks the key up in its
index, the repository store asks for every record of the kind and author that carries the
identifier.

* `deletion_precise_iff`: exactly when a deletion removes only events that it names as written;
* `get_insert_comm`: an event and a deletion of it leave the same other events in both orders;
* `deletion_acts_on_stored`: a deletion acts on the events that are stored when it arrives, and is
  not remembered.
-/

namespace Gittree

open Rust

/-- The texts that are the address of a key. -/
def ReplaceableKey.addresses (key : ReplaceableKey) : List String :=
  match key.identifier with
  | some identifier => [toString key.kind ++ ":" ++ key.pubkey ++ ":" ++ identifier]
  | none => [toString key.kind ++ ":" ++ key.pubkey, toString key.kind ++ ":" ++ key.pubkey ++ ":"]

namespace NostrEvent

/-- A deletion names an event as written: by its id, or by the address of its key. -/
def Names (deletion x : NostrEvent) : Prop :=
  x.id ∈ collectTagValues deletion.tags "e" ∨
    ∃ key, replaceableKey x = some key ∧
      ∃ address ∈ collectTagValues deletion.tags "a", address ∈ key.addresses

/-- A deletion names an event of its own author that is not newer. -/
def MayDelete (deletion x : NostrEvent) : Prop :=
  x.pubkey = deletion.pubkey ∧ x.createdAt ≤ deletion.createdAt ∧ deletion.Names x

end NostrEvent

/-! ### Which events are removed -/

/-- Inserting the deletion removes only events that it may delete. -/
def MemoryStore.Precise (store : MemoryStore) (deletion : NostrEvent) : Prop :=
  ∀ (k : String) (x : NostrEvent), store.get k = some x →
    (store.insert deletion).2.get k = none → deletion.MayDelete x

/-- The same for the store of a tenant; the events are those that the store answers. -/
def RepositoryStore.Precise (tenantId : String) (events : Events) (deletion : NostrEvent) : Prop :=
  ∀ outcome events', RepositoryStore.insert tenantId events deletion = .ok (outcome, events') →
    ∀ (k : String) (record : EventRecord), events.table[k]? = some record →
      events'.table[k]? = none → deletion.MayDelete (recordToEvent record)

/-- In the memory store, every event of the author, not newer, whose key an address reads as, is
named by the deletion. -/
def MemoryStore.ReadsAsNamed (store : MemoryStore) (deletion : NostrEvent) : Prop :=
  store.get deletion.id = none →
    ∀ (k : String) (x : NostrEvent), store.get k = some x → MemoryStoreState.Outranks deletion x →
      ∀ address ∈ collectTagValues deletion.tags "a", ∀ key, parseAddress address = some key →
        replaceableKey x = some key → deletion.Names x

/-- In the table, every record that is found by an `e` value or by the query for an address is of
an event that the deletion may delete. -/
def RepositoryStore.FindsNamed (tenantId : String) (events : Events) (deletion : NostrEvent) :
    Prop :=
  ∀ own, RecordOf deletion tenantId own → events.getEvent tenantId own.id = none →
    ∀ (k : String) (record : EventRecord), events.table[k]? = some record →
      record.tenantId = tenantId → record.createdAt ≤ deletion.createdAt →
      ((∃ target ∈ collectTagValues deletion.tags "e", Hex.decode target = some record.id ∧
          Hex.decode deletion.pubkey = some record.pubkey) ∨
        ∃ address ∈ collectTagValues deletion.tags "a", ∃ key, parseAddress address = some key ∧
          key.pubkey = deletion.pubkey ∧ RepositoryStore.AnswersKey tenantId key record) →
      deletion.MayDelete (recordToEvent record)

/-- A deletion has no key, so nothing supersedes it, and it displaces what it deletes. -/
theorem displaces_of_kind_five {deletion x : NostrEvent} (hkind : deletion.kind = 5) :
    MemoryStoreState.Displaces deletion x ↔ MemoryStoreState.Deletes deletion x := by
  unfold MemoryStoreState.Displaces MemoryStoreState.SameKey
  simp [hkind, RepositoryStore.replaceableKey_of_kind_five hkind]

theorem adds_of_kind_five {store : MemoryStore} {deletion : NostrEvent}
    (hkind : deletion.kind = 5) : store.Adds deletion ↔ store.get deletion.id = none := by
  unfold MemoryStore.Adds MemoryStoreState.Superseded MemoryStoreState.SameKey
  simp [RepositoryStore.replaceableKey_of_kind_five hkind]

/-- The events that a deletion removes from a memory store. -/
theorem MemoryStore.removed_iff {store : MemoryStore} {deletion : NostrEvent}
    (hkind : deletion.kind = 5) {k : String} {x : NostrEvent} (hx : store.get k = some x) :
    (store.insert deletion).2.get k = none ↔
      store.get deletion.id = none ∧ MemoryStoreState.Deletes deletion x := by
  by_cases hnew : store.get deletion.id = none
  · have hadds := (adds_of_kind_five hkind).2 hnew
    have hne : deletion.id ≠ k := by
      rintro rfl
      rw [hnew] at hx
      cases hx
    rw [← displaces_of_kind_five hkind]
    constructor
    · intro hnone
      refine ⟨hnew, ?_⟩
      by_contra hkeep
      rw [(get_insert_of_adds hadds).2 (Or.inr ⟨hne, hx, hkeep⟩)] at hnone
      cases hnone
    · rintro ⟨-, hdis⟩
      refine Option.eq_none_iff_forall_ne_some.2 fun y hy => ?_
      rcases (get_insert_of_adds hadds).1 hy with ⟨hk, -⟩ | ⟨-, hy, hkeep⟩
      · exact hne hk
      · rw [hx, Option.some.injEq] at hy
        exact hkeep (hy ▸ hdis)
  · have hsame := get_insert_of_not_adds (mt (adds_of_kind_five hkind).1 hnew) k
    rw [hsame, hx]
    simp [hnew]

theorem MemoryStore.precise_iff {store : MemoryStore} {deletion : NostrEvent}
    (hkind : deletion.kind = 5) : store.Precise deletion ↔ store.ReadsAsNamed deletion := by
  unfold Precise ReadsAsNamed
  constructor
  · intro h hnew k x hx hrank address ha key hp hkey
    exact (h k x hx ((removed_iff hkind hx).2
      ⟨hnew, hrank, Or.inr ⟨address, ha, key, hp, hkey⟩⟩)).2.2
  · intro h k x hx hnone
    obtain ⟨hnew, hrank, hid | ⟨address, ha, key, hp, hkey⟩⟩ := (removed_iff hkind hx).1 hnone
    · exact ⟨hrank.1, hrank.2, Or.inl hid⟩
    · exact ⟨hrank.1, hrank.2, h hnew k x hx hrank address ha key hp hkey⟩

/-- The records that a deletion removes from a table. -/
theorem RepositoryStore.removed_iff {tenantId : String} {events events' : Events}
    {deletion : NostrEvent} {outcome : StoreOutcome} (hkind : deletion.kind = 5)
    (hins : insert tenantId events deletion = .ok (outcome, events')) {own : EventRecord}
    (hown : RecordOf deletion tenantId own) {k : String} {record : EventRecord}
    (hr : events.table[k]? = some record) :
    events'.table[k]? = none ↔
      events.getEvent tenantId own.id = none ∧ DeletesRecord tenantId deletion record := by
  obtain ⟨own', hown', hcases⟩ := insert_eq_ok hins
  rw [eventToRecord_eq_ok.2 hown, Except.ok.injEq] at hown'
  subst hown'
  cases hcases with
  | stored found hget => simp [hget, hr]
  | superseded key hget hk hsup =>
    rw [replaceableKey_of_kind_five hkind] at hk
    cases hk
  | added kept hget hsup hkept =>
    rw [Events.get_insertEvent]
    split_ifs with hk
    · -- a record under the new key belongs to another tenant
      subst hk
      have hother : record.tenantId ≠ tenantId := by
        intro htenant
        rw [Events.getEvent_eq_some.2 ⟨hr, htenant⟩] at hget
        cases hget
      simp only [false_iff, not_and]
      exact fun _ hdel => hother hdel.1
    · have hdis : Displaces tenantId deletion record ↔ DeletesRecord tenantId deletion record := by
        simp [Displaces, hkind, replaceableKey_of_kind_five hkind]
      rw [← hdis]
      constructor
      · intro hnone
        refine ⟨hget, ?_⟩
        by_contra hkeep
        rw [(hkept k record).2 ⟨hr, hkeep⟩] at hnone
        cases hnone
      · rintro ⟨-, hd⟩
        refine Option.eq_none_iff_forall_ne_some.2 fun r hr' => ?_
        obtain ⟨hr', hkeep⟩ := (hkept k r).1 hr'
        rw [hr, Option.some.injEq] at hr'
        exact hkeep (hr' ▸ hd)

theorem RepositoryStore.precise_iff {tenantId : String} {events : Events} {deletion : NostrEvent}
    (hkind : deletion.kind = 5) :
    Precise tenantId events deletion ↔ FindsNamed tenantId events deletion := by
  unfold Precise FindsNamed
  constructor
  · intro h own hown hget k record hr htenant hle hfound
    obtain ⟨outcome, events', hins⟩ := insert_total events hown
    exact h outcome events' hins k record hr
      ((removed_iff hkind hins hown hr).2 ⟨hget, htenant, hle, hfound⟩)
  · intro h outcome events' hins k record hr hnone
    obtain ⟨own, hown, -⟩ := insert_eq_ok hins
    have hown := eventToRecord_eq_ok.1 hown
    obtain ⟨hget, htenant, hle, hfound⟩ := (removed_iff hkind hins hown hr).1 hnone
    exact h own hown hget k record hr htenant hle hfound

/-- A deletion removes only events that it names as written, in a memory store exactly when its
addresses read as the keys of named events only, in a table exactly when its `e` values and its
addresses find records of such events only. -/
theorem deletion_precise_iff {deletion : NostrEvent} (hkind : deletion.kind = 5) :
    (∀ store : MemoryStore, store.Precise deletion ↔ store.ReadsAsNamed deletion) ∧
      ∀ tenantId events, RepositoryStore.Precise tenantId events deletion ↔
        RepositoryStore.FindsNamed tenantId events deletion :=
  ⟨fun _ => MemoryStore.precise_iff hkind, fun _ _ => RepositoryStore.precise_iff hkind⟩

namespace Stores

/-- A deletion of the author's profile by its address. -/
def profileDeletion : NostrEvent :=
  authored "cccccccccccccccccccccccccccccccccccccccccccccccccccccccccccccccc" 3 5
    [["a", "0:" ++ author]]

/-- The stores with one profile: the deletion of the profile by its address is precise in both. -/
theorem deletion_precise_iff_profile :
    profiled.memory.Precise profileDeletion ∧
      RepositoryStore.Precise "default" profiled.table profileDeletion := by
  have hclear : empty.Clear (.insert profile) := by
    refine ⟨storable_profile, fun _ => ⟨?_, ?_, ?_⟩⟩ <;> simp [empty, MemoryStore.new]
  have hstep : step "default" empty (.insert profile) = some (profiled, _, _) := rfl
  obtain ⟨hmirrors, -⟩ := mirrors_step (by decide) (mirrors_empty "default") hclear hstep
  have honly : ∀ (k : String) (x : NostrEvent), profiled.memory.get k = some x → x = profile := by
    intro k x hx
    unfold MemoryStore.get at hx
    rw [events_profiled, Map.get_insert] at hx
    split_ifs at hx
    · exact (Option.some.inj hx).symm
    · simp at hx
  have hnames : profileDeletion.MayDelete profile := by
    refine ⟨rfl, by decide, Or.inr ⟨⟨0, author, none⟩, rfl, "0:" ++ author, ?_, ?_⟩⟩
    · decide
    · decide
  have hkind : profileDeletion.kind = 5 := rfl
  obtain ⟨hmemory, htable⟩ := deletion_precise_iff hkind
  refine ⟨(hmemory _).2 ?_, (htable _ _).2 ?_⟩
  · rintro - k x hx - address - key - -
    rw [honly k x hx]
    exact hnames.2.2
  · rintro own - - k record hr - - -
    obtain ⟨x, hx, hof⟩ := hmirrors.right k record hr
    have hx := honly k x hx
    subst hx
    have hback : recordToEvent record = profile :=
      (recordToEvent_eq_iff hof storable_profile.idLower storable_profile.pubkeyLower
        storable_profile.sigLower).2 ⟨List.Pairwise.nil, by simp [profile, authored]⟩
    rw [hback]
    exact hnames

/-- The deletion with an address of the kind of a text note removes the note from a table. -/
theorem not_deletion_precise : ¬ ∀ deletion : NostrEvent, deletion.kind = 5 →
    (∀ store : MemoryStore, store.Precise deletion) ∧
      ∀ tenantId events, RepositoryStore.Reachable tenantId events →
        RepositoryStore.Precise tenantId events deletion := by
  intro h
  have hrun : ((Result.toOption (RepositoryStore.insert "default" ∅ textNote)).bind fun r =>
      (Result.toOption (RepositoryStore.insert "default" r.2 kindDeletion)).map fun r' =>
        (r.2.table[textNote.id]?.map EventRecord.kind, decide (textNote.id ∈ r'.2.table))) =
      some (some 1, false) := by
    decide +kernel
  obtain ⟨⟨outcome, events⟩, hfirst, hrun⟩ := Option.bind_eq_some_iff.1 hrun
  obtain ⟨⟨outcome', events'⟩, hsecond, hids⟩ := Option.map_eq_some_iff.1 hrun
  rw [Result.toOption_eq_some] at hfirst hsecond
  simp only [Prod.mk.injEq, decide_eq_false_iff_not] at hids
  obtain ⟨hstored, hgone⟩ := hids
  obtain ⟨record, hrecord, hkind⟩ := Option.map_eq_some_iff.1 hstored
  rw [Std.ExtTreeMap.mem_iff_isSome_getElem?, Option.not_isSome_iff_eq_none] at hgone
  have hmay := (h kindDeletion rfl).2 "default" events (.insert .empty hfirst) outcome' events'
    hsecond textNote.id record hrecord hgone
  -- the deletion has no `e` value, and the note has no key
  rcases hmay.2.2 with hid | ⟨key, hkey, -⟩
  · exact absurd hid (by simp [kindDeletion, authored, collectTagValues])
  · have hkind : (recordToEvent record).kind = 1 := hkind
    simp [replaceableKey, hkind, isReplaceableKind, isParameterizedReplaceableKind] at hkey

end Stores

/-! ### Deletions and the other events -/

namespace MemoryStore

open MemoryStoreState (SameKey Displaces Deletes)

variable {store : MemoryStore} {deletion x y : NostrEvent}

theorem get_insert_iff :
    (store.insert x).2.get y.id = some y ↔
      store.Adds x ∧ y = x ∨ store.get y.id = some y ∧ (store.Adds x → ¬ Displaces x y) := by
  by_cases hadds : store.Adds x
  · rw [get_insert_of_adds hadds]
    constructor
    · rintro (⟨-, rfl⟩ | ⟨-, hy, hkeep⟩)
      · exact .inl ⟨hadds, rfl⟩
      · exact .inr ⟨hy, fun _ => hkeep⟩
    · rintro (⟨-, rfl⟩ | ⟨hy, hkeep⟩)
      · exact .inl ⟨rfl, rfl⟩
      · refine .inr ⟨fun hid => ?_, hy, hkeep hadds⟩
        rw [← hid, hadds.1] at hy
        cases hy
  · rw [get_insert_of_not_adds hadds]
    simp [hadds]

/-- The insertion of an event under an id that is taken changes nothing. -/
theorem insert_of_get (h : store.get x.id ≠ none) : (store.insert x).2 = store := by
  have hid : x.id ∈ store.state.events := by_contra fun hid => h (get_eq_none_iff.2 hid)
  have hstate : (store.state.insert x).2 = store.state := by
    rw [MemoryStoreState.insert, if_pos hid]
  obtain ⟨state, consistent⟩ := store
  simp only [insert, hstate]

/-- Stored events with one key are one event. -/
theorem eq_of_sameKey (hx : store.get x.id = some x) (hy : store.get y.id = some y)
    (h : SameKey x y) : x = y := by
  obtain ⟨key, hxkey, hykey⟩ := h
  have hid := store.consistent.eq_of_key hx hy hxkey hykey
  rw [hid] at hx
  exact Option.some.inj (hx.symm.trans hy)

theorem superseded_iff : store.state.Superseded x ↔
    ∃ w, store.get w.id = some w ∧ SameKey x w ∧ x.createdAt ≤ w.createdAt := by
  constructor
  · rintro ⟨k, w, hw, hsame, hle⟩
    have hk := store.consistent.keyed k w hw
    subst hk
    exact ⟨w, hw, hsame, hle⟩
  · rintro ⟨w, hw, hsame, hle⟩
    exact ⟨w.id, w, hw, hsame, hle⟩

theorem not_sameKey_left (hkind : x.kind = 5) : ¬ SameKey x y := by
  rintro ⟨key, hkey, -⟩
  rw [RepositoryStore.replaceableKey_of_kind_five hkind] at hkey
  cases hkey

theorem not_sameKey_right (hkind : y.kind = 5) : ¬ SameKey x y := by
  rintro ⟨key, -, hkey⟩
  rw [RepositoryStore.replaceableKey_of_kind_five hkind] at hkey
  cases hkey

/-- A deletion and an event of its author, where no other event has their ids.  An event that is a
deletion itself is new, and does not delete the deletion in turn. -/
structure Distinct (store : MemoryStore) (deletion x : NostrEvent) : Prop where
  ids : deletion.id ≠ x.id
  onlyDeletion : ∀ z, store.get deletion.id = some z → z = deletion
  onlyEvent : ∀ z, store.get x.id = some z → z = x
  once : x.kind = 5 → store.get x.id = none ∧ ¬ Deletes x deletion

theorem Distinct.not_displaces (h : store.Distinct deletion x) (hkind : deletion.kind = 5) :
    ¬ Displaces x deletion := by
  rintro (⟨hx, hdel⟩ | hsame)
  · exact (h.once hx).2 hdel
  · exact not_sameKey_right hkind hsame

/-- The id of a new deletion stays free. -/
theorem get_insert_eq_none (hne : deletion.id ≠ x.id) (hnew : store.get deletion.id = none) :
    (store.insert x).2.get deletion.id = none := by
  by_cases h : store.Adds x
  · refine Option.eq_none_iff_forall_ne_some.2 fun y hy => ?_
    rcases (get_insert_of_adds h).1 hy with ⟨hid, -⟩ | ⟨-, hy, -⟩
    · exact hne hid.symm
    · rw [hnew] at hy
      cases hy
  · rw [get_insert_of_not_adds h, hnew]

/-- Where an event would displace one that the deletion leaves, the deletion does not decide whether
the event is added. -/
theorem adds_insert_iff (h : store.Distinct deletion x) (hkind : deletion.kind = 5)
    (hadds : store.Adds deletion) (hyx : y ≠ x) (hy : store.get y.id = some y)
    (hkept : ¬ Displaces deletion y) (hdis : Displaces x y) :
    (store.insert deletion).2.Adds x ↔ store.Adds x := by
  constructor
  · rintro ⟨-, hnot⟩
    have hfree : store.get x.id = none := by
      refine Option.eq_none_iff_forall_ne_some.2 fun z hz => ?_
      -- under its own id only the event itself is stored, and then it would have displaced already
      have hzx := h.onlyEvent z hz
      subst hzx
      rcases hdis with ⟨hx, -⟩ | hsame
      · rw [(h.once hx).1] at hz
        cases hz
      · exact hyx (eq_of_sameKey hz hy hsame).symm
    refine ⟨hfree, fun hsup => hnot ?_⟩
    obtain ⟨w, hw, hsame, hle⟩ := superseded_iff.1 hsup
    -- the event that supersedes is the displaced one, which the deletion leaves
    have hsame' : SameKey x y := hdis.resolve_left fun hx => not_sameKey_left hx.1 hsame
    have hwy := eq_of_sameKey hw hy ((MemoryStoreState.SameKey.symm hsame).trans hsame')
    subst hwy
    exact superseded_iff.2 ⟨w, get_insert_iff.2 (.inr ⟨hw, fun _ => hkept⟩), hsame, hle⟩
  · rintro ⟨hfree, hnot⟩
    refine ⟨get_insert_eq_none h.ids.symm hfree, fun hsup => hnot ?_⟩
    obtain ⟨w, hw, hsame, hle⟩ := superseded_iff.1 hsup
    rcases get_insert_iff.1 hw with ⟨-, rfl⟩ | ⟨hw, -⟩
    · exact absurd hsame (not_sameKey_right hkind)
    · exact superseded_iff.2 ⟨w, hw, hsame, hle⟩

/-- An event and a deletion leave the same other events in both orders. -/
theorem get_insert_comm (h : store.Distinct deletion x) (hkind : deletion.kind = 5) (hyx : y ≠ x) :
    ((store.insert deletion).2.insert x).2.get y.id = some y ↔
      ((store.insert x).2.insert deletion).2.get y.id = some y := by
  by_cases hnew : store.get deletion.id = none
  · have hadds : store.Adds deletion := (adds_of_kind_five hkind).2 hnew
    have hadds' : (store.insert x).2.Adds deletion :=
      (adds_of_kind_five hkind).2 (get_insert_eq_none h.ids hnew)
    rw [get_insert_iff, get_insert_iff, get_insert_iff, get_insert_iff]
    simp only [hadds, hadds', true_and, forall_const, hyx, and_false, false_or]
    -- an event other than the two is stored before and displaced by neither, in both orders
    constructor
    · rintro ⟨rfl | ⟨hy, hkept⟩, hdis⟩
      · exact .inl rfl
      · exact .inr ⟨⟨hy, fun hx hd =>
          hdis ((adds_insert_iff h hkind hadds hyx hy hkept hd).2 hx) hd⟩, hkept⟩
    · rintro (rfl | ⟨⟨hy, hdis⟩, hkept⟩)
      · exact ⟨.inl rfl, fun _ => h.not_displaces hkind⟩
      · exact ⟨.inr ⟨hy, hkept⟩, fun hx hd =>
          hdis ((adds_insert_iff h hkind hadds hyx hy hkept hd).1 hx) hd⟩
  · -- a deletion that is stored stays so, and is not carried out again
    obtain ⟨z, hz⟩ := Option.ne_none_iff_exists'.1 hnew
    have hzd := h.onlyDeletion z hz
    subst hzd
    have hkept : (store.insert x).2.get z.id = some z :=
      get_insert_iff.2 (.inr ⟨hz, fun _ => h.not_displaces hkind⟩)
    have htaken : (store.insert x).2.get z.id ≠ none := by
      rw [hkept]
      exact Option.some_ne_none z
    rw [insert_of_get hnew, insert_of_get htaken]

end MemoryStore

/-! ### Deletions are not remembered -/

namespace MemoryStore

variable {store : MemoryStore} {deletion x : NostrEvent}

/-- An event is in the store after its insertion exactly when it was there already, or its id was
free and nothing supersedes it. -/
theorem get_insert_self_iff :
    (store.insert x).2.get x.id = some x ↔ store.get x.id = some x ∨ store.Adds x := by
  by_cases h : store.Adds x
  · simp [get_insert_of_adds h, h]
  · rw [get_insert_of_not_adds h]
    simp [h]

/-- Only its own insertion brings an event into the store. -/
theorem get_apply_of_ne {op : StoreOp} (hop : op ≠ .insert x) (hx : store.get x.id ≠ some x) :
    (store.apply op).2.get x.id ≠ some x := by
  cases op with
  | insert event =>
    show (store.insert event).2.get x.id ≠ some x
    by_cases h : store.Adds event
    · rw [Ne, get_insert_of_adds h]
      rintro (⟨-, rfl⟩ | ⟨-, hstored, -⟩)
      · exact hop rfl
      · exact hx hstored
    · rwa [get_insert_of_not_adds h]
  | delete id =>
    show (store.state.removeEvent id).2.events[x.id]? ≠ some x
    rw [MemoryStoreState.get_removeEvent]
    split_ifs
    · simp
    · exact hx

/-- A list of operations. -/
def run (store : MemoryStore) (ops : List StoreOp) : MemoryStore :=
  ops.foldl (fun store op => (store.apply op).2) store

theorem get_run_of_ne {ops : List StoreOp} (hops : .insert x ∉ ops)
    (hx : store.get x.id ≠ some x) : (store.run ops).get x.id ≠ some x := by
  induction ops generalizing store with
  | nil => exact hx
  | cons op rest ih =>
    simp only [List.mem_cons, not_or] at hops
    exact ih hops.2 (get_apply_of_ne (Ne.symm hops.1) hx)

/-- A new deletion removes the events of its author, not newer, that it names by id. -/
theorem get_insert_deletion (hkind : deletion.kind = 5) (hnew : store.get deletion.id = none)
    (hne : deletion ≠ x) (hrank : MemoryStoreState.Outranks deletion x)
    (hnamed : x.id ∈ collectTagValues deletion.tags "e") :
    (store.insert deletion).2.get x.id ≠ some x := by
  rw [Ne, get_insert_of_adds ((adds_of_kind_five hkind).2 hnew)]
  rintro (⟨-, heq⟩ | ⟨-, -, hkeep⟩)
  · exact hne heq
  · exact hkeep ((displaces_of_kind_five hkind).2 ⟨hrank, Or.inl hnamed⟩)

end MemoryStore

/-- A deletion and an event of its author, not newer, that it names by id: both orders leave the
same other events.  A deletion acts on the events that are stored when it arrives: after the event
and then a new deletion of it the event is absent, and it stays so until it is inserted again; after
the deletion, in any later state, the event is taken in again exactly when its id is free and
nothing supersedes it. -/
theorem deletion_acts_on_stored {store : MemoryStore} {deletion x : NostrEvent}
    (hkind : deletion.kind = 5) (hne : deletion.id ≠ x.id)
    (hauthor : x.pubkey = deletion.pubkey) (hage : x.createdAt ≤ deletion.createdAt)
    (hnamed : x.id ∈ collectTagValues deletion.tags "e") :
    (store.Distinct deletion x → ∀ y, y ≠ x →
      (((store.insert deletion).2.insert x).2.get y.id = some y ↔
        ((store.insert x).2.insert deletion).2.get y.id = some y)) ∧
    (store.get deletion.id = none →
      ((store.insert x).2.insert deletion).2.get x.id ≠ some x ∧
      (store.insert deletion).2.get x.id ≠ some x ∧
      (∀ ops, .insert x ∉ ops →
        (((store.insert x).2.insert deletion).2.run ops).get x.id ≠ some x ∧
          ((store.insert deletion).2.run ops).get x.id ≠ some x)) ∧
    ∀ later : MemoryStore, later.get x.id ≠ some x →
      ((later.insert x).2.get x.id = some x ↔
        later.get x.id = none ∧ ¬ later.state.Superseded x) := by
  have hrank : MemoryStoreState.Outranks deletion x := ⟨hauthor, hage⟩
  have hne' : deletion ≠ x := fun h => hne (congrArg NostrEvent.id h)
  refine ⟨fun h y hyx => MemoryStore.get_insert_comm h hkind hyx, fun hnew => ?_,
    fun later hx => ?_⟩
  · have hnew' := MemoryStore.get_insert_eq_none hne hnew
    have hafter := MemoryStore.get_insert_deletion hkind hnew' hne' hrank hnamed
    have hbefore := MemoryStore.get_insert_deletion hkind hnew hne' hrank hnamed
    refine ⟨hafter, hbefore, fun ops hops => ?_⟩
    exact ⟨MemoryStore.get_run_of_ne hops hafter, MemoryStore.get_run_of_ne hops hbefore⟩
  · rw [MemoryStore.get_insert_self_iff, or_iff_right hx]
    rfl

namespace Stores

/-- A deletion of the text note by its id. -/
def noteDeletion : NostrEvent :=
  authored "cccccccccccccccccccccccccccccccccccccccccccccccccccccccccccccccc" 3 5
    [["e", textNote.id]]

/-- A store with the author's profile. -/
def held : MemoryStore := (MemoryStore.new.insert newerProfile).2

/-- The note is gone after the note and its deletion, and can be inserted again; the profile stays
in both orders. -/
theorem deletion_acts_on_stored_note :
    ((held.insert textNote).2.insert noteDeletion).2.get textNote.id ≠ some textNote ∧
      ((held.insert noteDeletion).2.insert textNote).2.get textNote.id = some textNote ∧
      ((held.insert textNote).2.insert noteDeletion).2.get newerProfile.id = some newerProfile := by
  have hkind : noteDeletion.kind = 5 := rfl
  have hfree : held.get noteDeletion.id = none ∧ held.get textNote.id = none := by decide +kernel
  have h := @deletion_acts_on_stored held noteDeletion textNote hkind (by decide) rfl (by decide)
    (by decide)
  obtain ⟨hgone, habsent, -⟩ := h.2.1 hfree.1
  have hdistinct : held.Distinct noteDeletion textNote := by
    refine ⟨by decide, fun z hz => ?_, fun z hz => ?_, fun hkind => by cases hkind⟩
    · rw [hfree.1] at hz
      cases hz
    · rw [hfree.2] at hz
      cases hz
  refine ⟨hgone, (h.2.2 _ habsent).2 ⟨by decide +kernel, ?_⟩,
    (h.1 hdistinct newerProfile (by decide)).1 (by decide +kernel)⟩
  rintro ⟨k, y, -, ⟨key, hkey, -⟩, -⟩
  cases hkey

/-- The note inserted before its deletion is absent, the note inserted after it is stored. -/
theorem not_deletions_commute : ¬ ∀ (store : MemoryStore) (deletion x : NostrEvent),
    deletion.kind = 5 → x.pubkey = deletion.pubkey → x.createdAt ≤ deletion.createdAt →
      x.id ∈ collectTagValues deletion.tags "e" →
        (∀ y, ((store.insert deletion).2.insert x).2.get y.id = some y ↔
          ((store.insert x).2.insert deletion).2.get y.id = some y) ∧
        ((store.insert deletion).2.insert x).2.get x.id ≠ some x := by
  intro h
  have hstored : ((MemoryStore.new.insert noteDeletion).2.insert textNote).2.get textNote.id =
      some textNote := by
    decide +kernel
  exact (h MemoryStore.new noteDeletion textNote rfl rfl (by decide) (by decide)).2 hstored

end Stores
end Gittree
