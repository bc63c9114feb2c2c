import Gittree.Relay.RoundTrip
import Gittree.Relay.StoreWrites

/-!
# Tenants over one table

The stores of all tenants share the event table of `InMemoryRepositories`.  Every operation compares
the tenant of a record, but the table has one record for an id.  So an event that one tenant holds
is not stored for another, whose insertion answers `Inserted` all the same.

* `SameView`: two tables hold the same records of a tenant;
* `SameView.own`, `SameView.foreign`: what an operation of the tenant, and of another, does to it;
* `isolated_iff_separate`: the histories in which every accepted event is stored for its tenant and
  no tenant sees the others.
-/

namespace Gittree

open Rust

namespace SharedTable

/-- The table after operations of the tenants. -/
def table (history : List (String × StoreOp)) : Events :=
  history.foldl (fun events op => (RepositoryStore.apply op.1 events op.2).2) ∅

/-- The store of a tenant answers the same over both tables. -/
structure SameAnswers (tenantId : String) (events events' : Events) : Prop where
  get : ∀ id, RepositoryStore.get tenantId events id = RepositoryStore.get tenantId events' id
  query : ∀ filters,
    RepositoryStore.query tenantId events filters = RepositoryStore.query tenantId events' filters
  delete : ∀ id, (RepositoryStore.delete tenantId events id).map Prod.fst =
    (RepositoryStore.delete tenantId events' id).map Prod.fst

/-- An inserted event is found by its tenant at once, and the answers to a tenant are those it would
get had the others done nothing. -/
structure Isolated (history : List (String × StoreOp)) : Prop where
  kept : ∀ before tenantId event after, history = before ++ (tenantId, .insert event) :: after →
    (RepositoryStore.apply tenantId (table before) (.insert event)).1 = .ok (.insert .inserted) →
      ∃ found, RepositoryStore.get tenantId (table (before ++ [(tenantId, .insert event)])) event.id =
        .ok (some found) ∧ found.id = event.id
  alone : ∀ tenantId,
    SameAnswers tenantId (table history) (table (history.filter fun op => op.1 == tenantId))

/-- The events that an insertion adds: they can be stored, the tenant has none with the id, and
nothing supersedes them. -/
def Addable (tenantId : String) (events : Events) (event : NostrEvent) : Prop :=
  ∃ record, RecordOf event tenantId record ∧ events.getEvent tenantId record.id = none ∧
    ∀ key, replaceableKey event = some key →
      RepositoryStore.superseded tenantId events event key = false

/-- The id is in lower case, and no other tenant has a record with it. -/
def OwnId (tenantId : String) (events : Events) (event : NostrEvent) : Prop :=
  Hex.IsLower event.id ∧ ∀ bytes record, Hex.decode event.id = some bytes →
    events.table[eventKey bytes]? = some record → record.tenantId = tenantId

/-- Every event that is added has an id of its tenant's own. -/
def Separate (history : List (String × StoreOp)) : Prop :=
  ∀ before tenantId event after, history = before ++ (tenantId, .insert event) :: after →
    Addable tenantId (table before) event → OwnId tenantId (table before) event

/-! ### Insertions -/

section Insertion

variable {tenantId : String} {events events' : Events} {event : NostrEvent} {record : EventRecord}

/-- Nothing that an insertion displaces is another tenant's. -/
theorem tenant_of_displaces (h : RepositoryStore.Displaces tenantId event record) :
    record.tenantId = tenantId := by
  rcases h with ⟨-, h⟩ | ⟨key, -, h⟩
  · exact h.1
  · exact h.tenant

/-- An operation that cannot convert its event does nothing; any other is an insertion. -/
theorem apply_insert (tenantId : String) (events : Events) (event : NostrEvent) :
    (∃ err, eventToRecord event tenantId = .error err ∧
      RepositoryStore.apply tenantId events (.insert event) = (.error err, events)) ∨
    ∃ record outcome events', RecordOf event tenantId record ∧
      RepositoryStore.Insertion tenantId events event record outcome events' ∧
      RepositoryStore.apply tenantId events (.insert event) =
        (.ok (.insert outcome), events') := by
  cases hrec : eventToRecord event tenantId with
  | error err =>
    refine Or.inl ⟨err, rfl, ?_⟩
    simp [RepositoryStore.apply, RepositoryStore.insert, hrec, bind, Except.bind]
  | ok record =>
    have hof := eventToRecord_eq_ok.1 hrec
    obtain ⟨outcome, events', hins⟩ := RepositoryStore.insert_total events hof
    obtain ⟨record', hrec', hcases⟩ := RepositoryStore.insert_eq_ok hins
    obtain rfl : record = record' := Except.ok.inj (hrec.symm.trans hrec')
    exact Or.inr ⟨record, outcome, events', hof, hcases, by simp [RepositoryStore.apply, hins]⟩

/-- What a deletion removes; an id that is no hexadecimal text names nothing. -/
theorem without_apply_delete (tenantId : String) (events : Events) (id : String) :
    events.table.Without
      (fun record => record.tenantId = tenantId ∧ Hex.decode id = some record.id)
      (RepositoryStore.apply tenantId events (.delete id)).2.table := by
  simp only [RepositoryStore.apply]
  cases hdel : RepositoryStore.delete tenantId events id with
  | ok answer => exact RepositoryStore.without_delete hdel
  | error err =>
    have hnone : Hex.decode id = none := by
      cases hd : Hex.decode id with
      | none => rfl
      | some bytes => simp [RepositoryStore.delete, hd, Result.okOr, bind, Except.bind, pure,
          Except.pure] at hdel
    exact (Map.Without.refl _).congr (by simp [hnone])

/-- An id of the tenant's own that the tenant has no record with is free. -/
theorem free_of_ownId (hof : RecordOf event tenantId record)
    (hget : events.getEvent tenantId record.id = none) (hown : OwnId tenantId events event) :
    events.table[eventKey record.id]? = none := by
  refine Option.eq_none_iff_forall_ne_some.2 fun other hother => ?_
  have htenant := hown.2 record.id other hof.id hother
  rw [Events.getEvent_eq_some.2 ⟨hother, htenant⟩] at hget
  cases hget

/-- An event that is added is found at once exactly if its id is the tenant's own. -/
theorem get_added_iff (hof : RecordOf event tenantId record)
    (hget : events.getEvent tenantId record.id = none) {kept : Events}
    (hkept : events.table.Without (RepositoryStore.Displaces tenantId event) kept.table) :
    (∃ found, RepositoryStore.get tenantId (kept.insertEvent record) event.id = .ok (some found) ∧
      found.id = event.id) ↔ OwnId tenantId events event := by
  have hid : Hex.encode record.id = Str.toAsciiLowercase event.id := Hex.encode_of_decode hof.id
  -- whatever has the id is another tenant's, so nothing displaces it
  have hforeign : ∀ other, events.table[eventKey record.id]? = some other →
      other.tenantId ≠ tenantId := by
    intro other hother htenant
    rw [Events.getEvent_eq_some.2 ⟨hother, htenant⟩] at hget
    cases hget
  constructor
  · rintro ⟨found, hfound, hsame⟩
    obtain ⟨bytes, hbytes, hmap⟩ := RepositoryStore.get_eq_ok.1 hfound
    obtain rfl : record.id = bytes := Option.some.inj (hof.id.symm.trans hbytes)
    obtain ⟨stored, hstored, rfl⟩ := Option.map_eq_some_iff.1 hmap
    obtain ⟨htable, htenant⟩ := Events.getEvent_eq_some.1 hstored
    constructor
    · have hkey : stored.id = record.id :=
        (Events.eventKey_injective ((kept.insertEvent record).keyed _ _ htable)).symm
      have hencode : Hex.encode stored.id = event.id := hsame
      rw [hkey, hid] at hencode
      exact hencode
    · intro bytes other hbytes' hother
      obtain rfl : record.id = bytes := Option.some.inj (hof.id.symm.trans hbytes')
      have hstay := (hkept _ other).2 ⟨hother, fun hd => hforeign other hother
        (tenant_of_displaces hd)⟩
      rw [Events.get_insertEvent, if_pos rfl, hstay] at htable
      obtain rfl : other = stored := Option.some.inj htable
      exact htenant
  · intro hown
    have hfree := free_of_ownId hof hget hown
    have htable : (kept.insertEvent record).table[eventKey record.id]? = some record := by
      rw [Events.get_insertEvent, if_pos rfl, hkept.get_eq_none hfree]
      rfl
    refine ⟨recordToEvent record, RepositoryStore.get_eq_ok.2 ⟨record.id, hof.id, ?_⟩, ?_⟩
    · rw [Events.getEvent_eq_some.2 ⟨htable, hof.tenantId_eq⟩]
      rfl
    · exact hid.trans hown.1

end Insertion

/-! ### The records of one tenant -/

/-- Both tables hold the same records of the tenant. -/
def SameView (tenantId : String) (events events' : Events) : Prop :=
  ∀ (k : String) (record : EventRecord), record.tenantId = tenantId →
    (events.table[k]? = some record ↔ events'.table[k]? = some record)

namespace SameView

variable {tenantId : String} {events events' events'' : Events}

theorem refl (tenantId : String) (events : Events) : SameView tenantId events events :=
  fun _ _ _ => Iff.rfl

theorem trans (h : SameView tenantId events events') (h' : SameView tenantId events' events'') :
    SameView tenantId events events'' :=
  fun k record ht => (h k record ht).trans (h' k record ht)

theorem symm (h : SameView tenantId events events') : SameView tenantId events' events :=
  fun k record ht => (h k record ht).symm

theorem getEvent (h : SameView tenantId events events') (eventId : List UInt8) :
    events.getEvent tenantId eventId = events'.getEvent tenantId eventId := by
  refine Option.ext fun record => ?_
  simp only [Events.getEvent_eq_some]
  exact and_congr_left fun ht => h _ record ht

/-- The records of the tenant stand in the same order in both tables. -/
theorem filter_values (h : SameView tenantId events events') {p : EventRecord → Bool}
    (hp : ∀ record, p record = true → record.tenantId = tenantId) :
    events.table.values.filter p = events'.table.values.filter p := by
  unfold Map.values
  rw [List.filter_map, List.filter_map]
  refine congrArg (List.map Prod.snd) ?_
  have hsorted : ∀ m : Map EventRecord,
      (m.toList.filter (p ∘ Prod.snd)).Pairwise fun a b => a.1 < b.1 :=
    fun m => (Map.pairwise_lt_toList m).filter _
  refine List.Perm.eq_of_pairwise ?_ (hsorted _) (hsorted _) ?_
  · intro a b _ _ hab hba
    exact absurd (lt_trans hab hba) (lt_irrefl _)
  · refine (List.perm_ext_iff_of_nodup ((Map.nodup_toList _).filter _)
      ((Map.nodup_toList _).filter _)).2 ?_
    rintro ⟨k, record⟩
    simp only [List.mem_filter, Std.ExtTreeMap.mem_toList_iff_getElem?_eq_some, Function.comp]
    exact and_congr_left fun ht => h k record (hp record ht)

theorem queryEvents (h : SameView tenantId events events') {query : EventQuery}
    (hq : query.tenantId = some tenantId) :
    events.queryEvents query = events'.queryEvents query := by
  unfold Events.queryEvents
  rw [h.filter_values]
  intro record hm
  unfold Events.matchesQuery at hm
  simp only [hq, Option.all_some, Bool.and_eq_true, beq_iff_eq] at hm
  exact hm.1.1.1.1.1.1

theorem superseded (h : SameView tenantId events events') (event : NostrEvent)
    (key : ReplaceableKey) :
    RepositoryStore.superseded tenantId events event key =
      RepositoryStore.superseded tenantId events' event key := by
  unfold RepositoryStore.superseded
  rw [h.queryEvents rfl]

/-- The answers to a tenant depend on its records only. -/
theorem sameAnswers (h : SameView tenantId events events') :
    SameAnswers tenantId events events' := by
  refine ⟨?_, ?_, ?_⟩
  · intro id
    unfold RepositoryStore.get
    simp only [h.getEvent]
  · have hfilters : ∀ (filters : List Filter) (results : List NostrEvent),
        RepositoryStore.queryFilters tenantId events results filters =
          RepositoryStore.queryFilters tenantId events' results filters := by
      intro filters
      induction filters with
      | nil => intro results; rfl
      | cons filter rest ih =>
        intro results
        have hrecords : events.queryEvents
            { (buildQueryPlan filter).1 with tenantId := some tenantId } =
              events'.queryEvents { (buildQueryPlan filter).1 with tenantId := some tenantId } :=
          h.queryEvents rfl
        simp only [RepositoryStore.queryFilters, hrecords, ih]
    intro filters
    unfold RepositoryStore.query
    rw [hfilters]
  · intro id
    have hfirst : ∀ (events : Events) (bytes : List UInt8),
        (events.deleteEvent tenantId bytes).1 = (events.getEvent tenantId bytes).isSome := by
      intro events bytes
      unfold Events.deleteEvent Events.getEvent
      cases events.table[eventKey bytes]? with
      | none => rfl
      | some record =>
        by_cases ht : record.tenantId = tenantId <;> simp [ht]
    unfold RepositoryStore.delete
    cases Hex.decode id with
    | none => rfl
    | some bytes =>
      show Except.ok (events.deleteEvent tenantId bytes).1 =
        Except.ok (events'.deleteEvent tenantId bytes).1
      rw [hfirst, hfirst, h.getEvent]

/-- Removal by one condition on the records of the tenant. -/
theorem without (h : SameView tenantId events events') {P : EventRecord → Prop}
    {kept kept' : Events} (hk : events.table.Without P kept.table)
    (hk' : events'.table.Without P kept'.table) : SameView tenantId kept kept' := by
  intro k record ht
  rw [hk k record, hk' k record, h k record ht]

/-- Removal of records of other tenants. -/
theorem without_foreign {P : EventRecord → Prop} {kept : Events}
    (hk : events.table.Without P kept.table)
    (hP : ∀ record, P record → record.tenantId ≠ tenantId) : SameView tenantId events kept := by
  intro k record ht
  rw [hk k record]
  exact ⟨fun hr => ⟨hr, fun hp => hP record hp ht⟩, And.left⟩

/-- Insertion of a record of another tenant. -/
theorem insertEvent_foreign (events : Events) {record : EventRecord}
    (hrecord : record.tenantId ≠ tenantId) :
    SameView tenantId events (events.insertEvent record) := by
  intro k r ht
  rw [Events.get_insertEvent]
  split_ifs with hk
  · subst hk
    cases events.table[eventKey record.id]? with
    | none =>
      refine iff_of_false (by simp) ?_
      rintro ⟨⟩
      exact hrecord ht
    | some other => rfl
  · rfl

/-- Insertion of one record under an id that is free in both tables. -/
theorem insertEvent (h : SameView tenantId events events') {record : EventRecord}
    (hfree : events.table[eventKey record.id]? = none)
    (hfree' : events'.table[eventKey record.id]? = none) :
    SameView tenantId (events.insertEvent record) (events'.insertEvent record) := by
  intro k r ht
  rw [Events.get_insertEvent, Events.get_insertEvent, hfree, hfree']
  split_ifs
  · rfl
  · exact h k r ht

/-- The operations of other tenants leave the records of a tenant alone. -/
theorem foreign (events : Events) {other : String} (hne : other ≠ tenantId) (op : StoreOp) :
    SameView tenantId events (RepositoryStore.apply other events op).2 := by
  cases op with
  | insert event =>
    rcases apply_insert other events event with ⟨err, -, happly⟩ |
      ⟨record, outcome, events', hof, hins, happly⟩
    · rw [happly]
      exact refl tenantId events
    · rw [happly]
      cases hins with
      | stored => exact refl tenantId events
      | superseded => exact refl tenantId events
      | added kept hget hsup hkept =>
        refine (without_foreign hkept fun r hr => ?_).trans (insertEvent_foreign kept ?_)
        · rw [tenant_of_displaces hr]
          exact hne
        · rw [hof.tenantId_eq]
          exact hne
  | delete id =>
    refine without_foreign (without_apply_delete other events id) fun r hr => ?_
    rw [hr.1]
    exact hne

/-- An operation of the tenant does the same to its records over both tables, if the event that it
adds has a free id in both. -/
theorem own (h : SameView tenantId events events') (op : StoreOp)
    (hfree : ∀ event record, op = .insert event → RecordOf event tenantId record →
      Addable tenantId events event → events.table[eventKey record.id]? = none)
    (hfree' : ∀ event record, op = .insert event → RecordOf event tenantId record →
      Addable tenantId events' event → events'.table[eventKey record.id]? = none) :
    SameView tenantId (RepositoryStore.apply tenantId events op).2
      (RepositoryStore.apply tenantId events' op).2 := by
  cases op with
  | insert event =>
    rcases apply_insert tenantId events event with ⟨err, herr, happly⟩ |
      ⟨record, outcome, next, hof, hins, happly⟩
    · rcases apply_insert tenantId events' event with ⟨_, -, happly'⟩ | ⟨_, _, _, hof', -, -⟩
      · rw [happly, happly']
        exact h
      · rw [eventToRecord_eq_ok.2 hof'] at herr
        cases herr
    · rcases apply_insert tenantId events' event with ⟨_, herr, -⟩ |
        ⟨record', outcome', next', hof', hins', happly'⟩
      · rw [eventToRecord_eq_ok.2 hof] at herr
        cases herr
      · obtain rfl : record = record' := Except.ok.inj
          ((eventToRecord_eq_ok.2 hof).symm.trans (eventToRecord_eq_ok.2 hof'))
        rw [happly, happly']
        -- both insertions end in the same way, since they look at the tenant's records only
        have hgets := h.getEvent record.id
        cases hins with
        | stored found hget =>
          cases hins' with
          | stored => exact h
          | superseded _ hget' => simp [hget, hget'] at hgets
          | added _ hget' => simp [hget, hget'] at hgets
        | superseded key hget hkey hsup =>
          cases hins' with
          | stored _ hget' => simp [hget, hget'] at hgets
          | superseded => exact h
          | added _ _ hsup' =>
            rw [h.superseded, hsup' key hkey] at hsup
            cases hsup
        | added kept hget hsup hkept =>
          cases hins' with
          | stored _ hget' => simp [hget, hget'] at hgets
          | superseded key _ hkey hsup' =>
            rw [← h.superseded, hsup key hkey] at hsup'
            cases hsup'
          | added kept' hget' hsup' hkept' =>
            refine (h.without hkept hkept').insertEvent ?_ ?_
            · exact hkept.get_eq_none (hfree event record rfl hof ⟨record, hof, hget, hsup⟩)
            · exact hkept'.get_eq_none (hfree' event record rfl hof ⟨record, hof, hget', hsup'⟩)
  | delete id =>
    exact h.without (without_apply_delete tenantId events id)
      (without_apply_delete tenantId events' id)

end SameView

/-! ### Histories -/

theorem table_append (history : List (String × StoreOp)) (tenantId : String) (op : StoreOp) :
    table (history ++ [(tenantId, op)]) =
      (RepositoryStore.apply tenantId (table history) op).2 := by
  unfold table
  rw [List.foldl_append]
  rfl

theorem filter_append_own (history : List (String × StoreOp)) (tenantId : String) (op : StoreOp) :
    (history ++ [(tenantId, op)]).filter (fun op => op.1 == tenantId) =
      history.filter (fun op => op.1 == tenantId) ++ [(tenantId, op)] := by
  simp

theorem filter_append_foreign (history : List (String × StoreOp)) {tenantId other : String}
    (hne : other ≠ tenantId) (op : StoreOp) :
    (history ++ [(other, op)]).filter (fun op => op.1 == tenantId) =
      history.filter fun op => op.1 == tenantId := by
  simp [hne]

/-- A tenant's own operations leave only its records. -/
theorem ownedBy_apply {tenantId : String} {events : Events}
    (h : RepositoryStore.OwnedBy tenantId events) (op : StoreOp) :
    RepositoryStore.OwnedBy tenantId (RepositoryStore.apply tenantId events op).2 := by
  cases op with
  | insert event =>
    rcases apply_insert tenantId events event with ⟨_, -, happly⟩ | ⟨_, _, _, hof, hins, happly⟩
    · rw [happly]
      exact h
    · rw [happly]
      cases hins with
      | stored => exact h
      | superseded => exact h
      | added kept _ _ hkept =>
        exact (h.within (Events.Within.of_without hkept)).insertEvent hof.tenantId_eq
  | delete id => exact h.within (Events.Within.of_without (without_apply_delete tenantId events id))

theorem ownedBy_table (tenantId : String) (history : List (String × StoreOp)) :
    RepositoryStore.OwnedBy tenantId (table (history.filter fun op => op.1 == tenantId)) := by
  induction history using List.reverseRecOn with
  | nil =>
    intro k record hr
    simp [table] at hr
  | append_singleton history op ih =>
    obtain ⟨other, op⟩ := op
    by_cases hother : other = tenantId
    · subst hother
      rw [filter_append_own, table_append]
      exact ownedBy_apply ih op
    · rw [filter_append_foreign history hother]
      exact ih

theorem Separate.init {history : List (String × StoreOp)} {op : String × StoreOp}
    (h : Separate (history ++ [op])) : Separate history := by
  intro before tenantId event after heq
  refine h before tenantId event (after ++ [op]) ?_
  rw [heq, List.append_assoc, List.cons_append]

/-- In a separate history a tenant has the records it would have alone. -/
theorem sameView_alone {history : List (String × StoreOp)} (h : Separate history)
    (tenantId : String) :
    SameView tenantId (table history) (table (history.filter fun op => op.1 == tenantId)) := by
  induction history using List.reverseRecOn with
  | nil => exact SameView.refl _ _
  | append_singleton history op ih =>
    obtain ⟨other, op⟩ := op
    have ih := ih h.init
    rw [table_append]
    by_cases hother : other = tenantId
    · subst hother
      rw [filter_append_own, table_append]
      refine ih.own op ?_ ?_
      · rintro event record rfl hof hadd
        obtain ⟨_, hof', hget, -⟩ := id hadd
        obtain rfl := Except.ok.inj
          ((eventToRecord_eq_ok.2 hof).symm.trans (eventToRecord_eq_ok.2 hof'))
        exact free_of_ownId hof hget (h history other event [] rfl hadd)
      · rintro event record - hof ⟨_, hof', hget, -⟩
        obtain rfl := Except.ok.inj
          ((eventToRecord_eq_ok.2 hof).symm.trans (eventToRecord_eq_ok.2 hof'))
        -- alone, all records are the tenant's
        refine Option.eq_none_iff_forall_ne_some.2 fun r hr => ?_
        rw [Events.getEvent_eq_some.2 ⟨hr, ownedBy_table other history _ r hr⟩] at hget
        cases hget
    · rw [filter_append_foreign history hother]
      exact (SameView.foreign (table history) hother op).symm.trans ih

/-- Every accepted event is stored for its tenant, and no tenant sees the others, exactly in the
histories in which every event that is added has an id of its tenant's own. -/
theorem isolated_iff_separate (history : List (String × StoreOp)) :
    Isolated history ↔ Separate history := by
  constructor
  · intro h before tenantId event after heq hadd
    obtain ⟨record, hof, hget, hsup⟩ := hadd
    rcases apply_insert tenantId (table before) event with ⟨_, herr, -⟩ |
      ⟨record', outcome, next, hof', hins, happly⟩
    · rw [eventToRecord_eq_ok.2 hof] at herr
      cases herr
    · obtain rfl : record = record' := Except.ok.inj
        ((eventToRecord_eq_ok.2 hof).symm.trans (eventToRecord_eq_ok.2 hof'))
      cases hins with
      | stored found hget' =>
        rw [hget] at hget'
        cases hget'
      | superseded key _ hkey hsup' =>
        rw [hsup key hkey] at hsup'
        cases hsup'
      | added kept _ _ hkept =>
        have hfound := h.kept before tenantId event after heq (by rw [happly])
        rw [table_append, happly] at hfound
        exact (get_added_iff hof hget hkept).1 hfound
  · intro h
    refine ⟨?_, fun tenantId => (sameView_alone h tenantId).sameAnswers⟩
    intro before tenantId event after heq hanswer
    rw [table_append]
    rcases apply_insert tenantId (table before) event with ⟨_, -, happly⟩ |
      ⟨record, outcome, next, hof, hins, happly⟩
    · rw [happly] at hanswer
      cases hanswer
    · rw [happly] at hanswer ⊢
      cases hins with
      | stored => cases hanswer
      | superseded => cases hanswer
      | added kept hget hsup hkept =>
        exact (get_added_iff hof hget hkept).2
          (h before tenantId event after heq ⟨record, hof, hget, hsup⟩)

/-- The same note, published to two tenants. -/
def crossPosted : List (String × StoreOp) :=
  [("one", .insert Stores.textNote), ("two", .insert Stores.textNote)]

/-- The second tenant is told that the note is inserted, and does not have it. -/
theorem not_isolated : ¬ ∀ history : List (String × StoreOp), Isolated history := by
  intro h
  have hinserted : (RepositoryStore.apply "two" (table [("one", .insert Stores.textNote)])
      (.insert Stores.textNote)).1 = .ok (.insert .inserted) := by
    decide +kernel
  obtain ⟨found, hfound, -⟩ := (h crossPosted).kept [("one", .insert Stores.textNote)] "two"
    Stores.textNote [] rfl hinserted
  have hnone : (RepositoryStore.get "two" (table crossPosted) Stores.textNote.id).toOption =
      some none := by
    decide +kernel
  have hsome : (RepositoryStore.get "two" (table crossPosted) Stores.textNote.id).toOption =
      some (some found) := congrArg Except.toOption hfound
  rw [hnone] at hsome
  cases hsome

end SharedTable
end Gittree
