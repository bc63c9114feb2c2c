import Gittree.Relay.Store

/-!
# The in-memory store of the relay

`MemoryStore` of `services/relay/src/store.rs`: the events by id, and an index from replaceable keys
to the id of the one event that has the key.  The index is only looked up, written and erased at
single keys, so it is a partial function here.

* `Consistent`: the index points at exactly the stored events that have a key; every operation
  keeps it, so a `MemoryStore` carries it;
* `without_applyDelete`: which events a deletion removes, as a condition on each event alone;
* `insertion`: the three ways an insertion can end, and what is stored then.
-/

namespace Gittree

open Rust

/-- `MemoryStoreState`. -/
structure MemoryStoreState where
  events : Map NostrEvent
  replaceable : ReplaceableKey → Option String

namespace MemoryStoreState

/-- `MemoryStoreState::remove_event`, with the answer whether an event was removed. -/
def removeEvent (s : MemoryStoreState) (id : String) : Bool × MemoryStoreState :=
  match s.events[id]? with
  | none => (false, s)
  | some event =>
    (true,
      { events := s.events.erase id
        replaceable := fun key =>
          if replaceableKey event = some key then none else s.replaceable key })

/-- The removal of one event by `apply_delete`, if its author and age allow it. -/
def deleteTarget (event : NostrEvent) (s : MemoryStoreState) (target : String) :
    MemoryStoreState :=
  match s.events[target]? with
  | some existing =>
    if existing.pubkey = event.pubkey ∧ existing.createdAt ≤ event.createdAt then
      (s.removeEvent target).2
    else s
  | none => s

/-- The treatment of one `a` value in `apply_delete`. -/
def deleteAddress (event : NostrEvent) (s : MemoryStoreState) (address : String) :
    MemoryStoreState :=
  match (parseAddress address).bind s.replaceable with
  | some existingId => deleteTarget event s existingId
  | none => s

/-- `MemoryStoreState::apply_delete`. -/
def applyDelete (s : MemoryStoreState) (event : NostrEvent) : MemoryStoreState :=
  (collectTagValues event.tags "a").foldl (deleteAddress event)
    ((collectTagValues event.tags "e").foldl (deleteTarget event) s)

/-- The last lines of `insert`: the event, under its id and its key. -/
def put (s : MemoryStoreState) (event : NostrEvent) : MemoryStoreState where
  events := s.events.insert event.id event
  replaceable := fun key =>
    if replaceableKey event = some key then some event.id else s.replaceable key

/-- The part of `insert` that follows the deletions. -/
def insertEvent (s : MemoryStoreState) (event : NostrEvent) : StoreOutcome × MemoryStoreState :=
  match (replaceableKey event).bind s.replaceable with
  | none => (.inserted, s.put event)
  | some existingId =>
    if s.events[existingId]?.any fun existing => decide (event.createdAt ≤ existing.createdAt) then
      (.duplicate, s)
    else (.inserted, (s.removeEvent existingId).2.put event)

/-- `insert`. -/
def insert (s : MemoryStoreState) (event : NostrEvent) : StoreOutcome × MemoryStoreState :=
  if event.id ∈ s.events then (.duplicate, s)
  else if event.kind = 5 then (s.applyDelete event).insertEvent event
  else s.insertEvent event

/-- The inner loop of `query`; `seen` holds the ids of `results`. -/
def takeEvents (filter : Filter) :
    ℕ → List NostrEvent → List NostrEvent → Except StoreError (List NostrEvent)
  | _, results, [] => .ok results
  | remaining, results, event :: rest =>
    if remaining = 0 then .ok results
    else if results.any fun other => other.id == event.id then
      takeEvents filter remaining results rest
    else
      match TagIndex.fromTags event.tags with
      | .error err => .error (.backend err.display)
      | .ok tags =>
        if filter.matches event tags then
          takeEvents filter (remaining - 1) (results ++ [event]) rest
        else takeEvents filter remaining results rest

/-- The outer loop of `query`. -/
def queryFilters (ordered : List NostrEvent) :
    List NostrEvent → List Filter → Except StoreError (List NostrEvent)
  | results, [] => .ok results
  | results, filter :: rest => do
    let results ← takeEvents filter (filter.limit.getD (2 ^ 64 - 1)) results ordered
    queryFilters ordered results rest

/-- `query`; the events are ordered as the answers of the repository store are. -/
def query (s : MemoryStoreState) (filters : List Filter) : Except StoreError (List NostrEvent) :=
  queryFilters (s.events.values.insertionSort RepositoryStore.before) [] filters

/-! ### The index -/

/-- Every event is stored under its id, and the index points at exactly the events with a key. -/
structure Consistent (s : MemoryStoreState) : Prop where
  keyed : ∀ (id : String) (event : NostrEvent), s.events[id]? = some event → event.id = id
  indexed : ∀ (key : ReplaceableKey) (id : String), s.replaceable key = some id ↔
    ∃ event, s.events[id]? = some event ∧ replaceableKey event = some key

namespace Consistent

variable {s : MemoryStoreState}

/-- Two stored events with one key are one event. -/
theorem eq_of_key (h : s.Consistent) {id id' : String} {event event' : NostrEvent}
    {key : ReplaceableKey} (he : s.events[id]? = some event) (he' : s.events[id']? = some event')
    (hk : replaceableKey event = some key) (hk' : replaceableKey event' = some key) : id = id' := by
  have h1 := (h.indexed key id).2 ⟨event, he, hk⟩
  have h2 := (h.indexed key id').2 ⟨event', he', hk'⟩
  rw [h1] at h2
  exact Option.some.inj h2

end Consistent

/-! ### What the operations do to the events and the index -/

section Removal

variable (s : MemoryStoreState) (id : String)

theorem removeEvent_fst : (s.removeEvent id).1 = s.events[id]?.isSome := by
  unfold removeEvent
  cases s.events[id]? <;> rfl

theorem get_removeEvent (k : String) :
    (s.removeEvent id).2.events[k]? = if id = k then none else s.events[k]? := by
  unfold removeEvent
  cases he : s.events[id]? with
  | none =>
    simp only
    split_ifs with hk
    · rw [← hk, he]
    · rfl
  | some event => exact Map.get_erase _ _ _

/-- A removal clears the key of the removed event. -/
theorem index_removeEvent (key : ReplaceableKey) :
    (s.removeEvent id).2.replaceable key =
      if s.events[id]?.bind replaceableKey = some key then none else s.replaceable key := by
  unfold removeEvent
  cases s.events[id]? with
  | none => simp
  | some event => rfl

end Removal

theorem Consistent.removeEvent {s : MemoryStoreState} (h : s.Consistent) (id : String) :
    (s.removeEvent id).2.Consistent := by
  constructor
  · intro k event he
    rw [get_removeEvent] at he
    split_ifs at he
    exact h.keyed k event he
  · intro key k
    rw [index_removeEvent, get_removeEvent]
    constructor
    · intro hk
      split_ifs at hk with hold
      obtain ⟨event, he, hkey⟩ := (h.indexed key k).1 hk
      have hne : id ≠ k := by
        rintro rfl
        exact hold (by rw [he, Option.bind_some, hkey])
      exact ⟨event, by rw [if_neg hne, he], hkey⟩
    · rintro ⟨event, he, hkey⟩
      split_ifs at he with hne
      -- another event with this key would have the id of this one
      have hold : s.events[id]?.bind replaceableKey ≠ some key := by
        intro hb
        obtain ⟨old, hold, hkey'⟩ := Option.bind_eq_some_iff.1 hb
        exact hne (h.eq_of_key hold he hkey' hkey)
      rw [if_neg hold]
      exact (h.indexed key k).2 ⟨event, he, hkey⟩

theorem get_put (s : MemoryStoreState) (event : NostrEvent) (k : String) :
    (s.put event).events[k]? = if event.id = k then some event else s.events[k]? :=
  Map.get_insert _ _ _ _

/-- An event is stored under a new id if no stored event has its key. -/
theorem Consistent.put {s : MemoryStoreState} (h : s.Consistent) {event : NostrEvent}
    (hid : s.events[event.id]? = none)
    (hkey : ∀ key, replaceableKey event = some key → s.replaceable key = none) :
    (s.put event).Consistent := by
  constructor
  · intro k e he
    rw [get_put] at he
    split_ifs at he with hk
    · cases he
      exact hk
    · exact h.keyed k e he
  · intro key k
    rw [get_put]
    show (if replaceableKey event = some key then some event.id else s.replaceable key) = _ ↔ _
    constructor
    · intro hk
      split_ifs at hk with hown
      · cases hk
        exact ⟨event, if_pos rfl, hown⟩
      · obtain ⟨e, he, hek⟩ := (h.indexed key k).1 hk
        have hne : event.id ≠ k := by
          rintro rfl
          rw [hid] at he
          cases he
        exact ⟨e, by rw [if_neg hne, he], hek⟩
    · rintro ⟨e, he, hek⟩
      split_ifs at he with hk
      · cases he
        rw [if_pos hek, hk]
      · have hstored := (h.indexed key k).2 ⟨e, he, hek⟩
        have hother : replaceableKey event ≠ some key := by
          intro hown
          rw [hkey key hown] at hstored
          cases hstored
        rw [if_neg hother, hstored]

/-! ### Deletions -/

/-- An event may remove those of its author that are not newer. -/
def Outranks (event x : NostrEvent) : Prop :=
  x.pubkey = event.pubkey ∧ x.createdAt ≤ event.createdAt

instance (event x : NostrEvent) : Decidable (Outranks event x) := inferInstanceAs (Decidable (_ ∧ _))

/-- The events that `apply_delete` removes: they are named by id, or by an address that reads as
their key. -/
def Deletes (event x : NostrEvent) : Prop :=
  Outranks event x ∧
    (x.id ∈ collectTagValues event.tags "e" ∨
      ∃ address ∈ collectTagValues event.tags "a", ∃ key,
        parseAddress address = some key ∧ replaceableKey x = some key)

/-- The second state is the first without the events that satisfy a condition. -/
structure Without (s : MemoryStoreState) (P : NostrEvent → Prop) (s' : MemoryStoreState) :
    Prop where
  consistent : s'.Consistent
  get : s.events.Without P s'.events

theorem Without.congr_of_mem {s s' : MemoryStoreState} {P Q : NostrEvent → Prop}
    (h : s.Without P s')
    (hPQ : ∀ (k : String) (x : NostrEvent), s.events[k]? = some x → (P x ↔ Q x)) :
    s.Without Q s' :=
  ⟨h.consistent, h.get.congr_of_mem hPQ⟩

theorem Without.trans {s s' s'' : MemoryStoreState} {P Q R : NostrEvent → Prop}
    (h : s.Without P s') (h' : s'.Without Q s'') (hR : ∀ x, P x ∨ Q x ↔ R x) : s.Without R s'' :=
  ⟨h'.consistent, (h.get.trans h'.get).congr hR⟩

/-- Nothing is removed if no stored event satisfies the condition. -/
theorem without_self {s : MemoryStoreState} (h : s.Consistent) {P : NostrEvent → Prop}
    (hP : ∀ (k : String) (x : NostrEvent), s.events[k]? = some x → ¬ P x) : s.Without P s :=
  ⟨h, (Map.Without.refl _).congr_of_mem fun k x hx => iff_of_false id (hP k x hx)⟩

theorem without_removeEvent {s : MemoryStoreState} (h : s.Consistent) (id : String) :
    s.Without (fun x => x.id = id) (s.removeEvent id).2 := by
  refine ⟨h.removeEvent id, fun k x => ?_⟩
  rw [get_removeEvent]
  constructor
  · intro hx
    split_ifs at hx with hk
    refine ⟨hx, ?_⟩
    rintro rfl
    exact hk (h.keyed k x hx)
  · rintro ⟨hx, hne⟩
    have hk : id ≠ k := fun hk => hne ((h.keyed k x hx).trans hk.symm)
    rw [if_neg hk, hx]

theorem without_deleteTarget (event : NostrEvent) (s : MemoryStoreState) (target : String)
    (h : s.Consistent) :
    s.Without (fun x => x.id = target ∧ Outranks event x) (deleteTarget event s target) := by
  -- the stored event with the id of the target is the one that is looked up
  have hlookup : ∀ (k : String) (x : NostrEvent), s.events[k]? = some x → x.id = target →
      s.events[target]? = some x := by
    intro k x hx hid
    rw [← hid, h.keyed k x hx, hx]
  unfold deleteTarget
  cases he : s.events[target]? with
  | none =>
    refine without_self h fun k x hx => ?_
    rintro ⟨hid, -⟩
    rw [hlookup k x hx hid] at he
    cases he
  | some existing =>
    simp only
    split_ifs with hrank
    · refine (without_removeEvent h target).congr_of_mem fun k x hx => ?_
      refine (and_iff_left_of_imp fun hid => ?_).symm
      rw [hlookup k x hx hid] at he
      cases he
      exact hrank
    · refine without_self h fun k x hx => ?_
      rintro ⟨hid, hx'⟩
      rw [hlookup k x hx hid] at he
      cases he
      exact hrank hx'

theorem without_deleteAddress (event : NostrEvent) (s : MemoryStoreState) (address : String)
    (h : s.Consistent) :
    s.Without (fun x => (∃ key, parseAddress address = some key ∧ replaceableKey x = some key) ∧
      Outranks event x) (deleteAddress event s address) := by
  unfold deleteAddress
  cases hb : (parseAddress address).bind s.replaceable with
  | none =>
    refine without_self h fun k x hx => ?_
    rintro ⟨⟨key, hp, hk⟩, -⟩
    rw [hp, Option.bind_some, (h.indexed key k).2 ⟨x, hx, hk⟩] at hb
    cases hb
  | some existingId =>
    obtain ⟨key, hp, hkey⟩ := Option.bind_eq_some_iff.1 hb
    obtain ⟨existing, he, hek⟩ := (h.indexed key existingId).1 hkey
    -- among the stored events, the one with the key is the one under the id of the index
    refine (without_deleteTarget event s existingId h).congr_of_mem fun k x hx =>
      and_congr_left fun _ => ?_
    constructor
    · rintro rfl
      rw [h.keyed k x hx, hx] at he
      cases he
      exact ⟨key, hp, hek⟩
    · rintro ⟨key', hp', hk'⟩
      rw [hp] at hp'
      cases hp'
      rw [h.keyed k x hx]
      exact h.eq_of_key hx he hk' hek

/-- What `apply_delete` removes. -/
theorem without_applyDelete {s : MemoryStoreState} (h : s.Consistent) (event : NostrEvent) :
    s.Without (Deletes event) (s.applyDelete event) := by
  obtain ⟨hmid, htargets⟩ := Map.Without.foldl MemoryStoreState.events (I := Consistent)
    (fun s target h => ⟨(without_deleteTarget event s target h).consistent,
      (without_deleteTarget event s target h).get⟩) (collectTagValues event.tags "e") h
  obtain ⟨hend, haddresses⟩ := Map.Without.foldl MemoryStoreState.events (I := Consistent)
    (fun s address h => ⟨(without_deleteAddress event s address h).consistent,
      (without_deleteAddress event s address h).get⟩) (collectTagValues event.tags "a") hmid
  refine ⟨hend, (htargets.trans haddresses).congr fun x => ?_⟩
  unfold Deletes
  constructor
  · rintro (⟨_, hm, rfl, hrank⟩ | ⟨address, hm, hkey, hrank⟩)
    · exact ⟨hrank, Or.inl hm⟩
    · exact ⟨hrank, Or.inr ⟨address, hm, hkey⟩⟩
  · rintro ⟨hrank, hm | ⟨address, hm, hkey⟩⟩
    · exact Or.inl ⟨_, hm, rfl, hrank⟩
    · exact Or.inr ⟨address, hm, hkey, hrank⟩

/-! ### Insertions -/

/-- Two events with one replaceable key. -/
def SameKey (event x : NostrEvent) : Prop :=
  ∃ key, replaceableKey event = some key ∧ replaceableKey x = some key

/-- A stored event of the same key is not older than the given event. -/
def Superseded (s : MemoryStoreState) (event : NostrEvent) : Prop :=
  ∃ (k : String) (x : NostrEvent), s.events[k]? = some x ∧ SameKey event x ∧
    event.createdAt ≤ x.createdAt

/-- The stored events that an insertion deletes or replaces. -/
def Displaces (event x : NostrEvent) : Prop :=
  event.kind = 5 ∧ Deletes event x ∨ SameKey event x

/-- The three ways an insertion can end: the id is taken, an event of the same key that is not
older is stored, or the event is added and the displaced events are gone. -/
inductive Insertion (s : MemoryStoreState) (event : NostrEvent) :
    StoreOutcome → MemoryStoreState → Prop
  | stored (hid : event.id ∈ s.events) : Insertion s event .duplicate s
  | superseded (hid : event.id ∉ s.events) (hsup : s.Superseded event) :
    Insertion s event .duplicate s
  | added (kept : MemoryStoreState) (hid : event.id ∉ s.events) (hsup : ¬ s.Superseded event)
    (hkept : s.Without (Displaces event) kept) : Insertion s event .inserted (kept.put event)

/-- After the deletions, `insert` finds a newer event of the key or replaces the older one. -/
theorem insertEvent_cases {s : MemoryStoreState} (h : s.Consistent) (event : NostrEvent) :
    s.Superseded event ∧ s.insertEvent event = (.duplicate, s) ∨
      ¬ s.Superseded event ∧ ∃ kept, s.Without (SameKey event) kept ∧
        s.insertEvent event = (.inserted, kept.put event) := by
  unfold insertEvent
  cases hb : (replaceableKey event).bind s.replaceable with
  | none =>
    have hnone : ∀ (k : String) (x : NostrEvent), s.events[k]? = some x → ¬ SameKey event x := by
      rintro k x hx ⟨key, hkey, hxkey⟩
      rw [hkey, Option.bind_some, (h.indexed key k).2 ⟨x, hx, hxkey⟩] at hb
      cases hb
    refine Or.inr ⟨?_, s, without_self h hnone, rfl⟩
    rintro ⟨k, x, hx, hsame, -⟩
    exact hnone k x hx hsame
  | some existingId =>
    obtain ⟨key, hkey, hindex⟩ := Option.bind_eq_some_iff.1 hb
    obtain ⟨existing, he, hek⟩ := (h.indexed key existingId).1 hindex
    -- the event under the id of the index is the only one with the key
    have honly : ∀ (k : String) (x : NostrEvent), s.events[k]? = some x →
        (SameKey event x ↔ existingId = k) := by
      intro k x hx
      constructor
      · rintro ⟨key', hkey', hxk⟩
        rw [hkey] at hkey'
        cases hkey'
        exact h.eq_of_key he hx hek hxk
      · rintro rfl
        rw [he] at hx
        cases hx
        exact ⟨key, hkey, hek⟩
    simp only [he, Option.any_some, decide_eq_true_eq]
    split_ifs with hold
    · exact Or.inl ⟨⟨existingId, existing, he, (honly existingId existing he).2 rfl, hold⟩, rfl⟩
    · refine Or.inr ⟨?_, _, (without_removeEvent h existingId).congr_of_mem fun k x hx => ?_, rfl⟩
      · rintro ⟨k, x, hx, hsame, hle⟩
        rw [← (honly k x hx).1 hsame, he] at hx
        cases hx
        exact hold hle
      · rw [honly k x hx, h.keyed k x hx, eq_comm]

/-- An insertion is one of the three. -/
theorem insertion {s : MemoryStoreState} (h : s.Consistent) (event : NostrEvent) :
    Insertion s event (s.insert event).1 (s.insert event).2 := by
  unfold insert
  by_cases hid : event.id ∈ s.events
  · rw [if_pos hid]
    exact .stored hid
  · rw [if_neg hid]
    by_cases hkind : event.kind = 5
    · -- a deletion has no key, so nothing supersedes it
      have hnokey : ∀ x, ¬ SameKey event x := by
        rintro x ⟨key, hkey, -⟩
        rw [RepositoryStore.replaceableKey_of_kind_five hkind] at hkey
        cases hkey
      have hdel := without_applyDelete h event
      rw [if_pos hkind]
      rcases insertEvent_cases hdel.consistent event with ⟨⟨k, x, -, hsame, -⟩, -⟩ | ⟨-, kept, hk, heq⟩
      · exact absurd hsame (hnokey x)
      · rw [heq]
        refine .added kept hid ?_ (hdel.trans hk fun x => ?_)
        · rintro ⟨k, x, -, hsame, -⟩
          exact hnokey x hsame
        · simp [Displaces, hkind]
    · rw [if_neg hkind]
      rcases insertEvent_cases h event with ⟨hsup, heq⟩ | ⟨hsup, kept, hk, heq⟩
      · rw [heq]
        exact .superseded hid hsup
      · rw [heq]
        exact .added kept hid hsup (hk.congr_of_mem fun _ _ _ => by simp [Displaces, hkind])

theorem Insertion.consistent {s s' : MemoryStoreState} {event : NostrEvent}
    {outcome : StoreOutcome} (h : s.Consistent) (hi : Insertion s event outcome s') :
    s'.Consistent := by
  cases hi with
  | stored => exact h
  | superseded => exact h
  | added kept hid hsup hkept =>
    refine hkept.consistent.put ?_ ?_
    · refine Option.eq_none_iff_forall_ne_some.2 fun x hx => hid ?_
      rw [Std.ExtTreeMap.mem_iff_isSome_getElem?, ((hkept.get _ _).1 hx).1]
      rfl
    · intro key hkey
      refine Option.eq_none_iff_forall_ne_some.2 fun k hk => ?_
      obtain ⟨x, hx, hxk⟩ := (hkept.consistent.indexed key k).1 hk
      exact ((hkept.get k x).1 hx).2 (Or.inr ⟨key, hkey, hxk⟩)

end MemoryStoreState

/-! ### The store -/

/-- `MemoryStore`: a state whose index is consistent. -/
structure MemoryStore where
  state : MemoryStoreState
  consistent : state.Consistent

namespace MemoryStore

/-- `MemoryStore::new`. -/
def new : MemoryStore where
  state := ⟨∅, fun _ => none⟩
  consistent := ⟨by simp, by simp⟩

/-- `insert`. -/
def insert (store : MemoryStore) (event : NostrEvent) : StoreOutcome × MemoryStore :=
  ((store.state.insert event).1,
    ⟨(store.state.insert event).2,
      (MemoryStoreState.insertion store.consistent event).consistent store.consistent⟩)

/-- `get`. -/
def get (store : MemoryStore) (id : String) : Option NostrEvent := store.state.events[id]?

/-- `delete`. -/
def delete (store : MemoryStore) (id : String) : Bool × MemoryStore :=
  ((store.state.removeEvent id).1,
    ⟨(store.state.removeEvent id).2, store.consistent.removeEvent id⟩)

/-- `query`. -/
def query (store : MemoryStore) (filters : List Filter) : Except StoreError (List NostrEvent) :=
  store.state.query filters

/-- The insertions that add their event: the id is free, and nothing supersedes the event. -/
def Adds (store : MemoryStore) (event : NostrEvent) : Prop :=
  store.get event.id = none ∧ ¬ store.state.Superseded event

theorem get_eq_none_iff {store : MemoryStore} {id : String} :
    store.get id = none ↔ id ∉ store.state.events :=
  Map.get_eq_none_iff

/-- An insertion that does not add its event changes nothing. -/
theorem get_insert_of_not_adds {store : MemoryStore} {event : NostrEvent}
    (h : ¬ store.Adds event) (k : String) : (store.insert event).2.get k = store.get k := by
  unfold Adds at h
  rw [get_eq_none_iff] at h
  have hi := MemoryStoreState.insertion store.consistent event
  show (store.state.insert event).2.events[k]? = store.state.events[k]?
  generalize store.state.insert event = result at hi
  obtain ⟨outcome, s'⟩ := result
  cases hi with
  | stored hid => rfl
  | superseded hid hsup => rfl
  | added kept hid hsup hkept => exact absurd ⟨hid, hsup⟩ h

/-- An insertion that adds its event removes exactly the displaced ones. -/
theorem get_insert_of_adds {store : MemoryStore} {event : NostrEvent} (h : store.Adds event)
    {k : String} {x : NostrEvent} :
    (store.insert event).2.get k = some x ↔
      event.id = k ∧ event = x ∨
        event.id ≠ k ∧ store.get k = some x ∧ ¬ MemoryStoreState.Displaces event x := by
  unfold Adds at h
  rw [get_eq_none_iff] at h
  have hi := MemoryStoreState.insertion store.consistent event
  show (store.state.insert event).2.events[k]? = some x ↔ _
  generalize store.state.insert event = result at hi
  obtain ⟨outcome, s'⟩ := result
  cases hi with
  | stored hid => exact absurd hid h.1
  | superseded hid hsup => exact absurd hsup h.2
  | added kept hid hsup hkept =>
    show (kept.put event).events[k]? = some x ↔ _
    rw [MemoryStoreState.get_put]
    by_cases hk : event.id = k
    · simp [hk]
    · rw [if_neg hk, hkept.get]
      simp [hk, get]

end MemoryStore
end Gittree
