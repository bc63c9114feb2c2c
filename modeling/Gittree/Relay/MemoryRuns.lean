import Gittree.Relay.StoreWrites

/-!
# Runs of the memory store

What is stored after any insertions and deletions, one after the other, from the empty store of
`services/relay/src/store.rs`.

* `indexing_foldl`: the two maps stay in step;
* `insertAll_perm`: events that are told apart by their times leave the same store in any order, with
  the newest event of each key.
-/

namespace Gittree

open Rust

namespace MemoryStoreState

/-- `MemoryStoreState::default`. -/
def empty : MemoryStoreState := ⟨∅, fun _ => none⟩

/-- What an operation leaves. -/
def act (s : MemoryStoreState) : StoreOp → MemoryStoreState
  | .insert event => (s.insert event).2
  | .delete id => (s.removeEvent id).2

theorem consistent_empty : empty.Consistent := MemoryStore.new.consistent

theorem Consistent.act {s : MemoryStoreState} (h : s.Consistent) (action : StoreOp) :
    (s.act action).Consistent := by
  cases action with
  | insert event => exact (insertion h event).consistent h
  | delete id => exact h.removeEvent id

theorem consistent_foldl (actions : List StoreOp) {s : MemoryStoreState} (h : s.Consistent) :
    (actions.foldl act s).Consistent := by
  induction actions generalizing s with
  | nil => exact h
  | cons action rest ih => exact ih (h.act action)

/-- After any insertions and deletions, every event is stored under its id, the index has exactly the
keys of stored events, with their ids, and no two stored events have one key. -/
theorem indexing_foldl (actions : List StoreOp) :
    let s := actions.foldl act empty
    (∀ (id : String) (event : NostrEvent), s.events[id]? = some event → event.id = id) ∧
      (∀ (key : ReplaceableKey) (id : String), s.replaceable key = some id ↔
        ∃ event, s.events[id]? = some event ∧ replaceableKey event = some key) ∧
      ∀ (key : ReplaceableKey) (id id' : String) (event event' : NostrEvent),
        s.events[id]? = some event → s.events[id']? = some event' →
          replaceableKey event = some key → replaceableKey event' = some key → id = id' := by
  have hconsistent := consistent_foldl actions consistent_empty
  refine ⟨hconsistent.keyed, hconsistent.indexed, fun key id id' event event' he he' hk hk' => ?_⟩
  exact hconsistent.eq_of_key he he' hk hk'

/-- A consistent state is known by its events. -/
theorem Consistent.ext {s t : MemoryStoreState} (hs : s.Consistent) (ht : t.Consistent)
    (h : ∀ (id : String) (event : NostrEvent), s.events[id]? = some event ↔ t.events[id]? = some event) :
    s = t := by
  have hevents : s.events = t.events :=
    Std.ExtTreeMap.ext_getElem? fun id => Option.ext fun event => h id event
  have hindex : s.replaceable = t.replaceable := by
    funext key
    refine Option.ext fun id => ?_
    rw [hs.indexed, ht.indexed, hevents]
  cases s
  cases t
  exact congrArg₂ MemoryStoreState.mk hevents hindex

theorem SameKey.symm {event x : NostrEvent} (h : SameKey event x) : SameKey x event := by
  obtain ⟨key, hevent, hx⟩ := h
  exact ⟨key, hx, hevent⟩

theorem SameKey.trans {event x y : NostrEvent} (h : SameKey event x) (h' : SameKey x y) :
    SameKey event y := by
  obtain ⟨key, hevent, hx⟩ := h
  obtain ⟨key', hx', hy⟩ := h'
  exact ⟨key, hevent, Option.some.inj (hx.symm.trans hx') ▸ hy⟩

end MemoryStoreState

/-! ### Replaceable events -/

namespace MemoryStore

open MemoryStoreState (SameKey Displaces)

/-- The events of a list are inserted one after the other. -/
def insertAll (store : MemoryStore) (events : List NostrEvent) : MemoryStore :=
  events.foldl (fun store event => (store.insert event).2) store

/-- The newest events of their keys, and the events without a key. -/
def Newest (events : List NostrEvent) (x : NostrEvent) : Prop :=
  x ∈ events ∧ ∀ y ∈ events, SameKey x y → y.createdAt ≤ x.createdAt

/-- Two events with one key were not made at the same time. -/
def Timed (events : List NostrEvent) : Prop :=
  events.Pairwise fun x y => SameKey x y → x.createdAt ≠ y.createdAt

/-- What is stored after some events: exactly the newest of each key, and for each of them one that is
not older. -/
structure Holds (store : MemoryStore) (events : List NostrEvent) : Prop where
  get : ∀ k x, store.get k = some x ↔ x.id = k ∧ Newest events x
  covered : ∀ y ∈ events, ∃ x, Newest events x ∧ (x = y ∨ SameKey y x) ∧ y.createdAt ≤ x.createdAt

theorem holds_new : Holds new [] where
  get k x := by simp [new, MemoryStore.get, Newest]
  covered := nofun

section Insertions

variable {store : MemoryStore} {events : List NostrEvent} {event x : NostrEvent}

theorem newest_append : Newest (events ++ [event]) x ↔
    (x ∈ events ∧ (∀ y ∈ events, SameKey x y → y.createdAt ≤ x.createdAt) ∨ x = event ∧
      ∀ y ∈ events, SameKey x y → y.createdAt ≤ x.createdAt) ∧
        (SameKey x event → event.createdAt ≤ x.createdAt) := by
  unfold Newest
  simp only [List.mem_append, List.mem_singleton, or_imp, forall_and, forall_eq]
  constructor
  · rintro ⟨hx, hold, hnew⟩
    exact ⟨hx.imp (fun hx => ⟨hx, hold⟩) fun hx => ⟨hx, hold⟩, hnew⟩
  · rintro ⟨⟨hx, hold⟩ | ⟨hx, hold⟩, hnew⟩
    · exact ⟨.inl hx, hold, hnew⟩
    · exact ⟨.inr hx, hold, hnew⟩

/-- Nothing is stored under the id of a new event. -/
theorem Holds.get_eq_none (h : Holds store events) (hid : ∀ y ∈ events, y.id ≠ event.id) :
    store.get event.id = none := by
  refine Option.eq_none_iff_forall_ne_some.2 fun x hx => ?_
  obtain ⟨heq, hmem, -⟩ := (h.get event.id x).1 hx
  exact hid x hmem heq

/-- An event is superseded when a stored event of its key is not older. -/
theorem Holds.superseded_iff (h : Holds store events) :
    store.state.Superseded event ↔ ∃ x, Newest events x ∧ SameKey event x ∧
      event.createdAt ≤ x.createdAt := by
  constructor
  · rintro ⟨k, x, hx, hsame, hle⟩
    exact ⟨x, ((h.get k x).1 hx).2, hsame, hle⟩
  · rintro ⟨x, hnewest, hsame, hle⟩
    exact ⟨x.id, x, (h.get x.id x).2 ⟨rfl, hnewest⟩, hsame, hle⟩

/-- A newer event takes the place of the stored one. -/
theorem Holds.insert_of_adds (h : Holds store events) (hid : ∀ y ∈ events, y.id ≠ event.id)
    (hkind : event.kind ≠ 5) (hadds : ¬ store.state.Superseded event) :
    Holds (store.insert event).2 (events ++ [event]) := by
  rw [h.superseded_iff] at hadds
  have hfirst : ∀ y ∈ events, SameKey event y → y.createdAt ≤ event.createdAt := by
    intro y hy hsame
    obtain ⟨x, hnewest, hsuccessor, hle⟩ := h.covered y hy
    have hsameX : SameKey event x := hsuccessor.elim (fun heq => heq ▸ hsame) hsame.trans
    by_contra hlater
    exact hadds ⟨x, hnewest, hsameX, by omega⟩
  have hevent : Newest (events ++ [event]) event :=
    newest_append.2 ⟨.inr ⟨rfl, hfirst⟩, fun _ => le_refl _⟩
  have hkept : ∀ x ∈ events, Newest (events ++ [event]) x ↔ Newest events x ∧ ¬ SameKey event x := by
    intro x hx
    rw [newest_append]
    constructor
    · rintro ⟨hold, hnew⟩
      have hnewest : Newest events x := hold.elim id fun hold => ⟨hx, hold.2⟩
      exact ⟨hnewest, fun hsame => hadds ⟨x, hnewest, hsame, hnew hsame.symm⟩⟩
    · rintro ⟨hnewest, hnot⟩
      exact ⟨.inl hnewest, fun hsame => absurd hsame.symm hnot⟩
  constructor
  · intro k x
    have hstored : store.Adds event := ⟨h.get_eq_none hid, by rwa [h.superseded_iff]⟩
    have hdisplaces : Displaces event x ↔ SameKey event x := by simp [Displaces, hkind]
    rw [get_insert_of_adds hstored, h.get, hdisplaces]
    constructor
    · rintro (⟨rfl, rfl⟩ | ⟨-, ⟨hk, hnewest⟩, hnot⟩)
      · exact ⟨rfl, hevent⟩
      · exact ⟨hk, (hkept x hnewest.1).2 ⟨hnewest, hnot⟩⟩
    · rintro ⟨rfl, hnewest⟩
      rcases List.mem_append.1 hnewest.1 with hx | hx
      · obtain ⟨hold, hnot⟩ := (hkept x hx).1 hnewest
        exact .inr ⟨(hid x hx).symm, ⟨rfl, hold⟩, hnot⟩
      · rw [List.mem_singleton.1 hx]
        exact .inl ⟨rfl, rfl⟩
  · intro y hy
    rcases List.mem_append.1 hy with hy | hy
    · obtain ⟨x, hnewest, hsuccessor, hle⟩ := h.covered y hy
      by_cases hsame : SameKey event x
      · have hsameY : SameKey y event :=
          hsuccessor.elim (fun heq => heq ▸ hsame.symm) fun hy => hy.trans hsame.symm
        exact ⟨event, hevent, .inr hsameY, hle.trans (hfirst x hnewest.1 hsame)⟩
      · exact ⟨x, (hkept x hnewest.1).2 ⟨hnewest, hsame⟩, hsuccessor, hle⟩
    · rw [List.mem_singleton.1 hy]
      exact ⟨event, hevent, .inl rfl, le_refl _⟩

/-- An older event is not stored. -/
theorem Holds.insert_of_superseded (h : Holds store events)
    (htimes : ∀ y ∈ events, SameKey y event → y.createdAt ≠ event.createdAt)
    (hsuperseded : store.state.Superseded event) :
    Holds (store.insert event).2 (events ++ [event]) := by
  obtain ⟨newer, hnewer, hsame, hle⟩ := h.superseded_iff.1 hsuperseded
  have hlater : event.createdAt < newer.createdAt :=
    lt_of_le_of_ne hle (htimes newer hnewer.1 hsame.symm).symm
  have hnewest : ∀ x, Newest (events ++ [event]) x ↔ Newest events x := by
    intro x
    rw [newest_append]
    constructor
    · rintro ⟨hold | ⟨rfl, hold⟩, -⟩
      · exact hold
      · exact absurd (hold newer hnewer.1 hsame) (not_le.2 hlater)
    · intro hold
      refine ⟨.inl hold, fun hx => ?_⟩
      exact hle.trans (hold.2 newer hnewer.1 (hx.trans hsame))
  constructor
  · intro k x
    rw [get_insert_of_not_adds fun hadds => hadds.2 hsuperseded, h.get, hnewest]
  · intro y hy
    rcases List.mem_append.1 hy with hy | hy
    · obtain ⟨x, hx, hsuccessor, hley⟩ := h.covered y hy
      exact ⟨x, (hnewest x).2 hx, hsuccessor, hley⟩
    · rw [List.mem_singleton.1 hy]
      exact ⟨newer, (hnewest newer).2 hnewer, .inr hsame, hle⟩

/-- The invariant of a run of insertions. -/
theorem Holds.insertAll {rest : List NostrEvent} (h : Holds store events)
    (hkinds : ∀ x ∈ rest, x.kind ≠ 5) (hids : ((events ++ rest).map NostrEvent.id).Nodup)
    (htimes : Timed (events ++ rest)) : Holds (store.insertAll rest) (events ++ rest) := by
  induction rest generalizing store events with
  | nil => rwa [List.append_nil]
  | cons event rest ih =>
    obtain ⟨hkind, hkinds⟩ := List.forall_mem_cons.1 hkinds
    have hnew : ∀ y ∈ events, y.id ≠ event.id := by
      rw [List.map_append, List.nodup_append] at hids
      exact fun y hy => hids.2.2 _ (List.mem_map_of_mem hy) _ (List.mem_map_of_mem List.mem_cons_self)
    have htime : ∀ y ∈ events, SameKey y event → y.createdAt ≠ event.createdAt :=
      fun y hy => (List.pairwise_append.1 htimes).2.2 y hy event List.mem_cons_self
    have hstep : Holds (store.insert event).2 (events ++ [event]) := by
      by_cases hsuperseded : store.state.Superseded event
      · exact h.insert_of_superseded htime hsuperseded
      · exact h.insert_of_adds hnew hkind hsuperseded
    rw [List.append_cons] at hids htimes ⊢
    exact ih hstep hkinds hids htimes

end Insertions

/-- Whatever the order in which they are inserted, events other than deletions that are told apart by
their ids, and by their times where they have one key, leave the same store: the events without a key,
and the newest event of each key. -/
theorem insertAll_perm {events order : List NostrEvent} (hkinds : ∀ x ∈ events, x.kind ≠ 5)
    (hids : (events.map NostrEvent.id).Nodup) (htimes : Timed events) (hperm : order.Perm events) :
    (insertAll new order).state = (insertAll new events).state ∧
      ∀ k x, (insertAll new order).get k = some x ↔ x.id = k ∧ x ∈ events ∧
        ∀ y ∈ events, SameKey x y → y.createdAt ≤ x.createdAt := by
  have hholds : Holds (insertAll new order) order := by
    refine holds_new.insertAll (fun x hx => hkinds x (hperm.mem_iff.1 hx)) ?_ ?_
    · exact (hperm.map NostrEvent.id).nodup_iff.2 hids
    · refine (hperm.pairwise_iff fun hxy hsame => ?_).2 htimes
      exact (hxy hsame.symm).symm
  have hsame : ∀ x, Newest order x ↔ Newest events x := by
    intro x
    unfold Newest
    simp only [hperm.mem_iff]
  have hevents : Holds (insertAll new events) events := holds_new.insertAll hkinds hids htimes
  refine ⟨?_, fun k x => ?_⟩
  · refine (insertAll new order).consistent.ext (insertAll new events).consistent fun k x => ?_
    exact (hholds.get k x).trans ((and_congr_right fun _ => hsame x).trans (hevents.get k x).symm)
  · rw [hholds.get, hsame]
    rfl

/-- A version of a profile. -/
def profileVersion (id : String) (createdAt : ℤ) : NostrEvent where
  id
  pubkey := "author"
  createdAt
  kind := 0
  tags := []
  content := ""
  sig := ""

/-- The newer version of a profile is stored, whichever comes first. -/
theorem insertAll_perm_profiles :
    (insertAll new [profileVersion "b" 2, profileVersion "a" 1]).state =
        (insertAll new [profileVersion "a" 1, profileVersion "b" 2]).state ∧
      (insertAll new [profileVersion "b" 2, profileVersion "a" 1]).get "a" = none := by
  have htimes : Timed [profileVersion "a" 1, profileVersion "b" 2] := by
    have hdistinct : [profileVersion "a" 1, profileVersion "b" 2].Pairwise fun x y =>
        x.createdAt ≠ y.createdAt := by
      decide
    unfold Timed
    refine hdistinct.imp ?_
    intro x y hxy _
    exact hxy
  have hperm : [profileVersion "b" 2, profileVersion "a" 1].Perm
      [profileVersion "a" 1, profileVersion "b" 2] := List.Perm.swap _ _ _
  obtain ⟨hsame, hget⟩ := insertAll_perm (by decide) (by decide) htimes hperm
  refine ⟨hsame, Option.eq_none_iff_forall_ne_some.2 fun x hx => ?_⟩
  obtain ⟨hid, hmem, hnewest⟩ := (hget "a" x).1 hx
  rcases List.mem_pair.1 hmem with rfl | rfl
  · exact absurd (hnewest (profileVersion "b" 2) (by simp) ⟨⟨0, "author", none⟩, rfl, rfl⟩) (by decide)
  · exact absurd hid (by decide)

end MemoryStore
end Gittree
