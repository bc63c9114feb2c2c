import Gittree.Relay.MemoryRuns
import Gittree.Relay.MemorySession

/-!
# Retention

`Session::apply_retention` of `services/relay/src/session.rs` on a memory store: the events up to a time
are queried, a hundred at most, and deleted, until a query finds none.

Every event of an answer is stored, so that a round makes the store smaller, and the loop ends; an
answer is empty only when no event up to the time is left.

* `query_retention`: what a query of the loop finds;
* `get_retentionLoop`: what the loop leaves;
* `applyRetention_memory`: which events are kept.
-/

namespace Gittree

open Rust

namespace MemoryStoreState

/-- The filter of the loop looks at the time only. -/
theorem accepts_retentionFilter {cutoff : ℤ} {event : NostrEvent} {tags : TagIndex} :
    (Session.retentionFilter cutoff).matches event tags = decide (event.createdAt ≤ cutoff) := by
  simp [Session.retentionFilter, Filter.matches]

/-- What the inner loop of a query adds: events up to the time, and one at least if there is any. -/
theorem takeEvents_retention {cutoff : ℤ} {l : List NostrEvent}
    (h : ∀ x ∈ l, ∀ tag ∈ x.tags, TagIndex.Indexable tag) {remaining : ℕ}
    {results found : List NostrEvent}
    (hfound : takeEvents (Session.retentionFilter cutoff) remaining results l = .ok found) :
    (∀ x ∈ found, x ∈ results ∨ x ∈ l ∧ x.createdAt ≤ cutoff) ∧
      (found = [] → results = [] ∧ (remaining ≠ 0 → ∀ x ∈ l, cutoff < x.createdAt)) := by
  induction l generalizing remaining results with
  | nil =>
    cases hfound
    exact ⟨fun _ => .inl, fun hempty => ⟨hempty, fun _ => nofun⟩⟩
  | cons event rest ih =>
    obtain ⟨hevent, hrest⟩ := List.forall_mem_cons.1 h
    obtain ⟨index, hindex⟩ := TagIndex.fromTags_isOk_iff.2 hevent
    unfold takeEvents at hfound
    simp only [hindex, accepts_retentionFilter, decide_eq_true_eq] at hfound
    have hlater : ∀ {x}, x ∈ results ∨ x ∈ rest ∧ x.createdAt ≤ cutoff →
        x ∈ results ∨ x ∈ event :: rest ∧ x.createdAt ≤ cutoff := fun hx =>
      hx.imp_right fun hx => ⟨List.mem_cons_of_mem event hx.1, hx.2⟩
    split_ifs at hfound with hzero hseen hexpired
    · cases hfound
      exact ⟨fun _ => .inl, fun hempty => ⟨hempty, fun hne => absurd hzero hne⟩⟩
    · obtain ⟨hmem, hnone⟩ := ih hrest hfound
      refine ⟨fun x hx => hlater (hmem x hx), fun hempty => ?_⟩
      rw [(hnone hempty).1] at hseen
      cases hseen
    · obtain ⟨hmem, hnone⟩ := ih hrest hfound
      refine ⟨fun x hx => ?_, fun hempty => absurd (hnone hempty).1 (by simp)⟩
      rcases hmem x hx with hx | hx
      · rcases List.mem_append.1 hx with hx | hx
        · exact .inl hx
        · rw [List.mem_singleton.1 hx]
          exact .inr ⟨List.mem_cons_self, hexpired⟩
      · exact hlater (.inr hx)
    · obtain ⟨hmem, hnone⟩ := ih hrest hfound
      refine ⟨fun x hx => hlater (hmem x hx), fun hempty => ⟨(hnone hempty).1, fun hne => ?_⟩⟩
      exact List.forall_mem_cons.2 ⟨not_le.1 hexpired, (hnone hempty).2 hne⟩

end MemoryStoreState

namespace MemoryStore

variable {store : MemoryStore} {cutoff : ℤ}

/-- A query of the loop finds stored events up to the time, and none only if there are none. -/
theorem query_retention (cutoff : ℤ) (h : store.state.Indexed) :
    ∃ found, store.query [Session.retentionFilter cutoff] = .ok found ∧
      (∀ x ∈ found, store.get x.id = some x ∧ x.createdAt ≤ cutoff) ∧
        (found = [] ↔ ∀ k x, store.get k = some x → cutoff < x.createdAt) := by
  obtain ⟨found, hfound⟩ := MemoryStoreState.query_isOk h [Session.retentionFilter cutoff]
  have htake : MemoryStoreState.takeEvents (Session.retentionFilter cutoff) 100 []
      (store.state.events.values.insertionSort RepositoryStore.before) = .ok found := by
    have hquery := hfound
    unfold MemoryStoreState.query at hquery
    simp only [MemoryStoreState.queryFilters, Result.bind_eq_ok] at hquery
    obtain ⟨results, hresults, heq⟩ := hquery
    cases heq
    exact hresults
  have hordered : ∀ x, x ∈ store.state.events.values.insertionSort RepositoryStore.before ↔
      ∃ k, store.get k = some x := by
    intro x
    rw [List.mem_insertionSort, Map.mem_values]
    rfl
  obtain ⟨hmem, hnone⟩ := MemoryStoreState.takeEvents_retention (fun x hx => by
    obtain ⟨k, hk⟩ := (hordered x).1 hx
    exact h k x hk) htake
  have hstored : ∀ x ∈ found, store.get x.id = some x ∧ x.createdAt ≤ cutoff := by
    intro x hx
    obtain ⟨hordered', hexpired⟩ := (hmem x hx).resolve_left List.not_mem_nil
    obtain ⟨k, hk⟩ := (hordered x).1 hordered'
    exact ⟨store.consistent.keyed k x hk ▸ hk, hexpired⟩
  refine ⟨found, hfound, hstored, fun hempty k x hx => ?_, fun hlater => ?_⟩
  · exact (hnone hempty).2 (by decide) x ((hordered x).2 ⟨k, hx⟩)
  · refine List.eq_nil_iff_forall_not_mem.2 fun x hx => ?_
    obtain ⟨hget, hexpired⟩ := hstored x hx
    exact absurd hexpired (not_le.2 (hlater _ x hget))

theorem get_delete (id k : String) :
    (store.delete id).2.get k = if id = k then none else store.get k :=
  MemoryStoreState.get_removeEvent store.state id k

theorem size_delete_le (id : String) :
    (store.delete id).2.state.events.size ≤ store.state.events.size := by
  show (store.state.removeEvent id).2.events.size ≤ _
  unfold MemoryStoreState.removeEvent
  split
  · exact le_refl _
  · exact Std.ExtTreeMap.size_erase_le

/-- The deletion of a stored event makes the store smaller. -/
theorem size_delete_lt {id : String} {x : NostrEvent} (h : store.get id = some x) :
    (store.delete id).2.state.events.size < store.state.events.size := by
  have hget : store.state.events[id]? = some x := h
  have hmem : id ∈ store.state.events := Map.mem_iff.2 ⟨x, hget⟩
  have hremoved : (store.state.removeEvent id).2.events = store.state.events.erase id := by
    unfold MemoryStoreState.removeEvent
    rw [hget]
  show (store.state.removeEvent id).2.events.size < _
  rw [hremoved, Std.ExtTreeMap.size_erase, if_pos (Std.ExtTreeMap.contains_iff_mem.2 hmem)]
  have hpositive : store.state.events.size ≠ 0 := by
    intro hzero
    rw [Std.ExtTreeMap.eq_empty_iff_size_eq_zero.2 hzero] at hmem
    exact Std.ExtTreeMap.not_mem_empty hmem
  omega

/-- A round of the loop removes the events that were found, and makes the store smaller. -/
theorem deleteEvents_memory (found : List NostrEvent) (store : MemoryStore) :
    ∃ after : MemoryStore, Session.deleteEvents eventStore store found = (true, after) ∧
      after.state.events.size ≤ store.state.events.size ∧
        ∀ k x, after.get k = some x ↔ store.get k = some x ∧ ∀ y ∈ found, y.id ≠ k := by
  induction found generalizing store with
  | nil => exact ⟨store, rfl, le_refl _, fun k x => by simp⟩
  | cons event rest ih =>
    obtain ⟨after, hrun, hsize, hget⟩ := ih (store.delete event.id).2
    refine ⟨after, hrun, hsize.trans (size_delete_le event.id), fun k x => ?_⟩
    rw [hget, get_delete, List.forall_mem_cons]
    split_ifs with hk
    · simp [hk]
    · simp [hk]

theorem indexed_of_get {after : MemoryStore} (h : store.state.Indexed)
    (hget : ∀ k x, after.get k = some x → store.get k = some x) : after.state.Indexed :=
  fun k x hx => h k x (hget k x hx)

/-- The loop leaves the events after the time, if it may go on for more rounds than there are
events. -/
theorem get_retentionLoop (h : store.state.Indexed) {rounds : ℕ}
    (hrounds : store.state.events.size < rounds) (k : String) (x : NostrEvent) :
    (Session.retentionLoop eventStore cutoff rounds store).get k = some x ↔
      store.get k = some x ∧ cutoff < x.createdAt := by
  induction rounds generalizing store with
  | zero => exact absurd hrounds (by omega)
  | succ rounds ih =>
    obtain ⟨found, hquery, hstored, hnone⟩ := query_retention cutoff h
    have hquery : eventStore.query store [Session.retentionFilter cutoff] = .ok found := hquery
    unfold Session.retentionLoop
    rw [hquery]
    cases found with
    | nil => exact (and_iff_left_of_imp fun hx => hnone.1 rfl k x hx).symm
    | cons event rest =>
      obtain ⟨after, hrun, hsize, hget⟩ := deleteEvents_memory rest (store.delete event.id).2
      have hround : Session.deleteEvents eventStore store (event :: rest) = (true, after) := hrun
      have hsmaller := size_delete_lt (hstored event List.mem_cons_self).1
      have hkept : ∀ k x, after.get k = some x ↔
          store.get k = some x ∧ ∀ y ∈ event :: rest, y.id ≠ k := by
        intro k x
        rw [hget, get_delete, List.forall_mem_cons]
        split_ifs with hk
        · simp [hk]
        · simp [hk]
      simp only [hround]
      rw [ih (indexed_of_get h fun k x hx => ((hkept k x).1 hx).1) (by omega), hkept, and_assoc]
      refine and_congr_right fun hx => and_iff_right_of_imp fun hlater y hy hid => ?_
      obtain ⟨hfound, hexpired⟩ := hstored y hy
      rw [hid, hx] at hfound
      exact absurd (Option.some.inj hfound ▸ hexpired) (not_le.2 hlater)

/-- Retention ends, at a query that finds nothing, and keeps exactly the events after the time; without
a positive age it changes nothing. -/
theorem applyRetention_memory (h : store.state.Indexed) (s : Session) (now : ℤ) :
    (∀ maxAge, s.policy.retentionMaxAgeSeconds = some maxAge → 0 < maxAge →
      let cutoff := max i64Min (now - maxAge)
      let after := s.applyRetention eventStore now store
      (∀ rounds, store.state.events.size < rounds →
        Session.retentionLoop eventStore cutoff rounds store = after) ∧
      after.query [Session.retentionFilter cutoff] = .ok [] ∧ after.state.Consistent ∧
        ∀ k x, after.get k = some x ↔ store.get k = some x ∧ cutoff < x.createdAt) ∧
    ((∀ maxAge ∈ s.policy.retentionMaxAgeSeconds, maxAge ≤ 0) →
      s.applyRetention eventStore now store = store) := by
  constructor
  · intro maxAge hage hpositive cutoff after
    have hafter : after = Session.retentionLoop eventStore cutoff
        (store.state.events.size + 1) store := by
      show s.applyRetention eventStore now store = _
      unfold Session.applyRetention
      rw [hage]
      simp only [if_neg (not_le.2 hpositive)]
      rfl
    have hget : ∀ k x, after.get k = some x ↔ store.get k = some x ∧ cutoff < x.createdAt := by
      rw [hafter]
      exact get_retentionLoop h (Nat.lt_succ_self _)
    refine ⟨fun rounds hrounds => ?_, ?_, after.consistent, hget⟩
    · have hstate : (Session.retentionLoop eventStore cutoff rounds store).state = after.state :=
        (MemoryStore.consistent _).ext after.consistent fun k x =>
          (get_retentionLoop h hrounds k x).trans (hget k x).symm
      exact (MemoryStore.mk.injEq _ _ _ _).mpr hstate
    · have hindexed : after.state.Indexed := indexed_of_get h fun k x hx => ((hget k x).1 hx).1
      obtain ⟨found, hquery, -, hnone⟩ := query_retention cutoff hindexed
      rw [hquery, hnone.2 fun k x hx => ((hget k x).1 hx).2]
  · intro hages
    unfold Session.applyRetention
    split
    · rfl
    · rename_i maxAge hage
      exact if_pos (hages maxAge hage)

/-- A note that is older than the retention allows is removed. -/
theorem applyRetention_memory_note :
    (Session.applyRetention { policy := { retentionMaxAgeSeconds := some 5 } } eventStore 10
      (new.insert Relay.note).2).get Relay.note.id = none := by
  have hnew : new.state.Indexed := fun k x hx => by simp [new] at hx
  have hindexed : (new.insert Relay.note).2.state.Indexed :=
    indexed_insert hnew (List.forall_mem_nil _)
  obtain ⟨hkept, -⟩ := applyRetention_memory hindexed
    { policy := { retentionMaxAgeSeconds := some 5 } } 10
  obtain ⟨-, -, -, hget⟩ := hkept 5 rfl (by decide)
  refine Option.eq_none_iff_forall_ne_some.2 fun x hx => ?_
  obtain ⟨hstored, hlater⟩ := (hget _ x).1 hx
  have hnote : (new.insert Relay.note).2.get Relay.note.id = some Relay.note := by decide +kernel
  obtain rfl := Option.some.inj (hnote.symm.trans hstored)
  exact absurd hlater (by decide)

end MemoryStore
end Gittree
