import Gittree.Relay.StoreReads
import Gittree.Relay.Tenancy

/-!
# A session over the memory store

The session checks an event with `verify` and `Policy::validate_event`, and `MemoryStore::insert`
takes whatever passes.  Neither looks at what `TagIndex::from_tags` refuses, a tag without a name or
with a blank name or value, but `MemoryStore::query` builds the index of every event it goes
through, and fails with the first refusal.

* `query_isOk`: a store whose events can be indexed answers every query;
* `indexed_step`: what a message leaves in the store;
* `readable_of_reach`: while no event with such a tag is submitted, every query is answered, and
  one that is submitted ends this;
* `not_readable`: one signed event after which a query fails.
-/

namespace Gittree

open Rust

/-! ### Queries that are answered -/

namespace MemoryStoreState

theorem takeEvents_isOk (filter : Filter) {l : List NostrEvent}
    (h : ∀ x ∈ l, ∀ tag ∈ x.tags, TagIndex.Indexable tag) (remaining : ℕ)
    (results : List NostrEvent) :
    ∃ found, takeEvents filter remaining results l = .ok found := by
  induction l generalizing remaining results with
  | nil => exact ⟨results, rfl⟩
  | cons event rest ih =>
    obtain ⟨hevent, hrest⟩ := List.forall_mem_cons.1 h
    obtain ⟨index, hindex⟩ := TagIndex.fromTags_isOk_iff.2 hevent
    unfold takeEvents
    rw [hindex]
    split_ifs
    · exact ⟨results, rfl⟩
    · exact ih hrest _ _
    · simp only
      split_ifs
      · exact ih hrest _ _
      · exact ih hrest _ _

theorem queryFilters_isOk (filters : List Filter) {l : List NostrEvent}
    (h : ∀ x ∈ l, ∀ tag ∈ x.tags, TagIndex.Indexable tag) (results : List NostrEvent) :
    ∃ found, queryFilters l results filters = .ok found := by
  induction filters generalizing results with
  | nil => exact ⟨results, rfl⟩
  | cons filter rest ih =>
    obtain ⟨found, hfound⟩ :=
      takeEvents_isOk filter h (filter.limit.getD (2 ^ 64 - 1)) results
    obtain ⟨all, hall⟩ := ih found
    refine ⟨all, ?_⟩
    simp only [queryFilters, Result.bind_eq_ok]
    exact ⟨found, hfound, hall⟩

/-- A store whose events can be indexed answers every query. -/
theorem query_isOk {s : MemoryStoreState} (h : s.Indexed) (filters : List Filter) :
    ∃ found, s.query filters = .ok found := by
  refine queryFilters_isOk filters (fun x hx => ?_) []
  rw [List.mem_insertionSort, Map.mem_values] at hx
  obtain ⟨k, hk⟩ := hx
  exact h k x hk

/-- A filter that accepts whatever comes takes all of it. -/
theorem takeEvents_all {filter : Filter} {l results : List NostrEvent} {remaining : ℕ}
    (haccepts : ∀ x ∈ l, filter.accepts x = true)
    (hnodup : ((results ++ l).map NostrEvent.id).Nodup) (hremaining : l.length ≤ remaining) :
    takeEvents filter remaining results l = .ok (results ++ l) := by
  induction l generalizing results remaining with
  | nil => rw [takeEvents, List.append_nil]
  | cons event rest ih =>
    obtain ⟨hevent, hrest⟩ := List.forall_mem_cons.1 haccepts
    have hfresh : (results.any fun other => other.id == event.id) = false := by
      rw [List.any_eq_false]
      intro other hother hid
      rw [List.map_append, List.map_cons] at hnodup
      exact (List.nodup_append.1 hnodup).2.2 _ (List.mem_map_of_mem hother) _ List.mem_cons_self
        (beq_iff_eq.1 hid)
    unfold takeEvents
    rw [if_neg (by rw [List.length_cons] at hremaining; omega), if_neg (by rw [hfresh]; decide)]
    unfold Filter.accepts at hevent
    split at hevent
    · simp only [*, if_true]
      rw [ih hrest (by simpa using hnodup) (by rw [List.length_cons] at hremaining; omega)]
      simp
    · cases hevent

end MemoryStoreState

namespace MemoryStore

/-- The stored events are told apart by their ids. -/
theorem nodup_map_id (store : MemoryStore) :
    (store.state.events.values.map NostrEvent.id).Nodup := by
  have hids : store.state.events.values.map NostrEvent.id =
      store.state.events.toList.map Prod.fst := by
    unfold Map.values
    rw [List.map_map]
    refine List.map_congr_left fun entry hentry => ?_
    exact store.consistent.keyed entry.1 entry.2
      (Std.ExtTreeMap.mem_toList_iff_getElem?_eq_some.1 hentry)
  rw [hids, List.nodup_iff_pairwise_ne, List.pairwise_map]
  exact store.state.events.pairwise_lt_toList.imp fun h => ne_of_lt h

/-- A filter without conditions finds everything. -/
theorem query_all {store : MemoryStore} (hindex : store.state.Indexed)
    (hlength : store.state.events.values.length ≤ 2 ^ 64 - 1) :
    store.query [{}] = .ok (store.state.events.values.insertionSort RepositoryStore.before) := by
  have hperm := List.perm_insertionSort RepositoryStore.before store.state.events.values
  have haccepts : ∀ x ∈ store.state.events.values.insertionSort RepositoryStore.before,
      Filter.accepts {} x = true := by
    intro x hx
    rw [List.mem_insertionSort, Map.mem_values] at hx
    obtain ⟨k, hk⟩ := hx
    obtain ⟨tags, htags⟩ := TagIndex.fromTags_isOk_iff.2 (hindex k x hk)
    unfold Filter.accepts
    rw [htags]
    rfl
  have htake : MemoryStoreState.takeEvents {} (2 ^ 64 - 1) []
      (store.state.events.values.insertionSort RepositoryStore.before) =
        .ok (store.state.events.values.insertionSort RepositoryStore.before) :=
    MemoryStoreState.takeEvents_all haccepts
      ((hperm.map NostrEvent.id).nodup_iff.2 store.nodup_map_id) (hperm.length_eq.trans_le hlength)
  unfold query MemoryStoreState.query MemoryStoreState.queryFilters
  simp only [Option.getD_none, htake]
  rfl

/-- `MemoryStore` as the store of a session. -/
def eventStore : EventStore MemoryStore where
  insert := fun store event => (.ok (store.insert event).1, (store.insert event).2)
  get := fun store id => .ok (store.get id)
  delete := fun store id => .ok (store.delete id)
  query := query
  size := fun store => store.state.events.size

theorem atomic_eventStore : eventStore.Atomic := fun _ _ _ _ h => by cases h

theorem indexed_delete {store : MemoryStore} (h : store.state.Indexed) (id : String) :
    (store.delete id).2.state.Indexed := by
  intro k x hx
  have hx : (store.state.removeEvent id).2.events[k]? = some x := hx
  rw [MemoryStoreState.get_removeEvent] at hx
  split_ifs at hx
  exact h k x hx

theorem indexed_insert {store : MemoryStore} (h : store.state.Indexed) {event : NostrEvent}
    (hevent : ∀ tag ∈ event.tags, TagIndex.Indexable tag) :
    (store.insert event).2.state.Indexed := by
  intro k x hx
  have hx : (store.insert event).2.get k = some x := hx
  by_cases hadds : store.Adds event
  · rcases (get_insert_of_adds hadds).1 hx with ⟨-, rfl⟩ | ⟨-, hx, -⟩
    · exact hevent
    · exact h k x hx
  · rw [get_insert_of_not_adds hadds] at hx
    exact h k x hx

theorem indexed_applyRetention {store : MemoryStore} (h : store.state.Indexed) (s : Session)
    (now : ℤ) : (s.applyRetention eventStore now store).state.Indexed := by
  refine Session.applyRetention_of_delete (P := fun store : MemoryStore => store.state.Indexed)
    ?_ s now h
  rintro store id r hstore hd
  obtain rfl : store.delete id = r := Except.ok.inj hd
  exact indexed_delete hstore id

end MemoryStore

/-! ### The session -/

/-- A session over a memory store, with the events that it has accepted. -/
structure MemorySession where
  session : Session
  repos : Repos MemoryStore
  accepted : List NostrEvent

namespace MemorySession

/-- `handle_message`; an event is accepted when `store.insert` has answered. -/
def step (m : MemorySession) (action : ClientMessage × Env) :
    Option (MemorySession × List ServerMessage) :=
  let r := m.session.handleMessage MemoryStore.eventStore action.2 m.repos action.1
  some (⟨r.session, r.repos, m.accepted ++ r.insertion.toList.map Prod.fst⟩, r.responses)

/-- A session over a new store. -/
structure Fresh (m : MemorySession) : Prop where
  store : m.repos.store = MemoryStore.new
  accepted : m.accepted = []

/-- Every query is answered, and the tags of every accepted event can be indexed. -/
structure Readable (m : MemorySession) : Prop where
  query : ∀ filters, ∃ found, m.repos.store.query filters = .ok found
  accepted : ∀ event ∈ m.accepted, ∃ index, TagIndex.fromTags event.tags = .ok index

/-- Every tag of the event that a message submits has a name, and no blank name or value. -/
def Named (m : MemorySession) (action : ClientMessage × Env) : Prop :=
  ∀ event, m.session.Submits MemoryStore.eventStore action.2 m.repos action.1 event →
    ∀ tag ∈ event.tags, TagIndex.Indexable tag

/-- What is stored and what was accepted can be indexed. -/
structure Inv (m : MemorySession) : Prop where
  stored : m.repos.store.state.Indexed
  accepted : ∀ event ∈ m.accepted, ∀ tag ∈ event.tags, TagIndex.Indexable tag

theorem Fresh.inv {m : MemorySession} (h : m.Fresh) : m.Inv where
  stored := by
    intro k x hx
    rw [h.store] at hx
    simp [MemoryStore.new] at hx
  accepted := by simp [h.accepted]

theorem Inv.readable {m : MemorySession} (h : m.Inv) : m.Readable where
  query := MemoryStoreState.query_isOk h.stored
  accepted := fun event he => TagIndex.fromTags_isOk_iff.2 (h.accepted event he)

/-- What a message leaves in the store, and that the event it submits is accepted. -/
theorem step_cases {m t : MemorySession} {action : ClientMessage × Env} {o : List ServerMessage}
    (hstep : m.step action = some (t, o)) :
    (∃ event s, m.session.Submits MemoryStore.eventStore action.2 m.repos action.1 event ∧
      t.accepted = m.accepted ++ [event] ∧
      (t.repos.store = (m.repos.store.insert event).2 ∨
        t.repos.store = Session.applyRetention s MemoryStore.eventStore action.2.now
          (m.repos.store.insert event).2)) ∨
      (∀ event, ¬ m.session.Submits MemoryStore.eventStore action.2 m.repos action.1 event) ∧
        t.accepted = m.accepted ∧ t.repos.store = m.repos.store := by
  cases hstep
  by_cases hsub :
      ∃ event, m.session.Submits MemoryStore.eventStore action.2 m.repos action.1 event
  · obtain ⟨event, hsub⟩ := hsub
    obtain ⟨limiter, heq⟩ := hsub.handleMessage_eq
    have hinsert : MemoryStore.eventStore.insert m.repos.store event =
        (.ok (m.repos.store.insert event).1, (m.repos.store.insert event).2) := rfl
    refine Or.inl ⟨event, { m.session with rateLimiter := limiter }, hsub, ?_, ?_⟩
    · rw [heq, Session.insertion_storeEvent hinsert]
      rfl
    · rw [heq]
      exact Session.store_storeEvent hinsert _ _ (P := fun store =>
        store = (m.repos.store.insert event).2 ∨ store = Session.applyRetention _ _ _ _)
        (Or.inl rfl) (Or.inr rfl)
  · have hnone := not_exists.1 hsub
    obtain ⟨hstore, -, hins, -⟩ := Session.idle_of_not_submits hnone
    refine Or.inr ⟨hnone, ?_, hstore⟩
    rw [hins]
    exact List.append_nil _

/-- What is stored and accepted can still be indexed after a message that submits no other tags. -/
theorem Inv.step {m t : MemorySession} {action : ClientMessage × Env} {o : List ServerMessage}
    (h : m.Inv) (hok : m.Named action) (hstep : m.step action = some (t, o)) : t.Inv := by
  rcases step_cases hstep with ⟨event, s, hsub, hacc, hstore⟩ | ⟨-, hacc, hstore⟩
  · have hinsert := MemoryStore.indexed_insert h.stored (hok event hsub)
    refine ⟨?_, ?_⟩
    · rcases hstore with hstore | hstore
      · rwa [hstore]
      · rw [hstore]
        exact MemoryStore.indexed_applyRetention hinsert s _
    · rw [hacc]
      intro e he
      rcases List.mem_append.1 he with he | he
      · exact h.accepted e he
      · rw [List.mem_singleton.1 he]
        exact hok event hsub
  · exact ⟨hstore ▸ h.stored, hacc ▸ h.accepted⟩

/-- While every submitted event has well-formed tags, every query is answered and every accepted
event can be indexed; the next message keeps this if and only if the event it submits, if any, has
well-formed tags. -/
theorem readable_of_reach {m : MemorySession} (hreach : Runs.Reach step Named Fresh m) :
    m.Readable ∧ ∀ action t o, m.step action = some (t, o) → (t.Readable ↔ m.Named action) := by
  have hinv : m.Inv := hreach.invariant (fun _ h => h.inv) fun _ _ _ _ h hok hs => h.step hok hs
  refine ⟨hinv.readable, fun action t o hstep => ⟨?_, fun hok => (hinv.step hok hstep).readable⟩⟩
  intro hread event hsub
  have hmem : event ∈ t.accepted := by
    rcases step_cases hstep with ⟨event', s, hsub', hacc, -⟩ | ⟨hnone, -⟩
    · obtain ⟨_, hmsg, he⟩ := hsub.read
      obtain ⟨_, hmsg', he'⟩ := hsub'.read
      rw [hmsg] at hmsg'
      cases hmsg'
      rw [he] at he'
      cases he'
      rw [hacc]
      simp
    · exact absurd hsub (hnone event)
  exact TagIndex.fromTags_isOk_iff.1 (hread.accepted event hmem)

/-! ### Two runs -/

/-- A session without authentication, admission or retention over a new store. -/
def empty : MemorySession where
  session := {}
  repos := ⟨MemoryStore.new, ∅⟩
  accepted := []

theorem fresh_empty : empty.Fresh := ⟨rfl, rfl⟩

theorem readable_of_reach_note :
    ∃ m, Runs.Reach step Named Fresh m ∧ m.accepted = [Relay.note] ∧ m.Readable ∧
      ∀ action t o, m.step action = some (t, o) → (t.Readable ↔ m.Named action) := by
  have hrun : (Runs.exec step empty [(.event Relay.note.toValue, Relay.noteEnv)]).map
      (fun r => r.1.accepted) = some [Relay.note] := by decide +kernel
  obtain ⟨⟨m, outputs⟩, hexec, hacc⟩ := Option.map_eq_some_iff.1 hrun
  have hnamed : ∀ action ∈ [(ClientMessage.event Relay.note.toValue, Relay.noteEnv)],
      ∀ s : MemorySession, s.Named action := by
    intro action ha s event hsub
    obtain rfl := List.mem_singleton.1 ha
    obtain ⟨value, ⟨⟩, hread⟩ := hsub.read
    have hnote : NostrEvent.fromValue Relay.note.toValue = some Relay.note := by decide +kernel
    obtain rfl : Relay.note = event := Option.some.inj (hnote.symm.trans hread)
    intro tag ht
    cases ht
  have hreach : Runs.Reach step Named Fresh m := .of_exec (.start fresh_empty) hnamed hexec
  exact ⟨m, hreach, hacc, readable_of_reach hreach⟩

/-- A signed note that mentions nobody. -/
def blankMention : NostrEvent where
  id := "989fb628627b4107a1507a96cb364ca64e621b5159e480d67898f63ab2878020"
  pubkey := "f9308a019258c31049344f85f89d5229b531c845836f99b08601f113bce036f9"
  createdAt := 1
  kind := 1
  tags := [["p", ""]]
  content := "hello"
  sig := "fa01617a4018d64fb98423277185b47f5959a50c10cff28635e6d35a5130aa4d" ++
    "3234a0ac419208537f62831e1422cf1a853dd892b0d86160e71bf09856c083e1"

/-- The note is saved, and from then on a query without conditions fails. -/
theorem not_readable : ¬ ∀ m, Runs.Reach step (fun _ _ => True) Fresh m → m.Readable := by
  intro h
  have hrun : (Runs.exec step empty [(.event blankMention.toValue,
      { Relay.noteEnv with crypto := NostrEvent.signedBy [blankMention] })]).map
        (fun r => (r.2, r.1.repos.store.query [{}])) =
      some ([[.ok blankMention.id true "saved", .notice "invalid event tags"]],
        .error (.backend "tag value is empty")) := by decide +kernel
  obtain ⟨⟨m, outputs⟩, hexec, hfacts⟩ := Option.map_eq_some_iff.1 hrun
  have hreach : Runs.Reach step (fun _ _ => True) Fresh m :=
    .of_exec (.start fresh_empty) (fun _ _ _ => trivial) hexec
  obtain ⟨found, hfound⟩ := (h m hreach).query [{}]
  rw [(Prod.mk.inj hfacts).2] at hfound
  cases hfound

end MemorySession
end Gittree
