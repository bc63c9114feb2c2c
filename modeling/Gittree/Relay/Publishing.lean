import Gittree.Relay.RoundTrip
import Gittree.Relay.StoreCalls
import Gittree.Relay.StoreWrites

/-!
# Concurrent insertions

Any number of insertions of one tenant, interleaved at their repository calls.  An insertion of a
replaceable event asks for the records of its key, deletes them and inserts its own; nothing keeps
another insertion of the key from doing the same at the same time.

* `Publishing`: the table and the insertions under way, with one step for each repository call;
* `Phased`: the same with the phase of each insertion, which the programs follow;
* `Phased.Inv`: the invariant, when the insertions of one key ask and write one after the other;
* `newest_only`: what is stored once all insertions have finished.
-/

namespace Gittree

open Rust
open MemoryStoreState (SameKey)

instance (event x : NostrEvent) : Decidable (SameKey event x) :=
  decidable_of_iff ((replaceableKey event).isSome = true ∧ replaceableKey x = replaceableKey event)
    (by
      unfold SameKey
      cases replaceableKey event <;> simp)

/-- An insertion under way: its event, and what is left of its program. -/
structure InsertCall where
  event : NostrEvent
  program : StoreProg (Except StoreError StoreOutcome)

/-- The insertion has finished. -/
def InsertCall.isDone (call : InsertCall) : Bool :=
  match call.program with
  | .done _ => true
  | .call _ _ => false

/-- The next call of the insertion deletes or inserts. -/
def InsertCall.writes (call : InsertCall) : Bool :=
  match call.program with
  | .call (.deleteEvent _ _) _ => true
  | .call (.insertEvent _) _ => true
  | _ => false

/-- The table, and the insertions in the order in which they began. -/
structure Publishing where
  events : Events
  calls : List InsertCall

namespace Publishing

/-- A new insertion, or the next call of the insertion with an index. -/
inductive Action
  | begin (event : NostrEvent)
  | advance (index : ℕ)

/-- Nothing is stored and nothing has begun. -/
def empty : Publishing := ⟨∅, []⟩

/-- One step. -/
def step (tenantId : String) (s : Publishing) : Action → Option (Publishing × Unit)
  | .begin event =>
    some ({ s with calls := s.calls ++ [⟨event, StoreProg.insert tenantId event⟩] }, ())
  | .advance index =>
    match s.calls[index]? with
    | some ⟨event, .call c next⟩ =>
      some (⟨(c.perform s.events).2, s.calls.set index ⟨event, next (c.perform s.events).1⟩⟩, ())
    | _ => none

/-- The insertions that are considered: no deletions, and no two events of one key with the same
age. -/
def regular (s : Publishing) : Action → Bool
  | .begin event =>
    decide (event.kind ≠ 5) && s.calls.all fun call =>
      decide (SameKey event call.event → event.createdAt = call.event.createdAt →
        event.id = call.event.id)
  | .advance _ => true

/-- The steps that keep the insertions of one key apart.  Ids and authors are in lower case, and an
id stands for one key and age.  When an insertion asks for the records of its key, no other
insertion of the key is about to delete or insert, and all that the question finds has the key. -/
def exclusive (s : Publishing) : Action → Bool
  | .begin event =>
    decide (Hex.IsLower event.id) && decide (Hex.IsLower event.pubkey) && s.calls.all fun call =>
      decide (call.event.id = event.id →
        replaceableKey call.event = replaceableKey event ∧ call.event.createdAt = event.createdAt)
  | .advance index =>
    match s.calls[index]? with
    | some ⟨event, .call (.queryEvents query) _⟩ =>
      (s.calls.all fun call => !(call.writes && decide (SameKey event call.event))) &&
        s.events.table.values.all fun record =>
          !Events.matchesQuery query record || decide (SameKey event (recordToEvent record))
    | _ => true

/-- All insertions have finished. -/
def Settled (s : Publishing) : Prop := ∀ call ∈ s.calls, call.isDone = true

/-- For each replaceable key one event is stored: the newest of those that were inserted. -/
structure NewestOnly (tenantId : String) (s : Publishing) : Prop where
  unique : ∀ (k k' : String) (record record' : EventRecord), s.events.table[k]? = some record →
    s.events.table[k']? = some record' → SameKey (recordToEvent record) (recordToEvent record') →
      k = k'
  inserted : ∀ (k : String) (record : EventRecord), s.events.table[k]? = some record →
    ∃ call ∈ s.calls, RecordOf call.event tenantId record
  newest : ∀ call ∈ s.calls, ∀ outcome, call.program = .done (.ok outcome) →
    ∀ key, replaceableKey call.event = some key → ∃ (k : String) (record : EventRecord),
      s.events.table[k]? = some record ∧ replaceableKey (recordToEvent record) = some key ∧
        call.event.createdAt ≤ record.createdAt

end Publishing

/-! ### Phases -/

/-- How far an insertion has come. -/
inductive InsertPhase
  | started (record : EventRecord)
  | asking (key : ReplaceableKey) (record : EventRecord)
  | writing (record : EventRecord) (stale : List EventRecord)
  | finished (result : Except StoreError StoreOutcome)

namespace InsertPhase

/-- What is left of the program in a phase. -/
def program (tenantId : String) (event : NostrEvent) :
    InsertPhase → StoreProg (Except StoreError StoreOutcome)
  | .started record => StoreProg.insertNew tenantId event record
  | .asking key record => StoreProg.replace tenantId event key record
  | .writing record stale => StoreProg.write tenantId record stale
  | .finished result => .done result

/-- The first phase. -/
def init (tenantId : String) (event : NostrEvent) : InsertPhase :=
  match eventToRecord event tenantId with
  | .error err => .finished (.error err)
  | .ok record => .started record

/-- The next phase of an insertion that is no deletion, and the table after its call. -/
def next (tenantId : String) (event : NostrEvent) (events : Events) :
    InsertPhase → Option (InsertPhase × Events)
  | .started record =>
    if (events.getEvent tenantId record.id).isSome then some (.finished (.ok .duplicate), events)
    else
      match replaceableKey event with
      | none => some (.writing record [], events)
      | some key => some (.asking key record, events)
  | .asking key record =>
    if RepositoryStore.superseded tenantId events event key then
      some (.finished (.ok .duplicate), events)
    else some (.writing record (events.queryEvents (RepositoryStore.keyQuery tenantId key)), events)
  | .writing record (old :: rest) =>
    some (.writing record rest, (events.deleteEvent tenantId old.id).2)
  | .writing record [] => some (.finished (.ok .inserted), events.insertEvent record)
  | .finished _ => none

theorem program_init (tenantId : String) (event : NostrEvent) :
    (init tenantId event).program tenantId event = StoreProg.insert tenantId event := by
  unfold init StoreProg.insert
  cases eventToRecord event tenantId <;> rfl

/-- The program of a phase makes the call of the phase. -/
theorem program_next {tenantId : String} {event : NostrEvent} (hkind : event.kind ≠ 5)
    (events : Events) (phase : InsertPhase) {c : EventCall}
    {next : c.Answer → StoreProg (Except StoreError StoreOutcome)}
    (h : phase.program tenantId event = .call c next) :
    ∃ phase', phase.next tenantId event events = some (phase', (c.perform events).2) ∧
      next (c.perform events).1 = phase'.program tenantId event := by
  cases phase with
  | started record =>
    cases h
    show ∃ phase', InsertPhase.next tenantId event events (.started record) =
      some (phase', events) ∧ StoreProg.insertUnlessFound tenantId event record
        (events.getEvent tenantId record.id) = phase'.program tenantId event
    simp only [InsertPhase.next, StoreProg.insertUnlessFound]
    split_ifs with hfound
    · exact ⟨.finished (.ok .duplicate), rfl, rfl⟩
    · unfold StoreProg.insertRecord
      cases replaceableKey event with
      | none => exact ⟨.writing record [], rfl, rfl⟩
      | some key => exact ⟨.asking key record, rfl, rfl⟩
  | asking key record =>
    cases h
    show ∃ phase', InsertPhase.next tenantId event events (.asking key record) =
      some (phase', events) ∧ StoreProg.writeUnlessOld tenantId event record
        (events.queryEvents (RepositoryStore.keyQuery tenantId key)) =
          phase'.program tenantId event
    simp only [InsertPhase.next, StoreProg.writeUnlessOld]
    by_cases hold : RepositoryStore.superseded tenantId events event key = true
    · exact ⟨.finished (.ok .duplicate), if_pos hold, if_pos hold⟩
    · exact ⟨.writing record _, if_neg hold, if_neg hold⟩
  | writing record stale =>
    cases stale with
    | nil =>
      cases h
      exact ⟨.finished (.ok .inserted), rfl, rfl⟩
    | cons old rest =>
      cases h
      exact ⟨.writing record rest, rfl, rfl⟩
  | finished result => cases h

end InsertPhase

/-- An insertion with its phase. -/
structure PhasedCall where
  event : NostrEvent
  phase : InsertPhase

namespace PhasedCall

/-- The insertion that is in the phase. -/
def call (tenantId : String) (c : PhasedCall) : InsertCall :=
  ⟨c.event, c.phase.program tenantId c.event⟩

/-- The data of a phase belong to the event. -/
def Valid (tenantId : String) (c : PhasedCall) : Prop :=
  match c.phase with
  | .started record => RecordOf c.event tenantId record
  | .asking key record => RecordOf c.event tenantId record ∧ replaceableKey c.event = some key
  | .writing record stale =>
    RecordOf c.event tenantId record ∧ (replaceableKey c.event = none → stale = [])
  | .finished _ => True

/-- The insertion has asked for the records of its key and still has to delete those of a list. -/
def Writes (c : PhasedCall) (key : ReplaceableKey) (stale : List EventRecord) : Prop :=
  ∃ record, c.phase = .writing record stale ∧ replaceableKey c.event = some key

theorem Writes.writes {c : PhasedCall} {key : ReplaceableKey} {stale : List EventRecord}
    (h : c.Writes key stale) (tenantId : String) : (c.call tenantId).writes = true := by
  obtain ⟨record, hphase, -⟩ := h
  unfold call InsertCall.writes
  rw [hphase]
  cases stale <;> rfl

end PhasedCall

/-- The table, and the insertions with their phases. -/
structure Phased where
  events : Events
  calls : List PhasedCall

/-- The replaceable key of the event that a record holds. -/
def keyOf (record : EventRecord) : Option ReplaceableKey := replaceableKey (recordToEvent record)

namespace Phased

/-- The programs that are in the phases. -/
def publishing (tenantId : String) (a : Phased) : Publishing where
  events := a.events
  calls := a.calls.map (PhasedCall.call tenantId)

/-- The events of the insertions. -/
def published (a : Phased) : List NostrEvent := a.calls.map PhasedCall.event

/-- The state after the insertion at an index has come to another phase. -/
def advance (a : Phased) (i : ℕ) (c : PhasedCall) (phase : InsertPhase) (events : Events) :
    Phased where
  events := events
  calls := a.calls.set i ⟨c.event, phase⟩

section Advance

variable {a : Phased} {i : ℕ} {c : PhasedCall} {phase : InsertPhase} {events : Events}

theorem published_advance (hc : a.calls[i]? = some c) (phase : InsertPhase) (events : Events) :
    (a.advance i c phase events).published = a.published := by
  unfold advance published
  simp only [List.map_set]
  refine List.ext_getElem? fun j => ?_
  rw [List.getElem?_set, List.getElem?_map]
  split_ifs with hij hlt
  · rw [← hij, hc]
    rfl
  · rw [← hij, List.getElem?_eq_none (by simpa using hlt)]
    rfl
  · rfl

/-- The insertions after a step: the one that made it, and the others as they were. -/
theorem get_advance {j : ℕ} {d : PhasedCall}
    (hd : (a.advance i c phase events).calls[j]? = some d) :
    i = j ∧ d = ⟨c.event, phase⟩ ∨ i ≠ j ∧ a.calls[j]? = some d := by
  unfold advance at hd
  rw [List.getElem?_set] at hd
  split_ifs at hd with hij hlt
  · exact Or.inl ⟨hij, (Option.some.inj hd).symm⟩
  · exact Or.inr ⟨hij, hd⟩

theorem get_advance_self (hc : a.calls[i]? = some c) :
    (a.advance i c phase events).calls[i]? = some ⟨c.event, phase⟩ := by
  unfold advance
  obtain ⟨hlt, -⟩ := List.getElem?_eq_some_iff.1 hc
  exact List.getElem?_set_self hlt

theorem get_advance_ne {j : ℕ} (hij : i ≠ j) :
    (a.advance i c phase events).calls[j]? = a.calls[j]? := by
  unfold advance
  exact List.getElem?_set_ne hij

end Advance

/-! ### The invariant -/

/-- The events that have begun: no deletions, lower-case ids and authors, and ids that stand for one
key and age. -/
structure Admitted (events : List NostrEvent) : Prop where
  kind : ∀ e ∈ events, e.kind ≠ 5
  id : ∀ e ∈ events, Hex.IsLower e.id
  pubkey : ∀ e ∈ events, Hex.IsLower e.pubkey
  same : ∀ e ∈ events, ∀ e' ∈ events, e.id = e'.id →
    replaceableKey e = replaceableKey e' ∧ e.createdAt = e'.createdAt

/-- A record of one of the events. -/
def Holds (tenantId : String) (events : List NostrEvent) (record : EventRecord) : Prop :=
  ∃ event ∈ events, RecordOf event tenantId record

theorem Admitted.keyOf_eq {tenantId : String} {events : List NostrEvent} (h : Admitted events)
    {event : NostrEvent} (he : event ∈ events) {record : EventRecord}
    (hof : RecordOf event tenantId record) : keyOf record = replaceableKey event :=
  hof.replaceableKey_eq (h.pubkey event he)

/-- Records with one id have one key and age. -/
theorem Admitted.same_id {tenantId : String} {events : List NostrEvent} (h : Admitted events)
    {r r' : EventRecord} (hr : Holds tenantId events r) (hr' : Holds tenantId events r')
    (hid : r.id = r'.id) : keyOf r = keyOf r' ∧ r.createdAt = r'.createdAt := by
  obtain ⟨e, he, hof⟩ := hr
  obtain ⟨e', he', hof'⟩ := hr'
  have hsame : e.id = e'.id :=
    eq_of_decode_eq (h.id e he) (h.id e' he') hof.id (hid ▸ hof'.id)
  rw [h.keyOf_eq he hof, h.keyOf_eq he' hof', hof.createdAt_eq, hof'.createdAt_eq]
  exact h.same e he e' he' hsame

/-- An event of the key that is not older is stored, or about to be. -/
def Covered (a : Phased) (key : ReplaceableKey) (createdAt : ℤ) : Prop :=
  (∃ (k : String) (record : EventRecord), a.events.table[k]? = some record ∧
    keyOf record = some key ∧ createdAt ≤ record.createdAt) ∨
  ∃ (i : ℕ) (c : PhasedCall) (stale : List EventRecord), a.calls[i]? = some c ∧
    c.Writes key stale ∧ createdAt ≤ c.event.createdAt

/-- The invariant. -/
structure Inv (tenantId : String) (a : Phased) : Prop where
  admitted : Admitted a.published
  valid : ∀ (i : ℕ) (c : PhasedCall), a.calls[i]? = some c → c.Valid tenantId
  stored : ∀ (k : String) (record : EventRecord), a.events.table[k]? = some record →
    Holds tenantId a.published record
  unique : ∀ (k k' : String) (record record' : EventRecord) (key : ReplaceableKey),
    a.events.table[k]? = some record → a.events.table[k']? = some record' →
      keyOf record = some key → keyOf record' = some key → k = k'
  apart : ∀ (i j : ℕ) (c d : PhasedCall) (key : ReplaceableKey) (stale stale' : List EventRecord),
    a.calls[i]? = some c → a.calls[j]? = some d → c.Writes key stale → d.Writes key stale' → i = j
  found : ∀ (i : ℕ) (c : PhasedCall) (key : ReplaceableKey) (stale : List EventRecord),
    a.calls[i]? = some c → c.Writes key stale → ∀ (k : String) (record : EventRecord),
      a.events.table[k]? = some record → keyOf record = some key → record ∈ stale
  older : ∀ (i : ℕ) (c : PhasedCall) (key : ReplaceableKey) (stale : List EventRecord),
    a.calls[i]? = some c → c.Writes key stale → ∀ old ∈ stale,
      Holds tenantId a.published old ∧ keyOf old = some key ∧ old.createdAt < c.event.createdAt
  covered : ∀ (i : ℕ) (c : PhasedCall) (outcome : StoreOutcome) (key : ReplaceableKey),
    a.calls[i]? = some c → c.phase = .finished (.ok outcome) →
      replaceableKey c.event = some key → a.Covered key c.event.createdAt

/-! ### Steps keep the invariant -/

section Steps

variable {tenantId : String} {a : Phased} {i : ℕ} {c : PhasedCall} {phase : InsertPhase}

theorem Inv.event_mem (hc : a.calls[i]? = some c) : c.event ∈ a.published :=
  List.mem_map.2 ⟨c, List.mem_of_getElem? hc, rfl⟩

/-- A step that changes neither the table nor the insertions that write. -/
theorem Inv.quiet (h : a.Inv tenantId) (hc : a.calls[i]? = some c)
    (hvalid : PhasedCall.Valid tenantId ⟨c.event, phase⟩) (hold : ∀ key stale, ¬ c.Writes key stale)
    (hnew : ∀ key stale, ¬ PhasedCall.Writes ⟨c.event, phase⟩ key stale)
    (hcovered : ∀ outcome key, phase = .finished (.ok outcome) →
      replaceableKey c.event = some key → a.Covered key c.event.createdAt) :
    (a.advance i c phase a.events).Inv tenantId := by
  have hpub := published_advance hc phase a.events
  -- who writes after the step wrote before it
  have hwriter : ∀ (j : ℕ) (d : PhasedCall) (key : ReplaceableKey) (stale : List EventRecord),
      (a.advance i c phase a.events).calls[j]? = some d → d.Writes key stale →
        a.calls[j]? = some d := by
    intro j d key stale hd hw
    rcases get_advance hd with ⟨-, rfl⟩ | ⟨-, hd⟩
    · exact absurd hw (hnew key stale)
    · exact hd
  have hkeep : ∀ key createdAt, a.Covered key createdAt →
      (a.advance i c phase a.events).Covered key createdAt := by
    rintro key createdAt (hstored | ⟨j, d, stale, hd, hw, hle⟩)
    · exact Or.inl hstored
    · refine Or.inr ⟨j, d, stale, ?_, hw, hle⟩
      rwa [get_advance_ne]
      rintro rfl
      rw [hc, Option.some.injEq] at hd
      exact hold key stale (hd ▸ hw)
  constructor
  · rw [hpub]
    exact h.admitted
  · intro j d hd
    rcases get_advance hd with ⟨-, rfl⟩ | ⟨-, hd⟩
    · exact hvalid
    · exact h.valid j d hd
  · rw [hpub]
    exact h.stored
  · exact h.unique
  · intro j j' d d' key stale stale' hd hd' hw hw'
    exact h.apart j j' d d' key stale stale' (hwriter j d key stale hd hw)
      (hwriter j' d' key stale' hd' hw') hw hw'
  · intro j d key stale hd hw
    exact h.found j d key stale (hwriter j d key stale hd hw) hw
  · rw [hpub]
    intro j d key stale hd hw
    exact h.older j d key stale (hwriter j d key stale hd hw) hw
  · intro j d outcome key hd hphase hkey
    rcases get_advance hd with ⟨-, rfl⟩ | ⟨-, hd⟩
    · exact hkeep _ _ (hcovered outcome key hphase hkey)
    · exact hkeep _ _ (h.covered j d outcome key hd hphase hkey)

/-- The question for the records of a key, if no other insertion of the key is writing and all that
is found has the key. -/
theorem Inv.ask (h : a.Inv tenantId) (hc : a.calls[i]? = some c) {key : ReplaceableKey}
    {record : EventRecord} (hphase : c.phase = .asking key record)
    (hapart : ∀ (j : ℕ) (d : PhasedCall) (stale : List EventRecord), a.calls[j]? = some d →
      ¬ d.Writes key stale)
    (hfound : ∀ (k : String) (r : EventRecord), a.events.table[k]? = some r →
      RepositoryStore.AnswersKey tenantId key r → keyOf r = some key)
    (hold : RepositoryStore.superseded tenantId a.events c.event key = false) :
    (a.advance i c (.writing record
      (a.events.queryEvents (RepositoryStore.keyQuery tenantId key))) a.events).Inv tenantId := by
  have hpub := published_advance hc (.writing record
    (a.events.queryEvents (RepositoryStore.keyQuery tenantId key))) a.events
  have hvalid := h.valid i c hc
  unfold PhasedCall.Valid at hvalid
  rw [hphase] at hvalid
  obtain ⟨hof, hkey⟩ := hvalid
  have hlower : Hex.IsLower key.pubkey :=
    pubkey_of_replaceableKey hkey ▸ h.admitted.pubkey _ (Inv.event_mem hc)
  -- the answer consists of the stored records of the key, all of them older
  have hanswer : ∀ (k : String) (r : EventRecord), a.events.table[k]? = some r →
      (keyOf r = some key ↔ r ∈ a.events.queryEvents (RepositoryStore.keyQuery tenantId key)) := by
    intro k r hr
    rw [RepositoryStore.mem_queryEvents_key]
    constructor
    · intro hk
      obtain ⟨e, he, hre⟩ := h.stored k r hr
      refine ⟨a.events.keyed k r hr ▸ hr,
        (answersKey_iff (h.admitted.pubkey e he) hre hlower).2 (answers_of_replaceableKey ?_)⟩
      rw [← h.admitted.keyOf_eq he hre, hk]
    · rintro ⟨-, hans⟩
      exact hfound k r hr hans
  have hnew : PhasedCall.Writes ⟨c.event, .writing record
      (a.events.queryEvents (RepositoryStore.keyQuery tenantId key))⟩ key
        (a.events.queryEvents (RepositoryStore.keyQuery tenantId key)) := ⟨record, rfl, hkey⟩
  have hwriter : ∀ (j : ℕ) (d : PhasedCall) (key' : ReplaceableKey) (stale : List EventRecord),
      (a.advance i c (.writing record
        (a.events.queryEvents (RepositoryStore.keyQuery tenantId key))) a.events).calls[j]? =
          some d → d.Writes key' stale →
      i = j ∧ d.event = c.event ∧ key' = key ∧
        stale = a.events.queryEvents (RepositoryStore.keyQuery tenantId key) ∨
      i ≠ j ∧ a.calls[j]? = some d ∧ key' ≠ key := by
    intro j d key' stale hd hw
    rcases get_advance hd with ⟨hij, rfl⟩ | ⟨hij, hd⟩
    · obtain ⟨_, hp, hk⟩ := hw
      cases hp
      rw [hkey, Option.some.injEq] at hk
      exact Or.inl ⟨hij, rfl, hk.symm, rfl⟩
    · refine Or.inr ⟨hij, hd, fun hk => ?_⟩
      exact hapart j d stale hd (hk ▸ hw)
  constructor
  · rw [hpub]
    exact h.admitted
  · intro j d hd
    rcases get_advance hd with ⟨-, rfl⟩ | ⟨-, hd⟩
    · exact ⟨hof, by rw [hkey]; simp⟩
    · exact h.valid j d hd
  · rw [hpub]
    exact h.stored
  · exact h.unique
  · intro j j' d d' key' stale stale' hd hd' hw hw'
    rcases hwriter j d key' stale hd hw with ⟨hij, -, hk, -⟩ | ⟨-, hd, hk⟩
    · rcases hwriter j' d' key' stale' hd' hw' with ⟨hij', -, -, -⟩ | ⟨-, -, hk'⟩
      · exact hij.symm.trans hij'
      · exact absurd hk hk'
    · rcases hwriter j' d' key' stale' hd' hw' with ⟨-, -, hk', -⟩ | ⟨-, hd', -⟩
      · exact absurd hk' hk
      · exact h.apart j j' d d' key' stale stale' hd hd' hw hw'
  · intro j d key' stale hd hw k r hr hk
    rcases hwriter j d key' stale hd hw with ⟨-, -, rfl, rfl⟩ | ⟨-, hd, -⟩
    · exact (hanswer k r hr).1 hk
    · exact h.found j d key' stale hd hw k r hr hk
  · rw [hpub]
    intro j d key' stale hd hw old hm
    rcases hwriter j d key' stale hd hw with ⟨-, hevent, rfl, rfl⟩ | ⟨-, hd, -⟩
    · obtain ⟨hr, hans⟩ := RepositoryStore.mem_queryEvents_key.1 hm
      refine ⟨h.stored _ old hr, hfound _ old hr hans, ?_⟩
      rw [hevent]
      by_contra hle
      have hsup := RepositoryStore.superseded_iff.2 ⟨_, old, hr, hans, not_lt.1 hle⟩
      rw [hold] at hsup
      cases hsup
    · exact h.older j d key' stale hd hw old hm
  · intro j d outcome key' hd hdone hk
    rcases get_advance hd with ⟨-, rfl⟩ | ⟨-, hd⟩
    · cases hdone
    · rcases h.covered j d outcome key' hd hdone hk with hstored | ⟨j', d', stale, hd', hw, hle⟩
      · exact Or.inl hstored
      · refine Or.inr ⟨j', d', stale, ?_, hw, hle⟩
        rwa [get_advance_ne]
        rintro rfl
        obtain ⟨_, hp, -⟩ := hw
        rw [hc, Option.some.injEq] at hd'
        rw [← hd', hphase] at hp
        cases hp

/-- The deletion of a record of the key. -/
theorem Inv.delete (h : a.Inv tenantId) (hc : a.calls[i]? = some c) {record old : EventRecord}
    {rest : List EventRecord} (hphase : c.phase = .writing record (old :: rest)) :
    (a.advance i c (.writing record rest) (a.events.deleteEvent tenantId old.id).2).Inv
      tenantId := by
  have hpub := published_advance hc (.writing record rest) (a.events.deleteEvent tenantId old.id).2
  have hvalid := h.valid i c hc
  unfold PhasedCall.Valid at hvalid
  rw [hphase] at hvalid
  obtain ⟨hof, hnil⟩ := hvalid
  obtain ⟨key, hkey⟩ : ∃ key, replaceableKey c.event = some key := by
    cases hk : replaceableKey c.event with
    | none => cases hnil hk
    | some key => exact ⟨key, rfl⟩
  have hcw : c.Writes key (old :: rest) := ⟨record, hphase, hkey⟩
  obtain ⟨hholds, holdkey, holdage⟩ := h.older i c key _ hc hcw old List.mem_cons_self
  have hwithout := a.events.without_deleteEvent tenantId old.id
  -- who writes after the step wrote before it, this insertion with one record more
  have hwriter : ∀ (j : ℕ) (d : PhasedCall) (key' : ReplaceableKey) (stale : List EventRecord),
      (a.advance i c (.writing record rest) (a.events.deleteEvent tenantId old.id).2).calls[j]? =
          some d → d.Writes key' stale →
      ∃ d' stale', a.calls[j]? = some d' ∧ d'.Writes key' stale' ∧ d'.event = d.event ∧
        (stale' = stale ∨ i = j ∧ key' = key ∧ stale' = old :: stale) := by
    intro j d key' stale hd hw
    rcases get_advance hd with ⟨rfl, rfl⟩ | ⟨-, hd⟩
    · obtain ⟨_, hp, hk⟩ := hw
      cases hp
      rw [hkey, Option.some.injEq] at hk
      exact ⟨c, _, hc, hk ▸ hcw, rfl, Or.inr ⟨rfl, hk.symm, rfl⟩⟩
    · exact ⟨d, stale, hd, hw, rfl, Or.inl rfl⟩
  constructor
  · rw [hpub]
    exact h.admitted
  · intro j d hd
    rcases get_advance hd with ⟨-, rfl⟩ | ⟨-, hd⟩
    · exact ⟨hof, by rw [hkey]; simp⟩
    · exact h.valid j d hd
  · rw [hpub]
    intro k r hr
    exact h.stored k r ((hwithout k r).1 hr).1
  · intro k k' r r' key' hr hr'
    exact h.unique k k' r r' key' ((hwithout k r).1 hr).1 ((hwithout k' r').1 hr').1
  · intro j j' d d' key' stale stale' hd hd' hw hw'
    obtain ⟨e, _, he, hew, -, -⟩ := hwriter j d key' stale hd hw
    obtain ⟨e', _, he', hew', -, -⟩ := hwriter j' d' key' stale' hd' hw'
    exact h.apart j j' e e' key' _ _ he he' hew hew'
  · intro j d key' stale hd hw k r hr hk
    obtain ⟨hr, hnot⟩ := (hwithout k r).1 hr
    obtain ⟨d', stale', hd', hw', -, hs⟩ := hwriter j d key' stale hd hw
    have hm := h.found j d' key' stale' hd' hw' k r hr hk
    rcases hs with rfl | ⟨-, -, rfl⟩
    · exact hm
    · -- the deleted record is not stored any more
      refine (List.mem_cons.1 hm).resolve_left ?_
      rintro rfl
      obtain ⟨e, -, hre⟩ := hholds
      exact hnot ⟨hre.tenantId_eq, rfl⟩
  · rw [hpub]
    intro j d key' stale hd hw x hx
    obtain ⟨d', stale', hd', hw', hevent, hs⟩ := hwriter j d key' stale hd hw
    rw [← hevent]
    refine h.older j d' key' stale' hd' hw' x ?_
    rcases hs with rfl | ⟨-, -, rfl⟩
    · exact hx
    · exact List.mem_cons_of_mem _ hx
  · intro j d outcome key' hd hdone hk
    rcases get_advance hd with ⟨-, rfl⟩ | ⟨-, hd⟩
    · cases hdone
    · rcases h.covered j d outcome key' hd hdone hk with ⟨k, r, hr, hrk, hle⟩ | ⟨j', d', stale, hd',
        hw, hle⟩
      · by_cases hdeleted : r.tenantId = tenantId ∧ r.id = old.id
        · -- what the deletion takes away this insertion is about to replace
          obtain ⟨hkeys, hages⟩ := h.admitted.same_id (h.stored k r hr) hholds hdeleted.2
          rw [hrk, holdkey, Option.some.injEq] at hkeys
          refine Or.inr ⟨i, _, rest, get_advance_self hc, ⟨record, rfl, hkeys ▸ hkey⟩, ?_⟩
          exact hle.trans (hages ▸ holdage.le)
        · exact Or.inl ⟨k, r, (hwithout k r).2 ⟨hr, hdeleted⟩, hrk, hle⟩
      · by_cases hij : i = j'
        · subst hij
          rw [hc, Option.some.injEq] at hd'
          subst hd'
          obtain ⟨_, -, hk'⟩ := hw
          exact Or.inr ⟨i, _, rest, get_advance_self hc, ⟨record, rfl, hk'⟩, hle⟩
        · exact Or.inr ⟨j', d', stale, (get_advance_ne hij).trans hd', hw, hle⟩

/-- The insertion itself. -/
theorem Inv.insert (h : a.Inv tenantId) (hc : a.calls[i]? = some c) {record : EventRecord}
    (hphase : c.phase = .writing record []) :
    (a.advance i c (.finished (.ok .inserted)) (a.events.insertEvent record)).Inv tenantId := by
  have hpub := published_advance hc (.finished (.ok .inserted)) (a.events.insertEvent record)
  have hvalid := h.valid i c hc
  unfold PhasedCall.Valid at hvalid
  rw [hphase] at hvalid
  have hof : RecordOf c.event tenantId record := hvalid.1
  have hmem := Inv.event_mem hc
  have hkeyOf := h.admitted.keyOf_eq hmem hof
  have hcw : ∀ key, keyOf record = some key → c.Writes key [] :=
    fun key hk => ⟨record, hphase, hkeyOf ▸ hk⟩
  -- a stored record was there before, or is the new one under an id that was free
  have hget : ∀ (k : String) (r : EventRecord),
      (a.events.insertEvent record).table[k]? = some r → a.events.table[k]? = some r ∨
        k = eventKey record.id ∧ r = record := by
    intro k r hr
    rw [Events.get_insertEvent] at hr
    split_ifs at hr with hk
    · cases hold : a.events.table[eventKey record.id]? with
      | none =>
        rw [hold] at hr
        exact Or.inr ⟨hk.symm, (Option.some.inj hr).symm⟩
      | some r0 =>
        rw [hold] at hr
        exact Or.inl (hk ▸ hold.trans hr)
    · exact Or.inl hr
  have hstay : ∀ (k : String) (r : EventRecord), a.events.table[k]? = some r →
      (a.events.insertEvent record).table[k]? = some r := by
    intro k r hr
    rw [Events.get_insertEvent]
    split_ifs with hk
    · rw [hk, hr]
      rfl
    · exact hr
  have hself : ∀ key, keyOf record = some key →
      (a.events.insertEvent record).table[eventKey record.id]? = some record := by
    intro key hk
    rw [Events.get_insertEvent, if_pos rfl]
    cases hold : a.events.table[eventKey record.id]? with
    | none => rfl
    | some r0 =>
      -- a record with this id would have the key, and nothing with the key is left
      have hid : r0.id = record.id := (Events.eventKey_injective (a.events.keyed _ _ hold)).symm
      have hr0 := (h.admitted.same_id (h.stored _ r0 hold) ⟨_, hmem, hof⟩ hid).1
      exact absurd (h.found i c key [] hc (hcw key hk) _ r0 hold (hr0.trans hk)) List.not_mem_nil
  have hwriter : ∀ (j : ℕ) (d : PhasedCall) (key : ReplaceableKey) (stale : List EventRecord),
      (a.advance i c (.finished (.ok .inserted)) (a.events.insertEvent record)).calls[j]? =
        some d → d.Writes key stale → i ≠ j ∧ a.calls[j]? = some d := by
    intro j d key stale hd hw
    rcases get_advance hd with ⟨-, rfl⟩ | hd
    · obtain ⟨_, hp, -⟩ := hw
      cases hp
    · exact hd
  have hcover : ∀ key createdAt, a.Covered key createdAt →
      (a.advance i c (.finished (.ok .inserted)) (a.events.insertEvent record)).Covered key
        createdAt := by
    rintro key createdAt (⟨k, r, hr, hrk, hle⟩ | ⟨j, d, stale, hd, hw, hle⟩)
    · exact Or.inl ⟨k, r, hstay k r hr, hrk, hle⟩
    · by_cases hij : i = j
      · subst hij
        rw [hc, Option.some.injEq] at hd
        subst hd
        obtain ⟨_, -, hk⟩ := hw
        have hrk := hkeyOf.trans hk
        exact Or.inl ⟨_, record, hself key hrk, hrk, hof.createdAt_eq ▸ hle⟩
      · exact Or.inr ⟨j, d, stale, (get_advance_ne hij).trans hd, hw, hle⟩
  constructor
  · rw [hpub]
    exact h.admitted
  · intro j d hd
    rcases get_advance hd with ⟨-, rfl⟩ | ⟨-, hd⟩
    · exact trivial
    · exact h.valid j d hd
  · rw [hpub]
    intro k r hr
    rcases hget k r hr with hr | ⟨-, rfl⟩
    · exact h.stored k r hr
    · exact ⟨c.event, hmem, hof⟩
  · intro k k' r r' key hr hr' hk hk'
    rcases hget k r hr with hr | ⟨hnew, heq⟩
    · rcases hget k' r' hr' with hr' | ⟨-, heq⟩
      · exact h.unique k k' r r' key hr hr' hk hk'
      · exact absurd (h.found i c key [] hc (hcw key (heq ▸ hk')) k r hr hk) List.not_mem_nil
    · rcases hget k' r' hr' with hr' | ⟨hnew', -⟩
      · exact absurd (h.found i c key [] hc (hcw key (heq ▸ hk)) k' r' hr' hk') List.not_mem_nil
      · exact hnew.trans hnew'.symm
  · intro j j' d d' key stale stale' hd hd' hw hw'
    exact h.apart j j' d d' key stale stale' (hwriter j d key stale hd hw).2
      (hwriter j' d' key stale' hd' hw').2 hw hw'
  · intro j d key stale hd hw k r hr hk
    obtain ⟨hij, hd⟩ := hwriter j d key stale hd hw
    rcases hget k r hr with hr | ⟨-, heq⟩
    · exact h.found j d key stale hd hw k r hr hk
    · exact absurd (h.apart i j c d key [] stale hc hd (hcw key (heq ▸ hk)) hw) hij
  · rw [hpub]
    intro j d key stale hd hw
    exact h.older j d key stale (hwriter j d key stale hd hw).2 hw
  · intro j d outcome key hd hdone hk
    rcases get_advance hd with ⟨-, rfl⟩ | ⟨-, hd⟩
    · have hrk := hkeyOf.trans hk
      exact Or.inl ⟨_, record, hself key hrk, hrk, hof.createdAt_eq.ge⟩
    · exact hcover _ _ (h.covered j d outcome key hd hdone hk)

/-- The next call of an insertion. -/
theorem Inv.next (h : a.Inv tenantId) (hc : a.calls[i]? = some c) {events : Events}
    (hask : ∀ key record, c.phase = .asking key record →
      (∀ (j : ℕ) (d : PhasedCall) (stale : List EventRecord), a.calls[j]? = some d →
        ¬ d.Writes key stale) ∧
      ∀ (k : String) (r : EventRecord), a.events.table[k]? = some r →
        RepositoryStore.AnswersKey tenantId key r → keyOf r = some key)
    (hnext : c.phase.next tenantId c.event a.events = some (phase, events)) :
    (a.advance i c phase events).Inv tenantId := by
  have hvalid := h.valid i c hc
  unfold PhasedCall.Valid at hvalid
  cases hphase : c.phase with
  | started record =>
    rw [hphase] at hnext hvalid
    have hof : RecordOf c.event tenantId record := hvalid
    have hidle : ∀ key stale, ¬ c.Writes key stale := by
      rintro key stale ⟨_, hp, -⟩
      rw [hphase] at hp
      cases hp
    simp only [InsertPhase.next] at hnext
    split_ifs at hnext with hfound
    · -- the stored record with the id has the key and the age of the event
      cases hnext
      refine h.quiet hc trivial hidle (by rintro _ _ ⟨_, ⟨⟩, -⟩) fun _ key _ hkey => Or.inl ?_
      obtain ⟨r0, hr0⟩ := Option.isSome_iff_exists.1 hfound
      have hstored := (Events.getEvent_eq_some.1 hr0).1
      have hid : r0.id = record.id :=
        (Events.eventKey_injective (a.events.keyed _ _ hstored)).symm
      obtain ⟨hkeys, hages⟩ := h.admitted.same_id (h.stored _ r0 hstored)
        ⟨c.event, Inv.event_mem hc, hof⟩ hid
      refine ⟨_, r0, hstored, ?_, ?_⟩
      · rw [hkeys, h.admitted.keyOf_eq (Inv.event_mem hc) hof, hkey]
      · rw [hages, hof.createdAt_eq]
    · cases hkey : replaceableKey c.event with
      | none =>
        rw [hkey] at hnext
        cases hnext
        refine h.quiet hc ⟨hof, fun _ => rfl⟩ hidle ?_ (by rintro _ _ ⟨⟩)
        rintro key stale ⟨_, -, hk⟩
        rw [hkey] at hk
        cases hk
      | some key =>
        rw [hkey] at hnext
        cases hnext
        exact h.quiet hc ⟨hof, hkey⟩ hidle (by rintro _ _ ⟨_, ⟨⟩, -⟩) (by rintro _ _ ⟨⟩)
  | asking key record =>
    rw [hphase] at hnext hvalid
    obtain ⟨hapart, hfound⟩ := hask key record hphase
    have hidle : ∀ key stale, ¬ c.Writes key stale := by
      rintro key stale ⟨_, hp, -⟩
      rw [hphase] at hp
      cases hp
    simp only [InsertPhase.next] at hnext
    split_ifs at hnext with hold
    · cases hnext
      refine h.quiet hc trivial hidle (by rintro _ _ ⟨_, ⟨⟩, -⟩) fun _ key' _ hkey => Or.inl ?_
      obtain ⟨k, r, hr, hans, hle⟩ := RepositoryStore.superseded_iff.1 hold
      have hk : key = key' := Option.some.inj (hvalid.2.symm.trans hkey)
      exact ⟨k, r, hr, hk ▸ hfound k r hr hans, hle⟩
    · cases hnext
      exact h.ask hc hphase hapart hfound (Bool.not_eq_true _ ▸ hold)
  | writing record stale =>
    rw [hphase] at hnext
    cases stale with
    | nil =>
      cases hnext
      exact h.insert hc hphase
    | cons old rest =>
      cases hnext
      exact h.delete hc hphase
  | finished result =>
    rw [hphase] at hnext
    cases hnext

/-- The state after a new insertion. -/
def begin (tenantId : String) (a : Phased) (event : NostrEvent) : Phased where
  events := a.events
  calls := a.calls ++ [⟨event, InsertPhase.init tenantId event⟩]

/-- The first phase writes nothing, and it is no success. -/
theorem init_cases (tenantId : String) (event : NostrEvent) :
    PhasedCall.Valid tenantId ⟨event, InsertPhase.init tenantId event⟩ ∧
      (∀ key stale, ¬ PhasedCall.Writes ⟨event, InsertPhase.init tenantId event⟩ key stale) ∧
      ∀ outcome, InsertPhase.init tenantId event ≠ .finished (.ok outcome) := by
  unfold InsertPhase.init
  cases hrec : eventToRecord event tenantId with
  | error err => exact ⟨trivial, by rintro _ _ ⟨_, ⟨⟩, -⟩, by rintro _ ⟨⟩⟩
  | ok record =>
    exact ⟨eventToRecord_eq_ok.1 hrec, by rintro _ _ ⟨_, ⟨⟩, -⟩, by rintro _ ⟨⟩⟩

theorem Inv.begin (h : a.Inv tenantId) {event : NostrEvent}
    (hadmitted : Admitted (a.published ++ [event])) : (a.begin tenantId event).Inv tenantId := by
  obtain ⟨hvalid, hidle, hopen⟩ := init_cases tenantId event
  have hpub : (a.begin tenantId event).published = a.published ++ [event] := by
    simp [published, Phased.begin]
  have hholds : ∀ {r : EventRecord}, Holds tenantId a.published r →
      Holds tenantId (a.begin tenantId event).published r := by
    rintro r ⟨e, he, hof⟩
    exact ⟨e, hpub ▸ List.mem_append_left _ he, hof⟩
  have hget : ∀ (j : ℕ) (d : PhasedCall), (a.begin tenantId event).calls[j]? = some d →
      a.calls[j]? = some d ∨ d = ⟨event, InsertPhase.init tenantId event⟩ := by
    intro j d hd
    unfold Phased.begin at hd
    rw [List.getElem?_append] at hd
    split_ifs at hd
    · exact Or.inl hd
    · exact Or.inr (List.mem_singleton.1 (List.mem_of_getElem? hd))
  have hwriter : ∀ (j : ℕ) (d : PhasedCall) (key : ReplaceableKey) (stale : List EventRecord),
      (a.begin tenantId event).calls[j]? = some d → d.Writes key stale →
        a.calls[j]? = some d := by
    intro j d key stale hd hw
    refine (hget j d hd).resolve_right ?_
    rintro rfl
    exact hidle key stale hw
  constructor
  · rw [hpub]
    exact hadmitted
  · intro j d hd
    rcases hget j d hd with hd | rfl
    · exact h.valid j d hd
    · exact hvalid
  · intro k r hr
    exact hholds (h.stored k r hr)
  · exact h.unique
  · intro j j' d d' key stale stale' hd hd' hw hw'
    exact h.apart j j' d d' key stale stale' (hwriter j d key stale hd hw)
      (hwriter j' d' key stale' hd' hw') hw hw'
  · intro j d key stale hd hw
    exact h.found j d key stale (hwriter j d key stale hd hw) hw
  · intro j d key stale hd hw old hm
    obtain ⟨hold, hrest⟩ := h.older j d key stale (hwriter j d key stale hd hw) hw old hm
    exact ⟨hholds hold, hrest⟩
  · intro j d outcome key hd hdone hkey
    rcases hget j d hd with hd | rfl
    · rcases h.covered j d outcome key hd hdone hkey with hstored | ⟨j', d', stale, hd', hw, hle⟩
      · exact Or.inl hstored
      · refine Or.inr ⟨j', d', stale, ?_, hw, hle⟩
        obtain ⟨hlt, -⟩ := List.getElem?_eq_some_iff.1 hd'
        exact (List.getElem?_append_left hlt).trans hd'
    · exact absurd hdone (hopen outcome)

end Steps

/-! ### Runs -/

variable {tenantId : String} {a : Phased}

/-- The guard of a question, for the insertion in its phase. -/
theorem ask_of_exclusive (h : a.Inv tenantId) {i : ℕ} {c : PhasedCall}
    (hc : a.calls[i]? = some c)
    (he : (a.publishing tenantId).exclusive (.advance i) = true) {key : ReplaceableKey}
    {record : EventRecord} (hphase : c.phase = .asking key record) :
    (∀ (j : ℕ) (d : PhasedCall) (stale : List EventRecord), a.calls[j]? = some d →
      ¬ d.Writes key stale) ∧
    ∀ (k : String) (r : EventRecord), a.events.table[k]? = some r →
      RepositoryStore.AnswersKey tenantId key r → keyOf r = some key := by
  have hvalid := h.valid i c hc
  unfold PhasedCall.Valid at hvalid
  rw [hphase] at hvalid
  obtain ⟨-, hkey⟩ := hvalid
  have hget : (a.publishing tenantId).calls[i]? = some ⟨c.event,
      .call (.queryEvents (RepositoryStore.keyQuery tenantId key))
        (StoreProg.writeUnlessOld tenantId c.event record)⟩ := by
    unfold publishing
    rw [List.getElem?_map, hc, Option.map_some]
    unfold PhasedCall.call
    rw [hphase]
    rfl
  unfold Publishing.exclusive at he
  simp only [hget, Bool.and_eq_true, List.all_eq_true] at he
  constructor
  · intro j d stale hd hw
    have hcall := he.1 (d.call tenantId)
      (List.mem_map.2 ⟨d, List.mem_of_getElem? hd, rfl⟩)
    have hsame : SameKey c.event d.event := ⟨key, hkey, hw.choose_spec.2⟩
    have hmatch : SameKey c.event (d.call tenantId).event := hsame
    simp [hw.writes tenantId, hmatch] at hcall
  · intro k r hr hans
    have hrecord := he.2 r (Map.mem_values.2 ⟨k, hr⟩)
    unfold RepositoryStore.AnswersKey at hans
    simp only [hans, Bool.not_true, Bool.false_or, decide_eq_true_eq] at hrecord
    obtain ⟨key', hk, hrk⟩ := hrecord
    rw [hkey, Option.some.injEq] at hk
    exact hk ▸ hrk

theorem admitted_append (h : Admitted a.published) {event : NostrEvent}
    (hr : (a.publishing tenantId).regular (.begin event) = true)
    (he : (a.publishing tenantId).exclusive (.begin event) = true) :
    Admitted (a.published ++ [event]) := by
  unfold Publishing.regular at hr
  unfold Publishing.exclusive at he
  simp only [Bool.and_eq_true, decide_eq_true_eq, List.all_eq_true] at hr he
  obtain ⟨⟨hid, hpubkey⟩, hsame⟩ := he
  -- the events that have begun are those of the calls
  have hold : ∀ e ∈ a.published, e.id = event.id →
      replaceableKey e = replaceableKey event ∧ e.createdAt = event.createdAt := by
    intro e hm
    obtain ⟨c, hc, rfl⟩ := List.mem_map.1 hm
    exact hsame (c.call tenantId) (List.mem_map.2 ⟨c, hc, rfl⟩)
  refine ⟨?_, ?_, ?_, ?_⟩
  · exact List.forall_mem_append.2 ⟨h.kind, by simpa using hr.1⟩
  · exact List.forall_mem_append.2 ⟨h.id, by simpa using hid⟩
  · exact List.forall_mem_append.2 ⟨h.pubkey, by simpa using hpubkey⟩
  · intro e hm e' hm' heq
    simp only [List.mem_append, List.mem_singleton] at hm hm'
    rcases hm with hm | rfl
    · rcases hm' with hm' | rfl
      · exact h.same e hm e' hm' heq
      · exact hold e hm heq
    · rcases hm' with hm' | rfl
      · exact ⟨(hold e' hm' heq.symm).1.symm, (hold e' hm' heq.symm).2.symm⟩
      · exact ⟨rfl, rfl⟩

/-- Every guarded step of the programs is a step of the phases that keeps the invariant. -/
theorem Inv.step (h : a.Inv tenantId) {s : Publishing} {action : Publishing.Action}
    (hr : (a.publishing tenantId).regular action = true)
    (he : (a.publishing tenantId).exclusive action = true)
    (hstep : Publishing.step tenantId (a.publishing tenantId) action = some (s, ())) :
    ∃ a' : Phased, s = a'.publishing tenantId ∧ a'.Inv tenantId := by
  cases action with
  | begin event =>
    cases hstep
    refine ⟨a.begin tenantId event, ?_, h.begin (admitted_append h.admitted hr he)⟩
    simp [publishing, Phased.begin, PhasedCall.call, InsertPhase.program_init]
  | advance i =>
    have hget : (a.publishing tenantId).calls[i]? = a.calls[i]?.map (PhasedCall.call tenantId) :=
      List.getElem?_map
    unfold Publishing.step at hstep
    cases hc : a.calls[i]? with
    | none => simp [hget, hc] at hstep
    | some c =>
      simp only [hget, hc, Option.map_some, PhasedCall.call] at hstep
      cases hprogram : c.phase.program tenantId c.event with
      | done result => simp [hprogram] at hstep
      | call cc next =>
        simp only [hprogram, Option.some.injEq, Prod.mk.injEq, and_true] at hstep
        obtain ⟨phase', hnext, hp⟩ := InsertPhase.program_next
          (h.admitted.kind _ (Inv.event_mem hc)) a.events c.phase hprogram
        refine ⟨a.advance i c phase' (cc.perform a.events).2, ?_,
          h.next hc (fun key record => ask_of_exclusive h hc he) hnext⟩
        rw [← hstep]
        simp only [publishing, advance, List.map_set, PhasedCall.call, hp]

theorem inv_empty (tenantId : String) : (⟨∅, []⟩ : Phased).Inv tenantId := by
  constructor <;> simp [published]
  constructor <;> simp

end Phased

namespace Publishing

/-- In every run of insertions in which those of one key ask and write one after the other, once all
have finished, each replaceable key has one stored event, the newest that was inserted. -/
theorem newest_only {tenantId : String} {s : Publishing}
    (h : Runs.Reach (step tenantId) (fun s action => s.regular action = true ∧
      s.exclusive action = true) (· = empty) s) (hs : s.Settled) : s.NewestOnly tenantId := by
  obtain ⟨a, rfl, hinv⟩ : ∃ a : Phased, s = a.publishing tenantId ∧ a.Inv tenantId := by
    refine h.invariant (I := fun s => ∃ a : Phased, s = a.publishing tenantId ∧ a.Inv tenantId)
      ?_ ?_
    · rintro _ rfl
      exact ⟨⟨∅, []⟩, rfl, Phased.inv_empty tenantId⟩
    · rintro _ action t ⟨⟩ ⟨a, rfl, ha⟩ ⟨hr, he⟩ hstep
      exact ha.step hr he hstep
  -- no insertion is writing any more
  have hidle : ∀ (i : ℕ) (c : PhasedCall) (key : ReplaceableKey) (stale : List EventRecord),
      a.calls[i]? = some c → ¬ c.Writes key stale := by
    intro i c key stale hc hw
    have hdone := hs (c.call tenantId) (List.mem_map.2 ⟨c, List.mem_of_getElem? hc, rfl⟩)
    obtain ⟨record, hphase, -⟩ := hw
    unfold PhasedCall.call InsertCall.isDone at hdone
    rw [hphase] at hdone
    cases stale <;> cases hdone
  refine ⟨?_, ?_, ?_⟩
  · rintro k k' record record' hr hr' ⟨key, hk, hk'⟩
    exact hinv.unique k k' record record' key hr hr' hk hk'
  · intro k record hr
    obtain ⟨event, hm, hof⟩ := hinv.stored k record hr
    obtain ⟨c, hc, rfl⟩ := List.mem_map.1 hm
    exact ⟨c.call tenantId, List.mem_map.2 ⟨c, hc, rfl⟩, hof⟩
  · intro call hcall outcome hprogram key hkey
    obtain ⟨c, hc, rfl⟩ := List.mem_map.1 hcall
    obtain ⟨i, hi⟩ := List.getElem?_of_mem hc
    have hphase : c.phase = .finished (.ok outcome) := by
      obtain ⟨event, phase⟩ := c
      cases phase with
      | finished result =>
        cases hprogram
        rfl
      | writing record stale => cases stale <;> cases hprogram
      | started record => cases hprogram
      | asking key record => cases hprogram
    rcases hinv.covered i c outcome key hi hphase hkey with hstored | ⟨j, d, stale, hd, hw, -⟩
    · exact hstored
    · exact absurd hw (hidle j d key stale hd)

/-! ### Instances -/

/-- Two profiles of one author: both ask for the id, then the first is inserted, then the second
asks for the profiles, deletes the first and is inserted. -/
def inTurn : List Action :=
  [.begin Stores.profile, .begin Stores.newerProfile, .advance 0, .advance 1, .advance 0,
    .advance 0, .advance 1, .advance 1, .advance 1]

/-- Only the newer profile is stored. -/
theorem newest_only_profiles : ∃ s : Publishing,
    Runs.Reach (step "default") (fun s action => s.regular action = true ∧
      s.exclusive action = true) (· = empty) s ∧ s.Settled ∧
      Stores.profile.id ∉ s.events.table ∧ Stores.newerProfile.id ∈ s.events.table ∧
      s.NewestOnly "default" := by
  have hrun : ((Runs.exec (Runs.guarded (step "default") fun s action =>
      s.regular action = true ∧ s.exclusive action = true) empty inTurn).map fun r =>
        (r.1.calls.all InsertCall.isDone, decide (Stores.profile.id ∈ r.1.events.table),
          decide (Stores.newerProfile.id ∈ r.1.events.table))) = some (true, false, true) := by
    decide +kernel
  obtain ⟨⟨s, outputs⟩, hexec, hs⟩ := Option.map_eq_some_iff.1 hrun
  simp only [Prod.mk.injEq, decide_eq_true_eq, decide_eq_false_iff_not] at hs
  have hreach : Runs.Reach (step "default") (fun s action => s.regular action = true ∧
      s.exclusive action = true) (· = empty) s := .of_exec_guarded rfl hexec
  have hsettled : s.Settled := List.all_eq_true.1 hs.1
  exact ⟨s, hreach, hsettled, hs.2.1, hs.2.2, newest_only hreach hsettled⟩

/-- The same two profiles, each asking for the stored profiles before the other is inserted. -/
def crossed : List Action :=
  [.begin Stores.profile, .begin Stores.newerProfile, .advance 0, .advance 1, .advance 0,
    .advance 1, .advance 0, .advance 1]

/-- Both profiles are stored in the end. -/
theorem not_newest_only : ¬ ∀ (tenantId : String) (s : Publishing), Str.trim tenantId ≠ "" →
    Runs.Reach (step tenantId) (fun s action => s.regular action = true) (· = empty) s →
      s.Settled → s.NewestOnly tenantId := by
  intro h
  have hrun : ((Runs.exec (Runs.guarded (step "default") fun s action =>
      s.regular action = true) empty crossed).map fun r =>
        (r.1.calls.all InsertCall.isDone, r.1.events.table[Stores.profile.id]?.bind keyOf,
          r.1.events.table[Stores.newerProfile.id]?.bind keyOf)) =
      some (true, some ⟨0, Stores.author, none⟩, some ⟨0, Stores.author, none⟩) := by
    decide +kernel
  obtain ⟨⟨s, outputs⟩, hexec, hs⟩ := Option.map_eq_some_iff.1 hrun
  simp only [Prod.mk.injEq] at hs
  obtain ⟨hdone, hfirst, hsecond⟩ := hs
  obtain ⟨r, hr, hk⟩ := Option.bind_eq_some_iff.1 hfirst
  obtain ⟨r', hr', hk'⟩ := Option.bind_eq_some_iff.1 hsecond
  have hreach : Runs.Reach (step "default") (fun s action => s.regular action = true)
      (· = empty) s := .of_exec_guarded rfl hexec
  have hnewest := h "default" s (by decide) hreach (List.all_eq_true.1 hdone)
  have hsame := hnewest.unique _ _ r r' hr hr' ⟨_, hk, hk'⟩
  exact absurd hsame (by decide)

end Publishing
end Gittree
