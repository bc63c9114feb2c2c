import Gittree.Relay.StoreCalls
import Gittree.Relay.System

/-!
# A repository call that fails

`RepositoryStore::insert` ends with the first repository call that fails.  It deletes what the event
deletes or replaces before it inserts the record, each with a call of its own, so a call that fails
after a deletion leaves the table without the deleted records and without the event.

* `insertFaulty`: an insertion one of whose calls may fail;
* `insertFaulty_atomic_iff`: exactly when an insertion that fails changes nothing.
-/

namespace Gittree

open Rust

/-- A call that removes a record. -/
def EventCall.Removes (call : EventCall) (events : Events) : Prop :=
  ∃ tenantId eventId, call = .deleteEvent tenantId eventId ∧
    (events.getEvent tenantId eventId).isSome = true

/-- The calls of an insertion before its last one. -/
def EventCall.Keeps (call : EventCall) : Prop := ∀ record, call ≠ .insertEvent record

/-- The event table, and the number of the call of an insertion that fails, with its error. -/
structure FaultyEvents where
  events : Events
  fault : Option (ℕ × StoreError)

namespace RepositoryStore

/-- `insert`, where a repository call may fail. -/
def insertFaulty (tenantId : String) (s : FaultyEvents) (event : NostrEvent) :
    Except StoreError StoreOutcome × FaultyEvents :=
  let result := match s.fault with
    | none => (StoreProg.insert tenantId event).run EventCall.perform s.events
    | some (n, err) =>
      (StoreProg.insert tenantId event).runFailing EventCall.perform err n s.events
  (result.1, { s with events := result.2 })

/-- The store of one tenant over repositories whose calls may fail.  Another store answers what is
not an insertion. -/
def faultyStore (tenantId : String) (others : EventStore FaultyEvents) :
    EventStore FaultyEvents :=
  { others with insert := insertFaulty tenantId }

/-- The repository calls of an insertion, each with the table that it meets. -/
def insertCalls (tenantId : String) (events : Events) (event : NostrEvent) :
    List (EventCall × Events) :=
  (StoreProg.insert tenantId event).calls EventCall.perform events

/-- No repository call of an insertion fails after one that has removed a record. -/
def Unbroken (tenantId : String) (s : FaultyEvents) (event : NostrEvent) : Prop :=
  ∀ n err, s.fault = some (n, err) → n < (insertCalls tenantId s.events event).length →
    ∀ x ∈ (insertCalls tenantId s.events event).take n, ¬ x.1.Removes x.2

end RepositoryStore

/-! ### The calls of an insertion -/

namespace StoreProg

variable {tenantId : String} {event : NostrEvent}

theorem only_deleteAll (records : List EventRecord) :
    Prog.Only EventCall.Keeps (deleteAll tenantId records) := by
  refine Prog.only_each (fun record => ?_) records
  exact ⟨fun _ h => (by cases h), fun _ => trivial⟩

theorem only_deleteTarget (author : List UInt8) (createdAt : ℤ) (target : String) :
    Prog.Only EventCall.Keeps (deleteTarget tenantId author createdAt target) := by
  unfold deleteTarget
  cases Hex.decode target with
  | none => exact trivial
  | some bytes =>
    refine ⟨fun _ h => (by cases h), fun found => ?_⟩
    unfold deleteFound
    cases found with
    | none => exact trivial
    | some record =>
      simp only
      split_ifs
      · exact ⟨fun _ h => (by cases h), fun _ => trivial⟩
      · exact trivial

theorem only_deleteAddress (address : String) :
    Prog.Only EventCall.Keeps (deleteAddress tenantId event address) := by
  unfold deleteAddress
  cases parseAddress address with
  | none => exact trivial
  | some key =>
    simp only
    split_ifs
    · exact ⟨fun _ h => (by cases h), fun _ => only_deleteAll _⟩
    · exact trivial

theorem onlyBefore_write (record : EventRecord) (stale : List EventRecord) :
    Prog.OnlyBefore EventCall.Keeps (write tenantId record stale) :=
  (only_deleteAll stale).onlyBefore_bind fun _ => ⟨.inr fun _ => ⟨_, rfl⟩, fun _ => trivial⟩

theorem onlyBefore_insertRecord (record : EventRecord) :
    Prog.OnlyBefore EventCall.Keeps (insertRecord tenantId event record) := by
  unfold insertRecord
  cases replaceableKey event with
  | none => exact onlyBefore_write record []
  | some key =>
    refine ⟨.inl fun _ h => (by cases h), fun found => ?_⟩
    unfold writeUnlessOld
    split_ifs
    · exact trivial
    · exact onlyBefore_write record found

/-- The record is inserted with the last call. -/
theorem onlyBefore_insert (tenantId : String) (event : NostrEvent) :
    Prog.OnlyBefore EventCall.Keeps (insert tenantId event) := by
  unfold insert
  cases eventToRecord event tenantId with
  | error err => exact trivial
  | ok record =>
    refine ⟨.inl fun _ h => (by cases h), fun found => ?_⟩
    unfold insertUnlessFound
    split_ifs
    · exact trivial
    · cases Hex.decode event.pubkey with
      | none => exact trivial
      | some author =>
        refine Prog.Only.onlyBefore_bind ?_ fun _ => onlyBefore_insertRecord record
        exact (Prog.only_each (only_deleteTarget author event.createdAt) _).bind fun _ =>
          Prog.only_each only_deleteAddress _
    · exact onlyBefore_insertRecord record

end StoreProg

/-! ### What the calls do to the table -/

namespace EventCall

variable {call : EventCall} {events : Events}

/-- A call before the last one that removes nothing keeps the table. -/
theorem perform_snd (hkeeps : call.Keeps) (h : ¬ call.Removes events) :
    (call.perform events).2 = events := by
  cases call with
  | getEvent tenantId eventId => rfl
  | queryEvents query => rfl
  | insertEvent record => exact absurd rfl (hkeeps record)
  | deleteEvent tenantId eventId =>
    show (events.deleteEvent tenantId eventId).2 = events
    unfold Events.deleteEvent
    split
    · rename_i record hrecord
      split_ifs with htenant
      · refine absurd ⟨tenantId, eventId, rfl, ?_⟩ h
        rw [Events.getEvent_eq_some.2 ⟨hrecord, htenant⟩]
        rfl
      · rfl
    · rfl

theorem size_perform_lt (h : call.Removes events) :
    (call.perform events).2.table.size < events.table.size := by
  obtain ⟨tenantId, eventId, rfl, hsome⟩ := h
  obtain ⟨record, hget⟩ := Option.isSome_iff_exists.1 hsome
  obtain ⟨hrecord, htenant⟩ := Events.getEvent_eq_some.1 hget
  have hmem : eventKey eventId ∈ events.table := by
    rw [Std.ExtTreeMap.mem_iff_isSome_getElem?, hrecord]
    rfl
  show (events.deleteEvent tenantId eventId).2.table.size < _
  unfold Events.deleteEvent
  rw [hrecord]
  simp only [if_pos htenant]
  show (events.table.erase (eventKey eventId)).size < _
  rw [Std.ExtTreeMap.size_erase, if_pos (Std.ExtTreeMap.mem_iff_contains.1 hmem)]
  refine Nat.sub_lt (Nat.pos_of_ne_zero fun hzero => ?_) Nat.one_pos
  rw [Std.ExtTreeMap.eq_empty_iff_size_eq_zero.2 hzero] at hmem
  exact Std.ExtTreeMap.not_mem_empty hmem

end EventCall

/-! ### Insertions that fail -/

namespace RepositoryStore

variable {tenantId : String} {event : NostrEvent}

/-- An insertion whose calls do not fail. -/
theorem snd_of_run_insert {events : Events} {result : Except StoreError StoreOutcome × Events}
    (h : (StoreProg.insert tenantId event).run EventCall.perform events = result)
    {err : StoreError} (herr : result.1 = .error err) : result.2 = events := by
  rw [StoreProg.run_insert] at h
  obtain ⟨answer, events'⟩ := result
  cases herr
  exact (Result.settle_eq_error.1 h).2.symm

/-- An insertion that fails changes nothing, exactly when no repository call fails after one that
has removed a record. -/
theorem insertFaulty_atomic_iff {s : FaultyEvents} :
    (∀ err t, insertFaulty tenantId s event = (.error err, t) → t = s) ↔
      Unbroken tenantId s event := by
  obtain ⟨events, fault⟩ := s
  constructor
  · rintro h n err rfl hn x hx hremoves
    -- before the call that fails only removals write, so one of them leaves fewer records
    have hsnd := congrArg FaultyEvents.events (h err _ (Prod.ext (Prog.runFailing_fst err hn) rfl))
    have hsize := (Prog.measure_runFailing (fun events : Events => events.table.size) err hn
      fun y hy => ?_).2 ⟨x, hx, EventCall.size_perform_lt hremoves⟩
    · exact hsize.ne (congrArg (fun events : Events => events.table.size) hsnd)
    · by_cases hy' : y.1.Removes y.2
      · exact (EventCall.size_perform_lt hy').le
      · rw [EventCall.perform_snd ((StoreProg.onlyBefore_insert tenantId event).take hn y hy) hy']
  · intro h err t ht
    obtain ⟨hfst, rfl⟩ := Prod.mk.inj ht
    cases fault with
    | none => exact congrArg (FaultyEvents.mk · none) (snd_of_run_insert rfl hfst)
    | some fault =>
      obtain ⟨n, err'⟩ := fault
      -- a fault that is planned for a later call than the last is never met
      by_cases hn : n < (insertCalls tenantId events event).length
      · have hsnd := Prog.runFailing_snd_of_idle err' hn fun x hx =>
          EventCall.perform_snd ((StoreProg.onlyBefore_insert tenantId event).take hn x hx)
            (h n err' rfl hn x hx)
        exact congrArg (FaultyEvents.mk · (some (n, err'))) hsnd
      · have hrun := Prog.runFailing_of_length_le err' (not_lt.1 hn)
        have hevents := snd_of_run_insert hrun.symm hfst
        exact congrArg (FaultyEvents.mk · (some (n, err'))) hevents

end RepositoryStore
end Gittree
