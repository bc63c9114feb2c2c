import Gittree.Lib.Prog
import Gittree.Relay.Store

/-!
# The calls of the repository store

`RepositoryStore::insert` of `services/relay/src/store.rs` as the program of its repository calls.
Each call is one atomic operation of `InMemoryRepositories`; between two calls of one insertion
other insertions may make theirs.

* `run_insert`: a program that is not interrupted does what `RepositoryStore.insert` does.
-/

namespace Gittree

open Rust

/-- The calls of `EventRepository`. -/
inductive EventCall
  | getEvent (tenantId : String) (eventId : List UInt8)
  | queryEvents (query : EventQuery)
  | deleteEvent (tenantId : String) (eventId : List UInt8)
  | insertEvent (record : EventRecord)

/-- The answers to a call. -/
@[reducible] def EventCall.Answer : EventCall → Type
  | .getEvent _ _ => Option EventRecord
  | .queryEvents _ => List EventRecord
  | .deleteEvent _ _ => Bool
  | .insertEvent _ => Unit

/-- A call on the table of `InMemoryRepositories`. -/
def EventCall.perform : (call : EventCall) → Events → call.Answer × Events
  | .getEvent tenantId eventId, events => (events.getEvent tenantId eventId, events)
  | .queryEvents query, events => (events.queryEvents query, events)
  | .deleteEvent tenantId eventId, events => events.deleteEvent tenantId eventId
  | .insertEvent record, events => ((), events.insertEvent record)

/-- Programs with repository calls. -/
abbrev StoreProg (α : Type) : Type := Prog EventCall EventCall.Answer α

namespace StoreProg

/-- The deletion of the records of a list. -/
def deleteAll (tenantId : String) : List EventRecord → StoreProg Unit :=
  Prog.each fun record => .call (.deleteEvent tenantId record.id) fun _ => .done ()

/-- The deletion of the record that an `e` value names, if its author and age allow it. -/
def deleteFound (tenantId : String) (author : List UInt8) (createdAt : ℤ) :
    Option EventRecord → StoreProg Unit
  | none => .done ()
  | some record =>
    if record.pubkey = author ∧ record.createdAt ≤ createdAt then
      .call (.deleteEvent tenantId record.id) fun _ => .done ()
    else .done ()

/-- The treatment of one `e` value in `apply_delete_repo`. -/
def deleteTarget (tenantId : String) (author : List UInt8) (createdAt : ℤ) (target : String) :
    StoreProg Unit :=
  match Hex.decode target with
  | none => .done ()
  | some bytes => .call (.getEvent tenantId bytes) (deleteFound tenantId author createdAt)

/-- The treatment of one `a` value in `apply_delete_repo`. -/
def deleteAddress (tenantId : String) (event : NostrEvent) (address : String) : StoreProg Unit :=
  match parseAddress address with
  | none => .done ()
  | some key =>
    if key.pubkey = event.pubkey then
      .call (.queryEvents (RepositoryStore.keyQuery tenantId key))
        fun (records : List EventRecord) =>
          deleteAll tenantId (records.filter fun record => record.createdAt ≤ event.createdAt)
    else .done ()

/-- `apply_delete_repo`, once the author is decoded. -/
def applyDeleteRepo (tenantId : String) (event : NostrEvent) (author : List UInt8) :
    StoreProg Unit :=
  Prog.each (deleteTarget tenantId author event.createdAt) (collectTagValues event.tags "e") >>=
    fun _ => Prog.each (deleteAddress tenantId event) (collectTagValues event.tags "a")

/-- The end of `insert` once nothing supersedes the event: the deletion of the records found, and
the insertion. -/
def write (tenantId : String) (record : EventRecord) (stale : List EventRecord) :
    StoreProg (Except StoreError StoreOutcome) :=
  deleteAll tenantId stale >>= fun _ =>
    .call (.insertEvent record) fun _ => .done (.ok .inserted)

/-- The test of `apply_replaceable_repo` on the records found, and what follows it. -/
def writeUnlessOld (tenantId : String) (event : NostrEvent) (record : EventRecord)
    (found : List EventRecord) : StoreProg (Except StoreError StoreOutcome) :=
  if found.any fun old => event.createdAt ≤ old.createdAt then .done (.ok .duplicate)
  else write tenantId record found

/-- `apply_replaceable_repo` and the insertion that follows it. -/
def replace (tenantId : String) (event : NostrEvent) (key : ReplaceableKey) (record : EventRecord) :
    StoreProg (Except StoreError StoreOutcome) :=
  .call (.queryEvents (RepositoryStore.keyQuery tenantId key))
    (writeUnlessOld tenantId event record)

/-- The part of `insert` that follows the deletions. -/
def insertRecord (tenantId : String) (event : NostrEvent) (record : EventRecord) :
    StoreProg (Except StoreError StoreOutcome) :=
  match replaceableKey event with
  | none => write tenantId record []
  | some key => replace tenantId event key record

/-- The part of `insert` that follows the question whether the id is taken. -/
def insertUnlessFound (tenantId : String) (event : NostrEvent) (record : EventRecord)
    (found : Option EventRecord) : StoreProg (Except StoreError StoreOutcome) :=
  if found.isSome then .done (.ok .duplicate)
  else if event.kind = 5 then
    match Hex.decode event.pubkey with
    | none => .done (.error (.backend "invalid pubkey"))
    | some author =>
      applyDeleteRepo tenantId event author >>= fun _ => insertRecord tenantId event record
  else insertRecord tenantId event record

/-- The part of `insert` that follows the conversion. -/
def insertNew (tenantId : String) (event : NostrEvent) (record : EventRecord) :
    StoreProg (Except StoreError StoreOutcome) :=
  .call (.getEvent tenantId record.id) (insertUnlessFound tenantId event record)

/-- `insert`. -/
def insert (tenantId : String) (event : NostrEvent) : StoreProg (Except StoreError StoreOutcome) :=
  match eventToRecord event tenantId with
  | .error err => .done (.error err)
  | .ok record => insertNew tenantId event record

/-! ### Uninterrupted programs -/

variable {tenantId : String} {event : NostrEvent} {record : EventRecord} (events : Events)

theorem run_deleteAll (tenantId : String) (records : List EventRecord) :
    (deleteAll tenantId records).run EventCall.perform events =
      ((), RepositoryStore.deleteAll tenantId events records) :=
  Prog.run_each _ _ _ _

theorem run_deleteTarget (tenantId : String) (author : List UInt8) (createdAt : ℤ)
    (target : String) :
    (deleteTarget tenantId author createdAt target).run EventCall.perform events =
      ((), RepositoryStore.deleteTarget tenantId author createdAt events target) := by
  unfold deleteTarget RepositoryStore.deleteTarget
  cases Hex.decode target with
  | none => rfl
  | some bytes =>
    show (deleteFound tenantId author createdAt (events.getEvent tenantId bytes)).run _ events = _
    rw [Option.bind_some]
    unfold deleteFound
    cases events.getEvent tenantId bytes with
    | none => rfl
    | some record =>
      simp only
      split_ifs <;> rfl

theorem run_deleteAddress (tenantId : String) (event : NostrEvent) (address : String) :
    (deleteAddress tenantId event address).run EventCall.perform events =
      ((), RepositoryStore.deleteAddress tenantId event events address) := by
  unfold deleteAddress RepositoryStore.deleteAddress
  cases parseAddress address with
  | none => rfl
  | some key =>
    simp only
    split_ifs
    · exact run_deleteAll events tenantId _
    · rfl

theorem run_applyDeleteRepo (tenantId : String) (event : NostrEvent) (author : List UInt8) :
    (applyDeleteRepo tenantId event author).run EventCall.perform events =
      ((), (collectTagValues event.tags "a").foldl (RepositoryStore.deleteAddress tenantId event)
        ((collectTagValues event.tags "e").foldl
          (RepositoryStore.deleteTarget tenantId author event.createdAt) events)) := by
  unfold applyDeleteRepo
  rw [Prog.run_bind, Prog.run_each, Prog.run_each]
  simp only [run_deleteTarget, run_deleteAddress]

theorem run_write (tenantId : String) (record : EventRecord) (stale : List EventRecord) :
    (write tenantId record stale).run EventCall.perform events =
      (.ok .inserted, (RepositoryStore.deleteAll tenantId events stale).insertEvent record) := by
  unfold write
  rw [Prog.run_bind, run_deleteAll]
  rfl

theorem run_replace (tenantId : String) (event : NostrEvent) (key : ReplaceableKey)
    (record : EventRecord) :
    (replace tenantId event key record).run EventCall.perform events =
      if RepositoryStore.superseded tenantId events event key then (.ok .duplicate, events)
      else (.ok .inserted, (RepositoryStore.deleteAll tenantId events
        (events.queryEvents (RepositoryStore.keyQuery tenantId key))).insertEvent record) := by
  show (writeUnlessOld tenantId event record
    (events.queryEvents (RepositoryStore.keyQuery tenantId key))).run _ events = _
  unfold writeUnlessOld RepositoryStore.superseded
  split_ifs
  · rfl
  · exact run_write events tenantId record _

theorem run_insertRecord (tenantId : String) (event : NostrEvent) (record : EventRecord) :
    (insertRecord tenantId event record).run EventCall.perform events =
      (.ok (RepositoryStore.insertRecord tenantId events event record).1,
        (RepositoryStore.insertRecord tenantId events event record).2) := by
  unfold insertRecord RepositoryStore.insertRecord
  cases replaceableKey event with
  | none => rfl
  | some key =>
    simp only [RepositoryStore.applyReplaceableRepo, run_replace]
    split_ifs <;> rfl

/-- An insertion that is not interrupted is `RepositoryStore.insert`. -/
theorem run_insert (tenantId : String) (event : NostrEvent) :
    (insert tenantId event).run EventCall.perform events =
      Result.settle events (RepositoryStore.insert tenantId events event) := by
  unfold insert RepositoryStore.insert
  cases eventToRecord event tenantId with
  | error err => rfl
  | ok record =>
    simp only
    show (insertUnlessFound tenantId event record (events.getEvent tenantId record.id)).run _
      events = _
    unfold insertUnlessFound
    by_cases hfound : (events.getEvent tenantId record.id).isSome = true
    · rw [if_pos hfound]
      simp only [bind, Except.bind, if_pos hfound]
      rfl
    · rw [if_neg hfound]
      simp only [bind, Except.bind, if_neg hfound]
      by_cases hkind : event.kind = 5
      · rw [if_pos hkind, if_pos hkind]
        unfold RepositoryStore.applyDeleteRepo
        cases Hex.decode event.pubkey with
        | none => rfl
        | some author =>
          show (applyDeleteRepo tenantId event author >>= fun _ =>
            insertRecord tenantId event record).run _ events = _
          rw [Prog.run_bind, run_applyDeleteRepo, run_insertRecord]
          rfl
      · rw [if_neg hkind, if_neg hkind]
        exact run_insertRecord events tenantId event record

end StoreProg
end Gittree
