import Gittree.Core.Nip34
import Gittree.Storage.Error

/-!
# The outbox of relay publications

`crates/storage/src/outbox.rs` and the outbox of `InMemoryRepositories`: a request to publish an
event on a relay is decoded and kept as a job under the next number.  A worker claims the due job with
the smallest number and marks it as published, or as failed and due again later.

* `Outbox.enqueueRelayPublish_eq_ok`: the job that a request becomes;
* `Outbox.selectDue_eq_some`, `Outbox.selectDue_eq_none_iff`: the job that is claimed;
* `Outbox.claimRelayPublish_cases`: what a claim does to the jobs.
-/

namespace Gittree

open Rust

/-- `RelayPublishRequest`. -/
structure RelayPublishRequest where
  relayUrl : String
  eventId : String
  pubkey : String
  createdAt : ℤ
  kind : ℕ
  tags : Tags
  content : String
  sig : String
  forgejoOwner : String
  forgejoRepo : String
  identifier : String
  deriving DecidableEq, Repr

/-- `RelayPublishEntry`. -/
structure RelayPublishEntry where
  relayUrl : String
  eventId : List UInt8
  pubkey : List UInt8
  createdAt : ℤ
  kind : ℕ
  tags : Tags
  content : String
  sig : List UInt8
  forgejoOwner : String
  forgejoRepo : String
  identifier : String
  deriving DecidableEq, Repr

/-- `RelayPublishJob`: an entry with its number, its attempts and the time of the next one. -/
structure RelayPublishJob extends RelayPublishEntry where
  id : ℕ
  attemptCount : ℕ
  publishAfter : ℤ
  deriving DecidableEq, Repr

/-- `RelayPublishStatus`. -/
inductive RelayPublishStatus
  | pending
  | publishing
  | published
  deriving DecidableEq, Repr

/-- `OutboxEntry`. -/
structure OutboxEntry where
  job : RelayPublishJob
  status : RelayPublishStatus
  lastError : Option String
  deriving DecidableEq, Repr

/-- `RelayPublishRequest::decode`. -/
def RelayPublishRequest.decode (r : RelayPublishRequest) :
    Except StorageError RelayPublishEntry := do
  requireNonEmpty "relay_url" r.relayUrl
  requireNonEmpty "forgejo_owner" r.forgejoOwner
  requireNonEmpty "forgejo_repo" r.forgejoRepo
  requireNonEmpty "identifier" r.identifier
  let eventId ← decodeHex "event_id" r.eventId 64
  let pubkey ← decodeHex "pubkey" r.pubkey 64
  let sig ← decodeHex "sig" r.sig 128
  return {
    eventId, pubkey, sig
    relayUrl := r.relayUrl
    createdAt := r.createdAt
    kind := r.kind
    tags := r.tags
    content := r.content
    forgejoOwner := r.forgejoOwner
    forgejoRepo := r.forgejoRepo
    identifier := r.identifier }

/-- The jobs, and the number of the last one. -/
structure Outbox where
  entries : List OutboxEntry
  seq : ℕ
  deriving DecidableEq, Repr

namespace Outbox

instance : EmptyCollection Outbox := ⟨⟨[], 0⟩⟩

/-- A job as it is enqueued. -/
def newEntry (id : ℕ) (entry : RelayPublishEntry) (now : ℤ) : OutboxEntry :=
  ⟨{ entry with id, attemptCount := 0, publishAfter := now }, .pending, none⟩

/-- `enqueue_relay_publish`. -/
def enqueueRelayPublish (t : Outbox) (request : RelayPublishRequest) (now : ℤ) :
    Except StorageError Outbox := do
  let entry ← request.decode
  return ⟨t.entries ++ [newEntry (t.seq + 1) entry now], t.seq + 1⟩

/-- The job with a number. -/
def job (t : Outbox) (id : ℕ) : Option RelayPublishJob :=
  (t.entries.find? fun entry => entry.job.id = id).map OutboxEntry.job

end Outbox

theorem RelayPublishRequest.decode_eq_ok {r : RelayPublishRequest} {entry : RelayPublishEntry}
    (h : r.decode = .ok entry) :
    (Str.isHexLen r.eventId 64 = true ∧ Hex.decode r.eventId = some entry.eventId) ∧
      (Str.isHexLen r.pubkey 64 = true ∧ Hex.decode r.pubkey = some entry.pubkey) ∧
      entry.createdAt = r.createdAt ∧ entry.kind = r.kind ∧ entry.tags = r.tags ∧
      entry.forgejoOwner = r.forgejoOwner ∧ entry.forgejoRepo = r.forgejoRepo ∧
      entry.identifier = r.identifier := by
  obtain ⟨-, -, h⟩ := Result.bind_eq_ok.1 h
  obtain ⟨-, -, h⟩ := Result.bind_eq_ok.1 h
  obtain ⟨-, -, h⟩ := Result.bind_eq_ok.1 h
  obtain ⟨-, -, h⟩ := Result.bind_eq_ok.1 h
  obtain ⟨eventId, hevent, h⟩ := Result.bind_eq_ok.1 h
  obtain ⟨pubkey, hpubkey, h⟩ := Result.bind_eq_ok.1 h
  obtain ⟨sig, -, h⟩ := Result.bind_eq_ok.1 h
  rw [← Result.pure_eq_ok.1 h]
  exact ⟨decodeHex_eq_ok.1 hevent, decodeHex_eq_ok.1 hpubkey, rfl, rfl, rfl, rfl, rfl, rfl⟩

/-- The event and the key of a request are 32 bytes long. -/
theorem RelayPublishRequest.length_of_decode {r : RelayPublishRequest} {entry : RelayPublishEntry}
    (h : r.decode = .ok entry) : entry.eventId.length = 32 ∧ entry.pubkey.length = 32 := by
  obtain ⟨hevent, hpubkey, -⟩ := RelayPublishRequest.decode_eq_ok h
  exact ⟨length_of_decodeHex32 (decodeHex32_eq_ok.2 hevent : decodeHex32 "event_id" _ = _),
    length_of_decodeHex32 (decodeHex32_eq_ok.2 hpubkey : decodeHex32 "pubkey" _ = _)⟩

/-- A request that is enqueued becomes the last job. -/
theorem Outbox.enqueueRelayPublish_eq_ok {t t' : Outbox} {request : RelayPublishRequest} {now : ℤ} :
    t.enqueueRelayPublish request now = .ok t' ↔ ∃ entry, request.decode = .ok entry ∧
      ⟨t.entries ++ [newEntry (t.seq + 1) entry now], t.seq + 1⟩ = t' := by
  unfold enqueueRelayPublish
  simp only [Result.bind_eq_ok, Result.pure_eq_ok]

/-! ### Claims and marks -/

/-- The job is pending and its time has come. -/
def OutboxEntry.isDue (e : OutboxEntry) (now : ℤ) : Bool :=
  e.status == .pending && e.job.publishAfter ≤ now

/-- The entry once its job is claimed. -/
def OutboxEntry.claim (now : ℤ) (e : OutboxEntry) : OutboxEntry where
  job := { e.job with attemptCount := e.job.attemptCount + 1, publishAfter := now }
  status := .publishing
  lastError := e.lastError

/-- The entry once its job is published. -/
def OutboxEntry.succeed (e : OutboxEntry) : OutboxEntry :=
  { e with status := .published, lastError := none }

/-- The entry once its job has failed and is to be tried again. -/
def OutboxEntry.fail (error : String) (retryAt : ℤ) (e : OutboxEntry) : OutboxEntry where
  job := { e.job with publishAfter := retryAt }
  status := .pending
  lastError := some error

/-- The entry is for an event of the given kind, author and repository. -/
def RelayPublishEntry.isFor (e : RelayPublishEntry) (pubkey : List UInt8) (identifier : String)
    (kind : ℕ) : Bool :=
  e.kind == kind && e.identifier == identifier && e.pubkey == pubkey

theorem RelayPublishEntry.isFor_iff {e : RelayPublishEntry} {pubkey : List UInt8}
    {identifier : String} {kind : ℕ} :
    e.isFor pubkey identifier kind = true ↔
      e.kind = kind ∧ e.identifier = identifier ∧ e.pubkey = pubkey := by
  simp [RelayPublishEntry.isFor, and_assoc]

namespace Outbox

/-- The entry with a number. -/
def entry (t : Outbox) (id : ℕ) : Option OutboxEntry := t.entries.find? fun e => e.job.id = id

/-- A change of the entry with a number. -/
def modify (t : Outbox) (id : ℕ) (change : OutboxEntry → OutboxEntry) : Outbox :=
  { t with entries := t.entries.map fun e => if e.job.id = id then change e else e }

/-- The loop of `claim_relay_publish`: the smallest number of a due job. -/
def selectDue (now : ℤ) (entries : List OutboxEntry) : Option ℕ :=
  entries.foldl (fun selected e =>
    if e.isDue now then
      match selected with
      | some current => if current ≤ e.job.id then some current else some e.job.id
      | none => some e.job.id
    else selected) none

/-- `claim_relay_publish`. -/
def claimRelayPublish (t : Outbox) (now : ℤ) : Option RelayPublishJob × Outbox :=
  match selectDue now t.entries with
  | none => (none, t)
  | some id =>
    let t := t.modify id (OutboxEntry.claim now)
    ((t.entry id).map OutboxEntry.job, t)

/-- A change of an entry that has to exist. -/
def modifyExisting (t : Outbox) (id : ℕ) (change : OutboxEntry → OutboxEntry) :
    Except StorageError Outbox :=
  match t.entry id with
  | some _ => .ok (t.modify id change)
  | none => .error (.internal "outbox entry not found")

/-- `mark_relay_publish_succeeded`. -/
def markRelayPublishSucceeded (t : Outbox) (id : ℕ) : Except StorageError Outbox :=
  t.modifyExisting id OutboxEntry.succeed

/-- `mark_relay_publish_failed`. -/
def markRelayPublishFailed (t : Outbox) (id : ℕ) (error : String) (retryAt : ℤ) :
    Except StorageError Outbox :=
  t.modifyExisting id (OutboxEntry.fail error retryAt)

/-- `pending_relay_publishes`. -/
def pendingRelayPublishes (t : Outbox) (pubkey : List UInt8) (identifier : String) (kind : ℕ) : ℕ :=
  t.entries.countP fun e => e.status != .published && e.job.isFor pubkey identifier kind

/-- The loop finds nothing when nothing is due. -/
theorem selectDue_eq_none_iff {now : ℤ} {entries : List OutboxEntry} :
    selectDue now entries = none ↔ ∀ e ∈ entries, e.isDue now = false := by
  induction entries using List.reverseRecOn with
  | nil => simp [selectDue]
  | append_singleton entries e ih =>
    rw [selectDue, List.foldl_append, ← selectDue]
    simp only [List.foldl_cons, List.foldl_nil, List.forall_mem_append, List.forall_mem_singleton]
    cases hdue : e.isDue now with
    | false => simpa using ih
    | true =>
      refine iff_of_false ?_ (by simp)
      cases selectDue now entries with
      | none => simp
      | some current =>
        simp only [if_true]
        split_ifs <;> simp

/-- The loop finds the smallest number of a due job. -/
theorem selectDue_eq_some {now : ℤ} {entries : List OutboxEntry} {id : ℕ}
    (h : selectDue now entries = some id) :
    (∃ e ∈ entries, e.job.id = id ∧ e.isDue now = true) ∧
      ∀ e ∈ entries, e.isDue now = true → id ≤ e.job.id := by
  induction entries using List.reverseRecOn generalizing id with
  | nil => cases h
  | append_singleton entries e ih =>
    rw [selectDue, List.foldl_append, ← selectDue] at h
    simp only [List.foldl_cons, List.foldl_nil] at h
    cases hdue : e.isDue now with
    | false =>
      rw [hdue] at h
      obtain ⟨⟨x, hx, hxid⟩, hmin⟩ := ih h
      refine ⟨⟨x, List.mem_append_left _ hx, hxid⟩, fun y hy hydue => ?_⟩
      rcases List.mem_append.1 hy with hy | hy
      · exact hmin y hy hydue
      · rw [List.mem_singleton.1 hy, hdue] at hydue
        cases hydue
    | true =>
      rw [hdue, if_pos rfl] at h
      cases hselected : selectDue now entries with
      | none =>
        rw [hselected] at h
        cases h
        refine ⟨⟨e, by simp, rfl, hdue⟩, fun y hy hydue => ?_⟩
        rcases List.mem_append.1 hy with hy | hy
        · rw [selectDue_eq_none_iff.1 hselected y hy] at hydue
          cases hydue
        · rw [List.mem_singleton.1 hy]
      | some current =>
        obtain ⟨⟨x, hx, hxid⟩, hmin⟩ := ih hselected
        rw [hselected] at h
        simp only at h
        split_ifs at h with hle
        · cases h
          refine ⟨⟨x, List.mem_append_left _ hx, hxid⟩, fun y hy hydue => ?_⟩
          rcases List.mem_append.1 hy with hy | hy
          · exact hmin y hy hydue
          · rwa [List.mem_singleton.1 hy]
        · cases h
          refine ⟨⟨e, by simp, rfl, hdue⟩, fun y hy hydue => ?_⟩
          rcases List.mem_append.1 hy with hy | hy
          · have := hmin y hy hydue
            omega
          · rw [List.mem_singleton.1 hy]

/-- The numbers of the jobs. -/
def ids (t : Outbox) : List ℕ := t.entries.map fun e => e.job.id

theorem entry_eq_some_iff {t : Outbox} (h : t.ids.Nodup) {id : ℕ} {e : OutboxEntry} :
    t.entry id = some e ↔ e ∈ t.entries ∧ e.job.id = id := by
  constructor
  · intro he
    exact ⟨List.mem_of_find?_eq_some he, by simpa using List.find?_some he⟩
  · rintro ⟨he, rfl⟩
    cases hfound : t.entry e.job.id with
    | none =>
      have := List.find?_eq_none.1 hfound e he
      simp at this
    | some found =>
      have hid : found.job.id = e.job.id := by simpa using List.find?_some hfound
      rw [List.inj_on_of_nodup_map h (List.mem_of_find?_eq_some hfound) he hid]

section

variable {t : Outbox} {id : ℕ} {change : OutboxEntry → OutboxEntry}

/-- What a change of an entry leaves as it is, it leaves as it is in all entries. -/
theorem map_modify {β : Type} {f : OutboxEntry → β} (hf : ∀ e, f (change e) = f e) :
    (t.modify id change).entries.map f = t.entries.map f := by
  unfold modify
  rw [List.map_map]
  refine List.map_congr_left fun e _ => ?_
  simp only [Function.comp_apply]
  split_ifs
  · exact hf e
  · rfl

theorem ids_modify (hid : ∀ e, (change e).job.id = e.job.id) : (t.modify id change).ids = t.ids :=
  map_modify hid

theorem mem_modify {e : OutboxEntry} :
    e ∈ (t.modify id change).entries ↔
      ∃ old ∈ t.entries, (if old.job.id = id then change old else old) = e :=
  List.mem_map

end

/-- Nothing is due and nothing is claimed, or the due job with the smallest number is claimed. -/
theorem claimRelayPublish_cases {t : Outbox} (h : t.ids.Nodup) (now : ℤ) :
    (t.claimRelayPublish now = (none, t) ∧ ∀ e ∈ t.entries, e.isDue now = false) ∨
      ∃ e ∈ t.entries, e.isDue now = true ∧
        (∀ other ∈ t.entries, other.isDue now = true → e.job.id ≤ other.job.id) ∧
        t.claimRelayPublish now =
          (some (e.claim now).job, t.modify e.job.id (OutboxEntry.claim now)) := by
  unfold claimRelayPublish
  cases hselected : selectDue now t.entries with
  | none => exact .inl ⟨rfl, selectDue_eq_none_iff.1 hselected⟩
  | some id =>
    obtain ⟨⟨e, he, rfl, hdue⟩, hmin⟩ := selectDue_eq_some hselected
    refine .inr ⟨e, he, hdue, hmin, ?_⟩
    have hids : (t.modify e.job.id (OutboxEntry.claim now)).ids = t.ids := ids_modify fun _ => rfl
    have hentry : (t.modify e.job.id (OutboxEntry.claim now)).entry e.job.id =
        some (e.claim now) := by
      rw [entry_eq_some_iff (hids ▸ h), mem_modify]
      exact ⟨⟨e, he, if_pos rfl⟩, rfl⟩
    simp only [hentry, Option.map_some]

/-- The entry of a job exists: it is changed. -/
theorem modifyExisting_of_mem {t : Outbox} {id : ℕ} (h : id ∈ t.ids)
    (change : OutboxEntry → OutboxEntry) :
    t.modifyExisting id change = .ok (t.modify id change) := by
  unfold modifyExisting
  cases hentry : t.entry id with
  | some e => rfl
  | none =>
    obtain ⟨e, he, rfl⟩ := List.mem_map.1 h
    have := List.find?_eq_none.1 hentry e he
    simp at this

end Outbox

end Gittree
