import Gittree.Relay.MemorySession

/-!
# The life of a subscription

A subscription is opened by the `EOSE` that answers its `REQ`, and ended by a `CLOSE` of the client
or a `CLOSED` of the relay.  `dispatch_event` goes by the registry, which `CLOSE` clears; but a
`REQ` or `COUNT` that is answered with `CLOSED` leaves the registry as it is.  So where such a
message re-uses the id of an open subscription, the relay goes on to send events to an id that it
has said to be closed.

The repositories are shared, so each message comes with those that it is handled over.

* `Refuses`, `turn_handleMessage`: the messages that are answered with `CLOSED`, and what every
  message does to the subscriptions;
* `Inv.exchange`: what every guarded step keeps;
* `lawful_of_reach`: while no open subscription is refused, events are sent to open ids only, and
  such a refusal ends this;
* `not_lawful`: an event that is sent after `CLOSED`;
* `limited_of_reach`: the registry stays within its limit, and only an `EOSE` tells of a change.
-/

namespace Gittree

open Rust
open Rust.Json (Value)

namespace Session

/-! ### Requests that are refused -/

/-- The request fails for want of authentication or membership. -/
def ReadDenied (s : Session) (m : Memberships) : Prop :=
  ¬ (s.readAuthRequired = true → s.authenticatedPubkey.isSome = true) ∨
    ∃ message, s.ensureReadMembership m = .error message

section Refusals

variable {σ : Type} (s : Session) (store : EventStore σ) (env : Env) (repos : Repos σ)

/-- The stored events are found, but the virtual events fail. -/
def VirtualDenied (id : String) (filters : List Value) : Prop :=
  ∃ parsed events message, parseFilters filters = .ok parsed ∧ s.filterLimitsOk parsed = true ∧
    (id ∈ s.registry ∨ ∀ max ∈ s.policy.maxSubscriptions, s.registry.size < max) ∧
    store.query repos.store parsed = .ok events ∧
    s.virtualEvents env repos.memberships parsed = .error message

/-- The messages that are answered with `CLOSED`, and for which subscription. -/
def Refuses (msg : ClientMessage) (id : String) : Prop :=
  (s.rateLimitRequest env.instant).1 = false ∧
    ((∃ filters, msg = .req id filters ∧
        (s.ReadDenied repos.memberships ∨ s.VirtualDenied store env repos id filters)) ∨
      ∃ filters, msg = .count id filters ∧ s.ReadDenied repos.memberships)

/-- The gates that `REQ` and `COUNT` share close the subscription for want of access. -/
theorem checkRead_eq_closed_iff (m : Memberships) (id : String) (filters : List Value) :
    (∃ text, s.checkRead m id filters = .error (.closed id text)) ↔ s.ReadDenied m := by
  unfold checkRead ReadDenied
  simp only [Result.bind_eq_error, Result.ensure_eq_error, Result.mapError_eq_error,
    Result.mapError_eq_ok, Result.ensure_eq_ok, Result.pure_ne_error, FilterError.notice]
  generalize (s.readAuthRequired = true → s.authenticatedPubkey.isSome = true) = auth
  by_cases hauth : auth
  · simp [hauth]
  · simp [hauth]

theorem checkRead_eq_ok {m : Memberships} {id : String} {filters : List Value}
    {parsed : List Filter} :
    s.checkRead m id filters = .ok parsed ↔
      ¬ s.ReadDenied m ∧ parseFilters filters = .ok parsed ∧ s.filterLimitsOk parsed = true := by
  unfold checkRead ReadDenied
  simp only [Result.bind_eq_ok, Result.ensure_eq_ok, Result.mapError_eq_ok, Result.pure_eq_ok]
  generalize (s.readAuthRequired = true → s.authenticatedPubkey.isSome = true) = auth
  cases s.ensureReadMembership m with
  | error message => simp
  | ok u =>
    by_cases hauth : auth
    · simp [hauth]
    · simp [hauth]

/-- A failing `REQ` or `COUNT` is closed, or answered with a notice. -/
theorem failsWith_checkRead (m : Memberships) (id : String) (filters : List Value) :
    FailsWith (fun message => (∃ text, message = .closed id text) ∨ message.IsAnswer)
      (s.checkRead m id filters) :=
  failsWith_bind (failsWith_ensure (Or.inl ⟨_, rfl⟩)) fun _ =>
    failsWith_bind (failsWith_mapError fun _ => Or.inl ⟨_, rfl⟩) fun _ =>
      failsWith_bind (failsWith_mapError fun _ => Or.inr trivial) fun _ =>
        failsWith_bind (failsWith_ensure (Or.inr trivial)) fun _ => failsWith_ok _

theorem failsWith_checkReq (id : String) (filters : List Value) :
    FailsWith (fun message => (∃ text, message = .closed id text) ∨ message.IsAnswer)
      (s.checkReq store env repos id filters) :=
  failsWith_bind (failsWith_checkRead s _ id filters) fun _ =>
    failsWith_bind (failsWith_ensure (Or.inr trivial)) fun _ =>
      failsWith_bind (failsWith_mapError fun _ => Or.inr trivial) fun _ =>
        failsWith_bind (failsWith_mapError fun _ => Or.inl ⟨_, rfl⟩) fun _ => failsWith_ok _

theorem checkReq_eq_closed_iff (id : String) (filters : List Value) :
    (∃ text, s.checkReq store env repos id filters = .error (.closed id text)) ↔
      s.ReadDenied repos.memberships ∨ s.VirtualDenied store env repos id filters := by
  constructor
  · rintro ⟨text, h⟩
    unfold checkReq at h
    simp only [Result.bind_eq_error, Result.ensure_eq_error, Result.mapError_eq_error,
      Result.mapError_eq_ok, Result.ensure_eq_ok, Result.pure_ne_error, StoreError.notice] at h
    rcases h with h | ⟨parsed, hread, ⟨-, ⟨⟩⟩ | ⟨-, hsize, ⟨_, -, ⟨⟩⟩ | ⟨events, hquery, h⟩⟩⟩
    · exact Or.inl ((s.checkRead_eq_closed_iff _ id filters).1 ⟨text, h⟩)
    · obtain ⟨-, hparse, hlimits⟩ := s.checkRead_eq_ok.1 hread
      obtain ⟨message, hvirtual, -⟩ | ⟨_, -, ⟨⟩⟩ := h
      exact Or.inr ⟨parsed, events, message, hparse, hlimits, hsize, hquery, hvirtual⟩
  · intro h
    by_cases hread : s.ReadDenied repos.memberships
    · obtain ⟨text, ht⟩ := (s.checkRead_eq_closed_iff repos.memberships id filters).2 hread
      refine ⟨text, ?_⟩
      unfold checkReq
      rw [ht]
      rfl
    · obtain ⟨parsed, events, message, hparse, hlimits, hsize, hquery, hvirtual⟩ :=
        h.resolve_left hread
      refine ⟨message, ?_⟩
      have hok : s.checkRead repos.memberships id filters = .ok parsed :=
        s.checkRead_eq_ok.2 ⟨hread, hparse, hlimits⟩
      unfold checkReq
      simp only [Result.bind_eq_error, Result.mapError_eq_error]
      exact Or.inr ⟨parsed, hok, Or.inr ⟨(), Result.ensure_eq_ok.2 hsize,
        Or.inr ⟨events, Result.mapError_eq_ok.2 hquery, Or.inl ⟨message, hvirtual, rfl⟩⟩⟩⟩

theorem checkCount_eq_closed_iff (id : String) (filters : List Value) :
    (∃ text, s.checkCount store repos id filters = .error (.closed id text)) ↔
      s.ReadDenied repos.memberships := by
  rw [← s.checkRead_eq_closed_iff repos.memberships id filters]
  unfold checkCount
  simp only [Result.bind_eq_error, Result.mapError_eq_error, Result.mapError_eq_ok,
    Result.pure_ne_error, StoreError.notice]
  simp

theorem failsWith_checkCount (id : String) (filters : List Value) :
    FailsWith (fun message => (∃ text, message = .closed id text) ∨ message.IsAnswer)
      (s.checkCount store repos id filters) :=
  failsWith_bind (failsWith_checkRead s _ id filters) fun _ =>
    failsWith_bind (failsWith_mapError fun _ => Or.inr trivial) fun _ => failsWith_ok _

/-! ### What a message does to the subscriptions -/

/-- What a message does to the registry, and what is sent to its subscription. -/
inductive Turn (msg : ClientMessage) (r : Reaction σ) : Prop
  /-- A subscription is opened. -/
  | opened (id : String) (filters : List Value) (parsed : List Filter) (events : List NostrEvent)
    (hmsg : msg = .req id filters) (hnot : ∀ other, ¬ s.Refuses store env repos msg other)
    (hregistry : r.session.registry =
      SubscriptionRegistry.markEose (s.registry.insert id ⟨false, parsed⟩) id)
    (hreplies : r.replies = events.map (.event id) ++ [.eose id])
  /-- The client closes a subscription. -/
  | closed (id : String) (hmsg : msg = .close id)
    (hregistry : r.session.registry = s.registry.erase id) (hreplies : r.replies = [])
  /-- A request is refused. -/
  | refused (id text : String) (hrefuses : s.Refuses store env repos msg id)
    (hregistry : r.session.registry = s.registry) (hreplies : r.replies = [.closed id text])
  /-- Nothing about a subscription is said or done. -/
  | other (hmsg : ∀ id, msg ≠ .close id) (hnot : ∀ other, ¬ s.Refuses store env repos msg other)
    (hregistry : r.session.registry = s.registry)
    (hreplies : ∀ message ∈ r.replies, message.IsAnswer ∨ ∃ id n, message = .count id n)

theorem refuses_req_iff (id : String) (filters : List Value) (other : String) :
    s.Refuses store env repos (.req id filters) other ↔
      (s.rateLimitRequest env.instant).1 = false ∧ other = id ∧
        ∃ text, s.checkReq store env repos id filters = .error (.closed id text) := by
  rw [checkReq_eq_closed_iff]
  constructor
  · rintro ⟨hlimit, ⟨_, ⟨⟩, h⟩ | ⟨_, ⟨⟩, -⟩⟩
    exact ⟨hlimit, rfl, h⟩
  · rintro ⟨hlimit, rfl, h⟩
    exact ⟨hlimit, Or.inl ⟨filters, rfl, h⟩⟩

theorem refuses_count_iff (id : String) (filters : List Value) (other : String) :
    s.Refuses store env repos (.count id filters) other ↔
      (s.rateLimitRequest env.instant).1 = false ∧ other = id ∧
        ∃ text, s.checkCount store repos id filters = .error (.closed id text) := by
  rw [checkCount_eq_closed_iff]
  constructor
  · rintro ⟨hlimit, ⟨_, ⟨⟩, -⟩ | ⟨_, ⟨⟩, h⟩⟩
    exact ⟨hlimit, rfl, h⟩
  · rintro ⟨hlimit, rfl, h⟩
    exact ⟨hlimit, Or.inr ⟨filters, rfl, h⟩⟩

/-- A message is refused for one subscription only. -/
theorem eq_of_refuses {msg : ClientMessage} {id other : String}
    (h : s.Refuses store env repos msg id) (h' : s.Refuses store env repos msg other) :
    id = other := by
  obtain ⟨-, ⟨_, rfl, -⟩ | ⟨_, rfl, -⟩⟩ := h
  · obtain ⟨-, ⟨_, ⟨⟩, -⟩ | ⟨_, ⟨⟩, -⟩⟩ := h'
    rfl
  · obtain ⟨-, ⟨_, ⟨⟩, -⟩ | ⟨_, ⟨⟩, -⟩⟩ := h'
    rfl

variable {s store env repos}

/-- A message that is no `CLOSE` and is not refused, with one answer. -/
theorem turn_answer {msg : ClientMessage} (hmsg : ∀ id, msg ≠ .close id)
    (hnot : ∀ other, ¬ s.Refuses store env repos msg other) {r : Reaction σ}
    (hregistry : r.session.registry = s.registry) {message : ServerMessage}
    (hreplies : r.replies = [message])
    (hanswer : message.IsAnswer ∨ ∃ id n, message = .count id n) :
    s.Turn store env repos msg r := by
  refine .other hmsg hnot hregistry fun m hm => ?_
  rw [hreplies, List.mem_singleton] at hm
  rwa [hm]

/-- A request that fails at a gate is refused if the gate answers with `CLOSED`. -/
theorem turn_error {α : Type} {msg : ClientMessage} {id : String} {x : Except ServerMessage α}
    {message : ServerMessage} {r : Reaction σ} (hmsg : ∀ id, msg ≠ .close id)
    (hfails : FailsWith (fun m => (∃ text, m = .closed id text) ∨ m.IsAnswer) x)
    (hrefuses : ∀ other, s.Refuses store env repos msg other ↔
      other = id ∧ ∃ text, x = .error (.closed id text))
    (hx : x = .error message) (hregistry : r.session.registry = s.registry)
    (hreplies : r.replies = [message]) : s.Turn store env repos msg r := by
  rcases hfails message hx with ⟨text, rfl⟩ | hanswer
  · exact .refused id text ((hrefuses id).2 ⟨rfl, text, hx⟩) hregistry hreplies
  · refine turn_answer hmsg (fun other h => ?_) hregistry hreplies (Or.inl hanswer)
    obtain ⟨-, text, ht⟩ := (hrefuses other).1 h
    rw [hx] at ht
    cases ht
    cases hanswer

/-- A request that passes its gates is not refused. -/
theorem not_refuses_of_ok {α : Type} {msg : ClientMessage} {id : String}
    {x : Except ServerMessage α} {a : α}
    (hrefuses : ∀ other, s.Refuses store env repos msg other ↔
      other = id ∧ ∃ text, x = .error (.closed id text))
    (hx : x = .ok a) : ∀ other, ¬ s.Refuses store env repos msg other := by
  intro other h
  obtain ⟨-, text, ht⟩ := (hrefuses other).1 h
  rw [hx] at ht
  cases ht

theorem not_refuses_of_limited {msg : ClientMessage}
    (hlimit : (s.rateLimitRequest env.instant).1 = true) :
    ∀ other, ¬ s.Refuses store env repos msg other := by
  rintro other ⟨hfalse, -⟩
  rw [hlimit] at hfalse
  cases hfalse

variable (s store env repos)

theorem turn_handleReq (id : String) (filters : List Value) :
    s.Turn store env repos (.req id filters) (s.handleReq store env repos id filters) := by
  obtain ⟨hit, limiter, hhit⟩ := s.exists_rateLimitRequest env.instant
  have hiff := s.refuses_req_iff store env repos id filters
  unfold handleReq
  rw [hhit] at hiff ⊢
  cases hit with
  | true =>
    exact turn_answer (fun _ h => by cases h) (not_refuses_of_limited (by rw [hhit])) rfl rfl
      (Or.inl trivial)
  | false =>
    simp only [true_and] at hiff
    show s.Turn store env repos _
      (acceptReq { s with rateLimiter := limiter } store env repos id filters)
    unfold acceptReq
    have hcheck : checkReq { s with rateLimiter := limiter } store env repos id filters =
        checkReq s store env repos id filters := rfl
    rw [hcheck]
    cases hc : s.checkReq store env repos id filters with
    | ok r => exact .opened id filters r.1 r.2.1 rfl (not_refuses_of_ok hiff hc) rfl rfl
    | error message =>
      exact turn_error (fun _ h => by cases h) (s.failsWith_checkReq store env repos id filters) hiff
        hc rfl rfl

theorem turn_handleCount (id : String) (filters : List Value) :
    s.Turn store env repos (.count id filters) (s.handleCount store env repos id filters) := by
  obtain ⟨hit, limiter, hhit⟩ := s.exists_rateLimitRequest env.instant
  have hiff := s.refuses_count_iff store env repos id filters
  unfold handleCount
  rw [hhit] at hiff ⊢
  cases hit with
  | true =>
    exact turn_answer (fun _ h => by cases h) (not_refuses_of_limited (by rw [hhit])) rfl rfl
      (Or.inl trivial)
  | false =>
    simp only [true_and] at hiff
    have hcheck : checkCount { s with rateLimiter := limiter } store repos id filters =
        checkCount s store repos id filters := rfl
    simp only [hcheck]
    cases hc : s.checkCount store repos id filters with
    | ok message =>
      refine turn_answer (fun _ h => by cases h) (not_refuses_of_ok hiff hc) rfl rfl (Or.inr ?_)
      unfold checkCount at hc
      simp only [Result.bind_eq_ok, Result.pure_eq_ok] at hc
      obtain ⟨-, -, events, -, rfl⟩ := hc
      exact ⟨id, events.length, rfl⟩
    | error message =>
      exact turn_error (fun _ h => by cases h) (s.failsWith_checkCount store repos id filters) hiff
        hc rfl rfl

theorem isAnswer_storeEvent (event : NostrEvent) :
    ∀ message ∈ (s.storeEvent store env repos event).replies, message.IsAnswer := by
  unfold storeEvent
  split <;> simp [ServerMessage.IsAnswer, StoreError.notice]

/-- An event leaves the session as it is and is answered as an event. -/
theorem acceptEvent_frame (event : NostrEvent) :
    (s.acceptEvent store env repos event).session = s ∧
      ∀ message ∈ (s.acceptEvent store env repos event).replies, message.IsAnswer := by
  have hone : ∀ {m : ServerMessage}, m.IsAnswer → ∀ message ∈ [m], message.IsAnswer :=
    fun h message hm => List.mem_singleton.1 hm ▸ h
  unfold acceptEvent
  cases hc : s.checkEvent env event with
  | error message => exact ⟨rfl, hone (s.failsWith_checkEvent env event message hc)⟩
  | ok u =>
    simp only
    unfold handleMembershipEvent
    split_ifs with hkind
    · exact ⟨rfl, hone (s.isAnswer_membershipAnswer event env.now repos.memberships)⟩
    · cases hw : s.checkWrite store env repos event with
      | error message => exact ⟨rfl, hone (s.failsWith_checkWrite store env repos event message hw)⟩
      | ok u =>
        exact ⟨(s.storeEvent_frame store env repos event).1, s.isAnswer_storeEvent store env repos event⟩

theorem not_refuses_event (value : Value) (other : String) :
    ¬ s.Refuses store env repos (.event value) other := by
  rintro ⟨-, ⟨_, ⟨⟩, -⟩ | ⟨_, ⟨⟩, -⟩⟩

theorem not_refuses_auth (value : Value) (other : String) :
    ¬ s.Refuses store env repos (.auth value) other := by
  rintro ⟨-, ⟨_, ⟨⟩, -⟩ | ⟨_, ⟨⟩, -⟩⟩

theorem turn_handleEvent (value : Value) :
    s.Turn store env repos (.event value) (s.handleEvent store env repos value) := by
  have hnot := s.not_refuses_event store env repos value
  obtain ⟨hit, limiter, hhit⟩ := s.exists_rateLimitEvent env.instant
  unfold handleEvent
  rw [hhit]
  cases NostrEvent.fromValue value with
  | none => exact turn_answer (fun _ h => by cases h) hnot rfl rfl (Or.inl trivial)
  | some event =>
    cases hit with
    | true => exact turn_answer (fun _ h => by cases h) hnot rfl rfl (Or.inl trivial)
    | false =>
      obtain ⟨hsession, hreplies⟩ :=
        acceptEvent_frame { s with rateLimiter := limiter } store env repos event
      refine .other (fun _ h => by cases h) hnot ?_ fun m hm => Or.inl (hreplies m hm)
      show (acceptEvent { s with rateLimiter := limiter } store env repos event).session.registry = _
      rw [hsession]

theorem turn_handleAuth (value : Value) :
    s.Turn store env repos (.auth value) (s.handleAuth env repos value) := by
  have hnot := s.not_refuses_auth store env repos value
  unfold handleAuth
  cases NostrEvent.fromValue value with
  | none => exact turn_answer (fun _ h => by cases h) hnot rfl rfl (Or.inl trivial)
  | some event =>
    simp only
    cases hauth : s.checkAuth env event with
    | error message =>
      exact turn_answer (fun _ h => by cases h) hnot rfl rfl
        (Or.inl (s.failsWith_checkAuth env event message hauth))
    | ok auth => exact turn_answer (fun _ h => by cases h) hnot rfl rfl (Or.inl trivial)

/-- Every message takes one of the turns. -/
theorem turn_handleMessage (msg : ClientMessage) :
    s.Turn store env repos msg (s.handleMessage store env repos msg) := by
  cases msg with
  | event value => exact s.turn_handleEvent store env repos value
  | req id filters => exact s.turn_handleReq store env repos id filters
  | close id => exact .closed id rfl rfl rfl
  | auth value => exact s.turn_handleAuth store env repos value
  | count id filters => exact s.turn_handleCount store env repos id filters

end Refusals

/-! ### Histories -/

/-- Some event would be sent to the subscription. -/
def Live (s : Session) (id : String) : Prop :=
  ∃ event, .event id event ∈ s.dispatchEvent event

end Session

/-- What is received, from the client or the channel, and what is sent then. -/
structure Exchange where
  received : Option ClientMessage
  replies : List ServerMessage
  dispatched : List ServerMessage

/-- What happens next in a session. -/
inductive SessionAction (σ : Type)
  /-- A client message is handled over the repositories as they are then. -/
  | message (msg : ClientMessage) (env : Env) (repos : Repos σ)
  /-- An event of the channel is dispatched. -/
  | dispatch (event : NostrEvent)

/-- A message opens a subscription or ends it. -/
inductive Mark
  | opened
  | ended
  deriving DecidableEq

/-- A received message ends a subscription if it is a `CLOSE` for it. -/
def ClientMessage.mark (id : String) : ClientMessage → Option Mark
  | .close other => if other = id then some .ended else none
  | _ => none

/-- A sent message opens a subscription if it is an `EOSE` for it, and ends it if it is a `CLOSED`. -/
def ServerMessage.mark (id : String) : ServerMessage → Option Mark
  | .eose other => if other = id then some .opened else none
  | .closed other _ => if other = id then some .ended else none
  | _ => none

namespace Exchange

/-- The messages of an exchange that open or end a subscription. -/
def marks (id : String) (x : Exchange) : List Mark :=
  (x.received.bind (ClientMessage.mark id)).toList ++
    (x.replies ++ x.dispatched).filterMap (ServerMessage.mark id)

/-- The last message that opened or ended a subscription. -/
def lastMark (history : List Exchange) (id : String) : Option Mark :=
  (history.flatMap (marks id)).getLast?

/-- A `REQ` for the subscription is answered with `EOSE`. -/
def Opens (id : String) (x : Exchange) : Prop :=
  (∃ filters, x.received = some (.req id filters)) ∧ .eose id ∈ x.replies

/-- After the subscription was ended, a `REQ` for it was answered with `EOSE`. -/
def Reopened (history : List Exchange) (id : String) : Prop :=
  ∀ older x newer, history = older ++ x :: newer → .ended ∈ x.marks id → ∃ y ∈ newer, y.Opens id

theorem lastMark_append (history : List Exchange) (x : Exchange) (id : String) :
    lastMark (history ++ [x]) id = (x.marks id).getLast?.or (lastMark history id) := by
  unfold lastMark
  rw [List.flatMap_append, List.getLast?_append]
  simp

/-- The marks of an exchange that opens a subscription say nothing else about it. -/
def Proper (x : Exchange) : Prop :=
  ∀ id, .opened ∈ x.marks id → x.Opens id ∧ .ended ∉ x.marks id

/-- A subscription that is open was opened after its last end. -/
theorem reopened_of_lastMark {history : List Exchange} (hproper : ∀ x ∈ history, x.Proper)
    {id : String} (h : lastMark history id = some .opened) : Reopened history id := by
  rintro older x newer rfl hended
  unfold lastMark at h
  rw [List.flatMap_append, List.flatMap_cons, List.getLast?_append, List.getLast?_append] at h
  cases hnewer : (newer.flatMap (marks id)).getLast? with
  | none =>
    -- the exchange that ended the subscription would have opened it, too
    rw [hnewer, Option.none_or, List.getLast?_eq_some_getLast (List.ne_nil_of_mem hended),
      Option.some_or] at h
    have hopened : Mark.opened ∈ x.marks id := Option.some.inj h ▸ List.getLast_mem _
    exact absurd hended (hproper x (by simp) id hopened).2
  | some mark =>
    rw [hnewer, Option.some_or] at h
    obtain rfl : mark = .opened := Option.some.inj h
    obtain ⟨y, hy, hopened⟩ := List.mem_flatMap.1 (List.mem_of_getLast? hnewer)
    exact ⟨y, hy, (hproper y (by simp [hy]) id hopened).1⟩

end Exchange

namespace Session

/-! ### Dispatching -/

/-- A dispatch sends its event to the subscriptions that match it. -/
theorem event_mem_dispatchEvent_iff {s : Session} {id : String} {event : NostrEvent} :
    .event id event ∈ s.dispatchEvent event ↔ ∃ state tags, s.registry[id]? = some state ∧
      TagIndex.fromTags event.tags = .ok tags ∧ ∃ filter ∈ state.filters,
        filter.matches event tags = true := by
  unfold dispatchEvent
  cases htags : TagIndex.fromTags event.tags with
  | error err => simp
  | ok tags =>
    simp only [List.mem_map, List.mem_filter, Std.ExtTreeMap.mem_toList_iff_getElem?_eq_some,
      List.any_eq_true, Prod.exists]
    constructor
    · rintro ⟨_, state, ⟨hstate, hmatch⟩, ⟨⟩⟩
      exact ⟨state, tags, hstate, rfl, hmatch⟩
    · rintro ⟨state, _, hstate, ⟨⟩, hmatch⟩
      exact ⟨id, state, ⟨hstate, hmatch⟩, rfl⟩

/-- Whether a subscription is live depends on its entry in the registry only. -/
theorem live_congr {s s' : Session} {id : String} (h : s'.registry[id]? = s.registry[id]?) :
    s'.Live id ↔ s.Live id := by
  unfold Live
  simp only [event_mem_dispatchEvent_iff, h]

theorem not_live_of_none {s : Session} {id : String} (h : s.registry[id]? = none) : ¬ s.Live id := by
  rintro ⟨event, hm⟩
  obtain ⟨state, -, hstate, -⟩ := event_mem_dispatchEvent_iff.1 hm
  rw [h] at hstate
  cases hstate

theorem mark_of_mem_dispatchEvent {s : Session} {event : NostrEvent} {message : ServerMessage}
    (h : message ∈ s.dispatchEvent event) (id : String) : message.mark id = none := by
  unfold dispatchEvent at h
  split at h
  · rw [List.mem_singleton.1 h]
    rfl
  · obtain ⟨entry, -, rfl⟩ := List.mem_map.1 h
    rfl

section Step

variable {σ : Type} (store : EventStore σ)

/-- A message dispatches nothing, or the event that it submits. -/
theorem dispatched_handleMessage (s : Session) (env : Env) (repos : Repos σ) (msg : ClientMessage) :
    (s.handleMessage store env repos msg).dispatched = [] ∨
      ∃ event, (s.handleMessage store env repos msg).dispatched = s.dispatchEvent event := by
  by_cases hsub : ∃ event, s.Submits store env repos msg event
  · obtain ⟨event, hsub⟩ := hsub
    obtain ⟨limiter, heq⟩ := hsub.handleMessage_eq
    rw [heq]
    unfold storeEvent
    split
    · exact Or.inl rfl
    · exact Or.inr ⟨event, rfl⟩
    · exact Or.inr ⟨event, rfl⟩
  · exact Or.inl (idle_of_not_submits (not_exists.1 hsub)).2.1

/-- One step of a session. -/
def exchange (s : Session) : SessionAction σ → Option (Session × Exchange)
  | .message msg env repos =>
    let r := s.handleMessage store env repos msg
    some (r.session, ⟨some msg, r.replies, r.dispatched⟩)
  | .dispatch event => some (s, ⟨none, [], s.dispatchEvent event⟩)

/-- What a step dispatches goes to live subscriptions, and concerns no opening or end. -/
theorem dispatched_exchange {s t : Session} {action : SessionAction σ} {x : Exchange}
    (h : s.exchange store action = some (t, x)) :
    (∀ message ∈ x.dispatched, ∀ id, message.mark id = none) ∧
      ∀ id event, .event id event ∈ x.dispatched → s.Live id := by
  have hdispatch : ∀ event, (∀ message ∈ s.dispatchEvent event, ∀ id, message.mark id = none) ∧
      ∀ id delivered, .event id delivered ∈ s.dispatchEvent event → s.Live id := by
    refine fun event => ⟨fun message hm id => mark_of_mem_dispatchEvent hm id, ?_⟩
    intro id delivered hm
    obtain rfl := (of_mem_dispatchEvent hm rfl).1
    exact ⟨delivered, hm⟩
  cases action with
  | message msg env repos =>
    cases h
    rcases s.dispatched_handleMessage store env repos msg with hd | ⟨event, hd⟩
    · simp [hd]
    · simp only [hd]
      exact hdispatch event
  | dispatch event =>
    cases h
    exact hdispatch event

/-- The step refuses a request for the subscription. -/
def RefusedBy (s : Session) : SessionAction σ → String → Prop
  | .message msg env repos, id => s.Refuses store env repos msg id
  | .dispatch _, _ => False

/-- What a step does to one subscription. -/
inductive Fate (s : Session) (action : SessionAction σ) (t : Session) (x : Exchange) (id : String) :
    Prop
  | opened (hnot : ¬ s.RefusedBy store action id) (hmarks : x.marks id = [.opened])
    (hopens : x.Opens id)
  | closed (hnot : ¬ s.RefusedBy store action id) (hmarks : x.marks id = [.ended])
    (hregistry : t.registry[id]? = none)
  | refused (hrefused : s.RefusedBy store action id) (hmarks : x.marks id = [.ended])
    (hregistry : t.registry[id]? = s.registry[id]?)
  | kept (hnot : ¬ s.RefusedBy store action id) (hmarks : x.marks id = [])
    (hregistry : t.registry[id]? = s.registry[id]?)

theorem getElem?_markEose_insert (registry : SubscriptionRegistry) {id other : String}
    (h : other ≠ id) (state : SubscriptionState) :
    (SubscriptionRegistry.markEose (registry.insert id state) id)[other]? = registry[other]? := by
  unfold SubscriptionRegistry.markEose
  rw [Map.get_insert, if_pos rfl]
  simp only [Map.get_insert, if_neg (Ne.symm h)]

/-- Every step decides the fate of every subscription. -/
theorem fate_exchange {s t : Session} {action : SessionAction σ} {x : Exchange}
    (h : s.exchange store action = some (t, x)) (id : String) : s.Fate store action t x id := by
  have hsilent : (x.dispatched.filterMap (ServerMessage.mark id)) = [] :=
    List.filterMap_eq_nil_iff.2 fun m hm => (dispatched_exchange store h).1 m hm id
  have hmarks : x.marks id = (x.received.bind (ClientMessage.mark id)).toList ++
      x.replies.filterMap (ServerMessage.mark id) := by
    unfold Exchange.marks
    rw [List.filterMap_append, hsilent, List.append_nil]
  cases action with
  | dispatch event =>
    cases h
    exact .kept not_false hmarks rfl
  | message msg env repos =>
    have hturn := s.turn_handleMessage store env repos msg
    cases h
    cases hturn with
    | opened other filters parsed events hmsg hnot hregistry hreplies =>
      subst hmsg
      have hevents :
          (events.map (ServerMessage.event other)).filterMap (ServerMessage.mark id) = [] := by
        rw [List.filterMap_map]
        exact List.filterMap_eq_nil_iff.2 fun _ _ => rfl
      by_cases hid : other = id
      · subst hid
        refine .opened (hnot other) (hmarks.trans ?_) ⟨⟨filters, rfl⟩, ?_⟩
        · simp only [hreplies, List.filterMap_append, hevents]
          simp [ClientMessage.mark, ServerMessage.mark]
        · simp [hreplies]
      · refine .kept (hnot id) (hmarks.trans ?_) ?_
        · simp only [hreplies, List.filterMap_append, hevents]
          simp [ClientMessage.mark, ServerMessage.mark, hid]
        · rw [hregistry]
          exact getElem?_markEose_insert s.registry (Ne.symm hid) _
    | closed other hmsg hregistry hreplies =>
      subst hmsg
      have hnot : ¬ s.Refuses store env repos (.close other) id := by
        rintro ⟨-, ⟨_, ⟨⟩, -⟩ | ⟨_, ⟨⟩, -⟩⟩
      by_cases hid : other = id
      · subst hid
        refine .closed hnot (hmarks.trans ?_) ?_
        · simp [hreplies, ClientMessage.mark]
        · rw [hregistry, Map.get_erase, if_pos rfl]
      · refine .kept hnot (hmarks.trans ?_) ?_
        · simp [hreplies, ClientMessage.mark, hid]
        · rw [hregistry, Map.get_erase, if_neg hid]
    | refused other text hrefuses hregistry hreplies =>
      have hreceived : msg.mark id = none := by
        obtain ⟨-, ⟨_, rfl, -⟩ | ⟨_, rfl, -⟩⟩ := hrefuses
        · rfl
        · rfl
      by_cases hid : other = id
      · subst hid
        refine .refused hrefuses (hmarks.trans ?_) (by rw [hregistry])
        simp [hreplies, hreceived, ServerMessage.mark]
      · refine .kept (fun h => hid (s.eq_of_refuses store env repos hrefuses h)) (hmarks.trans ?_)
          (by rw [hregistry])
        simp [hreplies, hreceived, ServerMessage.mark, hid]
    | other hmsg hnot hregistry hreplies =>
      have hreceived : msg.mark id = none := by
        cases msg with
        | close other => exact absurd rfl (hmsg other)
        | event => rfl
        | req => rfl
        | auth => rfl
        | count => rfl
      have hsent : (s.handleMessage store env repos msg).replies.filterMap
          (ServerMessage.mark id) = [] := by
        refine List.filterMap_eq_nil_iff.2 fun message hm => ?_
        rcases hreplies message hm with hanswer | ⟨other, n, rfl⟩
        · cases message with
          | notice => rfl
          | ok => rfl
          | event => rfl
          | eose => cases hanswer
          | closed => cases hanswer
          | auth => rfl
          | count => rfl
        · rfl
      refine .kept (hnot id) (hmarks.trans ?_) (by rw [hregistry])
      simp [hsent, hreceived]

/-! ### Runs -/

/-- A session without subscriptions that has said nothing yet. -/
structure Unused (run : Session × List Exchange) : Prop where
  registry : run.1.registry = ∅
  history : run.2 = []

/-- The steps that refuse no request for a live subscription. -/
def KeepsLive (run : Session × List Exchange) (action : SessionAction σ) : Prop :=
  ∀ id, run.1.RefusedBy store action id → ¬ run.1.Live id

/-- An event would be sent only to a subscription that was last opened, and since its last end by an
`EOSE` that answered a `REQ` for it. -/
def Lawful (run : Session × List Exchange) : Prop :=
  ∀ id, run.1.Live id → Exchange.lastMark run.2 id = some .opened ∧ Exchange.Reopened run.2 id

/-- Live subscriptions are open, and the exchanges say one thing about a subscription. -/
structure Inv (run : Session × List Exchange) : Prop where
  isOpen : ∀ id, run.1.Live id → Exchange.lastMark run.2 id = some .opened
  proper : ∀ x ∈ run.2, x.Proper

theorem Unused.inv {run : Session × List Exchange} (h : Unused run) : Inv run where
  isOpen := fun id hlive => absurd hlive (not_live_of_none (by simp [h.registry]))
  proper := by simp [h.history]

theorem Inv.lawful {run : Session × List Exchange} (h : Inv run) : Lawful run :=
  fun id hlive => ⟨h.isOpen id hlive, Exchange.reopened_of_lastMark h.proper (h.isOpen id hlive)⟩

theorem proper_of_fate {s t : Session} {action : SessionAction σ} {x : Exchange}
    (h : ∀ id, s.Fate store action t x id) : x.Proper := by
  intro id hopened
  cases h id with
  | opened hnot hmarks hopens =>
    refine ⟨hopens, ?_⟩
    rw [hmarks]
    simp
  | closed hnot hmarks => simp [hmarks] at hopened
  | refused hrefused hmarks => simp [hmarks] at hopened
  | kept hnot hmarks => simp [hmarks] at hopened

/-- The invariant is kept by every step that refuses no live subscription. -/
theorem Inv.exchange {s t : Session} {history : List Exchange} {action : SessionAction σ}
    {x : Exchange} (h : Inv (s, history)) (hok : KeepsLive store (s, history) action)
    (hstep : s.exchange store action = some (t, x)) : Inv (t, history ++ [x]) := by
  have hfate := s.fate_exchange store hstep
  refine ⟨fun id hlive => ?_, fun y hy => ?_⟩
  · show Exchange.lastMark (history ++ [x]) id = some .opened
    rw [Exchange.lastMark_append]
    cases hfate id with
    | opened hnot hmarks hopens => simp [hmarks]
    | closed hnot hmarks hregistry => exact absurd hlive (not_live_of_none hregistry)
    | refused hrefused hmarks hregistry =>
      exact absurd ((live_congr hregistry).1 hlive) (hok id hrefused)
    | kept hnot hmarks hregistry =>
      rw [hmarks, List.getLast?_nil, Option.none_or]
      exact h.isOpen id ((live_congr hregistry).1 hlive)
  · rcases List.mem_append.1 hy with hy | hy
    · exact h.proper y hy
    · rw [List.mem_singleton.1 hy]
      exact proper_of_fate store hfate

/-- While no request for a live subscription is refused, events are sent to open subscriptions only;
the next step keeps this if and only if it refuses no live subscription. -/
theorem lawful_of_reach {run : Session × List Exchange}
    (hreach : Runs.Reach (Runs.recorded (exchange store)) (KeepsLive store) Unused run) :
    Lawful run ∧ ∀ action next x, Runs.recorded (exchange store) run action = some (next, x) →
      (∀ id event, .event id event ∈ x.dispatched →
        Exchange.lastMark run.2 id = some .opened ∧ Exchange.Reopened run.2 id) ∧
      (Lawful next ↔ KeepsLive store run action) := by
  have hinv : Inv run := by
    refine hreach.invariant (fun _ h => h.inv) ?_
    rintro ⟨s, history⟩ action ⟨t, history'⟩ x h hok hstep
    obtain ⟨hstep, rfl⟩ := Runs.recorded_eq_some.1 hstep
    exact h.exchange store hok hstep
  refine ⟨hinv.lawful, ?_⟩
  rintro action ⟨t, history⟩ x hstep
  obtain ⟨hstep, rfl⟩ := Runs.recorded_eq_some.1 hstep
  refine ⟨fun id event hm => hinv.lawful id ((dispatched_exchange store hstep).2 id event hm),
    fun hlawful id hrefused hlive => ?_, fun hok => (hinv.exchange store hok hstep).lawful⟩
  -- the subscription is still live, but the last that was said about it is its end
  cases run.1.fate_exchange store hstep id with
  | opened hnot => exact hnot hrefused
  | closed hnot => exact hnot hrefused
  | kept hnot => exact hnot hrefused
  | refused hrefused hmarks hregistry =>
    have hlast := (hlawful id ((live_congr hregistry).2 hlive)).1
    rw [Exchange.lastMark_append, hmarks] at hlast
    cases hlast

/-! ### The limit -/

/-- A session with a limit and no more subscriptions than that. -/
structure Limited (max : ℕ) (s : Session) : Prop where
  limit : s.policy.maxSubscriptions = some max
  size_le : s.registry.size ≤ max

/-- A session with a limit and without subscriptions. -/
structure Vacant (max : ℕ) (s : Session) : Prop where
  limit : s.policy.maxSubscriptions = some max
  registry : s.registry = ∅

theorem Vacant.limited {max : ℕ} {s : Session} (h : Vacant max s) : Limited max s where
  limit := h.limit
  size_le := by
    rw [h.registry, Std.ExtTreeMap.size_empty]
    exact Nat.zero_le max

theorem size_markEose (registry : SubscriptionRegistry) (id : String) :
    (SubscriptionRegistry.markEose registry id).size = registry.size := by
  unfold SubscriptionRegistry.markEose
  split
  · rfl
  · next state hstate =>
    have hmem : id ∈ registry := Map.mem_iff.2 ⟨state, hstate⟩
    rw [Std.ExtTreeMap.size_insert, if_pos (Std.ExtTreeMap.contains_iff_mem.2 hmem)]

theorem policy_handleMessage (s : Session) (env : Env) (repos : Repos σ) (msg : ClientMessage) :
    (s.handleMessage store env repos msg).session.policy = s.policy := by
  show (s.handleMessage store env repos msg).session.frame.policy = s.frame.policy
  rw [frame_handleMessage]

/-- A subscription is opened under its own id, or where there is room for one more. -/
theorem room_of_checkReq {s : Session} {env : Env} {repos : Repos σ} {id : String}
    {filters : List Value} {r : List Filter × List NostrEvent × Memberships}
    (h : s.checkReq store env repos id filters = .ok r) :
    id ∈ s.registry ∨ ∀ max ∈ s.policy.maxSubscriptions, s.registry.size < max := by
  unfold checkReq at h
  simp only [Result.bind_eq_ok, Result.ensure_eq_ok] at h
  obtain ⟨_, -, _, hroom, -⟩ := h
  exact hroom

/-- No message takes the registry over the limit. -/
theorem Limited.handleMessage {max : ℕ} {s : Session} (h : Limited max s) (env : Env)
    (repos : Repos σ) (msg : ClientMessage) :
    Limited max (s.handleMessage store env repos msg).session := by
  refine ⟨(congrArg Policy.maxSubscriptions (s.policy_handleMessage store env repos msg)).trans
    h.limit, ?_⟩
  have heff := effect_handleMessage s store env repos msg
  generalize s.handleMessage store env repos msg = r at heff
  cases heff with
  | answered limiter message hquiet => exact h.size_le
  | closed id hmsg => exact Std.ExtTreeMap.size_erase_le.trans h.size_le
  | opened limiter id filters parsed events memberships hmsg hcheck =>
    show (SubscriptionRegistry.markEose _ id).size ≤ max
    rw [size_markEose, Std.ExtTreeMap.size_insert]
    split_ifs with hmem
    · exact h.size_le
    · have hroom := (room_of_checkReq store hcheck).resolve_left hmem
      exact hroom max h.limit
  | membership limiter value event hmsg hread hcheck hkind => exact h.size_le
  | stored limiter value event hmsg hread hcheck hother hwrite =>
    rw [(storeEvent_frame _ store env repos event).1]
    exact h.size_le
  | authenticated value event auth hmsg hread hauth => exact h.size_le

/-- A `REQ` that changes the registry is answered with an `EOSE` at the end. -/
theorem registry_handleReq (s : Session) (env : Env) (repos : Repos σ) (id : String)
    (filters : List Value) :
    (s.handleMessage store env repos (.req id filters)).session.registry = s.registry ∨
      (s.handleMessage store env repos (.req id filters)).replies.getLast? = some (.eose id) := by
  have hturn := s.turn_handleMessage store env repos (.req id filters)
  cases hturn with
  | opened other filters' parsed events hmsg hnot hregistry hreplies =>
    obtain ⟨rfl, -⟩ := ClientMessage.req.inj hmsg
    refine Or.inr ?_
    rw [hreplies, List.getLast?_append, List.getLast?_singleton]
    rfl
  | closed other hmsg => cases hmsg
  | refused other text hrefuses hregistry => exact Or.inl hregistry
  | other hmsg hnot hregistry => exact Or.inl hregistry

/-- In every run of a session with a limit the registry stays within it, and a `REQ` whose replies
do not end with `EOSE` leaves the registry as it is. -/
theorem limited_of_reach {max : ℕ} {s : Session}
    (hreach : Runs.Reach (exchange store) (fun _ _ => True) (Vacant max) s) :
    s.registry.size ≤ max ∧ ∀ env repos id filters,
      (∀ other, (s.handleMessage store env repos (.req id filters)).replies.getLast? ≠
        some (.eose other)) →
      (s.handleMessage store env repos (.req id filters)).session.registry = s.registry := by
  have hlimited : Limited max s := by
    refine hreach.invariant (fun _ h => h.limited) ?_
    intro s action t x h _ hstep
    cases action with
    | message msg env repos =>
      obtain ⟨rfl, -⟩ := Prod.mk.inj (Option.some.inj hstep)
      exact h.handleMessage store env repos msg
    | dispatch event =>
      obtain ⟨rfl, -⟩ := Prod.mk.inj (Option.some.inj hstep)
      exact h
  refine ⟨hlimited.size_le, ?_⟩
  intro env repos id filters hreplies
  exact (s.registry_handleReq store env repos id filters).resolve_right (hreplies id)

end Step

/-! ### Three runs -/

/-- A request for the events of a kind, under one id. -/
def requestKind (kind : ℕ) : SessionAction MemoryStore :=
  .message (.req "notes" [.object [("kinds", .array [.number (.posInt kind)])]]) Relay.noteEnv
    ⟨MemoryStore.new, ∅⟩

theorem unused_default : Unused (({}, []) : Session × List Exchange) := ⟨rfl, rfl⟩

theorem lawful_of_reach_note :
    ∃ run, Runs.Reach (Runs.recorded (exchange MemoryStore.eventStore))
        (KeepsLive MemoryStore.eventStore) Unused run ∧ run.1.Live "notes" ∧ Lawful run ∧
      ∀ action next x, Runs.recorded (exchange MemoryStore.eventStore) run action = some (next, x) →
        (∀ id event, .event id event ∈ x.dispatched →
          Exchange.lastMark run.2 id = some .opened ∧ Exchange.Reopened run.2 id) ∧
        (Lawful next ↔ KeepsLive MemoryStore.eventStore run action) := by
  have hrun : (Runs.recorded (exchange MemoryStore.eventStore) ({}, []) (requestKind 1)).map
      (fun r => r.1.1.dispatchEvent Relay.note) = some [.event "notes" Relay.note] := by
    decide +kernel
  obtain ⟨⟨run, x⟩, hstep, hdispatch⟩ := Option.map_eq_some_iff.1 hrun
  have hok : KeepsLive MemoryStore.eventStore ({}, []) (requestKind 1) :=
    fun id _ => not_live_of_none (by simp)
  have hreach := Runs.Reach.step (.start unused_default) hok hstep
  have hlive : run.1.Live "notes" := by
    refine ⟨Relay.note, ?_⟩
    rw [show run.1.dispatchEvent Relay.note = _ from hdispatch]
    exact List.mem_singleton.2 rfl
  exact ⟨run, hreach, hlive, lawful_of_reach _ hreach⟩

/-- A session that may have one subscription, and has it. -/
theorem limited_of_reach_one :
    ∃ s : Session, s.registry.size = 1 ∧ s.registry.size ≤ 1 ∧ ∀ env repos id filters,
      (∀ other, (s.handleMessage MemoryStore.eventStore env repos (.req id filters)).replies.getLast?
        ≠ some (.eose other)) →
      (s.handleMessage MemoryStore.eventStore env repos (.req id filters)).session.registry =
        s.registry := by
  have hrun : (Runs.exec (exchange MemoryStore.eventStore)
      { policy := { maxSubscriptions := some 1 } } [requestKind 1]).map
        (fun r => r.1.registry.size) = some 1 := by
    decide +kernel
  obtain ⟨⟨s, outputs⟩, hexec, hsize⟩ := Option.map_eq_some_iff.1 hrun
  have hreach := Runs.Reach.of_exec (.start (⟨rfl, rfl⟩ : Vacant 1 _)) (fun _ _ _ => trivial) hexec
  exact ⟨s, hsize, limited_of_reach _ hreach⟩

/-- A request for invites is refused under the id of an open subscription, and a note is still sent
to it. -/
theorem not_lawful :
    ¬ ∀ run action next x, Runs.Reach (Runs.recorded (exchange MemoryStore.eventStore))
        (fun _ _ => True) Unused run →
      Runs.recorded (exchange MemoryStore.eventStore) run action = some (next, x) →
      ∀ id event, .event id event ∈ x.dispatched →
        Exchange.lastMark run.2 id = some .opened := by
  intro h
  have hrun : (Runs.exec (Runs.recorded (exchange MemoryStore.eventStore)) ({}, [])
      [requestKind 1, requestKind nip43InviteKind]).map (fun r => (r.2.map Exchange.replies,
        Exchange.lastMark r.1.2 "notes", r.1.1.dispatchEvent Relay.note)) =
      some ([[.eose "notes"], [.closed "notes" (restricted "relay does not support invites")]],
        some .ended, [.event "notes" Relay.note]) := by
    decide +kernel
  obtain ⟨⟨run, outputs⟩, hexec, hfacts⟩ := Option.map_eq_some_iff.1 hrun
  simp only [Prod.mk.injEq] at hfacts
  obtain ⟨-, hlast, hdispatch⟩ := hfacts
  have hreach := Runs.Reach.of_exec (.start unused_default) (fun _ _ _ => trivial) hexec
  have hopen := h run (.dispatch Relay.note) _ _ hreach rfl "notes" Relay.note (by
    show ServerMessage.event "notes" Relay.note ∈ run.1.dispatchEvent Relay.note
    rw [hdispatch]
    exact List.mem_singleton.2 rfl)
  rw [hlast] at hopen
  cases hopen

end Session
end Gittree
