import Gittree.Relay.Tenancy

/-!
# Live delivery

The sessions that `run_with_broadcast` drives over one broadcast channel.  `handle_event` sends an
event to the channel when `store.insert` has answered `Inserted`, and every session, the publisher
too, dispatches what it receives from the channel.  But `handle_event` also dispatches the event
itself to the subscriptions of the publisher, and does so for every answer of the store.

The tables are shared and the handlers wait for them, so a message is handled over the repositories
as the other sessions have left them: each message comes with its own.

* `count_dispatchEvent`: a dispatch sends its event at most once to a subscription;
* `Inv.step`: while no session publishes an event that it subscribes to itself, what a subscription
  has been sent is bounded by what its session has received;
* `delivered_once`: then an event is delivered at most as often as it was inserted;
* `delivered_twice`: a publisher that is sent its own event twice.
-/

namespace Gittree

open Rust

/-! ### One dispatch -/

namespace Session

theorem nodup_dispatchEvent (s : Session) (event : NostrEvent) : (s.dispatchEvent event).Nodup := by
  unfold dispatchEvent
  cases TagIndex.fromTags event.tags with
  | error err => exact List.nodup_singleton _
  | ok tags =>
    have hkeys : s.registry.toList.Pairwise fun a b => a.1 ≠ b.1 :=
      (Map.pairwise_lt_toList s.registry).imp fun h => ne_of_lt h
    refine List.Pairwise.map _ ?_ (hkeys.filter _)
    intro a b hab heq
    exact hab (ServerMessage.event.inj heq).1

/-- A dispatch sends nothing but its event, and that at most once to a subscription. -/
theorem count_dispatchEvent (s : Session) (event delivered : NostrEvent) (id : String) :
    (s.dispatchEvent event).count (.event id delivered) ≤ [event].count delivered := by
  by_cases hm : .event id delivered ∈ s.dispatchEvent event
  · rw [(of_mem_dispatchEvent hm rfl).1, List.count_singleton_self]
    exact List.nodup_iff_count_le_one.1 (s.nodup_dispatchEvent event) _
  · rw [List.count_eq_zero.2 hm]
    exact Nat.zero_le _

section

variable {σ : Type} {store : EventStore σ} {s : Session} {env : Env} {repos : Repos σ}

/-- An event is dispatched by its publisher only if the publisher subscribes to it and the store has
answered. -/
theorem of_mem_dispatched_storeEvent {event delivered : NostrEvent} {id : String}
    (h : .event id delivered ∈ (s.storeEvent store env repos event).dispatched) :
    s.Subscribed event ∧ ∀ err, (store.insert repos.store event).1 ≠ .error err := by
  unfold storeEvent at h
  rcases hins : store.insert repos.store event with ⟨err | _ | _, state⟩
  · rw [hins] at h
    cases h
  · rw [hins] at h
    exact ⟨(of_mem_dispatchEvent h rfl).2, fun err herr => by cases herr⟩
  · rw [hins] at h
    exact ⟨(of_mem_dispatchEvent h rfl).2, fun err herr => by cases herr⟩

/-- A session with a channel sends to it exactly the events that were inserted. -/
theorem published_storeEvent (hb : s.broadcast = true) (event : NostrEvent) :
    (s.storeEvent store env repos event).published.toList =
      ((s.storeEvent store env repos event).insertion.toList.filter fun i =>
        i.2 == .inserted).map Prod.fst := by
  unfold storeEvent
  rcases store.insert repos.store event with ⟨err | _ | _, state⟩
  · rfl
  · simp only [hb]
    rfl
  · rfl

/-- What a message sends to the channel is what it inserts. -/
theorem published_handleMessage (hb : s.broadcast = true) (msg : ClientMessage) :
    (s.handleMessage store env repos msg).published.toList =
      ((s.handleMessage store env repos msg).insertion.toList.filter fun i =>
        i.2 == .inserted).map Prod.fst := by
  by_cases hsub : ∃ event, s.Submits store env repos msg event
  · obtain ⟨event, hsub⟩ := hsub
    obtain ⟨limiter, heq⟩ := hsub.handleMessage_eq
    rw [heq]
    exact published_storeEvent (s := { s with rateLimiter := limiter }) hb event
  · obtain ⟨-, -, hins, hpub⟩ := idle_of_not_submits (not_exists.1 hsub)
    rw [hins, hpub]
    rfl

/-- A message delivers nothing if the event that it submits fails in the store or matches none of
the session's own subscriptions. -/
theorem not_mem_dispatched {msg : ClientMessage}
    (h : ∀ event, s.Submits store env repos msg event →
      (∃ err, (store.insert repos.store event).1 = .error err) ∨ ¬ s.Subscribed event) (id : String)
    (delivered : NostrEvent) :
    .event id delivered ∉ (s.handleMessage store env repos msg).dispatched := by
  by_cases hsub : ∃ event, s.Submits store env repos msg event
  · obtain ⟨event, hsub⟩ := hsub
    obtain ⟨limiter, heq⟩ := hsub.handleMessage_eq
    rw [heq]
    intro hm
    obtain ⟨hsubscribed, hok⟩ := of_mem_dispatched_storeEvent hm
    rcases h event hsub with ⟨err, herr⟩ | hnot
    · exact hok err herr
    · exact hnot hsubscribed
  · obtain ⟨-, hdis, -, -⟩ := idle_of_not_submits (not_exists.1 hsub)
    rw [hdis]
    exact List.not_mem_nil

/-- Messages do not take the channel from a session. -/
theorem broadcast_handleMessage (msg : ClientMessage) :
    (s.handleMessage store env repos msg).session.broadcast = s.broadcast := by
  have heff := effect_handleMessage s store env repos msg
  generalize s.handleMessage store env repos msg = r at heff
  cases heff with
  | stored limiter value event hmsg hread hcheck hother hwrite =>
    rw [(storeEvent_frame _ store env repos event).1]
  | answered => rfl
  | closed => rfl
  | opened => rfl
  | membership => rfl
  | authenticated => rfl

end

end Session

/-! ### The sessions and the channel -/

/-- A session and the number of sends that it has received or missed. -/
structure Listener where
  session : Session
  cursor : ℕ

/-- The sessions over one channel, and the events for which `store.insert` answered `Inserted`. -/
structure Hub where
  listeners : ℕ → Option Listener
  channel : List NostrEvent
  inserted : List NostrEvent

/-- What happens next. -/
inductive HubAction (σ : Type)
  /-- `run_with_broadcast` starts for a new session. -/
  | connect (id : ℕ) (session : Session)
  /-- A client message is handled over the repositories as they are then. -/
  | message (id : ℕ) (msg : ClientMessage) (env : Env) (repos : Repos σ)
  /-- The next event of the channel is received. -/
  | receive (id : ℕ)
  /-- `run_with_broadcast` returns. -/
  | disconnect (id : ℕ)

/-- The messages that a session emits through `dispatch_event`. -/
structure Dispatch where
  id : ℕ
  messages : List ServerMessage

namespace Hub

variable {σ : Type} (store : EventStore σ)

def setListener (hub : Hub) (id : ℕ) (listener : Option Listener) : ℕ → Option Listener :=
  Function.update hub.listeners id listener

/-- The hub after a session's reaction to a message. -/
def absorb (hub : Hub) (id : ℕ) (listener : Listener) (r : Reaction σ) : Hub × Dispatch :=
  ({ listeners := hub.setListener id (some { listener with session := r.session })
     channel := hub.channel ++ r.published.toList
     inserted := hub.inserted ++ (r.insertion.toList.filter fun i => i.2 == .inserted).map Prod.fst },
    ⟨id, r.dispatched⟩)

/-- One step; `none` where the action is not possible. -/
def step (hub : Hub) : HubAction σ → Option (Hub × Dispatch)
  | .connect id session =>
    if hub.listeners id = none ∧ session.broadcast = true then
      some ({ hub with listeners := hub.setListener id (some ⟨session, hub.channel.length⟩) }, ⟨id, []⟩)
    else none
  | .message id msg env repos =>
    (hub.listeners id).map fun listener =>
      hub.absorb id listener (listener.session.handleMessage store env repos msg)
  | .receive id => do
    let listener ← hub.listeners id
    let event ← hub.channel[listener.cursor]?
    return ({ hub with listeners :=
        hub.setListener id (some { listener with cursor := listener.cursor + 1 }) },
      ⟨id, listener.session.dispatchEvent event⟩)
  | .disconnect id =>
    (hub.listeners id).map fun _ =>
      ({ hub with listeners := hub.setListener id none }, ⟨id, []⟩)

/-- A hub before the first session connects. -/
structure Fresh (run : Hub × List Dispatch) : Prop where
  listeners : ∀ id, run.1.listeners id = none
  channel : run.1.channel = []
  inserted : run.1.inserted = []
  outputs : run.2 = []

/-- How often an event was delivered to a subscription of a session. -/
def delivered (outputs : List Dispatch) (id : ℕ) (subscription : String) (event : NostrEvent) : ℕ :=
  ((outputs.filter fun o => o.id == id).flatMap Dispatch.messages).count (.event subscription event)

/-- What was delivered was inserted, and not delivered more often to a subscription than that. -/
structure OnceOnly (run : Hub × List Dispatch) : Prop where
  once : ∀ id subscription event,
    delivered run.2 id subscription event ≤ run.1.inserted.count event
  stored : ∀ o ∈ run.2, ∀ subscription event, .event subscription event ∈ o.messages →
    event ∈ run.1.inserted

/-- The steps in which no session publishes an event that it subscribes to itself, unless the store
fails. -/
def NoOwnMatch (hub : Hub) : HubAction σ → Prop
  | .message id msg env repos => ∀ listener event, hub.listeners id = some listener →
      listener.session.Submits store env repos msg event →
      (∃ err, (store.insert repos.store event).1 = .error err) ∨
        ¬ listener.session.Subscribed event
  | _ => True

/-- The sends that a listener has behind it; all of them, where there is no listener. -/
def behind (channel : List NostrEvent) : Option Listener → List NostrEvent
  | none => channel
  | some listener => channel.take listener.cursor

/-- The sends that a session has behind it. -/
def received (hub : Hub) (id : ℕ) : List NostrEvent := behind hub.channel (hub.listeners id)

/-- Every session sends to the channel, which holds what was inserted, and what was delivered to a
session is bounded by what it has behind it. -/
structure Inv (run : Hub × List Dispatch) : Prop where
  channel : run.1.channel = run.1.inserted
  broadcast : ∀ id listener, run.1.listeners id = some listener →
    listener.session.broadcast = true
  bounded : ∀ id subscription event,
    delivered run.2 id subscription event ≤ (run.1.received id).count event

theorem Fresh.inv {run : Hub × List Dispatch} (h : Fresh run) : Inv run where
  channel := by rw [h.channel, h.inserted]
  broadcast := by
    intro id listener hl
    rw [h.listeners id] at hl
    cases hl
  bounded := by
    intro id subscription event
    simp [delivered, h.outputs]

theorem behind_sublist (channel : List NostrEvent) (listener : Option Listener) :
    (behind channel listener).Sublist channel := by
  cases listener with
  | none => exact List.Sublist.refl _
  | some listener => exact List.take_sublist _ _

/-- A listener has no less behind it when the channel grows. -/
theorem behind_append (channel sent : List NostrEvent) (listener : Option Listener) :
    (behind channel listener).Sublist (behind (channel ++ sent) listener) := by
  cases listener with
  | none => exact List.sublist_append_left _ _
  | some listener => exact ((List.prefix_append channel sent).take listener.cursor).sublist

theorem Inv.onceOnly {run : Hub × List Dispatch} (h : Inv run) : OnceOnly run := by
  have honce : ∀ id subscription event,
      delivered run.2 id subscription event ≤ run.1.inserted.count event := by
    intro id subscription event
    rw [← h.channel]
    exact (h.bounded id subscription event).trans ((behind_sublist _ _).count_le event)
  refine ⟨honce, ?_⟩
  intro o ho subscription event hm
  have hpos : 0 < delivered run.2 o.id subscription event := by
    unfold delivered
    rw [List.count_pos_iff, List.mem_flatMap]
    exact ⟨o, List.mem_filter.2 ⟨ho, beq_self_eq_true _⟩, hm⟩
  exact List.count_pos_iff.1 (hpos.trans_le (honce o.id subscription event))

/-! ### One step -/

theorem delivered_append (outputs : List Dispatch) (o : Dispatch) (id : ℕ) (subscription : String)
    (event : NostrEvent) :
    delivered (outputs ++ [o]) id subscription event =
      delivered outputs id subscription event +
        if o.id = id then o.messages.count (.event subscription event) else 0 := by
  unfold delivered
  rw [List.filter_append, List.flatMap_append, List.count_append]
  by_cases hid : o.id = id
  · simp [hid]
  · simp [hid]

section

variable {store} {run : Hub × List Dispatch} {hub : Hub} {o : Dispatch}

/-- The listener of one session changes, and what was inserted is sent: the invariant is kept if
what is dispatched to the session is among what it leaves behind. -/
theorem Inv.change (h : Inv run) {listener : Option Listener} (sent : List NostrEvent)
    (hlisteners : hub.listeners = run.1.setListener o.id listener)
    (hchannel : hub.channel = run.1.channel ++ sent)
    (hinserted : hub.inserted = run.1.inserted ++ sent)
    (hbroadcast : ∀ l, listener = some l → l.session.broadcast = true)
    (hcount : ∀ subscription event,
      (run.1.received o.id).count event + o.messages.count (.event subscription event) ≤
        (behind (run.1.channel ++ sent) listener).count event) :
    Inv (hub, run.2 ++ [o]) := by
  constructor
  · show hub.channel = hub.inserted
    rw [hchannel, hinserted, h.channel]
  · intro id l hl
    have hl : run.1.setListener o.id listener id = some l := hlisteners ▸ hl
    by_cases hid : id = o.id
    · subst hid
      rw [setListener, Function.update_self] at hl
      exact hbroadcast l hl
    · rw [setListener, Function.update_of_ne hid] at hl
      exact h.broadcast id l hl
  · intro id subscription event
    have hold := h.bounded id subscription event
    show delivered (run.2 ++ [o]) id subscription event ≤
      (behind hub.channel (hub.listeners id)).count event
    rw [delivered_append, hlisteners, hchannel, setListener]
    by_cases hid : id = o.id
    · subst hid
      rw [if_pos rfl, Function.update_self]
      have := hcount subscription event
      omega
    · rw [if_neg (Ne.symm hid), Nat.add_zero, Function.update_of_ne hid]
      exact hold.trans ((behind_append _ sent _).count_le event)

/-- The invariant is kept by every step in which no session publishes what it subscribes to. -/
theorem Inv.step (h : Inv run) {action : HubAction σ} (hok : NoOwnMatch store run.1 action)
    (hstep : step store run.1 action = some (hub, o)) : Inv (hub, run.2 ++ [o]) := by
  cases action with
  | connect id session =>
    simp only [Hub.step] at hstep
    split_ifs at hstep with hc
    cases hstep
    refine h.change [] rfl (List.append_nil _).symm (List.append_nil _).symm ?_ ?_
    · rintro l ⟨⟩
      exact hc.2
    · intro subscription event
      simp [received, behind, hc.1]
  | message id msg env repos =>
    obtain ⟨listener, hl, heq⟩ := Option.map_eq_some_iff.1 hstep
    have hb := h.broadcast id listener hl
    have hquiet := Session.not_mem_dispatched (hok listener · hl)
    cases heq
    refine h.change _ rfl rfl ?_ ?_ ?_
    · rw [Session.published_handleMessage hb]
    · rintro l ⟨⟩
      rw [Session.broadcast_handleMessage]
      exact hb
    · intro subscription event
      show _ + (listener.session.handleMessage store env repos msg).dispatched.count _ ≤ _
      rw [List.count_eq_zero.2 (hquiet subscription event), received, hl]
      exact (behind_append _ _ _).count_le event
  | receive id =>
    obtain ⟨listener, hl, hstep⟩ := Option.bind_eq_some_iff.1 hstep
    obtain ⟨event, hevent, hstep⟩ := Option.bind_eq_some_iff.1 hstep
    cases hstep
    refine h.change [] rfl (List.append_nil _).symm (List.append_nil _).symm ?_ ?_
    · rintro l ⟨⟩
      exact h.broadcast id listener hl
    · intro subscription delivered
      -- the event that is dispatched is the one that the session leaves behind
      have hcount := listener.session.count_dispatchEvent event delivered subscription
      have hnext : run.1.channel.take (listener.cursor + 1) =
          run.1.channel.take listener.cursor ++ [event] := by
        rw [List.take_add_one, hevent]
        rfl
      rw [List.append_nil, received, hl]
      show (run.1.channel.take listener.cursor).count delivered + _ ≤
        (run.1.channel.take (listener.cursor + 1)).count delivered
      rw [hnext, List.count_append]
      exact Nat.add_le_add_left hcount _
  | disconnect id =>
    obtain ⟨listener, hl, heq⟩ := Option.map_eq_some_iff.1 hstep
    cases heq
    refine h.change [] rfl (List.append_nil _).symm (List.append_nil _).symm ?_ ?_
    · rintro l ⟨⟩
    · intro subscription event
      rw [List.append_nil]
      exact (behind_sublist _ _).count_le event

end

/-- In every run in which no session publishes an event that it subscribes to itself, an event is
delivered to a subscription at most as often as it was inserted, and only if it was. -/
theorem delivered_once {run : Hub × List Dispatch}
    (hreach : Runs.Reach (Runs.recorded (step store)) (fun run => NoOwnMatch store run.1) Fresh run) :
    OnceOnly run := by
  refine Inv.onceOnly (hreach.invariant (fun _ h => h.inv) ?_)
  rintro run action ⟨hub, outputs⟩ o h hok hstep
  obtain ⟨hstep, rfl⟩ := Runs.recorded_eq_some.1 hstep
  exact h.step hok hstep

/-! ### Two runs -/

/-- A hub without sessions. -/
def empty : Hub := ⟨fun _ => none, [], []⟩

theorem fresh_empty : Fresh (empty, []) := ⟨fun _ => rfl, rfl, rfl, rfl⟩

/-- A session subscribes to notes, and another publishes one before both receive it; the second
session may be the first. -/
def publishBy (id : ℕ) : List (HubAction Events) :=
  [.connect 0 { broadcast := true },
    .connect 1 { broadcast := true },
    .message 0 (.req "notes" [.object [("kinds", .array [.number (.posInt 1)])]]) Relay.noteEnv ⟨∅, ∅⟩,
    .message id (.event Relay.note.toValue) Relay.noteEnv ⟨∅, ∅⟩,
    .receive 0,
    .receive 1]

/-- The steps in which only sessions without subscriptions publish. -/
def Unsubscribed (hub : Hub) : HubAction Events → Prop
  | .message id (.event _) _ _ => ∀ listener ∈ hub.listeners id, listener.session.registry.size = 0
  | _ => True

instance (hub : Hub) (action : HubAction Events) : Decidable (hub.Unsubscribed action) :=
  match action with
  | .message id (.event _) _ _ =>
    inferInstanceAs (Decidable (∀ listener ∈ hub.listeners id, _ = 0))
  | .message _ (.req _ _) _ _ => inferInstanceAs (Decidable True)
  | .message _ (.close _) _ _ => inferInstanceAs (Decidable True)
  | .message _ (.auth _) _ _ => inferInstanceAs (Decidable True)
  | .message _ (.count _ _) _ _ => inferInstanceAs (Decidable True)
  | .connect _ _ => inferInstanceAs (Decidable True)
  | .receive _ => inferInstanceAs (Decidable True)
  | .disconnect _ => inferInstanceAs (Decidable True)

theorem noOwnMatch_of_unsubscribed (store : EventStore Events) {hub : Hub}
    {action : HubAction Events} (h : hub.Unsubscribed action) : NoOwnMatch store hub action := by
  cases action with
  | message id msg env repos =>
    intro listener event hl hsub
    obtain ⟨value, rfl, -⟩ := hsub.read
    refine Or.inr ?_
    rintro ⟨subscription, state, tags, hs, -⟩
    have hsize := h listener hl
    have hmem := Std.ExtTreeMap.mem_toList_iff_getElem?_eq_some.2 hs
    rw [← Std.ExtTreeMap.length_toList, List.length_eq_zero_iff] at hsize
    rw [hsize] at hmem
    cases hmem
  | connect => trivial
  | receive => trivial
  | disconnect => trivial

theorem delivered_once_note :
    ∃ run, Runs.Reach (Runs.recorded (step (RepositoryStore.eventStore "default")))
        (fun run => NoOwnMatch (RepositoryStore.eventStore "default") run.1) Fresh run ∧
      delivered run.2 0 "notes" Relay.note = 1 ∧ run.1.inserted = [Relay.note] ∧ OnceOnly run := by
  have hrun : (Runs.exec (Runs.guarded (Runs.recorded (step (RepositoryStore.eventStore "default")))
      fun run => run.1.Unsubscribed) (empty, []) (publishBy 1)).map (fun r =>
        (delivered r.1.2 0 "notes" Relay.note, r.1.1.inserted)) = some (1, [Relay.note]) := by
    decide +kernel
  obtain ⟨⟨run, outputs⟩, hexec, hfacts⟩ := Option.map_eq_some_iff.1 hrun
  obtain ⟨hdelivered, hinserted⟩ := Prod.mk.inj hfacts
  have hreach := (Runs.Reach.of_exec_guarded fresh_empty hexec).mono
    fun _ _ h => noOwnMatch_of_unsubscribed (RepositoryStore.eventStore "default") h
  exact ⟨run, hreach, hdelivered, hinserted, delivered_once _ hreach⟩

/-- The publisher is sent its note when it is saved, and again when it receives it. -/
theorem delivered_twice :
    ¬ ∀ run, Runs.Reach (Runs.recorded (step (RepositoryStore.eventStore "default")))
      (fun _ _ => True) Fresh run → OnceOnly run := by
  intro h
  have hrun : (Runs.exec (Runs.recorded (step (RepositoryStore.eventStore "default"))) (empty, [])
      (publishBy 0)).map (fun r => (delivered r.1.2 0 "notes" Relay.note, r.1.1.inserted)) =
        some (2, [Relay.note]) := by
    decide +kernel
  obtain ⟨⟨run, outputs⟩, hexec, hfacts⟩ := Option.map_eq_some_iff.1 hrun
  obtain ⟨hdelivered, hinserted⟩ := Prod.mk.inj hfacts
  have honce := (h run (.of_exec (.start fresh_empty) (fun _ _ _ => trivial) hexec)).once 0 "notes"
    Relay.note
  rw [hdelivered, hinserted, List.count_singleton_self] at honce
  omega

end Hub
end Gittree
