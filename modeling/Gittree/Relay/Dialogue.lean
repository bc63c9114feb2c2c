import Gittree.Relay.Answers
import Gittree.Relay.Tenancy
import Gittree.Relay.Wire

/-!
# Publishing and probing over a connection

`WebsocketRelayAdapter` of `crates/relay-adapter/src/lib.rs` at one end of a connection, a session
of the relay at the other, and the frames in flight between them.  The other sessions of the relay
do anything meanwhile, and the connection can be lost at any time.  A frame in flight is kept as the
message it is the text of.

* `waitForOkTurn`, `waitForEventTurn`, `Client`: the client;
* `Dialogue.step`: one step of the client, the connection or the relay;
* `Dialogue.Inv`: what the frames in flight and the phase of the client say about the relay;
* `publish_honest`: a client that reports success or rejection tells what the relay did, and one
  that waits in vain has not published;
* `probe_found`: a probe succeeds only where its event has been accepted.
-/

namespace Gittree

open Rust
open Rust.Json (Value)

/-! ### The client -/

namespace RelayAdapter

def probeSubPrefix : String := "gittree-probe"

/-- Why no frame is read. -/
inductive Interruption
  | elapsed
  | closed
  | failed (error : String)

/-- The error of a read without a frame. -/
def Interruption.error (elapsedText : String) : Interruption → Error
  | .elapsed => .transport elapsedText
  | .closed => .transport "relay closed"
  | .failed error => .transport error

/-- What the timed read of the next frame comes to. -/
inductive Incoming
  | interrupted (interruption : Interruption)
  | message (message : WsMessage)

/-- A frame in flight as the client reads it. -/
def wireFrame (frame : Option ServerMessage) : WsMessage :=
  (frame.map fun message => wsText (encodeServerMessage message)).getD .other

/-- One turn of the loop in `wait_for_ok`; `none` goes on. -/
def waitForOkTurn (eventId : String) : Incoming → Option (Except Error Unit)
  | .interrupted interruption => some (.error (interruption.error "probe ok timeout"))
  | .message message =>
    match parseOkMessage message with
    | .error err => some (.error err)
    | .ok none => none
    | .ok (some (okId, accepted, reason)) =>
      if okId ≠ eventId then none
      else if accepted then some (.ok ())
      else some (.error (.protocol ("event rejected: " ++ reason.getD "unknown")))

/-- The end of a turn in `wait_for_event`. -/
def eoseTurn (subId : String) (message : WsMessage) : Option (Except Error Unit) :=
  match parseEoseMessage message with
  | .ok (some eoseSubId) =>
    if eoseSubId = subId then some (.error (.protocol "probe event not found")) else none
  | _ => none

/-- One turn of the loop in `wait_for_event`; `none` goes on. -/
def waitForEventTurn (subId eventId : String) : Incoming → Option (Except Error Unit)
  | .interrupted interruption => some (.error (interruption.error "probe event timeout"))
  | .message message =>
    match parseEventMessage message with
    | .error err => some (.error err)
    | .ok none => eoseTurn subId message
    | .ok (some (eventSubId, event)) =>
      if eventSubId ≠ subId then none
      else if (event.get "id").bind Value.asStr = some eventId then some (.ok ())
      else eoseTurn subId message

/-- Where a call of the client is. -/
inductive Phase
  | connecting
  | sendingEvent
  | waitingOk
  | sendingReq
  | waitingEvent
  | sendingClose
  | finished (result : Except Error Unit)
  deriving DecidableEq

/-- A call of `publish_event` or, as a probe, of `probe_write_read` with its event. -/
structure Client where
  event : SignedNostrEvent
  probe : Bool
  phase : Phase

namespace Client

/-- The subscription of a probe; ids are hexadecimal. -/
def subId (c : Client) : String :=
  probeSubPrefix ++ "-" ++ String.ofList ((Str.chars c.event.id).take 8)

/-- The frames of a call. -/
def eventMessage (c : Client) : ClientMessage := .event c.event.toValue

def reqMessage (c : Client) : ClientMessage :=
  .req c.subId [.object [("ids", .array [.string c.event.id])]]

def closeMessage (c : Client) : ClientMessage := .close c.subId

/-- The frame that the call sends next. -/
def outgoing (c : Client) : Option ClientMessage :=
  match c.phase with
  | .sendingEvent => some c.eventMessage
  | .sendingReq => some c.reqMessage
  | .sendingClose => some c.closeMessage
  | _ => none

/-- The call after its frame is sent. -/
def sent (c : Client) : Client :=
  match c.phase with
  | .sendingEvent => { c with phase := .waitingOk }
  | .sendingReq => { c with phase := .waitingEvent }
  | .sendingClose => { c with phase := .finished (.ok ()) }
  | _ => c

/-- The call after its frame could not be sent; the last frame does not matter. -/
def sendFailed (c : Client) (error : String) : Client :=
  match c.phase with
  | .sendingClose => { c with phase := .finished (.ok ()) }
  | _ => { c with phase := .finished (.error (.transport error)) }

/-- The call after `wait_for_ok`. -/
def acknowledged (c : Client) : Except Error Unit → Client
  | .error err => { c with phase := .finished (.error err) }
  | .ok () => { c with phase := if c.probe then .sendingReq else .finished (.ok ()) }

/-- The call after `wait_for_event`. -/
def found (c : Client) : Except Error Unit → Client
  | .error err => { c with phase := .finished (.error err) }
  | .ok () => { c with phase := .sendingClose }

/-- The call waits for a frame. -/
def waits (c : Client) : Bool :=
  match c.phase with
  | .waitingOk => true
  | .waitingEvent => true
  | _ => false

/-- The call after a read. -/
def receive (c : Client) (incoming : Incoming) : Client :=
  match c.phase with
  | .waitingOk => ((waitForOkTurn c.event.id incoming).map c.acknowledged).getD c
  | .waitingEvent => ((waitForEventTurn c.subId c.event.id incoming).map c.found).getD c
  | _ => c

/-- The call before its connection. -/
def connects (c : Client) : Bool :=
  match c.phase with
  | .connecting => true
  | _ => false

/-- The frames that the call may have sent. -/
def written (c : Client) : List ClientMessage :=
  match c.phase with
  | .connecting => []
  | .sendingEvent => []
  | .waitingOk => [c.eventMessage]
  | .sendingReq => [c.eventMessage]
  | .waitingEvent => [c.eventMessage, c.reqMessage]
  | .sendingClose => [c.eventMessage, c.reqMessage]
  | .finished _ => [c.eventMessage, c.reqMessage, c.closeMessage]

/-- The call looks for its event. -/
def Searches (c : Client) : Prop :=
  c.phase = .sendingReq ∨ c.phase = .waitingEvent ∨ c.phase = .sendingClose

/-- The call has read that its event is accepted. -/
def Acknowledged (c : Client) : Prop :=
  match c.phase with
  | .sendingReq => True
  | .waitingEvent => True
  | .sendingClose => True
  | .finished (.ok _) => True
  | _ => False

end Client
end RelayAdapter

/-! ### The system -/

/-- A frame of the client at the relay: the connection, its surroundings and the message. -/
structure Handling where
  conn : Conn
  env : Env
  repos : Repos Events
  message : ClientMessage

/-- What the session does with the frame. -/
def Handling.reaction (limit : Option ℕ) (h : Handling) : Reaction Events :=
  h.conn.session.handleText (RepositoryStore.eventStore h.conn.tenantId) h.env h.repos limit
    (.ofValue (encodeClientMessage h.message))

/-- The relay, a client, and the frames between them.  The frames that the session of the client
has handled are kept for the specification. -/
structure Dialogue where
  relay : Relay
  client : RelayAdapter.Client
  toRelay : List ClientMessage := []
  toClient : List (Option ServerMessage) := []
  handled : List Handling := []

namespace Dialogue

open RelayAdapter (Client Error Incoming Interruption Phase wireFrame)

/-- What happens next. -/
inductive Action
  /-- The connection is made. -/
  | connect (tenant : TenantContext) (challenge : String) (env : Env)
  /-- No connection is made. -/
  | refuse (error : String)
  /-- The client sends its next frame. -/
  | write
  /-- The client cannot send its next frame. -/
  | fail (error : String)
  /-- The relay handles the next frame of the client. -/
  | deliver (env : Env)
  /-- The relay does something else. -/
  | other (action : RelayAction)
  /-- A frame that is no text is sent to the client. -/
  | control
  /-- The client reads the next frame. -/
  | read
  /-- The client reads no frame. -/
  | interrupt (interruption : Interruption)

/-- The actions of the relay that are not those of the client's own connection. -/
def foreign (id : ℕ) : RelayAction → Bool
  | .connect i _ _ _ => i ≠ id
  | .message i _ _ => i ≠ id
  | _ => true

/-- The messages of a step of the relay that go to a connection. -/
def framesFor (id : ℕ) (o : RelayOutput) : List (Option ServerMessage) :=
  if o.id = id then (o.replies ++ o.dispatched).map some else []

/-- The next frame of the client at the relay. -/
def nextHandling (id : ℕ) (x : Dialogue) (env : Env) : Option Handling := do
  let conn ← x.relay.conns id
  let message ← x.toRelay.head?
  return ⟨conn, env, x.relay.repos, message⟩

/-- The dialogue after its relay has handled a frame. -/
def handle (id : ℕ) (limit : Option ℕ) (x : Dialogue) (h : Handling) : Dialogue :=
  let r := x.relay.absorb id h.conn (h.reaction limit)
  { x with
    relay := r.1
    toRelay := x.toRelay.tail
    toClient := x.toClient ++ framesFor id r.2
    handled := x.handled ++ [h] }

/-- One step, on the connection `id` of a relay with a limit on the length of a message. -/
def step (id : ℕ) (limit : Option ℕ) (x : Dialogue) : Action → Option (Dialogue × Unit)
  | .connect tenant challenge env =>
    if x.client.connects then
      (x.relay.step (.connect id tenant challenge env)).map fun r =>
        ({ x with
            relay := r.1
            client := { x.client with phase := .sendingEvent }
            toClient := x.toClient ++ framesFor id r.2 }, ())
    else none
  | .refuse error =>
    if x.client.connects then
      some ({ x with
        client := { x.client with phase := .finished (.error (.transport error)) } }, ())
    else none
  | .write =>
    x.client.outgoing.map fun message =>
      ({ x with client := x.client.sent, toRelay := x.toRelay ++ [message] }, ())
  | .fail error =>
    x.client.outgoing.map fun _ => ({ x with client := x.client.sendFailed error }, ())
  | .deliver env => (x.nextHandling id env).map fun h => (x.handle id limit h, ())
  | .other action =>
    if foreign id action then
      (x.relay.step action).map fun r =>
        ({ x with relay := r.1, toClient := x.toClient ++ framesFor id r.2 }, ())
    else none
  | .control => some ({ x with toClient := x.toClient ++ [none] }, ())
  | .read =>
    if x.client.waits then
      x.toClient.head?.map fun frame =>
        ({ x with
            client := x.client.receive (.message (wireFrame frame))
            toClient := x.toClient.tail }, ())
    else none
  | .interrupt interruption =>
    if x.client.waits then
      some ({ x with client := x.client.receive (.interrupted interruption) }, ())
    else none

/-- A call that has not begun, at a relay in any state it can reach. -/
structure Start (id : ℕ) (x : Dialogue) : Prop where
  relay : Runs.Reach Relay.step (fun _ _ => True) Relay.Fresh x.relay
  free : x.relay.conns id = none
  phase : x.client.phase = .connecting
  toRelay : x.toRelay = []
  toClient : x.toClient = []
  handled : x.handled = []

/-- What each action does. -/
inductive Moves (id : ℕ) (limit : Option ℕ) (x : Dialogue) : Dialogue → Prop
  | connected (tenant : TenantContext) (challenge : String) (env : Env)
    (hphase : x.client.phase = .connecting) (hfree : x.relay.conns id = none) :
    Moves id limit x { x with
      relay := (x.relay.connect id tenant challenge env).1
      client := { x.client with phase := .sendingEvent }
      toClient := x.toClient ++ framesFor id (x.relay.connect id tenant challenge env).2 }
  | refused (error : String) (hphase : x.client.phase = .connecting) :
    Moves id limit x { x with
      client := { x.client with phase := .finished (.error (.transport error)) } }
  | wrote (message : ClientMessage) (hout : x.client.outgoing = some message) :
    Moves id limit x { x with client := x.client.sent, toRelay := x.toRelay ++ [message] }
  | failed (message : ClientMessage) (error : String) (hout : x.client.outgoing = some message) :
    Moves id limit x { x with client := x.client.sendFailed error }
  | delivered (h : Handling) (rest : List ClientMessage) (hconn : x.relay.conns id = some h.conn)
    (hrepos : h.repos = x.relay.repos) (hqueue : x.toRelay = h.message :: rest) :
    Moves id limit x (x.handle id limit h)
  | other (action : RelayAction) (r : Relay × RelayOutput) (hforeign : foreign id action = true)
    (hstep : x.relay.step action = some r) :
    Moves id limit x { x with relay := r.1, toClient := x.toClient ++ framesFor id r.2 }
  | control : Moves id limit x { x with toClient := x.toClient ++ [none] }
  | read (frame : Option ServerMessage) (rest : List (Option ServerMessage))
    (hwaits : x.client.waits = true) (hqueue : x.toClient = frame :: rest) :
    Moves id limit x { x with
      client := x.client.receive (.message (wireFrame frame)), toClient := rest }
  | interrupted (interruption : Interruption) (hwaits : x.client.waits = true) :
    Moves id limit x { x with client := x.client.receive (.interrupted interruption) }

theorem connects_iff {c : Client} : c.connects = true ↔ c.phase = .connecting := by
  obtain ⟨event, probe, phase⟩ := c
  cases phase <;> simp [Client.connects]

theorem moves_of_step {id : ℕ} {limit : Option ℕ} {x y : Dialogue} {action : Action} {o : Unit}
    (h : step id limit x action = some (y, o)) : Moves id limit x y := by
  cases action with
  | connect tenant challenge env =>
    simp only [step] at h
    split_ifs at h with hphase
    obtain ⟨r, hr, heq⟩ := Option.map_eq_some_iff.1 h
    have htrans := Relay.transition_of_step hr
    cases htrans with
    | connect hfree =>
      cases heq
      exact .connected tenant challenge env (connects_iff.1 hphase) hfree
  | refuse error =>
    simp only [step] at h
    split_ifs at h with hphase
    cases h
    exact .refused error (connects_iff.1 hphase)
  | write =>
    obtain ⟨message, hout, heq⟩ := Option.map_eq_some_iff.1 h
    cases heq
    exact .wrote message hout
  | fail error =>
    obtain ⟨message, hout, heq⟩ := Option.map_eq_some_iff.1 h
    cases heq
    exact .failed message error hout
  | deliver env =>
    obtain ⟨handling, hnext, heq⟩ := Option.map_eq_some_iff.1 h
    cases heq
    obtain ⟨conn, hconn, hnext⟩ := Option.bind_eq_some_iff.1 hnext
    obtain ⟨message, hmessage, hnext⟩ := Option.bind_eq_some_iff.1 hnext
    cases hnext
    obtain ⟨rest, hqueue⟩ := List.head?_eq_some_iff.1 hmessage
    exact .delivered _ rest hconn rfl hqueue
  | other action =>
    simp only [step] at h
    split_ifs at h with hforeign
    obtain ⟨r, hr, heq⟩ := Option.map_eq_some_iff.1 h
    cases heq
    exact .other action r hforeign hr
  | control =>
    cases h
    exact .control
  | read =>
    simp only [step] at h
    split_ifs at h with hwaits
    obtain ⟨frame, hframe, heq⟩ := Option.map_eq_some_iff.1 h
    cases heq
    obtain ⟨rest, hqueue⟩ := List.head?_eq_some_iff.1 hframe
    rw [hqueue, List.tail_cons]
    exact .read frame rest hwaits hqueue
  | interrupt interruption =>
    simp only [step] at h
    split_ifs at h with hwaits
    cases h
    exact .interrupted interruption hwaits

end Dialogue

/-! ### What the client makes of a frame -/

namespace RelayAdapter

/-- What `wait_for_ok` makes of a frame. -/
def okVerdict (eventId : String) : Option ServerMessage → Option (Except Error Unit)
  | some (.ok id accepted text) =>
    if id ≠ eventId then none
    else if accepted then some (.ok ())
    else some (.error (.protocol ("event rejected: " ++ text)))
  | _ => none

/-- What `wait_for_event` makes of a frame. -/
def eventVerdict (subId eventId : String) : Option ServerMessage → Option (Except Error Unit)
  | some (.event id event) => if id = subId ∧ event.id = eventId then some (.ok ()) else none
  | some (.eose id) =>
    if id = subId then some (.error (.protocol "probe event not found")) else none
  | _ => none

theorem waitForOkTurn_wireFrame (eventId : String) (frame : Option ServerMessage) :
    waitForOkTurn eventId (.message (wireFrame frame)) = okVerdict eventId frame := by
  cases frame with
  | none => rfl
  | some message =>
    have hread : parseOkMessage (wireFrame (some message)) = (meant message).ok :=
      congrArg Readings.ok (readers_encode message)
    unfold waitForOkTurn
    simp only [hread]
    cases message <;> rfl

theorem waitForEventTurn_wireFrame (subId eventId : String) (frame : Option ServerMessage) :
    waitForEventTurn subId eventId (.message (wireFrame frame)) =
      eventVerdict subId eventId frame := by
  cases frame with
  | none => rfl
  | some message =>
    have hevent : parseEventMessage (wireFrame (some message)) = (meant message).event :=
      congrArg Readings.event (readers_encode message)
    have heose : parseEoseMessage (wireFrame (some message)) = (meant message).eose :=
      congrArg Readings.eose (readers_encode message)
    unfold waitForEventTurn eoseTurn
    simp only [hevent, heose]
    cases message with
    | event id event =>
      have hid : (event.toValue.get "id").bind Value.asStr = some event.id := rfl
      simp only [meant, eventVerdict, hid, Option.some.injEq]
      by_cases hsub : id = subId
      · simp [hsub]
      · simp [hsub]
    | eose id => rfl
    | notice text => rfl
    | ok id accepted text => rfl
    | closed id text => rfl
    | auth challenge => rfl
    | count id count => rfl

namespace Client

variable {c : Client}

theorem written_sent {message : ClientMessage} (h : c.outgoing = some message) :
    c.sent.written = c.written ++ [message] := by
  obtain ⟨event, probe, phase⟩ := c
  cases phase <;> cases h <;> rfl

/-- The frames of a call that has come to its end. -/
theorem written_sublist (c : Client) :
    c.written.Sublist [c.eventMessage, c.reqMessage, c.closeMessage] := by
  obtain ⟨event, probe, phase⟩ := c
  cases phase <;> simp [written]

/-- What the read of a frame does. -/
inductive Reads (c : Client) (frame : Option ServerMessage) : Client → Prop
  | acknowledged (text : String) (hphase : c.phase = .waitingOk)
    (hframe : frame = some (.ok c.event.id true text)) :
    Reads c frame { c with phase := if c.probe then .sendingReq else .finished (.ok ()) }
  | rejected (text : String) (hphase : c.phase = .waitingOk)
    (hframe : frame = some (.ok c.event.id false text)) :
    Reads c frame { c with
      phase := .finished (.error (.protocol ("event rejected: " ++ text))) }
  | found (event : NostrEvent) (hphase : c.phase = .waitingEvent)
    (hframe : frame = some (.event c.subId event)) (hid : event.id = c.event.id) :
    Reads c frame { c with phase := .sendingClose }
  | missing (hphase : c.phase = .waitingEvent) (hframe : frame = some (.eose c.subId)) :
    Reads c frame { c with phase := .finished (.error (.protocol "probe event not found")) }
  | skipped
    (hok : c.phase = .waitingOk → ∀ accepted text, frame ≠ some (.ok c.event.id accepted text))
    (hevent : c.phase = .waitingEvent →
      ∀ event, frame = some (.event c.subId event) → event.id ≠ c.event.id)
    (heose : c.phase = .waitingEvent → frame ≠ some (.eose c.subId)) :
    Reads c frame c

theorem reads_of_okVerdict {frame : Option ServerMessage} (hphase : c.phase = .waitingOk) :
    c.Reads frame (((okVerdict c.event.id frame).map c.acknowledged).getD c) := by
  have hskip (h : ∀ accepted text, frame ≠ some (.ok c.event.id accepted text)) :
      c.Reads frame c := by
    apply Reads.skipped
    · exact fun _ => h
    · intro h'
      rw [hphase] at h'
      cases h'
    · intro h'
      rw [hphase] at h'
      cases h'
  cases frame with
  | none => exact hskip fun _ _ h => by cases h
  | some message =>
    cases message with
    | ok id accepted text =>
      by_cases hid : id = c.event.id
      · subst hid
        cases accepted with
        | true =>
          simp only [okVerdict, ne_eq, not_true_eq_false, if_false, if_true]
          exact .acknowledged text hphase rfl
        | false =>
          simp only [okVerdict, ne_eq, not_true_eq_false, if_false, Bool.false_eq_true]
          exact .rejected text hphase rfl
      · simp only [okVerdict, ne_eq, hid, not_false_eq_true, if_true]
        refine hskip fun accepted' text' h => hid ?_
        cases h
        rfl
    | event id event => exact hskip fun _ _ h => by cases h
    | notice text => exact hskip fun _ _ h => by cases h
    | eose id => exact hskip fun _ _ h => by cases h
    | closed id text => exact hskip fun _ _ h => by cases h
    | auth challenge => exact hskip fun _ _ h => by cases h
    | count id count => exact hskip fun _ _ h => by cases h

theorem reads_of_eventVerdict {frame : Option ServerMessage} (hphase : c.phase = .waitingEvent) :
    c.Reads frame (((eventVerdict c.subId c.event.id frame).map c.found).getD c) := by
  have hskip (h : ∀ event, frame = some (.event c.subId event) → event.id ≠ c.event.id)
      (h' : frame ≠ some (.eose c.subId)) : c.Reads frame c := by
    apply Reads.skipped
    · intro hw
      rw [hphase] at hw
      cases hw
    · exact fun _ => h
    · exact fun _ => h'
  cases frame with
  | none => exact hskip (fun _ h => by cases h) fun h => by cases h
  | some message =>
    cases message with
    | event id event =>
      by_cases hid : id = c.subId ∧ event.id = c.event.id
      · simp only [eventVerdict, if_pos hid]
        exact .found event hphase (by rw [hid.1]) hid.2
      · simp only [eventVerdict, if_neg hid]
        refine hskip (fun event' h hid' => hid ?_) fun h => by cases h
        cases h
        exact ⟨rfl, hid'⟩
    | eose id =>
      by_cases hid : id = c.subId
      · simp only [eventVerdict, if_pos hid]
        exact .missing hphase (by rw [hid])
      · simp only [eventVerdict, if_neg hid]
        refine hskip (fun event' h => by cases h) fun h => hid ?_
        cases h
        rfl
    | ok id accepted text => exact hskip (fun _ h => by cases h) fun h => by cases h
    | notice text => exact hskip (fun _ h => by cases h) fun h => by cases h
    | closed id text => exact hskip (fun _ h => by cases h) fun h => by cases h
    | auth challenge => exact hskip (fun _ h => by cases h) fun h => by cases h
    | count id count => exact hskip (fun _ h => by cases h) fun h => by cases h

/-- A waiting call reads a frame in one of these ways. -/
theorem reads_receive {frame : Option ServerMessage} (h : c.waits = true) :
    c.Reads frame (c.receive (.message (wireFrame frame))) := by
  have hcases : c.phase = .waitingOk ∨ c.phase = .waitingEvent := by
    unfold waits at h
    split at h
    · exact Or.inl ‹_›
    · exact Or.inr ‹_›
    · cases h
  rcases hcases with hphase | hphase
  · have hread := @reads_of_okVerdict c frame hphase
    unfold receive
    rw [hphase, waitForOkTurn_wireFrame]
    exact hread
  · have hread := @reads_of_eventVerdict c frame hphase
    unfold receive
    rw [hphase, waitForEventTurn_wireFrame]
    exact hread

/-- A waiting call that reads no frame fails in transport. -/
theorem receive_interrupted (h : c.waits = true) (interruption : Interruption) :
    ∃ error, c.receive (.interrupted interruption) =
      { c with phase := .finished (.error (.transport error)) } := by
  obtain ⟨event, probe, phase⟩ := c
  cases phase <;> cases h <;> cases interruption <;> exact ⟨_, rfl⟩

end Client
end RelayAdapter

/-! ### What the session makes of a frame -/

/-- The event is taken, by the store or as a join or leave. -/
def Handling.Accepts (limit : Option ℕ) (h : Handling) (event : NostrEvent) : Prop :=
  (∃ outcome, (h.reaction limit).insertion = some (event, outcome)) ∨
    (event.kind = nip43JoinKind ∨ event.kind = nip43LeaveKind) ∧
      ∃ text, (h.reaction limit).replies = [.ok event.id true text] ∧
        h.conn.session.membershipAnswer event h.env.now h.repos.memberships =
          (.ok event.id true text, (h.reaction limit).repos.memberships)

/-- The event is not taken: nothing is stored, changed or sent to the other sessions. -/
structure Handling.Declines (limit : Option ℕ) (h : Handling) (event : NostrEvent) : Prop where
  repos : (h.reaction limit).repos = h.repos
  insertion : (h.reaction limit).insertion = none
  published : (h.reaction limit).published = none
  not_accepts : ¬ h.Accepts limit event

namespace Handling

open RelayAdapter (Client)

variable {limit : Option ℕ} {h : Handling} {c : Client}

/-- A frame of a client is answered by one notice, or handled as the message it was written from. -/
theorem reaction_cases (hframed : h.message.Framed []) :
    (∃ text, h.reaction limit =
        { session := h.conn.session, repos := h.repos, replies := [.notice text] }) ∨
      h.reaction limit = h.conn.session.handleMessage (RepositoryStore.eventStore h.conn.tenantId)
        h.env h.repos h.message := by
  rcases @Session.handleText_cases _ h.conn.session
    (RepositoryStore.eventStore h.conn.tenantId) h.env h.repos limit
    (.ofValue (encodeClientMessage h.message)) with hnotice | ⟨message, hdecode, hhandle⟩
  · exact Or.inl hnotice
  · rw [decodeClientMessage_encode hframed, Except.ok.injEq] at hdecode
    subst hdecode
    exact Or.inr hhandle

/-- What the session does with the event. -/
theorem answer (hm : h.message = c.eventMessage) :
    Session.Answer h.conn.session h.env c.event.toNostrEvent h.repos (h.reaction limit) := by
  have hframed : h.message.Framed [] := by
    rw [hm]
    trivial
  rcases @reaction_cases limit h hframed with ⟨text, hr⟩ | hr
  · rw [hr]
    exact .refused h.conn.session.rateLimiter _ (.notice text)
  · rw [hr, hm]
    exact Session.answer_handleEvent _ _ (RepositoryStore.atomic_eventStore _)
      c.event.fromValue_toValue

/-- Neither the request nor the end of the subscription is answered as an event. -/
theorem noOk_responses (hm : h.message = c.reqMessage ∨ h.message = c.closeMessage) :
    ∀ message ∈ (h.reaction limit).responses, Session.NoOk message := by
  have hframed : h.message.Framed [] := by
    rcases hm with hm | hm
    · rw [hm]
      exact ⟨by simp, rfl⟩
    · rw [hm]
      trivial
  rcases @reaction_cases limit h hframed with ⟨text, hr⟩ | hr
  · rw [hr]
    intro message hmem
    rw [List.mem_singleton.1 hmem]
    exact Session.noOk_notice text
  · rw [hr]
    rcases hm with hm | hm
    · rw [hm]
      exact Session.noOk_handleReq _ _ _ _
    · rw [hm]
      intro message hmem
      cases hmem

theorem declines_of_refused {event : NostrEvent} {session : Session} {message : ServerMessage}
    (hr : h.reaction limit = { session, repos := h.repos, replies := [message] })
    (hrefusal : Session.Refusal event message) : h.Declines limit event := by
  refine ⟨by rw [hr], by rw [hr], by rw [hr], ?_⟩
  rintro (⟨outcome, hins⟩ | ⟨-, text, hreplies, -⟩)
  · rw [hr] at hins
    cases hins
  · rw [hr] at hreplies
    obtain rfl := List.singleton_inj.1 hreplies
    rcases hrefusal with ⟨text', ht⟩ | ⟨text', ht⟩
    · cases ht
    · cases ht

/-- What an `OK` says. -/
theorem of_ok_mem (hm : h.message ∈ [c.eventMessage, c.reqMessage, c.closeMessage]) {id : String}
    {accepted : Bool} {text : String} (hok : .ok id accepted text ∈ (h.reaction limit).responses) :
    h.message = c.eventMessage ∧ id = c.event.id ∧
      if accepted then h.Accepts limit c.event.toNostrEvent
      else h.Declines limit c.event.toNostrEvent := by
  have hevent : h.message = c.eventMessage := by
    simp only [List.mem_cons, List.not_mem_nil, or_false] at hm
    rcases hm with hm | hm
    · exact hm
    · exact absurd rfl (noOk_responses hm _ hok id accepted text)
  refine ⟨hevent, ?_⟩
  have hanswer := @answer limit h c hevent
  generalize hr : h.reaction limit = r at hok hanswer
  cases hanswer with
  | refused limiter message hrefusal =>
    rcases hrefusal with ⟨text', rfl⟩ | ⟨text', rfl⟩
    · cases List.mem_singleton.1 hok
    · cases List.mem_singleton.1 hok
      exact ⟨rfl, declines_of_refused hr (.refused text)⟩
  | stored limiter outcome text' r hsession hinsertion hreplies hdispatched =>
    rcases List.mem_append.1 hok with hok | hok
    · rw [hreplies] at hok
      cases List.mem_singleton.1 hok
      exact ⟨rfl, Or.inl ⟨outcome, by rw [hr, hinsertion]⟩⟩
    · rw [hdispatched] at hok
      exact absurd rfl (Session.noOk_dispatchEvent _ _ _ hok id accepted text)
  | member limiter text' hkind hans =>
    cases List.mem_singleton.1 hok
    refine ⟨rfl, Or.inr ⟨hkind, text, by rw [hr], ?_⟩⟩
    rw [hr, ← hans]

/-- An event that is not answered by an `OK` has no effect. -/
theorem declines_of_noOk (hm : h.message = c.eventMessage)
    (hno : ∀ accepted text, .ok c.event.id accepted text ∉ (h.reaction limit).responses) :
    h.Declines limit c.event.toNostrEvent := by
  have hanswer := @answer limit h c hm
  generalize hr : h.reaction limit = r at hno hanswer
  cases hanswer with
  | refused limiter message hrefusal => exact declines_of_refused hr hrefusal
  | stored limiter outcome text' r hsession hinsertion hreplies hdispatched =>
    refine absurd (List.mem_append_left _ ?_) (hno true text')
    rw [hreplies]
    exact List.mem_singleton.2 rfl
  | member limiter text' hkind hans =>
    exact absurd (List.mem_singleton.2 rfl) (hno true text')

end Handling

/-! ### What the frames in flight say -/

namespace RelayAdapter.Client

variable {c : Client}

theorem acknowledged_of_sent {message : ClientMessage} (h : c.outgoing = some message)
    (hack : c.sent.Acknowledged) : c.Acknowledged := by
  obtain ⟨event, probe, phase⟩ := c
  cases phase <;> try cases h
  · cases hack
  · trivial
  · trivial

theorem sent_event (c : Client) : c.sent.event = c.event := by
  obtain ⟨event, probe, phase⟩ := c
  cases phase <;> rfl

end RelayAdapter.Client

namespace Dialogue

open RelayAdapter (Client Error)

variable {id : ℕ} {limit : Option ℕ} {x y : Dialogue}

/-- The session of the client has answered its event. -/
def Answered (limit : Option ℕ) (x : Dialogue) (accepted : Bool) (text : String) : Prop :=
  ∃ h ∈ x.handled, .ok x.client.event.id accepted text ∈ (h.reaction limit).responses

/-- The reason of a failure that is not one of transport. -/
def Explained (limit : Option ℕ) (x : Dialogue) (text : String) : Prop :=
  (∃ reason, text = "event rejected: " ++ reason ∧ x.Answered limit false reason) ∨
    x.client.probe = true ∧ text = "probe event not found" ∧ ∃ t, x.Answered limit true t

/-- Frames are handled in the order in which they were sent, answers come from frames that were
handled, and no answer that the client waits for is lost. -/
structure Inv (limit : Option ℕ) (x : Dialogue) : Prop where
  sent : (x.handled.map Handling.message ++ x.toRelay).Sublist x.client.written
  answers : ∀ eventId accepted text, some (.ok eventId accepted text) ∈ x.toClient →
    ∃ h ∈ x.handled, .ok eventId accepted text ∈ (h.reaction limit).responses
  searching : x.client.Searches → x.client.probe = true
  acknowledged : x.client.Acknowledged → ∃ text, x.Answered limit true text
  explained : ∀ text, x.client.phase = .finished (.error (.protocol text)) → x.Explained limit text
  pending : x.client.phase = .waitingOk → ∀ accepted text, x.Answered limit accepted text →
    some (.ok x.client.event.id accepted text) ∈ x.toClient

theorem Start.inv (h : Start id x) : Inv limit x where
  sent := by simp [h.handled, h.toRelay]
  answers := by simp [h.toClient]
  searching := by simp [Client.Searches, h.phase]
  acknowledged := by
    intro hack
    simp [Client.Acknowledged, h.phase] at hack
  explained := by simp [h.phase]
  pending := by simp [h.phase]

theorem framesFor_absorb (relay : Relay) (conn : Conn) (r : Reaction Events) :
    framesFor id (relay.absorb id conn r).2 = r.responses.map some := if_pos rfl

/-- The relay answers no event on the connection when it handles none of its frames. -/
theorem noOk_framesFor {relay : Relay} {action : RelayAction} {r : Relay × RelayOutput}
    (hforeign : foreign id action = true) (hstep : relay.step action = some r) :
    ∀ message, some message ∈ framesFor id r.2 → Session.NoOk message := by
  intro message hm
  unfold framesFor at hm
  split_ifs at hm with hid
  · rw [List.mem_map] at hm
    obtain ⟨m, hm, heq⟩ := hm
    obtain rfl := Option.some.inj heq
    have htrans := Relay.transition_of_step hstep
    cases htrans with
    | connect hfree =>
      simp only [foreign, ne_eq, decide_eq_true_eq] at hforeign
      exact absurd hid hforeign
    | message conn hconn =>
      simp only [foreign, ne_eq, decide_eq_true_eq] at hforeign
      exact absurd hid hforeign
    | receive conn entry hconn hentry => exact Session.noOk_dispatchEvent _ _ _ hm
    | lag conn hconn => cases hm
    | disconnect conn hconn => cases hm
  · cases hm

theorem noOk_connect (relay : Relay) (tenant : TenantContext) (challenge : String) (env : Env) :
    ∀ message, some message ∈ framesFor id (relay.connect id tenant challenge env).2 →
      Session.NoOk message := by
  intro message hm i accepted text heq
  subst heq
  unfold framesFor at hm
  split_ifs at hm
  · simp [Relay.connect, Relay.initialMessages] at hm
  · cases hm

/-- More frames come in, none of them an answer to an event. -/
theorem Inv.append (h : Inv limit x) (relay : Relay) {frames : List (Option ServerMessage)}
    (hno : ∀ message, some message ∈ frames → Session.NoOk message) :
    Inv limit { x with relay, toClient := x.toClient ++ frames } where
  sent := h.sent
  answers := by
    intro eventId accepted text hm
    rcases List.mem_append.1 hm with hm | hm
    · exact h.answers eventId accepted text hm
    · exact absurd rfl (hno _ hm eventId accepted text)
  searching := h.searching
  acknowledged := h.acknowledged
  explained := h.explained
  pending := fun hphase accepted text hans =>
    List.mem_append_left _ (h.pending hphase accepted text hans)

/-- The call fails in transport. -/
theorem Inv.transport (h : Inv limit x) (error : String) :
    Inv limit { x with
      client := { x.client with phase := .finished (.error (.transport error)) } } where
  sent := h.sent.trans x.client.written_sublist
  answers := h.answers
  searching := by simp [Client.Searches]
  acknowledged := fun hack => by cases hack
  explained := fun text hphase => by cases hphase
  pending := fun hphase => by cases hphase

/-- The session of the client handles a frame. -/
theorem Inv.handle (h : Inv limit x) {handling : Handling} {rest : List ClientMessage}
    (hqueue : x.toRelay = handling.message :: rest) : Inv limit (x.handle id limit handling) := by
  have hold : ∀ g ∈ x.handled, g ∈ (x.handle id limit handling).handled :=
    fun g hg => List.mem_append_left _ hg
  have hframes : (x.handle id limit handling).toClient =
      x.toClient ++ (handling.reaction limit).responses.map some :=
    congrArg (x.toClient ++ ·) (framesFor_absorb _ _ _)
  have hans : ∀ accepted text, x.Answered limit accepted text →
      (x.handle id limit handling).Answered limit accepted text :=
    fun accepted text ⟨g, hg, hok⟩ => ⟨g, hold g hg, hok⟩
  constructor
  · have hsent := h.sent
    rw [hqueue] at hsent
    show ((x.handled ++ [handling]).map Handling.message ++ x.toRelay.tail).Sublist x.client.written
    rw [hqueue, List.tail_cons, List.map_append, List.append_assoc]
    exact hsent
  · intro eventId accepted text hm
    rw [hframes] at hm
    rcases List.mem_append.1 hm with hm | hm
    · obtain ⟨g, hg, hok⟩ := h.answers eventId accepted text hm
      exact ⟨g, hold g hg, hok⟩
    · obtain ⟨m, hm, heq⟩ := List.mem_map.1 hm
      obtain rfl := Option.some.inj heq
      exact ⟨handling, List.mem_append_right _ (List.mem_singleton.2 rfl), hm⟩
  · exact h.searching
  · intro hack
    obtain ⟨text, ht⟩ := h.acknowledged hack
    exact ⟨text, hans true text ht⟩
  · intro text hphase
    rcases h.explained text hphase with ⟨reason, ht, hr⟩ | ⟨hprobe, ht, t, hr⟩
    · exact Or.inl ⟨reason, ht, hans false reason hr⟩
    · exact Or.inr ⟨hprobe, ht, t, hans true t hr⟩
  · rintro hphase accepted text ⟨g, hg, hok⟩
    rw [hframes]
    rcases List.mem_append.1 hg with hg | hg
    · exact List.mem_append_left _ (h.pending hphase accepted text ⟨g, hg, hok⟩)
    · rw [List.mem_singleton.1 hg] at hok
      exact List.mem_append_right _ (List.mem_map_of_mem hok)

/-- The client sends a frame. -/
theorem Inv.write (h : Inv limit x) {message : ClientMessage}
    (hout : x.client.outgoing = some message) :
    Inv limit { x with client := x.client.sent, toRelay := x.toRelay ++ [message] } := by
  have hevent := x.client.sent_event
  constructor
  · show (x.handled.map Handling.message ++ (x.toRelay ++ [message])).Sublist x.client.sent.written
    rw [Client.written_sent hout, ← List.append_assoc]
    exact h.sent.append (List.Sublist.refl _)
  · exact h.answers
  · obtain ⟨relay, ⟨event, probe, phase⟩, toRelay, toClient, handled⟩ := x
    have hsearching := h.searching
    cases phase <;> cases hout <;> simp [Client.Searches, Client.sent] at hsearching ⊢
    exact hsearching
  · intro hack
    obtain ⟨text, g, hg, hok⟩ := h.acknowledged (Client.acknowledged_of_sent hout hack)
    exact ⟨text, g, hg, by rw [hevent]; exact hok⟩
  · intro text hphase
    obtain ⟨relay, ⟨event, probe, phase⟩, toRelay, toClient, handled⟩ := x
    cases phase <;> cases hout <;> cases hphase
  · -- the frame is the event, and nothing has been handled yet
    rintro hphase accepted text ⟨g, hg, hok⟩
    have hwritten : x.client.written = [] := by
      obtain ⟨relay, ⟨event, probe, phase⟩, toRelay, toClient, handled⟩ := x
      cases phase <;> cases hout <;> first | rfl | cases hphase
    have hnil := h.sent
    rw [hwritten, List.sublist_nil, List.append_eq_nil_iff, List.map_eq_nil_iff] at hnil
    rw [hnil.1] at hg
    cases hg

/-- The client cannot send a frame. -/
theorem Inv.fail (h : Inv limit x) (error : String) :
    Inv limit { x with client := x.client.sendFailed error } := by
  by_cases hclose : x.client.phase = .sendingClose
  · have hclient : x.client.sendFailed error = { x.client with phase := .finished (.ok ()) } := by
      unfold Client.sendFailed
      rw [hclose]
    rw [hclient]
    have hack : x.client.Acknowledged := by
      unfold Client.Acknowledged
      rw [hclose]
      trivial
    exact ⟨h.sent.trans x.client.written_sublist, h.answers, by simp [Client.Searches],
      fun _ => h.acknowledged hack, fun text hphase => (by cases hphase),
      fun hphase => (by cases hphase)⟩
  · have hclient : x.client.sendFailed error =
        { x.client with phase := .finished (.error (.transport error)) } := by
      unfold Client.sendFailed
      split
      · exact absurd ‹_› hclose
      · rfl
    rw [hclient]
    exact h.transport error

/-- The client reads a frame. -/
theorem Inv.read (h : Inv limit x) {frame : Option ServerMessage}
    {rest : List (Option ServerMessage)} (hqueue : x.toClient = frame :: rest) {c : Client}
    (hreads : x.client.Reads frame c) : Inv limit { x with client := c, toClient := rest } := by
  have hrest : ∀ m, m ∈ rest → m ∈ x.toClient := by
    intro m hm
    rw [hqueue]
    exact List.mem_cons_of_mem _ hm
  have hanswers : ∀ eventId accepted text, some (.ok eventId accepted text) ∈ rest →
      ∃ g ∈ x.handled, .ok eventId accepted text ∈ (g.reaction limit).responses :=
    fun eventId accepted text hm => h.answers eventId accepted text (hrest _ hm)
  have hhead : frame ∈ x.toClient := by
    rw [hqueue]
    exact List.mem_cons_self
  cases hreads with
  | acknowledged text hphase hframe =>
    rw [hframe] at hhead
    have hans : x.Answered limit true text := h.answers _ _ _ hhead
    have hwritten : x.client.written = [x.client.eventMessage] := by
      unfold Client.written
      rw [hphase]
    cases hprobe : x.client.probe with
    | true =>
      refine ⟨?_, hanswers, fun _ => rfl, fun _ => ⟨text, hans⟩, fun text hp => (by cases hp),
        fun hp => (by cases hp)⟩
      have hsent := h.sent
      rw [hwritten] at hsent
      exact hsent
    | false =>
      exact ⟨h.sent.trans x.client.written_sublist, hanswers, by simp [Client.Searches],
        fun _ => ⟨text, hans⟩, fun text hp => (by cases hp), fun hp => (by cases hp)⟩
  | rejected text hphase hframe =>
    rw [hframe] at hhead
    have hans : x.Answered limit false text := h.answers _ _ _ hhead
    refine ⟨h.sent.trans x.client.written_sublist, hanswers, by simp [Client.Searches],
      fun hp => (by cases hp), ?_, fun hp => (by cases hp)⟩
    intro reason hp
    cases hp
    exact Or.inl ⟨text, rfl, hans⟩
  | found event hphase hframe hid =>
    have hack : x.client.Acknowledged := by
      unfold Client.Acknowledged
      rw [hphase]
      trivial
    have hsent := h.sent
    unfold Client.written at hsent
    rw [hphase] at hsent
    exact ⟨hsent, hanswers, fun _ => h.searching (Or.inr (Or.inl hphase)),
      fun _ => h.acknowledged hack, fun text hp => (by cases hp), fun hp => (by cases hp)⟩
  | missing hphase hframe =>
    have hack : x.client.Acknowledged := by
      unfold Client.Acknowledged
      rw [hphase]
      trivial
    refine ⟨h.sent.trans x.client.written_sublist, hanswers, by simp [Client.Searches],
      fun hp => (by cases hp), ?_, fun hp => (by cases hp)⟩
    intro reason hp
    cases hp
    exact Or.inr ⟨h.searching (Or.inr (Or.inl hphase)), rfl, h.acknowledged hack⟩
  | skipped hok hevent heose =>
    refine ⟨h.sent, hanswers, h.searching, h.acknowledged, h.explained, ?_⟩
    intro hphase accepted text hans
    have hm := h.pending hphase accepted text hans
    rw [hqueue] at hm
    rcases List.mem_cons.1 hm with hm | hm
    · exact absurd hm.symm (hok hphase accepted text)
    · exact hm

/-- Every step keeps the invariant. -/
theorem Inv.step (h : Inv limit x) (hmoves : Moves id limit x y) : Inv limit y := by
  cases hmoves with
  | connected tenant challenge env hphase hfree =>
    have happend := h.append (x.relay.connect id tenant challenge env).1
      (@noOk_connect id x.relay tenant challenge env)
    have hsent := h.sent
    unfold Client.written at hsent
    rw [hphase] at hsent
    exact ⟨hsent, happend.answers, by simp [Client.Searches], fun hp => (by cases hp),
      fun text hp => (by cases hp), fun hp => (by cases hp)⟩
  | refused error hphase => exact h.transport error
  | wrote message hout => exact h.write hout
  | failed message error hout => exact h.fail error
  | delivered handling rest hconn hrepos hqueue => exact h.handle hqueue
  | other action r hforeign hstep => exact h.append r.1 (noOk_framesFor hforeign hstep)
  | control => exact h.append x.relay fun message hm => (by cases List.mem_singleton.1 hm)
  | read frame rest hwaits hqueue => exact h.read hqueue (Client.reads_receive hwaits)
  | interrupted interruption hwaits =>
    obtain ⟨error, he⟩ := Client.receive_interrupted hwaits interruption
    rw [he]
    exact h.transport error

/-- What the client says, and what became of its event. -/
structure Honest (limit : Option ℕ) (x : Dialogue) : Prop where
  once : (x.handled.map Handling.message).Sublist
    [x.client.eventMessage, x.client.reqMessage, x.client.closeMessage]
  accepted : x.client.Acknowledged → ∃ h ∈ x.handled, h.message = x.client.eventMessage ∧
    h.Accepts limit x.client.event.toNostrEvent
  rejected : ∀ text, x.client.phase = .finished (.error (.protocol text)) →
    x.client.probe = false → ∃ reason, text = "event rejected: " ++ reason ∧
      ∃ h ∈ x.handled, h.message = x.client.eventMessage ∧
        h.Declines limit x.client.event.toNostrEvent
  waiting : x.client.phase = .waitingOk → x.toClient = [] →
    ∀ h ∈ x.handled, h.Declines limit x.client.event.toNostrEvent

theorem Inv.message_mem (h : Inv limit x) {handling : Handling} (hh : handling ∈ x.handled) :
    handling.message ∈ [x.client.eventMessage, x.client.reqMessage, x.client.closeMessage] :=
  (h.sent.trans x.client.written_sublist).subset
    (List.mem_append_left _ (List.mem_map_of_mem hh))

theorem Inv.honest (h : Inv limit x) : Honest limit x where
  once := (List.sublist_append_left _ _).trans (h.sent.trans x.client.written_sublist)
  accepted := by
    intro hack
    obtain ⟨text, handling, hh, hok⟩ := h.acknowledged hack
    obtain ⟨hmessage, -, haccepts⟩ := Handling.of_ok_mem (h.message_mem hh) hok
    exact ⟨handling, hh, hmessage, haccepts⟩
  rejected := by
    intro text hphase hprobe
    rcases h.explained text hphase with ⟨reason, ht, handling, hh, hok⟩ | ⟨hprobe', -⟩
    · obtain ⟨hmessage, -, hdeclines⟩ := Handling.of_ok_mem (h.message_mem hh) hok
      exact ⟨reason, ht, handling, hh, hmessage, hdeclines⟩
    · rw [hprobe] at hprobe'
      cases hprobe'
  waiting := by
    intro hphase hempty handling hh
    have hwritten : x.client.written = [x.client.eventMessage] := by
      unfold Client.written
      rw [hphase]
    have hmessage : handling.message = x.client.eventMessage := by
      have hmem := h.sent.subset (List.mem_append_left _ (List.mem_map_of_mem hh))
      rw [hwritten] at hmem
      exact List.mem_singleton.1 hmem
    apply Handling.declines_of_noOk hmessage
    intro accepted text hok
    have hpending := h.pending hphase accepted text ⟨handling, hh, hok⟩
    rw [hempty] at hpending
    cases hpending

theorem inv_of_reach (h : Runs.Reach (step id limit) (fun _ _ => True) (Start id) x) :
    Inv limit x :=
  h.invariant (fun _ hs => hs.inv) fun _ _ _ _ hi _ hs => hi.step (moves_of_step hs)

/-- In every run: the session of a client handles its event at most once; a client that takes its
event for accepted is right; one that reports a rejection has changed nothing; and one that waits
with nothing left to read has not published. -/
theorem publish_honest (h : Runs.Reach (step id limit) (fun _ _ => True) (Start id) x) :
    Honest limit x :=
  (inv_of_reach h).honest

/-! ### A note is published -/

/-- The note of the sample runs, as an event to publish. -/
def signedNote : SignedNostrEvent := { Relay.note with
  kind_lt := by decide
  le_createdAt := by decide
  createdAt_lt := by decide }

/-- A call about the note at a relay with nothing stored. -/
def noteCall (probe : Bool) : Dialogue where
  relay := Relay.emptyRelay
  client := ⟨signedNote, probe, .connecting⟩

theorem start_noteCall (probe : Bool) : Start 0 (noteCall probe) where
  relay := .start Relay.fresh_emptyRelay
  free := rfl
  phase := rfl
  toRelay := rfl
  toClient := rfl
  handled := rfl

/-- The note is sent and handled, and its answer is read. -/
def publishNote : List Action :=
  [.connect (Relay.publicTenant "alpha") "" Relay.noteEnv, .write, .deliver Relay.noteEnv, .read]

theorem publish_honest_note : ∃ x : Dialogue,
    Runs.Reach (step 0 none) (fun _ _ => True) (Start 0) x ∧
      x.client.phase = .finished (.ok ()) ∧
      ∃ h ∈ x.handled, h.message = x.client.eventMessage ∧
        h.Accepts none x.client.event.toNostrEvent := by
  have hrun : (Runs.exec (step 0 none) (noteCall false) publishNote).map
      (fun r => r.1.client.phase) = some (.finished (.ok ())) := by decide +kernel
  obtain ⟨⟨x, outputs⟩, hexec, hphase⟩ := Option.map_eq_some_iff.1 hrun
  have hreach : Runs.Reach (step 0 none) (fun _ _ => True) (Start 0) x :=
    Runs.Reach.of_exec (.start (start_noteCall false)) (fun _ _ _ => trivial) hexec
  refine ⟨x, hreach, hphase, (publish_honest hreach).accepted ?_⟩
  unfold Client.Acknowledged
  rw [show x.client.phase = _ from hphase]
  trivial

end Dialogue
end Gittree
