import Gittree.Lib.Runs

/-!
# The pump of a connection

`pump_socket_io` of `services/relay/src/server.rs` and `run_with_broadcast` of
`services/relay/src/driver.rs`: the pump moves frames between the socket and the two bounded
channels of a connection, the driver hands the texts to the session and puts its answers into the
other channel.  The pump prefers the frames of the client, and waits while the channel of the texts
is full; the driver waits while the channel of the answers is full.  The session is a parameter.

* `Inv.step`: texts and answers stay in order, and none is lost while the pump runs;
* `moves_of_not_hung`: unless the connection hangs, a task moves or both wait for the client;
* `faithful_of_reach`: what the client sees of a connection.
-/

namespace Gittree

/-- What `receiver.next()` answers: a text, another frame that is not a `Close`, a `Close`, an error
or the end. -/
inductive SocketFrame (T : Type)
  | text (payload : T)
  | other
  | close
  | failed
  | ended
  deriving DecidableEq, Repr

/-- `InboundSocketAction`. -/
inductive InboundSocketAction (T : Type)
  | forward (text : T)
  | goOn
  | breakOff
  deriving DecidableEq, Repr

/-- `classify_inbound_message`. -/
def classifyInboundMessage {T : Type} : SocketFrame T → InboundSocketAction T
  | .text payload => .forward payload
  | .close | .failed | .ended => .breakOff
  | .other => .goOn

/-- The text of a frame. -/
def SocketFrame.payload {T : Type} : SocketFrame T → Option T
  | .text payload => some payload
  | _ => none

/-- A session as its driver sees it: `initial_messages`, `handle_text` and `dispatch_event`.  A text
of type `T` meets surroundings of type `V`, which the session shares with others. -/
structure SessionBehaviour (σ T V E R : Type) where
  initialMessages : σ → List R
  handleText : T → V → σ → List R × σ
  dispatchEvent : E → σ → List R

/-- An input of a session: a text of the client, or an event of the broadcast. -/
inductive SessionInput (T V E : Type)
  | text (payload : T) (surroundings : V)
  | event (event : E)

/-- The text of an input. -/
def SessionInput.payload {T V E : Type} : SessionInput T V E → Option T
  | .text payload _ => some payload
  | .event _ => none

namespace SessionBehaviour

variable {σ T V E R : Type} (b : SessionBehaviour σ T V E R)

/-- The answers to an input, and the session after it. -/
def react (s : σ) : SessionInput T V E → List R × σ
  | .text text surroundings => b.handleText text surroundings s
  | .event event => (b.dispatchEvent event s, s)

/-- The answers to inputs in turn, and the session after them. -/
def replies (s : σ) : List (SessionInput T V E) → List R × σ
  | [] => ([], s)
  | input :: rest =>
    let reaction := b.react s input
    let later := replies reaction.2 rest
    (reaction.1 ++ later.1, later.2)

theorem replies_concat (s : σ) (inputs : List (SessionInput T V E)) (input : SessionInput T V E) :
    b.replies s (inputs ++ [input]) =
      ((b.replies s inputs).1 ++ (b.react (b.replies s inputs).2 input).1,
        (b.react (b.replies s inputs).2 input).2) := by
  induction inputs generalizing s with
  | nil => simp [replies]
  | cons head rest ih =>
    rw [List.cons_append, replies, ih, replies]
    simp only [List.append_assoc]

end SessionBehaviour

/-- Where the pump is: at its `select`, at a send into the channel of the texts, at a send to the
socket, or at its end. -/
inductive PumpPhase (T R : Type)
  | selecting
  | forwarding (text : T)
  | sending (answer : R)
  | ended
  deriving Repr

/-- Where the driver is: with answers to send, at its `select` without any, or at its end. -/
inductive DriverPhase (R : Type)
  | answering (rest : List R)
  | ended
  deriving Repr

variable {σ T V E R : Type}

instance PumpPhase.decidableEnded : (p : PumpPhase T R) → Decidable (p = .ended)
  | .ended => isTrue rfl
  | .selecting | .forwarding _ | .sending _ => isFalse (by rintro ⟨⟩)

instance DriverPhase.decidableEnded : (d : DriverPhase R) → Decidable (d = .ended)
  | .ended => isTrue rfl
  | .answering _ => isFalse (by rintro ⟨⟩)

/-- The text that the pump holds on its way to the session. -/
def PumpPhase.inward : PumpPhase T R → List T
  | .forwarding text => [text]
  | _ => []

/-- The answer that the pump holds on its way to the client. -/
def PumpPhase.outward : PumpPhase T R → List R
  | .sending answer => [answer]
  | _ => []

/-- The answers that the driver has not sent. -/
def DriverPhase.rest : DriverPhase R → List R
  | .answering rest => rest
  | .ended => []

/-- A connection: the frames that the pump has not taken, the two tasks, the two channels and the
session; and what has happened so far: the frames that have arrived, the inputs of the session, its
answers, and those that were sent. -/
structure Connection (σ T V E R : Type) where
  frames : List (SocketFrame T)
  pump : PumpPhase T R
  inbound : List T
  outbound : List R
  driver : DriverPhase R
  session : σ
  arrived : List (SocketFrame T)
  handled : List (SessionInput T V E)
  answers : List R
  sent : List R

/-- What the `select` of the driver chooses: the channel of the texts, with the surroundings of the
text, or what `broadcast_rx.recv()` answers. -/
inductive DriverChoice (V E : Type)
  | text (surroundings : V)
  | event (event : E)
  | lagged
  | closed

/-- What happens next: a frame arrives, the pump moves, with the result of a send to the socket, or
the driver does. -/
inductive ConnectionAction (T V E : Type)
  | arrive (frame : SocketFrame T)
  | pump (ok : Bool)
  | driver (choice : DriverChoice V E)

namespace Connection

/-- The capacity of the channels. -/
def capacity : ℕ := 128

variable (b : SessionBehaviour σ T V E R)

/-- A round of `pump_socket_io`, up to what it waits for; an ended driver has dropped its ends of
the channels. -/
def pumpStep (s : Connection σ T V E R) (ok : Bool) : Option (Connection σ T V E R) :=
  match s.pump with
  | .selecting =>
    match s.frames with
    | frame :: frames =>
      match classifyInboundMessage frame with
      | .forward text => some { s with frames, pump := .forwarding text }
      | .goOn => some { s with frames }
      | .breakOff => some { s with frames, pump := .ended }
    | [] =>
      match s.outbound with
      | answer :: outbound => some { s with outbound, pump := .sending answer }
      | [] => if s.driver = .ended then some { s with pump := .ended } else none
  | .forwarding text =>
    if s.driver = .ended then some { s with pump := .ended }
    else if s.inbound.length < capacity then
      some { s with inbound := s.inbound ++ [text], pump := .selecting }
    else none
  | .sending answer =>
    if ok = true then some { s with sent := s.sent ++ [answer], pump := .selecting }
    else some { s with pump := .ended }
  | .ended => none

/-- The session takes an input. -/
def take (s : Connection σ T V E R) (input : SessionInput T V E) : Connection σ T V E R :=
  let reaction := b.react s.session input
  { s with
    session := reaction.2
    handled := s.handled ++ [input]
    answers := s.answers ++ reaction.1
    driver := .answering reaction.1 }

/-- A round of `run_with_broadcast`, up to what it waits for; an ended pump has dropped its ends of
the channels. -/
def driverStep (s : Connection σ T V E R) (choice : DriverChoice V E) :
    Option (Connection σ T V E R) :=
  match s.driver with
  | .answering (answer :: rest) =>
    if s.pump = .ended then some { s with driver := .ended }
    else if s.outbound.length < capacity then
      some { s with outbound := s.outbound ++ [answer], driver := .answering rest }
    else none
  | .answering [] =>
    match choice with
    | .text surroundings =>
      match s.inbound with
      | text :: inbound => some ({ s with inbound }.take b (.text text surroundings))
      | [] => if s.pump = .ended then some { s with driver := .ended } else none
    | .event event => some (s.take b (.event event))
    | .lagged => some s
    | .closed => some { s with driver := .ended }
  | .ended => none

/-- One step. -/
def step (s : Connection σ T V E R) :
    ConnectionAction T V E → Option (Connection σ T V E R × Unit)
  | .arrive frame => some ({ s with
      frames := s.frames ++ [frame], arrived := s.arrived ++ [frame] }, ())
  | .pump ok => (s.pumpStep ok).map fun t => (t, ())
  | .driver choice => (s.driverStep b choice).map fun t => (t, ())

/-- A new connection. -/
def start (session : σ) : Connection σ T V E R where
  frames := []
  pump := .selecting
  inbound := []
  outbound := []
  driver := .answering (b.initialMessages session)
  session
  arrived := []
  handled := []
  answers := b.initialMessages session
  sent := []

/-! ### What is where -/

/-- The texts of frames. -/
def texts (frames : List (SocketFrame T)) : List T := frames.filterMap SocketFrame.payload

/-- The texts that the session has handled. -/
def read (s : Connection σ T V E R) : List T := s.handled.filterMap SessionInput.payload

/-- The session has answered what it has handled; what the client has sent is handled, in the
channel or still to be taken, and what is answered is sent or on its way, in order. -/
structure Inv (s₀ : σ) (s : Connection σ T V E R) : Prop where
  behaves : s.answers = b.initialMessages s₀ ++ (b.replies s₀ s.handled).1
  session : s.session = (b.replies s₀ s.handled).2
  inward : ∃ rest, texts s.arrived = s.read ++ s.inbound ++ rest ∧
    (s.pump ≠ .ended → rest = s.pump.inward ++ texts s.frames)
  outward : s.pump ≠ .ended →
    s.answers = s.sent ++ s.pump.outward ++ s.outbound ++ s.driver.rest
  sent : s.sent <+: s.answers
  roomIn : s.inbound.length ≤ capacity
  roomOut : s.outbound.length ≤ capacity

/-- Both tasks wait for the other to take from a full channel. -/
def Hung (s : Connection σ T V E R) : Prop :=
  (∃ text, s.pump = .forwarding text) ∧ (∃ answer rest, s.driver = .answering (answer :: rest)) ∧
    capacity ≤ s.inbound.length ∧ capacity ≤ s.outbound.length

/-- Both tasks wait for the client, or have ended. -/
def Waiting (s : Connection σ T V E R) : Prop :=
  (s.pump = .selecting ∧ s.frames = [] ∧ s.outbound = [] ∧ s.driver = .answering [] ∧
      s.inbound = []) ∨
    s.pump = .ended ∧ s.driver = .ended

section

variable {b} {s t : Connection σ T V E R} {s₀ : σ}

theorem texts_append (frames more : List (SocketFrame T)) :
    texts (frames ++ more) = texts frames ++ texts more :=
  List.filterMap_append

theorem inv_start : Inv b s₀ (start b s₀) where
  behaves := (List.append_nil _).symm
  session := rfl
  inward := ⟨[], rfl, fun _ => rfl⟩
  outward _ := rfl
  sent := List.nil_prefix
  roomIn := Nat.zero_le _
  roomOut := Nat.zero_le _

/-! ### Steps -/

theorem Inv.arrive (hinv : Inv b s₀ s) (frame : SocketFrame T) :
    Inv b s₀ { s with frames := s.frames ++ [frame], arrived := s.arrived ++ [frame] } := by
  refine ⟨hinv.behaves, hinv.session, ?_, hinv.outward, hinv.sent, hinv.roomIn,
    hinv.roomOut⟩
  obtain ⟨rest, htexts, hrest⟩ := hinv.inward
  refine ⟨rest ++ texts [frame], ?_, fun hpump => ?_⟩
  · rw [texts_append, htexts, List.append_assoc]
    rfl
  · rw [hrest hpump, texts_append, List.append_assoc]

/-- The pump ends. -/
theorem Inv.endPump (hinv : Inv b s₀ s) (frames : List (SocketFrame T)) :
    Inv b s₀ { s with frames, pump := .ended } := by
  refine ⟨hinv.behaves, hinv.session, ?_, fun hpump => absurd rfl hpump, hinv.sent, hinv.roomIn,
    hinv.roomOut⟩
  obtain ⟨rest, htexts, -⟩ := hinv.inward
  exact ⟨rest, htexts, fun hpump => absurd rfl hpump⟩

/-- The pump takes a frame, with its text. -/
theorem Inv.takeFrame (hinv : Inv b s₀ s) {frame : SocketFrame T} {frames : List (SocketFrame T)}
    {phase : PumpPhase T R} (hpump : s.pump = .selecting) (hframes : s.frames = frame :: frames)
    (hin : phase.inward = texts [frame]) (hout : phase.outward = []) :
    Inv b s₀ { s with frames, pump := phase } := by
  have hlive : s.pump ≠ .ended := by
    rw [hpump]
    exact fun h => by cases h
  obtain ⟨rest, htexts, hrest⟩ := hinv.inward
  refine ⟨hinv.behaves, hinv.session, ⟨rest, htexts, fun _ => ?_⟩, fun _ => ?_, hinv.sent,
    hinv.roomIn, hinv.roomOut⟩
  · rw [hrest hlive, hpump, hframes, hin, ← texts_append]
    rfl
  · rw [hinv.outward hlive, hpump, hout]
    rfl

theorem Inv.pump (hinv : Inv b s₀ s) {ok : Bool} (h : s.pumpStep ok = some t) : Inv b s₀ t := by
  obtain ⟨rest, htexts, hrest⟩ := hinv.inward
  have hout := hinv.outward
  unfold pumpStep at h
  cases hpump : s.pump with
  | selecting =>
    simp only [hpump, ne_eq, reduceCtorEq, not_false_eq_true, forall_const] at h hrest hout
    cases hframes : s.frames with
    | cons frame frames =>
      simp only [hframes] at h
      cases frame with
      | text payload =>
        cases h
        exact hinv.takeFrame hpump hframes rfl rfl
      | other =>
        cases h
        exact hinv.takeFrame hpump hframes rfl rfl
      | close | failed | ended =>
        cases h
        exact hinv.endPump frames
    | nil =>
      simp only [hframes] at h hrest
      cases houtbound : s.outbound with
      | cons text outbound =>
        simp only [houtbound] at h hout
        cases h
        refine ⟨hinv.behaves, hinv.session, ⟨rest, htexts, fun _ => hrest⟩, fun _ => ?_, hinv.sent,
          hinv.roomIn, ?_⟩
        · rw [hout]
          simp [PumpPhase.outward]
        · have hroom := hinv.roomOut
          rw [houtbound] at hroom
          exact (Nat.le_succ _).trans hroom
      | nil =>
        simp only [houtbound] at h
        split_ifs at h
        cases h
        rw [← hframes, ← houtbound]
        exact hinv.endPump s.frames
  | forwarding text =>
    simp only [hpump, ne_eq, reduceCtorEq, not_false_eq_true, forall_const] at h hrest hout
    split_ifs at h with hdriver hroom
    · cases h
      exact hinv.endPump s.frames
    · cases h
      refine ⟨hinv.behaves, hinv.session, ⟨texts s.frames, ?_, fun _ => rfl⟩, fun _ => hout,
        hinv.sent, ?_, hinv.roomOut⟩
      · rw [htexts, hrest]
        simp [PumpPhase.inward, read]
      · simpa using hroom
  | sending text =>
    simp only [hpump, ne_eq, reduceCtorEq, not_false_eq_true, forall_const] at h hrest hout
    split_ifs at h with hok
    · cases h
      refine ⟨hinv.behaves, hinv.session, ⟨rest, htexts, fun _ => hrest⟩, fun _ => ?_, ?_,
        hinv.roomIn, hinv.roomOut⟩
      · rw [hout]
        simp [PumpPhase.outward]
      · rw [hout]
        exact ⟨s.outbound ++ s.driver.rest, by simp [PumpPhase.outward]⟩
    · cases h
      exact hinv.endPump s.frames
  | ended =>
    simp only [hpump] at h
    cases h

/-- The session takes an input that is the next one. -/
theorem Inv.take (hinv : Inv b s₀ s) (hdriver : s.driver = .answering [])
    (input : SessionInput T V E)
    {inbound : List T} (hinbound : s.inbound = [input].filterMap SessionInput.payload ++ inbound) :
    Inv b s₀ ({ s with inbound }.take b input) := by
  obtain ⟨rest, htexts, hrest⟩ := hinv.inward
  refine ⟨?_, ?_, ⟨rest, ?_, hrest⟩, fun hpump => ?_, ?_, ?_, hinv.roomOut⟩
  · simp only [Connection.take, b.replies_concat, hinv.behaves, hinv.session, List.append_assoc]
  · simp only [Connection.take, b.replies_concat, hinv.session]
  · simp only [Connection.take, read, List.filterMap_append, List.append_assoc] at htexts ⊢
    rw [htexts, hinbound]
    simp only [List.append_assoc]
  · have hout := hinv.outward hpump
    rw [hdriver] at hout
    simp only [Connection.take, DriverPhase.rest, List.append_nil] at hout ⊢
    rw [hout]
  · exact hinv.sent.trans (List.prefix_append _ _)
  · have hroom := hinv.roomIn
    rw [hinbound, List.length_append] at hroom
    exact (Nat.le_add_left _ _).trans hroom

/-- The driver ends: there is nobody to answer to, or there is nothing to answer. -/
theorem Inv.endDriver (hinv : Inv b s₀ s) (hrest : s.pump = .ended ∨ s.driver.rest = []) :
    Inv b s₀ { s with driver := .ended } := by
  refine ⟨hinv.behaves, hinv.session, hinv.inward, fun hne => ?_, hinv.sent, hinv.roomIn,
    hinv.roomOut⟩
  have hout := hinv.outward hne
  rw [hrest.resolve_left hne] at hout
  exact hout

theorem Inv.driver (hinv : Inv b s₀ s) {choice : DriverChoice V E}
    (h : s.driverStep b choice = some t) : Inv b s₀ t := by
  unfold driverStep at h
  cases hdriver : s.driver with
  | ended =>
    simp only [hdriver] at h
    cases h
  | answering answers =>
    cases answers with
    | cons text rest =>
      simp only [hdriver] at h
      split_ifs at h with hpump hroom
      · cases h
        exact hinv.endDriver (.inl hpump)
      · cases h
        refine ⟨hinv.behaves, hinv.session, hinv.inward, fun hne => ?_, hinv.sent, hinv.roomIn, ?_⟩
        · have hout := hinv.outward hne
          rw [hdriver] at hout
          rw [hout]
          simp [DriverPhase.rest]
        · simpa using hroom
    | nil =>
      simp only [hdriver] at h
      have hrest : s.driver.rest = [] := by rw [hdriver, DriverPhase.rest]
      cases choice with
      | text surroundings =>
        cases hinbound : s.inbound with
        | cons text inbound =>
          simp only [hinbound] at h
          cases h
          exact hinv.take hdriver (.text text surroundings) hinbound
        | nil =>
          simp only [hinbound] at h
          split_ifs at h with hpump
          cases h
          rw [← hinbound]
          exact hinv.endDriver (.inl hpump)
      | event event =>
        cases h
        exact hinv.take hdriver (.event event) rfl
      | lagged =>
        cases h
        exact hinv
      | closed =>
        cases h
        exact hinv.endDriver (.inr hrest)

theorem Inv.step (hinv : Inv b s₀ s) {a : ConnectionAction T V E} {u : Unit}
    (h : step b s a = some (t, u)) : Inv b s₀ t := by
  cases a with
  | arrive frame =>
    cases h
    exact hinv.arrive frame
  | pump ok =>
    obtain ⟨moved, hmoved, heq⟩ := Option.map_eq_some_iff.1 h
    cases heq
    exact hinv.pump hmoved
  | driver choice =>
    obtain ⟨moved, hmoved, heq⟩ := Option.map_eq_some_iff.1 h
    cases heq
    exact hinv.driver hmoved

/-! ### Connections that hang -/

/-- Unless the connection hangs, a task moves or both wait for the client. -/
theorem moves_of_not_hung (hhung : ¬ s.Hung) (hwaiting : ¬ s.Waiting) (surroundings : V) :
    (s.pumpStep true).isSome = true ∨ (s.driverStep b (.text surroundings)).isSome = true := by
  cases hpump : s.pump with
  | selecting =>
    cases hframes : s.frames with
    | cons frame frames =>
      left
      cases frame <;> simp [pumpStep, hpump, hframes, classifyInboundMessage]
    | nil =>
      cases houtbound : s.outbound with
      | cons text outbound =>
        left
        simp [pumpStep, hpump, hframes, houtbound]
      | nil =>
        cases hdriver : s.driver with
        | ended =>
          left
          simp [pumpStep, hpump, hframes, houtbound, hdriver]
        | answering answers =>
          right
          cases answers with
          | cons text rest => simp [driverStep, hdriver, hpump, houtbound, capacity]
          | nil =>
            cases hinbound : s.inbound with
            | cons text inbound => simp [driverStep, hdriver, hinbound]
            | nil => exact absurd (.inl ⟨hpump, hframes, houtbound, hdriver, hinbound⟩) hwaiting
  | forwarding text =>
    cases hdriver : s.driver with
    | ended =>
      left
      simp [pumpStep, hpump, hdriver]
    | answering answers =>
      by_cases hroom : s.inbound.length < capacity
      · left
        simp [pumpStep, hpump, hdriver, hroom]
      · right
        cases answers with
        | cons answer rest =>
          by_cases hroom' : s.outbound.length < capacity
          · simp [driverStep, hdriver, hpump, hroom']
          · exact absurd ⟨⟨text, hpump⟩, ⟨answer, rest, hdriver⟩, not_lt.1 hroom,
              not_lt.1 hroom'⟩ hhung
        | nil =>
          cases hinbound : s.inbound with
          | cons text inbound => simp [driverStep, hdriver, hinbound]
          | nil =>
            rw [hinbound] at hroom
            exact absurd (Nat.succ_pos 127) hroom
  | sending text =>
    left
    simp [pumpStep, hpump]
  | ended =>
    cases hdriver : s.driver with
    | ended => exact absurd (.inr ⟨hpump, hdriver⟩) hwaiting
    | answering answers =>
      right
      cases answers with
      | cons text rest => simp [driverStep, hdriver, hpump]
      | nil => cases hinbound : s.inbound <;> simp [driverStep, hdriver, hinbound, hpump]

/-- A connection that hangs does so for ever: nothing is handled or sent, whatever arrives. -/
theorem Hung.step (hhung : s.Hung) {a : ConnectionAction T V E} {u : Unit}
    (h : step b s a = some (t, u)) : t.Hung ∧ t.sent = s.sent ∧ t.handled = s.handled := by
  obtain ⟨⟨text, hpump⟩, ⟨answer, rest, hdriver⟩, hinbound, houtbound⟩ := hhung
  cases a with
  | arrive frame =>
    cases h
    exact ⟨⟨⟨text, hpump⟩, ⟨answer, rest, hdriver⟩, hinbound, houtbound⟩, rfl, rfl⟩
  | pump ok =>
    have hnone : s.pumpStep ok = none := by
      simp [pumpStep, hpump, hdriver, not_lt.2 hinbound]
    rw [Connection.step, hnone] at h
    cases h
  | driver choice =>
    have hnone : s.driverStep b choice = none := by
      simp [driverStep, hpump, hdriver, not_lt.2 houtbound]
    rw [Connection.step, hnone] at h
    cases h

theorem Hung.reach (hhung : s.Hung)
    (h : Runs.Reach (Connection.step b) (fun _ _ => True) (fun x => x = s) t) :
    t.Hung ∧ t.sent = s.sent ∧ t.handled = s.handled := by
  refine h.invariant (I := fun x => x.Hung ∧ x.sent = s.sent ∧ x.handled = s.handled) ?_ ?_
  · rintro x rfl
    exact ⟨hhung, rfl, rfl⟩
  · rintro x a y u ⟨hx, hsent, hhandled⟩ - hstep
    obtain ⟨hy, hsent', hhandled'⟩ := hx.step hstep
    exact ⟨hy, hsent'.trans hsent, hhandled'.trans hhandled⟩

/-- A client whose connection hangs has sent more texts than a channel holds that are not handled,
and is owed as many answers. -/
theorem Inv.behind (hinv : Inv b s₀ s) (hhung : s.Hung) :
    s.read.length + capacity < (texts s.arrived).length ∧
      s.sent.length + capacity < s.answers.length := by
  obtain ⟨⟨text, hpump⟩, ⟨answer, rest, hdriver⟩, hinbound, houtbound⟩ := hhung
  obtain ⟨behind, htexts, hbehind⟩ := hinv.inward
  have hlive : s.pump ≠ .ended := by
    rw [hpump]
    exact fun h => by cases h
  have hout := hinv.outward hlive
  replace hbehind := hbehind hlive
  rw [hpump] at hbehind
  rw [hdriver] at hout
  constructor
  · rw [htexts, hbehind]
    simp only [List.length_append, PumpPhase.inward, List.length_cons, List.length_nil]
    omega
  · rw [hout]
    simp only [List.length_append, DriverPhase.rest, List.length_cons]
    omega

/-! ### What the client sees -/

/-- The session handles the texts of the client in their order, and its answers are sent in theirs;
none is lost before the pump ends.  A connection that neither hangs nor waits for its client moves;
one that hangs is behind by more than its channels hold, and stays so. -/
structure Faithful (b : SessionBehaviour σ T V E R) (s₀ : σ) (s : Connection σ T V E R) :
    Prop where
  answers : s.answers = b.initialMessages s₀ ++ (b.replies s₀ s.handled).1
  read : s.read <+: texts s.arrived
  sent : s.sent <+: s.answers
  kept : s.pump ≠ .ended →
    texts s.arrived = s.read ++ s.inbound ++ (s.pump.inward ++ texts s.frames) ∧
      s.answers = s.sent ++ s.pump.outward ++ s.outbound ++ s.driver.rest
  bounded : s.inbound.length ≤ capacity ∧ s.outbound.length ≤ capacity
  moves : ¬ s.Hung → ¬ s.Waiting → ∀ surroundings,
    (s.pumpStep true).isSome = true ∨ (s.driverStep b (.text surroundings)).isSome = true
  behind : s.Hung → s.read.length + capacity < (texts s.arrived).length ∧
    s.sent.length + capacity < s.answers.length
  forever : s.Hung → ∀ t, Runs.Reach (step b) (fun _ _ => True) (fun x => x = s) t →
    t.Hung ∧ t.sent = s.sent ∧ t.handled = s.handled

theorem Inv.faithful (hinv : Inv b s₀ s) : Faithful b s₀ s where
  answers := hinv.behaves
  read := by
    obtain ⟨rest, htexts, -⟩ := hinv.inward
    exact ⟨s.inbound ++ rest, by rw [htexts, List.append_assoc]⟩
  sent := hinv.sent
  kept hlive := by
    obtain ⟨rest, htexts, hrest⟩ := hinv.inward
    exact ⟨by rw [htexts, hrest hlive], hinv.outward hlive⟩
  bounded := ⟨hinv.roomIn, hinv.roomOut⟩
  moves := moves_of_not_hung
  behind := hinv.behind
  forever hhung _ := hhung.reach

/-- In every run of a connection, whatever the session answers. -/
theorem faithful_of_reach
    (h : Runs.Reach (step b) (fun _ _ => True) (fun x => x = start b s₀) s) : Faithful b s₀ s := by
  refine Inv.faithful (h.invariant (I := Inv b s₀) ?_ ?_)
  · rintro x rfl
    exact inv_start
  · exact fun x a y u hinv _ hstep => hinv.step hstep

end

/-- A session that answers each text with itself. -/
def echo : SessionBehaviour Unit String Unit Empty String where
  initialMessages _ := ["hello"]
  handleText text _ _ := ([text], ())
  dispatchEvent event _ := nomatch event

theorem faithful_of_reach_echo : ∃ s : Connection Unit String Unit Empty String,
    Runs.Reach (step echo) (fun _ _ => True) (fun x => x = start echo ()) s ∧
      s.sent = ["hello", "a"] ∧ Faithful echo () s := by
  have hrun : (Runs.exec (step echo) (start echo ()) [.driver (.text ()), .arrive (.text "a"),
      .pump true, .pump true, .pump true, .pump true, .driver (.text ()), .driver (.text ()),
      .pump true, .pump true]).map
      (fun r => r.1.sent) = some ["hello", "a"] := by
    decide +kernel
  obtain ⟨⟨s, outputs⟩, hexec, hsent⟩ := Option.map_eq_some_iff.1 hrun
  have hreach : Runs.Reach (step echo) (fun _ _ => True) (fun x => x = start echo ()) s :=
    .of_exec (.start rfl) (fun _ _ _ => trivial) hexec
  exact ⟨s, hreach, hsent, faithful_of_reach hreach⟩

end Connection
end Gittree
