import Gittree.Relay.MemorySession
import Gittree.Relay.Pump
import Gittree.Relay.Wire

/-!
# Answers that fill a connection

The sessions of the relay under the pump of their connections.  A channel holds the answers to one
text only up to its capacity, so a long answer makes the driver wait for the pump, and the pump,
which takes the texts of the client first, waits for the driver.

* `hangs_of_answers`: a client that is answered at length can make its connection hang;
* `Session.behaviour`: a session of the relay as its driver sees it;
* `Session.hangs_of_request`: a request that finds enough events is such a text;
* `Session.hangs_of_undecodable`: so are enough texts that are no messages.
-/

namespace Gittree

open Rust
open Rust.Json (Value)

namespace Connection

variable {σ T V E R : Type} {b : SessionBehaviour σ T V E R} {s : Connection σ T V E R}
  {origin : Connection σ T V E R → Prop}

/-- Frames arrive. -/
theorem reach_arrive (hs : Runs.Reach (step b) (fun _ _ => True) origin s)
    (frames : List (SocketFrame T)) :
    Runs.Reach (step b) (fun _ _ => True) origin
      { s with frames := s.frames ++ frames, arrived := s.arrived ++ frames } := by
  induction frames generalizing s with
  | nil =>
    rw [List.append_nil, List.append_nil]
    exact hs
  | cons frame rest ih =>
    have hnext := ih (hs.step trivial (show step b s (.arrive frame) = some (_, ()) from rfl))
    simpa only [List.append_assoc, List.singleton_append] using hnext

/-- The driver sends answers while there is room for them. -/
theorem reach_answers (hs : Runs.Reach (step b) (fun _ _ => True) origin s)
    {answers rest : List R} (hdriver : s.driver = .answering (answers ++ rest))
    (hpump : s.pump ≠ .ended) (hroom : s.outbound.length + answers.length ≤ capacity) :
    Runs.Reach (step b) (fun _ _ => True) origin
      { s with outbound := s.outbound ++ answers, driver := .answering rest } := by
  induction answers generalizing s with
  | nil =>
    rw [List.nil_append] at hdriver
    rw [List.append_nil, ← hdriver]
    exact hs
  | cons answer answers ih =>
    rw [List.length_cons] at hroom
    have hstep : step b s (.driver .lagged) = some ({ s with
        outbound := s.outbound ++ [answer], driver := .answering (answers ++ rest) }, ()) := by
      rw [List.cons_append] at hdriver
      simp only [step, driverStep, hdriver, if_neg hpump]
      rw [if_pos (by omega)]
      rfl
    have hnext := ih (hs.step trivial hstep) rfl hpump (by
      rw [List.length_append, List.length_singleton]
      omega)
    simpa only [List.append_assoc, List.singleton_append] using hnext

/-- The pump takes a text. -/
theorem reach_forwarding (hs : Runs.Reach (step b) (fun _ _ => True) origin s)
    (payload : T) (frames : List (SocketFrame T)) (hpump : s.pump = .selecting)
    (hframes : s.frames = .text payload :: frames) :
    Runs.Reach (step b) (fun _ _ => True) origin
      { s with frames, pump := .forwarding payload } := by
  refine hs.step (a := .pump true) (o := ()) trivial ?_
  simp only [step, pumpStep, hpump, hframes, classifyInboundMessage]
  rfl

/-- The pump forwards texts while there is room for them. -/
theorem reach_texts (hs : Runs.Reach (step b) (fun _ _ => True) origin s)
    (payloads : List T) (frames : List (SocketFrame T)) (hpump : s.pump = .selecting)
    (hframes : s.frames = payloads.map SocketFrame.text ++ frames) (hdriver : s.driver ≠ .ended)
    (hroom : s.inbound.length + payloads.length ≤ capacity) :
    Runs.Reach (step b) (fun _ _ => True) origin
      { s with frames, inbound := s.inbound ++ payloads } := by
  induction payloads generalizing s with
  | nil =>
    rw [List.map_nil, List.nil_append] at hframes
    rw [List.append_nil, ← hframes]
    exact hs
  | cons payload payloads ih =>
    rw [List.length_cons] at hroom
    rw [List.map_cons, List.cons_append] at hframes
    have htake := reach_forwarding hs payload _ hpump hframes
    have hforward : step b { s with
          frames := payloads.map SocketFrame.text ++ frames, pump := .forwarding payload }
        (.pump true) = some ({ s with
          frames := payloads.map SocketFrame.text ++ frames
          inbound := s.inbound ++ [payload] }, ()) := by
      simp only [step, pumpStep, if_neg hdriver]
      rw [if_pos (by omega), Option.map_some, ← hpump]
    have hnext := ih (htake.step trivial hforward) hpump rfl hdriver (by
      rw [List.length_append, List.length_singleton]
      omega)
    simpa only [List.append_assoc, List.singleton_append] using hnext

/-- The session takes a text. -/
theorem reach_taken (hs : Runs.Reach (step b) (fun _ _ => True) origin s) (text : T)
    (surroundings : V) (frames : List (SocketFrame T)) (hpump : s.pump = .selecting)
    (hframes : s.frames = .text text :: frames) (hinbound : s.inbound = [])
    (hdriver : s.driver = .answering []) :
    Runs.Reach (step b) (fun _ _ => True) origin
      ({ s with frames, inbound := [] }.take b (.text text surroundings)) := by
  have hread := reach_texts hs [text] frames hpump hframes
    (by rw [hdriver]; exact fun h => by cases h)
    (by rw [hinbound]; exact Nat.le_add_left 1 127)
  refine hread.step (a := .driver (.text surroundings)) (o := ()) trivial ?_
  simp only [step, driverStep, hdriver, hinbound, List.nil_append]
  rfl

/-- The text whose answers do not fit in their channel: both channels are filled. -/
theorem hangs_of_overflow (hs : Runs.Reach (step b) (fun _ _ => True) origin s) (text : T)
    (surroundings : V) {more : List T} (hpump : s.pump = .selecting)
    (hframes : s.frames = (text :: more).map SocketFrame.text) (hinbound : s.inbound = [])
    (hdriver : s.driver = .answering []) (hmore : capacity < more.length)
    (hfits : s.outbound.length ≤ capacity)
    (hlong : capacity < s.outbound.length + (b.handleText text surroundings s.session).1.length) :
    ∃ t, Runs.Reach (step b) (fun _ _ => True) origin t ∧ t.Hung ∧ t.arrived = s.arrived := by
  -- the answers that fit in their channel, and those that do not
  obtain ⟨room, hroom⟩ := Nat.exists_eq_add_of_le hfits
  obtain ⟨answer, rest, hrest⟩ : ∃ answer rest,
      (b.handleText text surroundings s.session).1.drop room = answer :: rest := by
    refine List.exists_cons_of_ne_nil fun hnil => ?_
    have := List.drop_eq_nil_iff.1 hnil
    omega
  have hsplit := (List.take_append_drop room (b.handleText text surroundings s.session).1).symm
  rw [hrest] at hsplit
  have htook : ((b.handleText text surroundings s.session).1.take room).length = room :=
    List.length_take_of_le (by omega)
  -- the texts that fit in theirs, and the one that the pump holds
  obtain ⟨last, left, hlast⟩ : ∃ last left, more.drop capacity = last :: left := by
    refine List.exists_cons_of_ne_nil fun hnil => ?_
    have := List.drop_eq_nil_iff.1 hnil
    omega
  have hsplit' := (List.take_append_drop capacity more).symm
  rw [hlast] at hsplit'
  have htaken := reach_taken hs text surroundings (more.map SocketFrame.text) hpump hframes hinbound
    hdriver
  have hanswered := reach_answers htaken (congrArg DriverPhase.answering hsplit) (by
    simp only [Connection.take, hpump]
    exact fun h => by cases h) (by
    rw [htook]
    simp only [Connection.take, hroom, le_refl])
  have htexts := reach_texts hanswered (more.take capacity) ((last :: left).map SocketFrame.text)
    hpump (by rw [← List.map_append, ← hsplit']; rfl) (fun h => by cases h) (by
      rw [List.length_take_of_le hmore.le]
      simp only [Connection.take, List.length_nil, zero_add, le_refl])
  have hforwarding := reach_forwarding htexts last (left.map SocketFrame.text) hpump rfl
  refine ⟨_, hforwarding, ⟨⟨last, rfl⟩, ⟨answer, rest, rfl⟩, ?_, ?_⟩, rfl⟩
  · simp only [Connection.take, List.nil_append, List.length_take_of_le hmore.le, le_refl]
  · simp only [Connection.take, List.length_append, htook, hroom, le_refl]

/-- Texts as inputs, with the surroundings that they meet. -/
def inputs (first : List (T × V)) : List (SessionInput T V E) :=
  first.map fun input => .text input.1 input.2

/-- The induction is on the texts that are answered: the answers to each fit in the channel, or it
is the one whose answers do not. -/
theorem hangs_of_burst (hs : Runs.Reach (step b) (fun _ _ => True) origin s)
    (first : List (T × V)) (more : List T) (hpump : s.pump = .selecting)
    (hframes : s.frames = (first.map Prod.fst ++ more).map SocketFrame.text)
    (hinbound : s.inbound = []) (hdriver : s.driver = .answering [])
    (hmore : capacity < more.length) (hfits : s.outbound.length ≤ capacity)
    (hlong : capacity < s.outbound.length + (b.replies s.session (inputs first)).1.length) :
    ∃ t, Runs.Reach (step b) (fun _ _ => True) origin t ∧ t.Hung ∧ t.arrived = s.arrived := by
  induction first generalizing s with
  | nil =>
    rw [inputs, List.map_nil, SessionBehaviour.replies, List.length_nil] at hlong
    omega
  | cons input rest ih =>
    obtain ⟨text, surroundings⟩ := input
    simp only [inputs, List.map_cons, SessionBehaviour.replies, List.length_append] at hlong
    by_cases hroom : s.outbound.length + (b.handleText text surroundings s.session).1.length ≤
        capacity
    · have htaken := reach_taken hs text surroundings _ hpump hframes hinbound hdriver
      have hanswered := reach_answers htaken
        (congrArg DriverPhase.answering (List.append_nil _).symm) (by
          simp only [Connection.take, hpump]
          exact fun h => by cases h) hroom
      obtain ⟨t, ht, hhung, harrived⟩ := ih hanswered hpump rfl rfl rfl (by
        simp only [Connection.take, List.length_append]
        exact hroom) (by
        simp only [Connection.take, List.length_append]
        exact (Nat.add_assoc _ _ _).symm ▸ hlong)
      exact ⟨t, ht, hhung, harrived⟩
    · refine hangs_of_overflow hs text surroundings hpump hframes hinbound hdriver ?_ hfits
        (not_le.1 hroom)
      show capacity < (rest.map Prod.fst ++ more).length
      rw [List.length_append]
      omega

/-- A client makes its connection hang with texts that are answered with more than a channel holds,
if it sends more texts than the other channel holds before it is answered. -/
theorem hangs_of_answers (first : List (T × V)) (more : List T) (hwaiting : s.Waiting)
    (hlive : s.pump ≠ .ended)
    (hlong : capacity < (b.replies s.session (inputs first)).1.length)
    (hmore : capacity < more.length) :
    ∃ t, Runs.Reach (step b) (fun _ _ => True) (fun x => x = s) t ∧ t.Hung ∧
      t.arrived = s.arrived ++ (first.map Prod.fst ++ more).map SocketFrame.text := by
  obtain ⟨hpump, hframes, houtbound, hdriver, hinbound⟩ :=
    hwaiting.resolve_right fun hended => hlive hended.1
  have harrived := reach_arrive (b := b)
    (.start rfl : Runs.Reach (step b) (fun _ _ => True) (fun x => x = s) s)
    ((first.map Prod.fst ++ more).map SocketFrame.text)
  refine hangs_of_burst harrived first more hpump ?_ hinbound hdriver hmore ?_ ?_
  · rw [hframes, List.nil_append]
  · rw [houtbound]
    exact Nat.zero_le _
  · rw [houtbound, List.length_nil, zero_add]
    exact hlong

end Connection

/-! ### A store with notes -/

namespace MemoryStore

/-- A note that differs from the others in its id. -/
def numberedNote (i : ℕ) : NostrEvent :=
  { Relay.note with id := Hex.encode (List.replicate 31 0 ++ [UInt8.ofNat i]) }

/-- A store into which some notes have been inserted. -/
def withNotes : ℕ → MemoryStore
  | 0 => new
  | n + 1 => ((withNotes n).insert (numberedNote n)).2

theorem numberedNote_injOn {i j : ℕ} (hi : i < 256) (hj : j < 256)
    (h : (numberedNote i).id = (numberedNote j).id) : i = j := by
  have hbytes := List.append_cancel_left (Hex.encode_injective h)
  have hbyte := congrArg UInt8.toNat (List.cons.inj hbytes).1
  rwa [UInt8.toNat_ofNat_of_lt' hi, UInt8.toNat_ofNat_of_lt' hj] at hbyte

/-- The inserted notes are stored, and nothing else is. -/
theorem get_withNotes {n : ℕ} (hn : n ≤ 256) {k : String} {x : NostrEvent} :
    (withNotes n).get k = some x ↔ ∃ i < n, numberedNote i = x ∧ x.id = k := by
  induction n generalizing k x with
  | zero => simp [withNotes, get, new]
  | succ n ih =>
    have hkey : ∀ y, ¬ MemoryStoreState.SameKey (numberedNote n) y := by
      rintro y ⟨key, hkey, -⟩
      cases hkey
    have hfresh : ∀ i < n, (numberedNote i).id ≠ (numberedNote n).id := fun i hi hid =>
      hi.ne (numberedNote_injOn (by omega) (by omega) hid)
    have hadds : (withNotes n).Adds (numberedNote n) := by
      constructor
      · rw [Option.eq_none_iff_forall_ne_some]
        intro y hy
        obtain ⟨i, hi, rfl, hid⟩ := (ih (by omega)).1 hy
        exact hfresh i hi hid
      · rintro ⟨k', y, -, hsame, -⟩
        exact hkey y hsame
    rw [withNotes, get_insert_of_adds hadds, ih (by omega)]
    constructor
    · rintro (⟨rfl, rfl⟩ | ⟨-, ⟨i, hi, rfl, rfl⟩, -⟩)
      · exact ⟨n, Nat.lt_succ_self n, rfl, rfl⟩
      · exact ⟨i, Nat.lt_succ_of_lt hi, rfl, rfl⟩
    · rintro ⟨i, hi, rfl, rfl⟩
      rcases Nat.lt_succ_iff_lt_or_eq.1 hi with hi | rfl
      · refine Or.inr ⟨(hfresh i hi).symm, ⟨i, hi, rfl, rfl⟩, ?_⟩
        rintro (⟨h5, -⟩ | hsame)
        · cases h5
        · exact hkey _ hsame
      · exact Or.inl ⟨rfl, rfl⟩

theorem length_withNotes {n : ℕ} (hn : n ≤ 256) :
    (withNotes n).state.events.values.length = n := by
  have hnodup : ((List.range n).map numberedNote).Nodup := by
    refine List.Nodup.map_on (fun i hi j hj h => ?_) List.nodup_range
    rw [List.mem_range] at hi hj
    exact numberedNote_injOn (by omega) (by omega) (congrArg NostrEvent.id h)
  have hperm := (List.perm_ext_iff_of_nodup (List.Nodup.of_map _ (nodup_map_id (withNotes n)))
    hnodup).2 fun x => by
      rw [Map.mem_values, List.mem_map]
      constructor
      · rintro ⟨k, hk⟩
        obtain ⟨i, hi, rfl, -⟩ := (get_withNotes hn).1 hk
        exact ⟨i, List.mem_range.2 hi, rfl⟩
      · rintro ⟨i, hi, rfl⟩
        exact ⟨_, (get_withNotes hn).2 ⟨i, List.mem_range.1 hi, rfl, rfl⟩⟩
  rw [hperm.length_eq, List.length_map, List.length_range]

theorem indexed_withNotes {n : ℕ} (hn : n ≤ 256) : (withNotes n).state.Indexed := by
  intro k x hx
  obtain ⟨i, -, rfl, -⟩ := (get_withNotes hn).1 hx
  exact fun tag htag => (by cases htag)

end MemoryStore

/-! ### The sessions of the relay -/

namespace Session

variable {σ : Type} (store : EventStore σ) (maxMessageBytes : Option ℕ)

/-- A session of the relay as its driver sees it: a text meets what the message needs from outside,
and the repositories as the other sessions have left them. -/
def behaviour : SessionBehaviour Session TextFrame (Env × Repos σ) NostrEvent ServerMessage where
  initialMessages := Relay.initialMessages
  handleText text surroundings s :=
    let r := s.handleText store surroundings.1 surroundings.2 maxMessageBytes text
    (r.responses, r.session)
  dispatchEvent event s := s.dispatchEvent event

/-- A text that is no message is answered by one notice. -/
theorem length_replies_of_undecodable (surroundings : Env × Repos σ) (texts : List TextFrame)
    (s : Session) (h : ∀ text ∈ texts, ∃ err, decodeClientMessage text = .error err) :
    ((behaviour store maxMessageBytes).replies s
        (Connection.inputs (texts.map fun text => (text, surroundings)))).1.length =
      texts.length := by
  induction texts generalizing s with
  | nil => rfl
  | cons text rest ih =>
    obtain ⟨err, herr⟩ := h text List.mem_cons_self
    have hone :
        ((behaviour store maxMessageBytes).handleText text surroundings s).1.length = 1 := by
      simp only [behaviour, handleText, handleRaw, herr]
      split_ifs <;> rfl
    have hrest := ih ((behaviour store maxMessageBytes).handleText text surroundings s).2
      fun text htext => h text (List.mem_cons_of_mem _ htext)
    simp only [Connection.inputs, List.map_cons, SessionBehaviour.replies, List.length_append,
      List.length_cons] at hrest ⊢
    rw [SessionBehaviour.react, hone, hrest, Nat.add_comm]

variable {store maxMessageBytes}

/-- A client makes its connection hang with a request that finds as many events as a channel holds,
if it sends more texts than the other channel holds before it is answered. -/
theorem hangs_of_request
    {c : Connection Session TextFrame (Env × Repos σ) NostrEvent ServerMessage} {s : Session}
    {text : TextFrame} {more : List TextFrame} {env : Env} {repos : Repos σ} {id : String}
    {filters : List Value} {parsed : List Filter} {events : List NostrEvent}
    {memberships : Memberships} (hwaiting : c.Waiting) (hlive : c.pump ≠ .ended)
    (hlen : ∀ limit ∈ maxMessageBytes, text.len ≤ limit)
    (hdecode : decodeClientMessage text = .ok (.req id filters))
    (hrate : c.session.rateLimitRequest env.instant = (false, s))
    (hcheck : s.checkReq store env repos id filters = .ok (parsed, events, memberships))
    (hlong : Connection.capacity ≤ events.length)
    (hmore : Connection.capacity < more.length) :
    ∃ t, Runs.Reach (Connection.step (behaviour store maxMessageBytes)) (fun _ _ => True)
        (fun x => x = c) t ∧ t.Hung ∧
      t.arrived = c.arrived ++ (text :: more).map SocketFrame.text := by
  refine Connection.hangs_of_answers [(text, env, repos)] more hwaiting hlive ?_ hmore
  have hfits : ¬ ∃ limit ∈ maxMessageBytes, limit < text.len := by
    rintro ⟨limit, hlimit, hlt⟩
    exact (hlen limit hlimit).not_gt hlt
  have hanswer : (c.session.handleText store env repos maxMessageBytes text).responses =
      events.map (.event id) ++ [.eose id] := by
    rw [handleText, if_neg hfits, handleRaw, hdecode]
    simp only [handleMessage, handleReq, hrate, acceptReq, hcheck, Reaction.responses,
      List.append_nil]
  simp only [Connection.inputs, List.map_cons, List.map_nil, SessionBehaviour.replies,
    SessionBehaviour.react, behaviour, hanswer, List.length_append, List.length_map,
    List.length_singleton, List.length_nil]
  exact Nat.lt_succ_of_le hlong

/-- A request without conditions is answered with all that the store has. -/
theorem checkReq_all {store : MemoryStore} (hindex : store.state.Indexed)
    (hlength : store.state.events.values.length ≤ 2 ^ 64 - 1) : ∃ events,
    Session.checkReq {} MemoryStore.eventStore Relay.noteEnv ⟨store, ∅⟩ "all" [.object []] =
        .ok ([{}], events, ∅) ∧
      events.length = store.state.events.values.length := by
  refine ⟨store.state.events.values.insertionSort RepositoryStore.before, ?_,
    List.length_insertionSort _ _⟩
  have hread : Session.checkRead {} ∅ "all" [.object []] = .ok [({} : Filter)] := rfl
  have hquery : MemoryStore.eventStore.query store [{}] =
      .ok (store.state.events.values.insertionSort RepositoryStore.before) :=
    MemoryStore.query_all hindex hlength
  have hvirtual : Session.virtualEvents {} Relay.noteEnv ∅ [{}] = .ok ([], ∅) := rfl
  unfold Session.checkReq
  simp only [Result.bind_eq_ok, Result.mapError_eq_ok, Result.ensure_eq_ok, Result.pure_eq_ok]
  refine ⟨[{}], hread, (), Or.inr (fun _ hmax => (by cases hmax)), _, hquery, _, hvirtual, ?_⟩
  rw [List.append_nil]

def requestAll : TextFrame := .ofValue (.array [.string "REQ", .string "all", .object []])

theorem hangs_of_request_notes : ∃ t,
    Runs.Reach (Connection.step (behaviour MemoryStore.eventStore none)) (fun _ _ => True)
        (fun x => x = Connection.start (behaviour MemoryStore.eventStore none) {}) t ∧ t.Hung ∧
      t.arrived = (requestAll :: List.replicate (Connection.capacity + 1) requestAll).map
        SocketFrame.text := by
  have hlength : (MemoryStore.withNotes Connection.capacity).state.events.values.length =
      Connection.capacity := MemoryStore.length_withNotes (by decide)
  obtain ⟨events, hcheck, hevents⟩ := checkReq_all
    (MemoryStore.indexed_withNotes (by decide : Connection.capacity ≤ 256))
    (by rw [hlength]; decide)
  have hdecode : decodeClientMessage requestAll = .ok (.req "all" [.object []]) := rfl
  exact hangs_of_request (.inl ⟨rfl, rfl, rfl, rfl, rfl⟩) (fun h => by cases h)
    (fun _ h => by cases h) hdecode rfl hcheck (by rw [hevents, hlength])
    (by rw [List.length_replicate]; exact Nat.lt_succ_self _)

/-- A client makes its connection hang with texts that are no messages, whatever the session: no
rate limit counts them. -/
theorem hangs_of_undecodable
    {c : Connection Session TextFrame (Env × Repos σ) NostrEvent ServerMessage}
    {texts : List TextFrame} (surroundings : Env × Repos σ) (hwaiting : c.Waiting)
    (hlive : c.pump ≠ .ended)
    (htexts : ∀ text ∈ texts, ∃ err, decodeClientMessage text = .error err)
    (hlength : 2 * Connection.capacity + 1 < texts.length) :
    ∃ t, Runs.Reach (Connection.step (behaviour store maxMessageBytes)) (fun _ _ => True)
        (fun x => x = c) t ∧ t.Hung ∧ t.arrived = c.arrived ++ texts.map SocketFrame.text := by
  have hreplies := length_replies_of_undecodable store maxMessageBytes surroundings
    (texts.take (Connection.capacity + 1)) c.session
    fun text htext => htexts text (List.mem_of_mem_take htext)
  obtain ⟨t, ht, hhung, harrived⟩ := Connection.hangs_of_answers
    ((texts.take (Connection.capacity + 1)).map fun text => (text, surroundings))
    (texts.drop (Connection.capacity + 1)) hwaiting hlive
    (by
      rw [hreplies, List.length_take_of_le (by omega)]
      exact Nat.lt_succ_self _)
    (by
      rw [List.length_drop]
      omega)
  refine ⟨t, ht, hhung, ?_⟩
  rw [harrived, List.map_map]
  simp only [Function.comp_def, List.map_id', List.take_append_drop]

def garbage : TextFrame := ⟨1, .error "expected value at line 1 column 1"⟩

theorem hangs_of_undecodable_garbage : ∃ t,
    Runs.Reach (Connection.step (behaviour MemoryStore.eventStore none)) (fun _ _ => True)
        (fun x => x = Connection.start (behaviour MemoryStore.eventStore none) {}) t ∧ t.Hung ∧
      t.arrived = (List.replicate (2 * Connection.capacity + 2) garbage).map
        SocketFrame.text := by
  have htexts : ∀ text ∈ List.replicate (2 * Connection.capacity + 2) garbage,
      ∃ err, decodeClientMessage text = .error err :=
    fun text htext => ⟨.invalidJson, by rw [List.eq_of_mem_replicate htext]; rfl⟩
  exact hangs_of_undecodable (Relay.noteEnv, ⟨MemoryStore.new, ∅⟩) (.inl ⟨rfl, rfl, rfl, rfl, rfl⟩)
    (fun h => by cases h) htexts (by rw [List.length_replicate]; exact Nat.lt_succ_self _)

end Session
end Gittree
