import Gittree.Relay.Handlers

/-!
# Frames on the wire

`services/relay/src/protocol.rs`, `driver.rs` and the readers of `crates/relay-adapter/src/lib.rs`:
the relay and its websocket clients exchange JSON texts.  A text is given by its length and by the
value that `serde_json` reads from it; a value that `to_string` has written is read as it was.

* `decodeClientMessage`, `encodeServerMessage`, `handleText`: the frames of the relay;
* `parseOkMessage`, `parseEventMessage`, `parseEoseMessage`: the readers of the client;
* `decodeClientMessage_frames`: the frames that are read as a message;
* `readers_encode`: each reader reads the messages of its kind and passes over all others;
* `fromValue_toValue`: an event is read as it was written.
-/

namespace Gittree

open Rust
open Rust.Json (Value)

/-- A text frame: its length in bytes, and the value it is read as, or the error of the parser. -/
structure TextFrame where
  len : ℕ
  value : Except String Value

/-- The text of a value. -/
def TextFrame.ofValue (v : Value) : TextFrame := ⟨Str.len v.toText, .ok v⟩

/-! ### Frames of the relay -/

/-- `ProtocolError`. -/
inductive ProtocolError
  | invalidJson
  | invalidFrame
  | missingField (field : String)
  | invalidField (field : String)
  | unknownMessageType (kind : String)
  deriving DecidableEq, Repr

def ProtocolError.display : ProtocolError → String
  | .invalidJson => "invalid json"
  | .invalidFrame => "invalid frame"
  | .missingField field => "missing field " ++ field
  | .invalidField field => "invalid field " ++ field
  | .unknownMessageType kind => "unknown message type " ++ kind

/-- `Notice::from` of a protocol error. -/
def ProtocolError.notice (err : ProtocolError) : ServerMessage :=
  .notice ("invalid message: " ++ err.display)

/-- The event of an `EVENT` or `AUTH` frame. -/
def decodeEvent (items : List Value) : Except ProtocolError Value :=
  Result.okOr items[1]? (.missingField "event")

/-- The subscription id of a frame. -/
def decodeSubscriptionId (items : List Value) : Except ProtocolError String :=
  Result.okOr (items[1]?.bind Value.asStr) (.missingField "subscription_id")

/-- The subscription id and the filters of a `REQ` or `COUNT` frame. -/
def decodeFilters (items : List Value) : Except ProtocolError (String × List Value) := do
  let subscriptionId ← decodeSubscriptionId items
  Result.ensure (3 ≤ items.length) (.missingField "filters")
  return (subscriptionId, items.drop 2)

/-- The `match` of `decode_client_message`. -/
def decodeKind (items : List Value) (kind : String) : Except ProtocolError ClientMessage :=
  if kind = "EVENT" then (decodeEvent items).map .event
  else if kind = "REQ" then (decodeFilters items).map fun r => .req r.1 r.2
  else if kind = "CLOSE" then (decodeSubscriptionId items).map .close
  else if kind = "AUTH" then (decodeEvent items).map .auth
  else if kind = "COUNT" then (decodeFilters items).map fun r => .count r.1 r.2
  else .error (.unknownMessageType kind)

/-- `decode_client_message`. -/
def decodeClientMessage (input : TextFrame) : Except ProtocolError ClientMessage := do
  let value ← input.value.mapError fun _ => .invalidJson
  let items ← Result.okOr value.asArray .invalidFrame
  let kind ← Result.okOr (items.head?.bind Value.asStr) (.missingField "type")
  decodeKind items kind

/-- `encode_server_message`. -/
def encodeServerMessage : ServerMessage → Value
  | .event subscriptionId event => .array [.string "EVENT", .string subscriptionId, event.toValue]
  | .notice message => .array [.string "NOTICE", .string message]
  | .eose subscriptionId => .array [.string "EOSE", .string subscriptionId]
  | .ok eventId accepted message =>
    .array [.string "OK", .string eventId, .bool accepted, .string message]
  | .closed subscriptionId message =>
    .array [.string "CLOSED", .string subscriptionId, .string message]
  | .auth challenge => .array [.string "AUTH", .string challenge]
  | .count subscriptionId count =>
    .array [.string "COUNT", .string subscriptionId,
      .object [("count", .number (.posInt count))]]

namespace Session

variable {σ : Type} (s : Session) (store : EventStore σ) (env : Env) (repos : Repos σ)

/-- `handle_raw`. -/
def handleRaw (input : TextFrame) : Reaction σ :=
  match decodeClientMessage input with
  | .ok message => s.handleMessage store env repos message
  | .error err => { session := s, repos, replies := [err.notice] }

/-- `handle_text`, under the policy's limit on the length of a message. -/
def handleText (maxMessageBytes : Option ℕ) (input : TextFrame) : Reaction σ :=
  if ∃ limit ∈ maxMessageBytes, limit < input.len then
    { session := s, repos, replies := [.notice "message too large"] }
  else s.handleRaw store env repos input

variable {s store env repos}

/-- A text is handled as the message it decodes to, or is answered by one notice and changes
nothing. -/
theorem handleText_cases (maxMessageBytes : Option ℕ) (input : TextFrame) :
    (∃ text, s.handleText store env repos maxMessageBytes input =
        { session := s, repos, replies := [.notice text] }) ∨
      ∃ message, decodeClientMessage input = .ok message ∧
        s.handleText store env repos maxMessageBytes input =
          s.handleMessage store env repos message := by
  unfold handleText
  split_ifs with hlimit
  · exact Or.inl ⟨_, rfl⟩
  · unfold handleRaw
    cases hdecode : decodeClientMessage input with
    | error err => exact Or.inl ⟨_, rfl⟩
    | ok message => exact Or.inr ⟨message, rfl, rfl⟩

end Session

/-! ### Frames of the client -/

/-- `RelayAdapterError`. -/
inductive RelayAdapter.Error
  | unsupported (message : String)
  | invalidConfig (message : String)
  | transport (message : String)
  | protocol (message : String)
  deriving DecidableEq, Repr

/-- `WsMessage`: a text, or a frame that is none. -/
inductive WsMessage
  | text (frame : TextFrame)
  | other

namespace RelayAdapter

/-- What the readers share: the items of a text that is an array of at least `least` values and
begins with the kind. -/
def readItems (kind : String) (least : ℕ) : WsMessage → Except Error (Option (List Value))
  | .other => .ok none
  | .text frame => (frame.value.mapError Error.protocol).map fun value =>
    value.asArray.filter fun items =>
      decide (least ≤ items.length) && items.head?.bind Value.asStr == some kind

/-- The text at a position. -/
def textAt (items : List Value) (i : ℕ) : Option String := items[i]?.bind Value.asStr

/-- `parse_ok_message`. -/
def parseOkMessage (message : WsMessage) : Except Error (Option (String × Bool × Option String)) :=
  (readItems "OK" 3 message).map fun found => found.map fun items =>
    ((textAt items 1).getD "", (items[2]?.bind Value.asBool).getD false, textAt items 3)

/-- `parse_event_message`. -/
def parseEventMessage (message : WsMessage) : Except Error (Option (String × Value)) :=
  (readItems "EVENT" 3 message).map fun found => found.bind fun items =>
    items[2]?.map fun event => ((textAt items 1).getD "", event)

/-- `parse_eose_message`. -/
def parseEoseMessage (message : WsMessage) : Except Error (Option String) :=
  (readItems "EOSE" 2 message).map fun found => found.map fun items => (textAt items 1).getD ""

/-- The frame of a value. -/
def wsText (v : Value) : WsMessage := .text (.ofValue v)

end RelayAdapter

/-! ### What is read is what was written -/

/-- `SignedNostrEvent`, with the widths of its numbers. -/
structure SignedNostrEvent extends NostrEvent where
  kind_lt : kind < 2 ^ 32
  le_createdAt : -2 ^ 63 ≤ createdAt
  createdAt_lt : createdAt < 2 ^ 63

theorem asI64_ofI64 {n : ℤ} (h : n < 2 ^ 63) : (Json.ofI64 n).asI64 = some n := by
  unfold Json.ofI64
  by_cases hn : 0 ≤ n
  · rw [if_pos hn]
    have hlt : n.toNat < 2 ^ 63 := by omega
    simp only [Value.asI64, if_pos hlt, Int.toNat_of_nonneg hn]
  · rw [if_neg hn]
    rfl

theorem readStrings_strings (l : List String) :
    NostrEvent.readStrings (.array (l.map .string)) = some l := by
  show (l.map Value.string).mapM Value.asStr = some l
  rw [List.mapM_map]
  induction l with
  | nil => rfl
  | cons x rest ih =>
    rw [List.mapM_cons, ih]
    rfl

theorem readStrings_tags (tags : List (List String)) :
    (tags.map fun tag => Value.array (tag.map .string)).mapM NostrEvent.readStrings =
      some tags := by
  rw [List.mapM_map]
  induction tags with
  | nil => rfl
  | cons tag rest ih =>
    rw [List.mapM_cons, ih]
    show (NostrEvent.readStrings (.array (tag.map .string)) >>= _) = _
    rw [readStrings_strings]
    rfl

/-- A signed event is read as it was written. -/
theorem SignedNostrEvent.fromValue_toValue (e : SignedNostrEvent) :
    NostrEvent.fromValue e.toValue = some e.toNostrEvent := by
  unfold NostrEvent.toValue NostrEvent.fromValue NostrEvent.readFields
  simp only [List.lookup_cons, String.reduceBEq, Option.bind_eq_bind, Option.bind_some,
    Value.asStr, Value.asU64, Value.asArray, asI64_ofI64 e.createdAt_lt, readStrings_tags,
    if_pos e.kind_lt]

/-- The items of a client's message. -/
def ClientMessage.items : ClientMessage → List Value
  | .event value => [.string "EVENT", value]
  | .req subscriptionId filters => .string "REQ" :: .string subscriptionId :: filters
  | .close subscriptionId => [.string "CLOSE", .string subscriptionId]
  | .auth value => [.string "AUTH", value]
  | .count subscriptionId filters => .string "COUNT" :: .string subscriptionId :: filters

/-- A request has a filter, and only requests end with the filters they have. -/
def ClientMessage.Framed (extra : List Value) : ClientMessage → Prop
  | .req _ filters => filters ≠ [] ∧ extra = []
  | .count _ filters => filters ≠ [] ∧ extra = []
  | _ => True

/-- The frame of a client's message. -/
def encodeClientMessage (message : ClientMessage) : Value := .array message.items

theorem asStr_eq_some {v : Value} {text : String} : v.asStr = some text ↔ v = .string text := by
  cases v <;> simp [Value.asStr]

theorem asArray_eq_some {v : Value} {items : List Value} :
    v.asArray = some items ↔ v = .array items := by
  cases v <;> simp [Value.asArray]

theorem decodeEvent_eq_ok {items : List Value} {value : Value} {kind : Value} :
    decodeEvent (kind :: items) = .ok value ↔ ∃ extra, items = value :: extra := by
  unfold decodeEvent
  rw [Result.okOr_eq_ok]
  cases items <;> simp

theorem decodeSubscriptionId_eq_ok {items : List Value} {id : String} {kind : Value} :
    decodeSubscriptionId (kind :: items) = .ok id ↔ ∃ extra, items = .string id :: extra := by
  unfold decodeSubscriptionId
  rw [Result.okOr_eq_ok]
  cases items <;> simp [asStr_eq_some]

theorem decodeFilters_eq_ok {items filters : List Value} {id : String} {kind : Value} :
    decodeFilters (kind :: items) = .ok (id, filters) ↔
      items = .string id :: filters ∧ filters ≠ [] := by
  unfold decodeFilters
  simp only [Result.bind_eq_ok, Result.ensure_eq_ok, Result.pure_eq_ok, Prod.mk.injEq,
    decodeSubscriptionId_eq_ok, exists_const]
  constructor
  · rintro ⟨id', ⟨extra, rfl⟩, hlen, rfl, rfl⟩
    refine ⟨rfl, ?_⟩
    rintro hnil
    simp only [List.drop_succ_cons, List.drop_zero] at hnil
    subst hnil
    simp at hlen
  · rintro ⟨rfl, hne⟩
    refine ⟨id, ⟨filters, rfl⟩, ?_, rfl, rfl⟩
    have := List.length_pos_iff.2 hne
    simp only [List.length_cons]
    omega

/-- What each kind of frame is read as. -/
theorem decodeKind_eq_ok {items : List Value} {kind : String} {message : ClientMessage} :
    decodeKind (.string kind :: items) kind = .ok message ↔
      ∃ extra, message.Framed extra ∧ .string kind :: items = message.items ++ extra := by
  unfold decodeKind
  constructor
  · intro h
    split_ifs at h with h1 h2 h3 h4 h5
    · obtain ⟨value, hv, rfl⟩ := Result.map_eq_ok.1 h
      obtain ⟨extra, rfl⟩ := decodeEvent_eq_ok.1 hv
      exact ⟨extra, trivial, by rw [h1]; rfl⟩
    · obtain ⟨⟨id, filters⟩, hf, rfl⟩ := Result.map_eq_ok.1 h
      obtain ⟨rfl, hne⟩ := decodeFilters_eq_ok.1 hf
      exact ⟨[], ⟨hne, rfl⟩, by rw [h2, List.append_nil]; rfl⟩
    · obtain ⟨id, hid, rfl⟩ := Result.map_eq_ok.1 h
      obtain ⟨extra, rfl⟩ := decodeSubscriptionId_eq_ok.1 hid
      exact ⟨extra, trivial, by rw [h3]; rfl⟩
    · obtain ⟨value, hv, rfl⟩ := Result.map_eq_ok.1 h
      obtain ⟨extra, rfl⟩ := decodeEvent_eq_ok.1 hv
      exact ⟨extra, trivial, by rw [h4]; rfl⟩
    · obtain ⟨⟨id, filters⟩, hf, rfl⟩ := Result.map_eq_ok.1 h
      obtain ⟨rfl, hne⟩ := decodeFilters_eq_ok.1 hf
      exact ⟨[], ⟨hne, rfl⟩, by rw [h5, List.append_nil]; rfl⟩
  · rintro ⟨extra, hframed, heq⟩
    cases message with
    | event value =>
      obtain ⟨hkind, rfl⟩ := List.cons.inj heq
      obtain rfl := Value.string.inj hkind
      simp [decodeEvent, Result.okOr, Except.map]
    | req id filters =>
      obtain ⟨hne, rfl⟩ := hframed
      obtain ⟨hkind, rfl⟩ := List.cons.inj heq
      obtain rfl := Value.string.inj hkind
      rw [if_neg (by decide), if_pos rfl]
      exact Result.map_eq_ok.2 ⟨(id, filters), decodeFilters_eq_ok.2 ⟨by simp, hne⟩, rfl⟩
    | close id =>
      obtain ⟨hkind, rfl⟩ := List.cons.inj heq
      obtain rfl := Value.string.inj hkind
      rw [if_neg (by decide), if_neg (by decide), if_pos rfl]
      exact Result.map_eq_ok.2 ⟨id, decodeSubscriptionId_eq_ok.2 ⟨extra, rfl⟩, rfl⟩
    | auth value =>
      obtain ⟨hkind, rfl⟩ := List.cons.inj heq
      obtain rfl := Value.string.inj hkind
      rw [if_neg (by decide), if_neg (by decide), if_neg (by decide), if_pos rfl]
      exact Result.map_eq_ok.2 ⟨value, decodeEvent_eq_ok.2 ⟨extra, rfl⟩, rfl⟩
    | count id filters =>
      obtain ⟨hne, rfl⟩ := hframed
      obtain ⟨hkind, rfl⟩ := List.cons.inj heq
      obtain rfl := Value.string.inj hkind
      rw [if_neg (by decide), if_neg (by decide), if_neg (by decide), if_neg (by decide),
        if_pos rfl]
      exact Result.map_eq_ok.2 ⟨(id, filters), decodeFilters_eq_ok.2 ⟨by simp, hne⟩, rfl⟩

/-- The frames that the relay reads as a message: its items, and behind an event, an
authentication or the end of a subscription anything else. -/
theorem decodeClientMessage_eq_ok {input : TextFrame} {message : ClientMessage} :
    decodeClientMessage input = .ok message ↔
      ∃ extra, message.Framed extra ∧ input.value = .ok (.array (message.items ++ extra)) := by
  have hhead : ∀ extra, ∃ kind rest, message.items ++ extra = Value.string kind :: rest := by
    intro extra
    cases message <;> exact ⟨_, _, rfl⟩
  unfold decodeClientMessage
  simp only [Result.bind_eq_ok, Result.mapError_eq_ok, Result.okOr_eq_ok, asArray_eq_some,
    Option.bind_eq_some_iff, asStr_eq_some]
  constructor
  · rintro ⟨value, hvalue, items, rfl, kind, ⟨first, hfirst, rfl⟩, hkind⟩
    obtain ⟨rest, rfl⟩ := List.head?_eq_some_iff.1 hfirst
    obtain ⟨extra, hframed, heq⟩ := decodeKind_eq_ok.1 hkind
    exact ⟨extra, hframed, by rw [hvalue, heq]⟩
  · rintro ⟨extra, hframed, hvalue⟩
    obtain ⟨kind, rest, heq⟩ := hhead extra
    refine ⟨_, hvalue, _, rfl, kind, ⟨_, by rw [heq]; rfl, rfl⟩, ?_⟩
    rw [heq]
    exact decodeKind_eq_ok.2 ⟨extra, hframed, heq.symm⟩

/-- What the client's encoder writes is read back. -/
theorem decodeClientMessage_encode {message : ClientMessage} (h : message.Framed []) :
    decodeClientMessage (.ofValue (encodeClientMessage message)) = .ok message :=
  decodeClientMessage_eq_ok.2 ⟨[], h, by rw [List.append_nil]; rfl⟩

/-- The relay reads exactly the frames of a message, among them the one that the client writes. -/
theorem decodeClientMessage_frames (message : ClientMessage) :
    (∀ input, decodeClientMessage input = .ok message ↔
      ∃ extra, message.Framed extra ∧ input.value = .ok (.array (message.items ++ extra))) ∧
    (message.Framed [] →
      decodeClientMessage (.ofValue (encodeClientMessage message)) = .ok message) :=
  ⟨fun _ => decodeClientMessage_eq_ok, decodeClientMessage_encode⟩

theorem decodeClientMessage_frames_req :
    decodeClientMessage (.ofValue (encodeClientMessage (.req "all" [.object []]))) =
      .ok (.req "all" [.object []]) :=
  (decodeClientMessage_frames _).2 ⟨List.cons_ne_nil _ _, rfl⟩

namespace RelayAdapter

/-- What the readers find in a frame of the relay. -/
structure Readings where
  ok : Except Error (Option (String × Bool × Option String))
  event : Except Error (Option (String × Value))
  eose : Except Error (Option String)

/-- The three readers of a frame. -/
def readings (message : WsMessage) : Readings :=
  ⟨parseOkMessage message, parseEventMessage message, parseEoseMessage message⟩

/-- What the readers are meant to find in a message. -/
def meant : ServerMessage → Readings
  | .ok eventId accepted text => ⟨.ok (some (eventId, accepted, some text)), .ok none, .ok none⟩
  | .event subscriptionId event => ⟨.ok none, .ok (some (subscriptionId, event.toValue)), .ok none⟩
  | .eose subscriptionId => ⟨.ok none, .ok none, .ok (some subscriptionId)⟩
  | _ => ⟨.ok none, .ok none, .ok none⟩

/-- Each reader reads the messages of its kind and passes over all others. -/
theorem readers_encode (message : ServerMessage) :
    readings (wsText (encodeServerMessage message)) = meant message := by
  cases message <;> rfl

end RelayAdapter

end Gittree
