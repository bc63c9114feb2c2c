import Gittree.Relay.Event
import Gittree.Relay.Store

/-!
# Messages of the relay

`services/relay/src/protocol.rs`, `notice.rs` and the readers of `filter.rs` and `event.rs`: what a
client sends, as JSON values, and what the relay answers.  An answered event is kept as an event;
`serde_json` writes it out unchanged.
-/

namespace Gittree

open Rust
open Rust.Json (Value)

/-! ### Reading events -/

namespace NostrEvent

/-- The members of a list of strings. -/
def readStrings (v : Value) : Option (List String) := v.asArray.bind fun items => items.mapM Value.asStr

/-- The fields of an event, each under its name. -/
def readFields (field : String → Option Value) : Option NostrEvent := do
  let id ← (← field "id").asStr
  let pubkey ← (← field "pubkey").asStr
  let createdAt ← (← field "created_at").asI64
  let kind ← (← field "kind").asU64
  let tags ← (← (← field "tags").asArray).mapM readStrings
  let content ← (← field "content").asStr
  let sig ← (← field "sig").asStr
  if kind < 2 ^ 32 then some { id, pubkey, createdAt, kind, tags, content, sig } else none

/-- The order in which `serde` reads the fields of an event from an array. -/
def fieldNames : List String := ["id", "pubkey", "created_at", "kind", "tags", "content", "sig"]

/-- `serde_json::from_value` at `NostrEvent`: an object with the fields, others being ignored, or
an array of exactly the fields. -/
def fromValue : Value → Option NostrEvent
  | .object members => readFields fun name => members.lookup name
  | .array items =>
    if items.length = 7 then readFields fun name => (fieldNames.zip items).lookup name else none
  | _ => none

/-- `serde_json::to_value` at `NostrEvent`. -/
def toValue (e : NostrEvent) : Value :=
  .object [("content", .string e.content), ("created_at", Json.ofI64 e.createdAt),
    ("id", .string e.id), ("kind", .number (.posInt e.kind)), ("pubkey", .string e.pubkey),
    ("sig", .string e.sig), ("tags", .array (e.tags.map fun tag => .array (tag.map .string)))]

end NostrEvent

/-! ### Reading filters -/

/-- `FilterError`. -/
inductive FilterError
  | invalidFilter
  | invalidField (field : String)
  deriving DecidableEq, Repr

def FilterError.display : FilterError → String
  | .invalidFilter => "invalid filter"
  | .invalidField field => "invalid filter field " ++ field

namespace Filter

/-- The loop shared by `parse_string_array` and `parse_u32_array`. -/
def parseArray {α : Type} (read : Value → Option α) (field : String) (value : Value) :
    Except FilterError (List α) := do
  let items ← Result.okOr value.asArray (.invalidField field)
  Result.okOr (items.mapM read) (.invalidField field)

/-- `parse_string_array`. -/
def parseStringArray : String → Value → Except FilterError (List String) := parseArray Value.asStr

/-- `parse_u32_array`: `as u32` keeps the low 32 bits. -/
def parseU32Array : String → Value → Except FilterError (List ℕ) :=
  parseArray fun v => v.asU64.map (· % 2 ^ 32)

/-- `parse_i64`. -/
def parseI64 (field : String) (value : Value) : Except FilterError (Option ℤ) :=
  (Result.okOr value.asI64 (.invalidField field)).map some

/-- `parse_u64`. -/
def parseU64 (field : String) (value : Value) : Except FilterError (Option ℕ) :=
  (Result.okOr value.asU64 (.invalidField field)).map some

/-- One member of the object in `from_json`. -/
def readMember (filter : Filter) (key : String) (value : Value) : Except FilterError Filter :=
  if key = "ids" then (parseStringArray key value).map fun ids => { filter with ids }
  else if key = "authors" then (parseStringArray key value).map fun authors => { filter with authors }
  else if key = "kinds" then (parseU32Array key value).map fun kinds => { filter with kinds }
  else if key = "since" then (parseI64 key value).map fun since => { filter with since }
  else if key = "until" then (parseI64 key value).map fun t => { filter with «until» := t }
  else if key = "limit" then (parseU64 key value).map fun limit => { filter with limit }
  else if Str.startsWith key "#" then do
    let tag := Str.trimStartMatches key '#'
    Result.ensure (tag ≠ "") (.invalidField key)
    let values ← parseStringArray key value
    return { filter with tags := filter.tags.insert tag values }
  else .ok filter

/-- The loop of `from_json`. -/
def readMembers (filter : Filter) : List (String × Value) → Except FilterError Filter
  | [] => .ok filter
  | (key, value) :: rest => do
    let filter ← readMember filter key value
    readMembers filter rest

/-- `Filter::from_json`. -/
def fromJson (value : Value) : Except FilterError Filter := do
  let members ← Result.okOr value.asObject .invalidFilter
  readMembers {} members

end Filter

/-- `parse_filters`. -/
def parseFilters : List Value → Except FilterError (List Filter)
  | [] => .ok []
  | value :: rest => do
    let filter ← Filter.fromJson value
    let filters ← parseFilters rest
    return filter :: filters

/-! ### Messages -/

/-- `ClientMessage`. -/
inductive ClientMessage
  | event (value : Value)
  | req (subscriptionId : String) (filters : List Value)
  | close (subscriptionId : String)
  | auth (value : Value)
  | count (subscriptionId : String) (filters : List Value)

/-- `ServerMessage`. -/
inductive ServerMessage
  | event (subscriptionId : String) (event : NostrEvent)
  | notice (message : String)
  | eose (subscriptionId : String)
  | ok (eventId : String) (accepted : Bool) (message : String)
  | closed (subscriptionId message : String)
  | auth (challenge : String)
  | count (subscriptionId : String) (count : ℕ)
  deriving DecidableEq, Repr

/-- The event that a message delivers. -/
def ServerMessage.delivered : ServerMessage → Option NostrEvent
  | .event _ e => some e
  | _ => none

/-- Notices and answers to events: they deliver no event and concern no subscription. -/
def ServerMessage.IsAnswer : ServerMessage → Prop
  | .notice _ => True
  | .ok _ _ _ => True
  | _ => False

theorem ServerMessage.IsAnswer.delivered {message : ServerMessage} (h : message.IsAnswer) :
    message.delivered = none := by
  cases message with
  | notice => rfl
  | ok => rfl
  | event => cases h
  | eose => rfl
  | closed => rfl
  | auth => rfl
  | count => rfl

/-- `Notice::from` of a filter error. -/
def FilterError.notice (err : FilterError) : ServerMessage :=
  .notice ("invalid filter: " ++ err.display)

/-- `Notice::from` of a store error. -/
def StoreError.notice (err : StoreError) : ServerMessage := .notice err.display

end Gittree
