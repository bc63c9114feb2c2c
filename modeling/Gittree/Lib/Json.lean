import Gittree.Lib.Hex

/-!
# JSON values

`serde_json::Value` with its accessors, and the compact text that `to_string` writes.  An object
lists its members by increasing key, each key once, as the map behind `serde_json` keeps them.
-/

namespace Rust
namespace Json

/-- `serde_json::Number`: a `u64`, a negative `i64`, or a finite float, kept as it is printed. -/
inductive Number
  | posInt (n : ℕ)
  | negInt (n : ℤ)
  | float (text : String)
  deriving DecidableEq, Repr

/-- `serde_json::Value`. -/
inductive Value
  | null
  | bool (b : Bool)
  | number (n : Number)
  | string (s : String)
  | array (items : List Value)
  | object (members : List (String × Value))

namespace Value

def asArray : Value → Option (List Value)
  | array items => some items
  | _ => none

def asStr : Value → Option String
  | string s => some s
  | _ => none

def asU64 : Value → Option ℕ
  | number (.posInt n) => some n
  | _ => none

def asI64 : Value → Option ℤ
  | number (.posInt n) => if n < 2 ^ 63 then some n else none
  | number (.negInt n) => some n
  | _ => none

def asBool : Value → Option Bool
  | bool b => some b
  | _ => none

def asObject : Value → Option (List (String × Value))
  | object members => some members
  | _ => none

/-- `value.get(key)`. -/
def get (v : Value) (key : String) : Option Value := v.asObject.bind fun members => members.lookup key

end Value

/-! ### Compact text -/

/-- One character of a string literal. -/
def escapeChar (c : Char) : String :=
  if c = '"' then "\\\""
  else if c = '\\' then "\\\\"
  else if c = Char.ofNat 8 then "\\b"
  else if c = Char.ofNat 9 then "\\t"
  else if c = Char.ofNat 10 then "\\n"
  else if c = Char.ofNat 12 then "\\f"
  else if c = Char.ofNat 13 then "\\r"
  else if c.toNat < 32 then "\\u" ++ Hex.encode [0, UInt8.ofNat c.toNat]
  else c.toString

/-- A string literal. -/
def quote (s : String) : String := "\"" ++ String.join ((Str.chars s).map escapeChar) ++ "\""

def Number.toText : Number → String
  | .posInt n => toString n
  | .negInt n => toString n
  | .float text => text

mutual

/-- `Value::to_string`. -/
def Value.toText : Value → String
  | .null => "null"
  | .bool b => if b then "true" else "false"
  | .number n => n.toText
  | .string s => quote s
  | .array items => "[" ++ ",".intercalate (itemTexts items) ++ "]"
  | .object members => "\x7b" ++ ",".intercalate (memberTexts members) ++ "\x7d"

def itemTexts : List Value → List String
  | [] => []
  | v :: rest => v.toText :: itemTexts rest

def memberTexts : List (String × Value) → List String
  | [] => []
  | (key, v) :: rest => (quote key ++ ":" ++ v.toText) :: memberTexts rest

end

/-- The number that `json!` makes of an `i64`. -/
def ofI64 (n : ℤ) : Value := .number (if 0 ≤ n then .posInt n.toNat else .negInt n)

end Json
end Rust
