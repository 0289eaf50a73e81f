import Mathlib.Data.List.Basic

/-!
# JSON values

The value tree of `serde_json::Value`. Objects list their members in key order,
as the crate's default map does; a number is kept as its literal, since no
modelled function computes with one. Parsing belongs to the crate and is a
parameter where a function calls it.
-/

namespace AegisRuntime.JsonValues

/-- A JSON value. -/
inductive JsonValue where
  /-- The literal `null`. -/
  | null
  /-- A Boolean literal. -/
  | bool (value : Bool)
  /-- A number, as its literal text. -/
  | number (literal : String)
  /-- A string. -/
  | string (value : String)
  /-- An array. -/
  | array (items : List JsonValue)
  /-- An object, its members in key order. -/
  | object (members : List (String×JsonValue))

/-- Member lookup, defined on objects only. -/
def JsonValue.get (key : String) : JsonValue → Option JsonValue
  | .object members => (members.find? fun m => m.1==key).map Prod.snd
  | _ => none

/-- The text of a string value. -/
def JsonValue.asStr : JsonValue → Option String
  | .string value => some value
  | _ => none

/-- The items of an array value. -/
def JsonValue.asArray : JsonValue → Option (List JsonValue)
  | .array items => some items
  | _ => none

/-- Whether the value is an object. -/
def JsonValue.isObject : JsonValue → Bool
  | .object _ => true
  | _ => false

/-- Whether the value is `null`. -/
def JsonValue.isNull : JsonValue → Bool
  | .null => true
  | _ => false

/-- Only an object has members. -/
theorem JsonValue.isObject_of_get {key : String} {args x : JsonValue} (h : args.get key=some x) :
    args.isObject=true := by
  cases args with
  | object members => rfl
  | _ => cases h

/-- One character inside a printed string. -/
def escapeJsonChar (c : Char) : String :=
  if c = '"' then "\\\""
  else if c = '\\' then "\\\\"
  else if c = '\n' then "\\n"
  else if c = '\r' then "\\r"
  else if c = '\t' then "\\t"
  else if c.toNat=8 then "\\b"
  else if c.toNat=12 then "\\f"
  else if c.toNat < 32 then
    "\\u00"++String.singleton (Nat.digitChar (c.toNat/16))++
      String.singleton (Nat.digitChar (c.toNat%16))
  else String.singleton c

/-- A printed string. -/
def printJsonString (s : String) : String :=
  "\""++String.join (s.toList.map escapeJsonChar)++"\""

mutual

/-- The compact form that `serde_json::to_string` prints. -/
def JsonValue.compact : JsonValue → String
  | .null => "null"
  | .bool value => if value then "true" else "false"
  | .number literal => literal
  | .string value => printJsonString value
  | .array items => "["++compactItems items++"]"
  | .object members => "\x7b"++compactMembers members++"\x7d"

/-- The printed items of an array. -/
def compactItems : List JsonValue → String
  | [] => ""
  | [x] => x.compact
  | x::y::rest => x.compact++","++compactItems (y::rest)

/-- The printed members of an object. -/
def compactMembers : List (String×JsonValue) → String
  | [] => ""
  | [(key,x)] => printJsonString key++":"++x.compact
  | (key,x)::y::rest => printJsonString key++":"++x.compact++","++compactMembers (y::rest)

end

end AegisRuntime.JsonValues
