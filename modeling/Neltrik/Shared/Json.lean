import Mathlib.Data.List.Basic

/-! # JSON values

What a JSON column or a JSON body holds, and how JavaScript reads a key of an object. -/

namespace Neltrik.Shared

/-- A number is given by the text `String` makes of it. -/
inductive Json where
  | null
  | bool (b : Bool)
  | number (text : String)
  | string (s : String)
  | array (items : List Json)
  | object (entries : List (String × Json))

/-- The same with the numbers themselves, as code has them that reads a value and does not print it. -/
inductive JsonValue where
  | null
  | bool (b : Bool)
  | number (q : Rat)
  | string (s : String)
  | array (items : List JsonValue)
  | object (entries : List (String × JsonValue))

/-- `String(value)` of a string, a number or a boolean. -/
def Json.text : Json → Option String
  | bool b => some (if b then "true" else "false")
  | number text => some text
  | string s => some s
  | _ => none

/-- The value counts as true. -/
def Json.isTruthy : Json → Bool
  | null => false
  | bool b => b
  | number text => text != "0"
  | string s => s != ""
  | array _ | object _ => true

/-- The entries of an object. -/
abbrev JsonObject := List (String × Json)

/-- What every object inherits from `Object.prototype`: functions and an object. -/
def inheritedKeys : List String :=
  ["constructor", "hasOwnProperty", "isPrototypeOf", "propertyIsEnumerable", "toLocaleString", "toString",
    "valueOf", "__proto__", "__defineGetter__", "__defineSetter__", "__lookupGetter__",
    "__lookupSetter__"]

namespace JsonObject

/-- `key in object`. -/
def has (object : JsonObject) (key : String) : Bool :=
  (object.lookup key).isSome || inheritedKeys.contains key

/-- `String(object[key])`, when that is a primitive; nothing that is inherited is one. -/
def text (object : JsonObject) (key : String) : Option String := (object.lookup key).bind Json.text

end JsonObject

end Neltrik.Shared
