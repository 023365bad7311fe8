import BinaryReport.Binary64.Basic
import BinaryReport.Text.Digits

/-!
# JSON values

A JSON value whose objects are lists of members in order. `Json.ofMembers` builds an object from
members as they are read or listed: a key that comes again replaces the value at its first place,
and keys that are array indices come first, in ascending order.
-/

namespace BinaryReport

/-- A JSON value. -/
inductive Json where
  /-- The null value. -/
  | null
  /-- A truth value. -/
  | bool (value : Bool)
  /-- A number. -/
  | number (value : Binary64)
  /-- A string. -/
  | string (value : String)
  /-- An array. -/
  | array (items : List Json)
  /-- An object, as its members in order. -/
  | object (members : List (String × Json))
deriving Inhabited

namespace Json

/-! ## Members -/

/-- The value of the first member with the key. -/
def lookup (key : String) (members : List (String × Json)) : Option Json :=
  (members.find? fun m => m.1 == key).map Prod.snd

/-- Sets the value of a key, at its place if the key is there and at the end otherwise. -/
def assign (key : String) (value : Json) : List (String × Json) → List (String × Json)
  | [] => [(key, value)]
  | m :: rest => if m.1 == key then (key, value) :: rest else m :: assign key value rest

/-- The array index that a key spells: decimal digits without a leading zero, below `2 ^ 32 - 1`. -/
def arrayIndex? (key : String) : Option Nat :=
  let cs := key.toList
  match Text.readDigits? 10 cs with
  | some n => if n < 4294967295 ∧ Nat.toDigits 10 n = cs then some n else none
  | none => none

/-- Puts members whose keys are array indices first, ascending; the others keep their order. -/
def indicesFirst (members : List (String × Json)) : List (String × Json) :=
  let indexed := members.filterMap fun m => (arrayIndex? m.1).map fun i => (i, m)
  let sorted := indexed.mergeSort fun a b => a.1 ≤ b.1
  sorted.map Prod.snd ++ members.filter fun m => (arrayIndex? m.1).isNone

/-- The object with the members as listed: a repeated key keeps its first place and takes its last
value. -/
def ofMembers (members : List (String × Json)) : Json :=
  .object (indicesFirst (members.foldl (fun done m => assign m.1 m.2 done) []))

/-- The value of a key, if the value is an object that has it. -/
def get? (key : String) : Json → Option Json
  | .object members => lookup key members
  | _ => none

/-- The array of the texts. -/
def strings (texts : List String) : Json := .array (texts.map .string)

/-- The text, or null for none. -/
def ofText? (text? : Option String) : Json := (text?.map Json.string).getD .null

/-! ## Conversions -/

/-- The text when the value is a string. -/
def string? : Json → Option String
  | .string s => some s
  | _ => none

/-- The number when the value is one. -/
def number? : Json → Option Binary64
  | .number n => some n
  | _ => none

/-- The items when the value is an array. -/
def array? : Json → Option (List Json)
  | .array items => some items
  | _ => none

/-- The truth value when the value is one. -/
def bool? : Json → Option Bool
  | .bool b => some b
  | _ => none

end Json

end BinaryReport
