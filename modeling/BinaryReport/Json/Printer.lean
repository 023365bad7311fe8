import BinaryReport.Binary64.Shortest
import BinaryReport.Json.Basic

/-!
# Writing JSON

Two layouts. The compact one has no spaces. The pretty one puts every item and every member on a
line of its own, indented by two spaces per level, and writes empty containers as `[]` and `{}`.
Strings escape the quote, the backslash and the controls below the space, with the short forms
where there is one. A number that is not finite is written as null.
-/

namespace BinaryReport.Json

/-! ## Leaves -/

/-- The written form of a character inside a string. -/
def escaped (c : Char) : List Char :=
  if c = '"' then ['\\', '"']
  else if c = '\\' then ['\\', '\\']
  else if c = '\x08' then ['\\', 'b']
  else if c = '\x0c' then ['\\', 'f']
  else if c = '\n' then ['\\', 'n']
  else if c = '\r' then ['\\', 'r']
  else if c = '\t' then ['\\', 't']
  else if c.toNat < 0x20 then ['\\', 'u', '0', '0'] ++ Text.hexPair c.toNat
  else [c]

/-- A string in quotes. -/
def quoted (s : String) : List Char := '"' :: s.toList.flatMap escaped ++ ['"']

/-- A number. -/
def numeral (n : Binary64) : List Char := if n.isFinite then n.text.toList else "null".toList

/-- A value that has no parts; containers are written elsewhere. -/
def atom : Json → List Char
  | .null => "null".toList
  | .bool true => "true".toList
  | .bool false => "false".toList
  | .number n => numeral n
  | .string s => quoted s
  | .array _ => "[]".toList
  | .object _ => ['\x7b', '\x7d']

/-! ## Compact layout -/

mutual

/-- The compact form of a value. -/
def compactChars : Json → List Char
  | .array (item :: rest) => '[' :: compactChars item ++ compactItems rest
  | .object ((key, value) :: rest) =>
    '\x7b' :: quoted key ++ ':' :: compactChars value ++ compactMembers rest
  | value => atom value

/-- The items of an array after the first, and its closing bracket. -/
def compactItems : List Json → List Char
  | [] => [']']
  | item :: rest => ',' :: compactChars item ++ compactItems rest

/-- The members of an object after the first, and its closing brace. -/
def compactMembers : List (String × Json) → List Char
  | [] => ['\x7d']
  | (key, value) :: rest => ',' :: quoted key ++ ':' :: compactChars value ++ compactMembers rest

end

/-- The compact text of a value. -/
def compact (value : Json) : String := String.ofList (compactChars value)

/-! ## Pretty layout -/

/-- A line break and the indentation of a level. -/
def lineBreak (level : Nat) : List Char := '\n' :: List.replicate (2 * level) ' '

mutual

/-- The pretty form of a value whose closing bracket stands at a level. -/
def prettyChars (level : Nat) : Json → List Char
  | .array (item :: rest) =>
    '[' :: lineBreak (level + 1) ++ prettyChars (level + 1) item ++ prettyItems level rest
  | .object ((key, value) :: rest) =>
    '\x7b' :: lineBreak (level + 1) ++ quoted key ++ ':' :: ' ' :: prettyChars (level + 1) value
      ++ prettyMembers level rest
  | value => atom value

/-- The items of an array after the first, and its closing bracket. -/
def prettyItems (level : Nat) : List Json → List Char
  | [] => lineBreak level ++ [']']
  | item :: rest =>
    ',' :: lineBreak (level + 1) ++ prettyChars (level + 1) item ++ prettyItems level rest

/-- The members of an object after the first, and its closing brace. -/
def prettyMembers (level : Nat) : List (String × Json) → List Char
  | [] => lineBreak level ++ ['\x7d']
  | (key, value) :: rest =>
    ',' :: lineBreak (level + 1) ++ quoted key ++ ':' :: ' ' :: prettyChars (level + 1) value
      ++ prettyMembers level rest

end

/-- The pretty text of a value. -/
def pretty (value : Json) : String := String.ofList (prettyChars 0 value)

/-! ## Display -/

mutual

/-- How a value reads inside a message: strings as they are, the items of an array joined by commas
with null items left empty, and a fixed text for objects. An object with a member `toString` has no
text, since the member stands for the operation that would give it. -/
def display? : Json → Option String
  | .null => some "null"
  | .bool b => some (if b then "true" else "false")
  | .number n => some n.text
  | .string s => some s
  | .array items => (displayItems? items).map ",".intercalate
  | .object members => if (lookup "toString" members).isSome then none else some "[object Object]"

/-- How the items of an array read inside a message. -/
def displayItems? : List Json → Option (List String)
  | [] => some []
  | .null :: rest => (displayItems? rest).map ("" :: ·)
  | item :: rest =>
    match display? item, displayItems? rest with
    | some s, some ss => some (s :: ss)
    | _, _ => none

end

end BinaryReport.Json
