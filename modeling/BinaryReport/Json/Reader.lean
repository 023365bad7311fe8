import BinaryReport.Binary64.Numeral
import BinaryReport.Json.Basic
import BinaryReport.Text.Split
import BinaryReport.Text.Utf16

/-!
# Reading JSON

A strict reader over characters. Only the space, the tab, the line feed and the carriage return
separate tokens; nothing may follow the value. Each step returns what it read and the rest of the
text. The nested values are read with a bound on the number of steps, which `read?` takes from the
length of the text: every step consumes a character.

An escape that spells half of a surrogate pair without the other half is read as the replacement
character.
-/

namespace BinaryReport.Json

/-! ## Leaves -/

/-- Whether a character separates tokens. -/
def isSeparator (c : Char) : Bool := c = ' ' || c = '\t' || c = '\n' || c = '\r'

/-- Drops separators. -/
def skipSeparators (cs : List Char) : List Char := cs.dropWhile isSeparator

/-- The number that four hexadecimal digits spell. -/
def hexUnit? (a b c d : Char) : Option Nat := Text.readDigits? 16 [a, b, c, d]

/-- The character that a short escape stands for. -/
def shortEscape? : Char → Option Char
  | '"' => some '"'
  | '\\' => some '\\'
  | '/' => some '/'
  | 'b' => some '\x08'
  | 'f' => some '\x0c'
  | 'n' => some '\n'
  | 'r' => some '\r'
  | 't' => some '\t'
  | _ => none

/-- Reads the rest of a string after its opening quote, given what has been read in reverse and,
if the last escape spelled the first half of a surrogate pair, that half. -/
def readString (pending : Option Nat) (done : List Char) :
    List Char → Option (String × List Char)
  | '"' :: rest => some (String.ofList (Text.Utf16.settle pending done).reverse, rest)
  | '\\' :: 'u' :: a :: b :: c :: d :: rest =>
    match hexUnit? a b c d with
    | none => none
    | some u =>
      let (pending, done) := Text.Utf16.readUnit pending done u
      readString pending done rest
  | '\\' :: c :: rest =>
    match shortEscape? c with
    | some e => readString none (e :: Text.Utf16.settle pending done) rest
    | none => none
  | c :: rest =>
    if c.toNat < 0x20 then none else readString none (c :: Text.Utf16.settle pending done) rest
  | [] => none

/-- Reads the digits before the point: a lone zero, or digits that do not begin with zero. -/
def readWhole? (cs : List Char) : Option (List Char × List Char) :=
  match cs with
  | '0' :: rest => some (['0'], rest)
  | _ =>
    let digits := cs.takeWhile Binary64.isDecimal
    if digits.isEmpty then none else some (digits, cs.dropWhile Binary64.isDecimal)

/-- Reads an optional fraction: its digits, none if there is no point. -/
def readFraction? (cs : List Char) : Option (List Char × List Char) :=
  match cs with
  | '.' :: rest =>
    let digits := rest.takeWhile Binary64.isDecimal
    if digits.isEmpty then none else some (digits, rest.dropWhile Binary64.isDecimal)
  | _ => some ([], cs)

/-- Reads an optional exponent, zero if there is no mark. -/
def readMarkedExponent? (cs : List Char) : Option (Int × List Char) :=
  match cs with
  | 'e' :: rest => Binary64.readExponent? rest
  | 'E' :: rest => Binary64.readExponent? rest
  | _ => some (0, cs)

/-- Reads a number. -/
def readNumber? (cs : List Char) : Option (Binary64 × List Char) := do
  let (negative, cs) := match cs with
    | '-' :: rest => (true, rest)
    | _ => (false, cs)
  let (whole, cs) ← readWhole? cs
  let (fraction, cs) ← readFraction? cs
  let (exponent, cs) ← readMarkedExponent? cs
  some (Binary64.Numeral.value ⟨whole, fraction, exponent⟩ negative, cs)

/-- Reads a value that has no parts. -/
def readAtom? (cs : List Char) : Option (Json × List Char) :=
  match cs with
  | '"' :: rest => (readString none [] rest).map fun (s, rest) => (.string s, rest)
  | 'n' :: _ => (Text.dropBeginning? "null".toList cs).map fun rest => (.null, rest)
  | 't' :: _ => (Text.dropBeginning? "true".toList cs).map fun rest => (.bool true, rest)
  | 'f' :: _ => (Text.dropBeginning? "false".toList cs).map fun rest => (.bool false, rest)
  | _ => (readNumber? cs).map fun (n, rest) => (.number n, rest)

/-! ## Values -/

mutual

/-- Reads a value after optional separators. -/
def readValue : Nat → List Char → Option (Json × List Char)
  | 0, _ => none
  | fuel + 1, cs =>
    match skipSeparators cs with
    | '[' :: rest =>
      match skipSeparators rest with
      | ']' :: rest => some (.array [], rest)
      | rest => (readItems fuel rest).map fun (items, rest) => (.array items, rest)
    | '\x7b' :: rest =>
      match skipSeparators rest with
      | '\x7d' :: rest => some (.object [], rest)
      | rest => (readMembers fuel rest).map fun (members, rest) => (ofMembers members, rest)
    | rest => readAtom? rest

/-- Reads the items of an array that is not empty, and its closing bracket. -/
def readItems : Nat → List Char → Option (List Json × List Char)
  | 0, _ => none
  | fuel + 1, cs => do
    let (item, rest) ← readValue fuel cs
    match skipSeparators rest with
    | ',' :: rest =>
      let (items, rest) ← readItems fuel rest
      some (item :: items, rest)
    | ']' :: rest => some ([item], rest)
    | _ => none

/-- Reads the members of an object that is not empty, and its closing brace. -/
def readMembers : Nat → List Char → Option (List (String × Json) × List Char)
  | 0, _ => none
  | fuel + 1, cs => do
    let (key, rest) ← readKey? (skipSeparators cs)
    let (value, rest) ← readValue fuel rest
    match skipSeparators rest with
    | ',' :: rest =>
      let (members, rest) ← readMembers fuel rest
      some ((key, value) :: members, rest)
    | '\x7d' :: rest => some ([(key, value)], rest)
    | _ => none
where
  /-- Reads a key and the colon after it. -/
  readKey? (cs : List Char) : Option (String × List Char) :=
    match cs with
    | '"' :: rest =>
      match readString none [] rest with
      | some (key, rest) =>
        match skipSeparators rest with
        | ':' :: rest => some (key, rest)
        | _ => none
      | none => none
    | _ => none

end

/-- Reads a whole text as one value. -/
def readChars? (cs : List Char) : Option Json :=
  match readValue (cs.length + 1) cs with
  | some (value, rest) => if (skipSeparators rest).isEmpty then some value else none
  | none => none

/-- Reads a whole text as one value; nothing if it is not valid JSON. -/
def read? (text : String) : Option Json := readChars? text.toList

end BinaryReport.Json
