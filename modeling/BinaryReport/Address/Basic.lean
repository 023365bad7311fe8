import BinaryReport.Binary64.Shortest
import BinaryReport.Failure
import BinaryReport.Text.Blank
import BinaryReport.Text.Units

/-!
# Addresses

A program has one address space, `ram`, whose size follows from the size of a pointer. An address
is written natively (hexadecimal digits padded to the width of a pointer) or canonically (`0x` and
the digits alone). It is read from hexadecimal text with an optional `0x` and an optional space
name before it.
-/

namespace BinaryReport

/-- An address, by its offset in the space. -/
structure Address where
  /-- The distance from the start of the space. -/
  offset : Nat
deriving DecidableEq, Inhabited

/-- An address space, by the size of a pointer into it. -/
structure AddressSpace where
  /-- The number of bytes of a pointer. -/
  pointerSize : Nat
deriving DecidableEq

/-- Text that denotes no address. -/
inductive AddressError where
  /-- The text is not hexadecimal, or has a malformed space name. -/
  | malformed (text : String)
  /-- The text names another space. -/
  | unknownSpace (space : String)
  /-- The offset lies behind the end of the space. -/
  | outOfRange (text : String)
deriving DecidableEq

/-- A displacement that cannot be added to an address. -/
inductive DisplacementError where
  /-- The sum lies outside the space. -/
  | overflow (start displacement : String)
  /-- The displacement is no integer. -/
  | notInteger (displacement : String)
deriving DecidableEq

namespace AddressError

/-- What is wrong with the text. -/
def message : AddressError → String
  | .malformed text => "Invalid address: \"" ++ text ++ "\""
  | .unknownSpace space => "Unknown address space: " ++ space
  | .outOfRange text => "Address out of range: \"" ++ text ++ "\""

/-- The error as something an operation raises. -/
def raised (e : AddressError) : Raised := .ofKind .addressParse e.message

end AddressError

namespace DisplacementError

/-- What is wrong with the displacement. -/
def message : DisplacementError → String
  | .overflow start displacement => "Address overflow: " ++ start ++ " + " ++ displacement
  | .notInteger displacement =>
    "The number " ++ displacement
      ++ " cannot be converted to a BigInt because it is not an integer"

/-- The kind of failure that the error is. -/
def kind : DisplacementError → FailureKind
  | .overflow .. => .addressOverflow
  | .notInteger _ => .range

/-- The error as a failure. -/
def failure (e : DisplacementError) : Failure := .ofKind e.kind e.message

/-- The error as something an operation raises. -/
def raised (e : DisplacementError) : Raised := .failure e.failure

end DisplacementError

/-- A displacement: an integer, or a number that has to be one. -/
inductive Displacement where
  /-- An integer of any size. -/
  | exact (n : Int)
  /-- A number. -/
  | number (x : Binary64)

namespace Displacement

/-- The text of a displacement inside a message. -/
def text : Displacement → String
  | .exact n =>
    if n < 0 then String.ofList ('-' :: Nat.toDigits 10 n.natAbs)
    else String.ofList (Nat.toDigits 10 n.natAbs)
  | .number x => x.text

/-- The integer that a displacement is, if it is one. -/
def toInt? : Displacement → Option Int
  | .exact n => some n
  | .number x => x.toInt?

end Displacement

namespace Address

/-- The canonical form: `0x` and lower case digits without padding. -/
def canonical (a : Address) : String := String.ofList ('0' :: 'x' :: Text.hexDigits a.offset)

end Address

namespace AddressSpace

/-- The name of the space. -/
def name : String := "ram"

/-- The number of addresses of the space: two to the number of bits of a pointer. -/
def size (space : AddressSpace) : Nat := Nat.pow 2 (8 * space.pointerSize)

/-- The native form: lower case digits padded with zeros to the width of a pointer. -/
def native (space : AddressSpace) (a : Address) : String :=
  String.ofList (Text.padLeft (2 * space.pointerSize) '0' (Text.hexDigits a.offset))

/-! ## Reading -/

/-- Drops an optional `0x`. -/
def dropBaseMark : List Char → List Char
  | '0' :: 'x' :: cs => cs
  | '0' :: 'X' :: cs => cs
  | cs => cs

/-- Whether a text is an identifier: a letter or an underscore, then letters, digits and
underscores. -/
def isIdentifier : List Char → Bool
  | [] => false
  | c :: cs => Text.isWordStart c && cs.all Text.isWordChar

/-- Splits a space name and its colon off. -/
def splitSpace (cs : List Char) : Option (List Char) × List Char :=
  match cs.dropWhile (· ≠ ':') with
  | [] => (none, cs)
  | _ :: rest => (some (cs.takeWhile (· ≠ ':')), rest)

/-- The parts of a well formed address text: its space name, if there is one, and its offset. -/
def readParts? (text : String) : Option (Option String × Nat) :=
  let (space?, rest) := splitSpace (Text.trimChars text.toList)
  if space?.all isIdentifier then
    (Text.readDigits? 16 (dropBaseMark rest)).map fun offset => (space?.map String.ofList, offset)
  else none

/-- Reads an address. -/
def parse (space : AddressSpace) (text : String) : Except AddressError Address :=
  match readParts? text with
  | none => .error (.malformed text)
  | some (space?, offset) =>
    match space?.filter (· ≠ name) with
    | some other => .error (.unknownSpace other)
    | none => if offset < space.size then .ok ⟨offset⟩ else .error (.outOfRange text)

/-! ## Displacement -/

/-- Adds an integer to an address, unless the sum lies outside the space. -/
def shift? (space : AddressSpace) (a : Address) (n : Int) : Option Address :=
  let next := a.offset + n
  if 0 ≤ next ∧ next < space.size then some ⟨next.toNat⟩ else none

/-- Adds a displacement to an address. -/
def advance (space : AddressSpace) (a : Address) (d : Displacement) :
    Except DisplacementError Address :=
  match d.toInt? with
  | none => .error (.notInteger d.text)
  | some n =>
    match space.shift? a n with
    | some b => .ok b
    | none => .error (.overflow (space.native a) d.text)

end AddressSpace

/-! ## Order -/

/-- A place in some space. Places of one space are ordered by their offsets, places of different
spaces by the names of these. -/
structure Location where
  /-- The name of the space. -/
  space : String
  /-- The offset in the space. -/
  offset : Int

namespace Location

/-- The place of an address. -/
def ofAddress (a : Address) : Location := ⟨AddressSpace.name, a.offset⟩

/-- The order of two places. -/
def order (l m : Location) : Ordering :=
  if l.space = m.space then compare l.offset m.offset else Text.compareUnits l.space m.space

end Location

end BinaryReport
