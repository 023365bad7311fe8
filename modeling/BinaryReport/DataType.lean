import BinaryReport.Address.Basic
import BinaryReport.Text.Split

/-!
# Data types

A data type is a built-in base type, possibly pointed to, possibly as an array of one or more
dimensions. Its text is read in two steps: `TypeText.read?` knows the grammar (words, then stars,
then bracketed dimensions, with blanks anywhere between them) and `DataType.ofTypeText` knows the
base types and their sizes. The name of a type is its text in canonical spacing.

Lengths are products of binary64 numbers, taken from left to right.
-/

namespace BinaryReport

/-- A data type. -/
structure DataType where
  /-- The canonical text. -/
  name : String
  /-- The number of bytes. -/
  length : Binary64
deriving DecidableEq

/-- Text that denotes no data type. -/
inductive DataTypeError where
  /-- The text does not follow the grammar. -/
  | malformed (text : String)
  /-- There is no base type of that name. -/
  | unknownBase (base : String)
  /-- The base type has no size, and the text does not point to it. -/
  | sizeless (base : String)
  /-- A dimension is zero. -/
  | zeroDimension (text : String)
deriving DecidableEq

namespace DataTypeError

/-- What is wrong with the text. -/
def message : DataTypeError → String
  | .malformed text => "Unable to parse data type: \"" ++ text ++ "\""
  | .unknownBase base => "Unknown data type: " ++ base
  | .sizeless base => "Data type has no size: " ++ base
  | .zeroDimension text => "Array dimension must be positive: \"" ++ text ++ "\""

/-- The error as something an operation raises. -/
def raised (e : DataTypeError) : Raised := .ofKind .typeParse e.message

end DataTypeError

/-! ## Grammar -/

/-- The parts of a data type text. -/
structure TypeText where
  /-- The words of the base type. -/
  words : List String
  /-- The number of stars. -/
  stars : Nat
  /-- The dimensions, as they are denoted. -/
  dimensions : List Nat
deriving DecidableEq

namespace TypeText

/-- Whether a character ends the words of the base type. -/
def endsBase (c : Char) : Bool := c = '*' || c = '['

/-- Whether a character may stand among the stars. -/
def isStarOrBlank (c : Char) : Bool := c = '*' || Text.isBlank c

/-- Reads what stands before a closing bracket: an opening bracket and decimal digits, with blanks
around either. -/
def readDimension? (piece : List Char) : Option Nat :=
  match Text.dropBlanks piece with
  | '[' :: digits => Text.readDigits? 10 (Text.trimChars digits)
  | _ => none

/-- Reads bracketed dimensions, given as the pieces between closing brackets. -/
def readDimensions? : List (List Char) → Option (List Nat)
  | [] => some []
  | [last] => if last.all Text.isBlank then some [] else none
  | piece :: rest => do
    let n ← readDimension? piece
    let ns ← readDimensions? rest
    some (n :: ns)

/-- Reads a data type text. -/
def read? (text : String) : Option TypeText := do
  let cs := Text.trimChars text.toList
  let words := Text.words (cs.takeWhile (!endsBase ·))
  if words.isEmpty || !words.all AddressSpace.isIdentifier then none
  let suffix := cs.dropWhile (!endsBase ·)
  let dimensions ← readDimensions? (Text.splitAt ']' (suffix.dropWhile isStarOrBlank))
  some ⟨words.map String.ofList, (suffix.takeWhile isStarOrBlank).count '*', dimensions⟩

/-- The base type: its words with single spaces between them. -/
def base (t : TypeText) : String := " ".intercalate t.words

end TypeText

/-! ## Base types -/

/-- The size of a base type. -/
inductive BaseSize where
  /-- A number of bytes; zero for a type without a size. -/
  | bytes (n : Nat)
  /-- The size of a pointer of the program. -/
  | pointer
deriving DecidableEq

/-- The built-in base types. -/
def baseTypes : List (String × BaseSize) :=
  [("undefined", .bytes 1), ("undefined1", .bytes 1), ("undefined2", .bytes 2),
    ("undefined4", .bytes 4), ("undefined8", .bytes 8), ("bool", .bytes 1), ("byte", .bytes 1),
    ("char", .bytes 1), ("uchar", .bytes 1), ("unsigned char", .bytes 1), ("short", .bytes 2),
    ("ushort", .bytes 2), ("unsigned short", .bytes 2), ("word", .bytes 2), ("int", .bytes 4),
    ("uint", .bytes 4), ("unsigned int", .bytes 4), ("dword", .bytes 4), ("float", .bytes 4),
    ("long", .pointer), ("ulong", .pointer), ("unsigned long", .pointer), ("long long", .bytes 8),
    ("longlong", .bytes 8), ("unsigned long long", .bytes 8), ("qword", .bytes 8),
    ("double", .bytes 8), ("pointer", .pointer), ("void", .bytes 0)]

/-- The size of the base type of a name. -/
def baseSize? (base : String) : Option BaseSize := baseTypes.lookup base

namespace BaseSize

/-- The number of bytes, for a size of pointers. -/
def toNat (pointerSize : Nat) : BaseSize → Nat
  | .bytes n => n
  | .pointer => pointerSize

end BaseSize

namespace DataType

/-- The bracketed text of a dimension. -/
def dimensionText (n : Binary64) : String := "[" ++ n.text ++ "]"

/-- The canonical text: words, a space and the stars if there are any, and the dimensions. -/
def nameOf (base : String) (stars : Nat) (dimensions : List Binary64) : String :=
  base ++ (if stars = 0 then "" else String.ofList (' ' :: List.replicate stars '*'))
    ++ String.join (dimensions.map dimensionText)

/-- The data type of a text that follows the grammar. -/
def ofTypeText (pointerSize : Nat) (text : String) (t : TypeText) :
    Except DataTypeError DataType :=
  match baseSize? t.base with
  | none => .error (.unknownBase t.base)
  | some size =>
    let unit := if t.stars = 0 then size.toNat pointerSize else pointerSize
    if unit = 0 then .error (.sizeless t.base)
    else
      let dimensions := t.dimensions.map Binary64.ofNat
      if dimensions.any Binary64.isZero then .error (.zeroDimension text)
      else
        .ok ⟨nameOf t.base t.stars dimensions, dimensions.foldl (· * ·) (.ofNat unit)⟩

/-- Reads a data type. -/
def parse (pointerSize : Nat) (text : String) : Except DataTypeError DataType :=
  match TypeText.read? text with
  | none => .error (.malformed text)
  | some t => ofTypeText pointerSize text t

end DataType

end BinaryReport
