import BinaryReport.Binary64.Basic
import BinaryReport.Text.Blank
import BinaryReport.Text.Digits

/-!
# Program snapshots

A snapshot is the stored form of an analysed program: its image, its entry points, its code, its
functions, symbols, data and comments, with all addresses and types as text. Only the bytes of
instructions and the size of pointers are known to be well formed; everything else is settled when
the snapshot is loaded.
-/

namespace BinaryReport

/-! ## Vocabulary -/

/-- Where a name comes from. -/
inductive Source where
  /-- Made up by the engine. -/
  | default
  /-- Found by an analysis. -/
  | analysis
  /-- Taken from the binary. -/
  | imported
  /-- Given by the user. -/
  | userDefined
deriving DecidableEq, Inhabited

namespace Source

/-- The written name. -/
def name : Source → String
  | .default => "DEFAULT"
  | .analysis => "ANALYSIS"
  | .imported => "IMPORTED"
  | .userDefined => "USER_DEFINED"

/-- All sources in the order in which messages list them. -/
def all : List Source := [.default, .analysis, .imported, .userDefined]

end Source

/-- What a symbol names. -/
inductive SymbolKind where
  /-- A function. -/
  | function
  /-- A place in code or data. -/
  | label
  /-- A namespace. -/
  | nameSpace
  /-- A class. -/
  | classScope
  /-- A library. -/
  | library
  /-- A global variable. -/
  | globalVariable
deriving DecidableEq, Inhabited

namespace SymbolKind

/-- The written name. -/
def name : SymbolKind → String
  | .function => "Function"
  | .label => "Label"
  | .nameSpace => "Namespace"
  | .classScope => "Class"
  | .library => "Library"
  | .globalVariable => "Global Var"

/-- All kinds in the order in which messages list them. -/
def all : List SymbolKind :=
  [.function, .label, .nameSpace, .classScope, .library, .globalVariable]

end SymbolKind

/-- Where a comment stands relative to its code unit. -/
inductive CommentKind where
  /-- At the end of the line. -/
  | endOfLine
  /-- Before the unit. -/
  | before
  /-- After the unit. -/
  | after
  /-- In a block above the unit. -/
  | plate
  /-- At the unit and at its references. -/
  | repeatable
deriving DecidableEq, Inhabited

namespace CommentKind

/-- The written name. -/
def name : CommentKind → String
  | .endOfLine => "EOL"
  | .before => "PRE"
  | .after => "POST"
  | .plate => "PLATE"
  | .repeatable => "REPEATABLE"

/-- All kinds in the order in which messages list them. -/
def all : List CommentKind := [.endOfLine, .before, .after, .plate, .repeatable]

end CommentKind

/-- The size of a pointer of a program. -/
inductive PointerSize where
  /-- Four bytes. -/
  | four
  /-- Eight bytes. -/
  | eight
deriving DecidableEq, Inhabited

/-- The number of bytes of a pointer. -/
def PointerSize.bytes : PointerSize → Nat
  | .four => 4
  | .eight => 8

/-! ## Byte texts -/

/-- Reads two hexadecimal digits. -/
def readHexPair? (cs : List Char) : Option Nat :=
  if cs.length = 2 then Text.readDigits? 16 cs else none

/-- Reads one or more pairs of hexadecimal digits that are separated by blanks. -/
def readHexBytes? (text : String) : Option (List Nat) :=
  match Text.words text.toList with
  | [] => none
  | pairs => pairs.mapM readHexPair?

/-- A text of one or more bytes in hexadecimal. -/
structure ByteText where
  /-- The text. -/
  text : String
  /-- The text can be read. -/
  readable : (readHexBytes? text).isSome

/-- The bytes of a text. -/
def ByteText.bytes (b : ByteText) : List Nat := (readHexBytes? b.text).get b.readable

/-! ## Entries -/

/-- A block of memory. -/
structure MemoryEntry where
  /-- The name of the block. -/
  name : String
  /-- Its first address. -/
  start : String
  /-- Its number of bytes. -/
  length : Binary64

/-- A decoded instruction. -/
structure InstructionEntry where
  /-- Its address. -/
  address : String
  /-- The name of the operation. -/
  mnemonic : String
  /-- The operands as text. -/
  operands : String
  /-- The encoding. -/
  bytes : ByteText

/-- A range of a function's body. -/
structure BodyEntry where
  /-- The first address. -/
  start : String
  /-- The last address. -/
  last : String

/-- A function. -/
structure FunctionEntry where
  /-- Its name. -/
  name : String
  /-- The address at which it is entered. -/
  entry : String
  /-- The ranges of its body. -/
  body : List BodyEntry
  /-- The type it returns. -/
  returnType : String
  /-- Its parameters. -/
  parameters : List String
  /-- Where the name comes from. -/
  source : Source
  /-- The decompiled code, if there is any. -/
  decompiled? : Option String
  /-- How long decompilation takes, in milliseconds. -/
  latency : Binary64

/-- A symbol. -/
structure SymbolEntry where
  /-- Its name. -/
  name : String
  /-- Its address. -/
  address : String
  /-- What it names. -/
  kind : SymbolKind
  /-- Where the name comes from. -/
  source : Source
  /-- Whether it is defined outside the program. -/
  isExternal : Bool

/-- A unit of data. -/
structure DataEntry where
  /-- Its address. -/
  address : String
  /-- Its type. -/
  type : String

/-- A comment. -/
structure CommentEntry where
  /-- Its address. -/
  address : String
  /-- Where it stands. -/
  kind : CommentKind
  /-- Its text. -/
  text : String

/-- The stored form of a program. -/
structure Snapshot where
  /-- The name of the program. -/
  name : String
  /-- The language of its code. -/
  language : String
  /-- The address at which the image starts. -/
  imageBase : String
  /-- The size of a pointer. -/
  pointerSize : PointerSize
  /-- The addresses at which the program is entered from outside. -/
  entryPoints : List String
  /-- The blocks of memory. -/
  memory : List MemoryEntry
  /-- The instructions. -/
  instructions : List InstructionEntry
  /-- The functions. -/
  functions : List FunctionEntry
  /-- The symbols. -/
  symbols : List SymbolEntry
  /-- The units of data. -/
  data : List DataEntry
  /-- The comments. -/
  comments : List CommentEntry

end BinaryReport
