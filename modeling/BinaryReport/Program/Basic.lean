import BinaryReport.Address.RangeSet
import BinaryReport.DataType
import BinaryReport.Snapshot.Basic

/-!
# Programs

A loaded program: its address space, its functions in ascending order of entry, the other symbols,
the code, the data and the comments. A function owns the symbol that names it, so renaming the
symbol renames the function; the symbol table is the symbols of the functions followed by the
labels.

Two operations change a program: `Program.setName` names a symbol, and `Program.placeData` puts a
unit of data at an address where it overlaps no instruction and no other unit.
-/

namespace BinaryReport

/-! ## Parts -/

/-- A symbol. -/
structure Symbol where
  /-- Its name. -/
  name : String
  /-- Its address. -/
  address : Address
  /-- What it names. -/
  kind : SymbolKind
  /-- Where the name comes from. -/
  source : Source
  /-- Whether it is defined outside the program. -/
  isExternal : Bool
deriving DecidableEq

/-- A function. -/
structure Function where
  /-- The symbol that names the function; its address is the entry. -/
  symbol : Symbol
  /-- The addresses of its code. -/
  body : RangeSet
  /-- The type it returns. -/
  returnType : String
  /-- Its parameters. -/
  parameters : List String
  /-- The decompiled code, if there is any. -/
  code? : Option String
  /-- How long decompilation takes, in milliseconds. -/
  latency : Binary64
deriving DecidableEq

namespace Function

/-- The name of the function. -/
def name (f : Function) : String := f.symbol.name

/-- The address at which the function is entered. -/
def entry (f : Function) : Address := f.symbol.address

/-- The parameters as a declaration lists them. -/
def parameterText (f : Function) : String :=
  if f.parameters.isEmpty then "void" else ", ".intercalate f.parameters

/-- The declaration of the function under its current name. -/
def signature (f : Function) : String :=
  f.returnType ++ " " ++ f.name ++ "(" ++ f.parameterText ++ ")"

end Function

/-- A byte as the engine hands it out: the values from 128 up are negative. -/
def signedByte (n : Nat) : Int := if n < 128 then n else (n : Int) - 256

/-- An instruction. -/
structure Instruction where
  /-- Its address. -/
  address : Address
  /-- The name of the operation. -/
  mnemonic : String
  /-- The operands as text. -/
  operands : String
  /-- The encoding, as signed bytes. -/
  bytes : List Int
deriving DecidableEq

/-- The number of bytes of an instruction. -/
def Instruction.length (i : Instruction) : Nat := i.bytes.length

/-- The last offset that an instruction covers. -/
def Instruction.last (i : Instruction) : Int := i.address.offset + i.length - 1

/-- A unit of data. -/
structure DataUnit where
  /-- Its address. -/
  address : Address
  /-- Its type. -/
  type : DataType
deriving DecidableEq

/-- The number of bytes of a unit of data. -/
def DataUnit.length (u : DataUnit) : Int := u.type.length.toInt?.getD 0

/-- The last offset that a unit of data covers. -/
def DataUnit.last (u : DataUnit) : Int := u.address.offset + u.length - 1

/-- A comment. -/
structure Comment where
  /-- Its address. -/
  address : Address
  /-- Where it stands. -/
  kind : CommentKind
  /-- Its text. -/
  text : String
deriving DecidableEq

/-- A loaded program. -/
structure Program where
  /-- The name of the program. -/
  name : String
  /-- The language of its code. -/
  language : String
  /-- The address space. -/
  space : AddressSpace
  /-- The address at which the image starts. -/
  imageBase : Address
  /-- The lowest start of a memory block, if there is memory. -/
  minAddress? : Option Address
  /-- The addresses at which the program is entered from outside. -/
  entryPoints : List Address
  /-- The functions, by ascending entry. -/
  functions : List Function
  /-- The symbols that name no function, in the order of the table. -/
  labels : List Symbol
  /-- The instructions. -/
  instructions : List Instruction
  /-- The units of data, in the order in which their addresses were first used. -/
  data : List DataUnit
  /-- The comments; of two of one kind at one address the later one counts. -/
  comments : List Comment
deriving DecidableEq

namespace Program

/-! ## Looking things up -/

/-- The symbol table. -/
def symbols (p : Program) : List Symbol := p.functions.map (·.symbol) ++ p.labels

/-- Whether a symbol is bound at an address inside the program. -/
def isBoundAt (a : Address) (s : Symbol) : Bool := !s.isExternal && s.address = a

/-- The symbols bound at an address, in the order of the table. -/
def symbolsAt (p : Program) (a : Address) : List Symbol := p.symbols.filter (isBoundAt a)

/-- The first function whose body contains an address. -/
def functionContaining? (p : Program) (a : Address) : Option Function :=
  p.functions.find? (·.body.contains a)

/-- The instruction at an address. -/
def instructionAt? (p : Program) (a : Address) : Option Instruction :=
  p.instructions.find? (·.address = a)

/-- The comment of a kind at an address. -/
def commentAt? (p : Program) (kind : CommentKind) (a : Address) : Option String :=
  (p.comments.reverse.find? fun c => c.kind = kind && c.address = a).map (·.text)

/-- The unit of data at an address. -/
def dataAt? (p : Program) (a : Address) : Option DataUnit := p.data.find? (·.address = a)

/-- Where the program is entered: at its first entry point, else at its lowest address, else at the
base of the image. -/
def entryFrom (p : Program) (entryPoints : List Address) : Address :=
  entryPoints.head?.getD (p.minAddress?.getD p.imageBase)

/-! ## Names -/

/-- A name that no symbol can have: empty, or with a blank in it. -/
structure InvalidName where
  /-- The name. -/
  name : String

/-- What is wrong with the name. -/
def InvalidName.message (e : InvalidName) : String := "Invalid symbol name: \"" ++ e.name ++ "\""

/-- The error as something an operation raises. -/
def InvalidName.raised (e : InvalidName) : Raised := .ofKind .invalidName e.message

/-- Whether a symbol can have a name. -/
def isSymbolName (name : String) : Bool := !name.isEmpty && !name.toList.any Text.isBlank

/-- The symbol under another name. -/
def rename (name : String) (source : Source) (s : Symbol) : Symbol :=
  { s with name := name, source := source }

/-- The function with its symbol under another name. -/
def renameFunction (name : String) (source : Source) (f : Function) : Function :=
  { f with symbol := rename name source f.symbol }

/-- Gives the symbol of an index of the table another name. -/
def renameIndex (p : Program) (index : Nat) (name : String) (source : Source) : Program :=
  if index < p.functions.length then
    { p with functions := p.functions.modify index (renameFunction name source) }
  else
    { p with labels := p.labels.modify (index - p.functions.length) (rename name source) }

/-- Names the symbol of an index of the table. -/
def setName (p : Program) (index : Nat) (name : String) (source : Source) :
    Except InvalidName Program :=
  if isSymbolName name then .ok (p.renameIndex index name source) else .error ⟨name⟩

/-! ## Data -/

/-- Data that cannot be placed. -/
inductive PlacementError where
  /-- Its last address cannot be computed. -/
  | extent (e : DisplacementError)
  /-- It would overlap an instruction. -/
  | instruction (text : String)
  /-- It would overlap another unit of data. -/
  | data (text : String)
deriving DecidableEq

namespace PlacementError

/-- What stands in the way. -/
def message : PlacementError → String
  | .extent e => e.message
  | .instruction text => "Conflicting instruction exists at address " ++ text
  | .data text => "Conflicting data exists at address " ++ text

/-- The kind of failure that the error is. -/
def kind : PlacementError → FailureKind
  | .extent e => e.kind
  | .instruction _ => .dataConflict
  | .data _ => .dataConflict

/-- The error as something an operation raises. -/
def raised (e : PlacementError) : Raised := .ofKind e.kind e.message

end PlacementError

/-- Whether two inclusive ranges of offsets meet. -/
def meets (first last first' last' : Int) : Bool := first' ≤ last && first ≤ last'

/-- The instruction or the unit at another address that the offsets from an address to `last`
meet. Instructions are looked at first. -/
def conflict? (p : Program) (a : Address) (last : Int) : Option PlacementError :=
  match p.instructions.find? fun i => meets a.offset last i.address.offset i.last with
  | some i => some (.instruction (p.space.native i.address))
  | none =>
    match p.data.find? fun u => u.address ≠ a && meets a.offset last u.address.offset u.last with
    | some u => some (.data (p.space.native u.address))
    | none => none

/-- Puts a unit into a list, in place of the one at its address or else at the end. -/
def putData (u : DataUnit) : List DataUnit → List DataUnit
  | [] => [u]
  | v :: rest => if v.address = u.address then u :: rest else v :: putData u rest

/-- The displacement from the first byte of a type to the last. -/
def lastDisplacement (t : DataType) : Displacement := .number (t.length - 1)

/-- Places data of a type at an address; the last address is given. -/
def placeUpTo (p : Program) (a : Address) (t : DataType) (last : Address) :
    Except PlacementError Program :=
  match p.conflict? a last.offset with
  | some e => .error e
  | none => .ok { p with data := putData ⟨a, t⟩ p.data }

/-- Places data of a type at an address. -/
def placeData (p : Program) (a : Address) (t : DataType) : Except PlacementError Program :=
  match p.space.advance a (lastDisplacement t) with
  | .error e => .error (.extent e)
  | .ok last => p.placeUpTo a t last

/-! ## Reading text -/

/-- Reads an address of the program. -/
def parseAddress (p : Program) (text : String) : Except AddressError Address :=
  p.space.parse text

/-- Reads a data type of the program. -/
def parseType (p : Program) (text : String) : Except DataTypeError DataType :=
  DataType.parse p.space.pointerSize text

end Program

end BinaryReport
