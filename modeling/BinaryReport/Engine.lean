import BinaryReport.Decompiler.Call
import BinaryReport.Program.Load

/-!
# The engine

The analysis engine that reports and tools work with: a loaded program, the decompiler's session,
and the faults of an engine that does not behave. Every question to the engine has a site; a fault
at the site takes the place of the engine's own answer, by raising something or by answering
something else. The changes of a program go through sites too.

Without faults every question is answered by the program.
-/

namespace BinaryReport

/-- What happens at a site in place of the engine's own answer. -/
inductive Fault (α : Type) where
  /-- Something is raised. -/
  | raise (e : Raised)
  /-- A fixed answer is given. -/
  | answer (a : α)

/-- The outcome at a site: that of its fault, or the engine's own. -/
def Fault.over {α : Type} (fault? : Option (Fault α)) (own : Except Raised α) : Except Raised α :=
  match fault? with
  | none => own
  | some (.raise e) => .error e
  | some (.answer a) => .ok a

/-- The faults of an engine, by site. -/
structure Faults where
  /-- Opening the program in the decompiler. -/
  openProgram? : Option (Fault Bool) := none
  /-- Closing the program in the decompiler. -/
  closeProgram? : Option (Fault Unit) := none
  /-- Calling the decompiler. -/
  decompile? : Option (Fault Decompilation) := none
  /-- The entry points. -/
  entryPoints? : Option (Fault (List Address)) := none
  /-- The symbol table. -/
  symbols? : Option (Fault (List Symbol)) := none
  /-- The symbols at an address. -/
  symbolsAt? : Option (Fault (List Symbol)) := none
  /-- The functions. -/
  functions? : Option (Fault (List Function)) := none
  /-- The function that contains an address. -/
  functionContaining? : Option (Fault (Option Function)) := none
  /-- The instruction at an address. -/
  instructionAt? : Option (Fault (Option Instruction)) := none
  /-- The comment at an address. -/
  commentAt? : Option (Fault (Option String)) := none
  /-- The data at an address. -/
  dataAt? : Option (Fault (Option DataUnit)) := none
  /-- Placing data. -/
  placeData? : Option (Fault Unit) := none
  /-- Reading an address. -/
  parseAddress? : Option (Fault Address) := none
  /-- Reading a data type. -/
  parseType? : Option (Fault DataType) := none
  /-- Adding to an address. -/
  advance? : Option (Fault Address) := none
  /-- The name of the program. -/
  name? : Option (Fault String) := none

/-- An engine. -/
structure Engine where
  /-- The loaded program. -/
  program : Program
  /-- Whether the decompiler has the program open. -/
  isOpen : Bool := false
  /-- The faults of the engine. -/
  faults : Faults := {}

namespace Engine

/-- The engine of a loaded program: nothing is open and nothing is at fault. -/
def ofProgram (p : Program) : Engine := Engine.mk p false {}

/-- The engine of a snapshot. -/
def ofSnapshot (s : Snapshot) : Except Failure Engine :=
  match Program.load s with
  | .ok p => .ok (ofProgram p)
  | .error e => .error e.failure

/-- The engine of a snapshot in its JSON form. -/
def ofJson (v : Json) : Except Failure Engine :=
  match Snapshot.parse v with
  | .ok s => ofSnapshot s
  | .error e => .error e

/-! ## Questions -/

/-- The name of the program. -/
def name (e : Engine) : Except Raised String := Fault.over e.faults.name? (.ok e.program.name)

/-- The entry points. -/
def entryPoints (e : Engine) : Except Raised (List Address) :=
  Fault.over e.faults.entryPoints? (.ok e.program.entryPoints)

/-- The symbol table. -/
def symbols (e : Engine) : Except Raised (List Symbol) :=
  Fault.over e.faults.symbols? (.ok e.program.symbols)

/-- The symbols at an address. -/
def symbolsAt (e : Engine) (a : Address) : Except Raised (List Symbol) :=
  Fault.over e.faults.symbolsAt? (.ok (e.program.symbolsAt a))

/-- The functions. -/
def functions (e : Engine) : Except Raised (List Function) :=
  Fault.over e.faults.functions? (.ok e.program.functions)

/-- The function that contains an address. -/
def functionContaining (e : Engine) (a : Address) : Except Raised (Option Function) :=
  Fault.over e.faults.functionContaining? (.ok (e.program.functionContaining? a))

/-- The instruction at an address. -/
def instructionAt (e : Engine) (a : Address) : Except Raised (Option Instruction) :=
  Fault.over e.faults.instructionAt? (.ok (e.program.instructionAt? a))

/-- The comment of a kind at an address. -/
def commentAt (e : Engine) (kind : CommentKind) (a : Address) : Except Raised (Option String) :=
  Fault.over e.faults.commentAt? (.ok (e.program.commentAt? kind a))

/-- The data at an address. -/
def dataAt (e : Engine) (a : Address) : Except Raised (Option DataUnit) :=
  Fault.over e.faults.dataAt? (.ok (e.program.dataAt? a))

/-- Reads an address. -/
def parseAddress (e : Engine) (text : String) : Except Raised Address :=
  Fault.over e.faults.parseAddress? ((e.program.parseAddress text).mapError AddressError.raised)

/-- Reads a data type. -/
def parseType (e : Engine) (text : String) : Except Raised DataType :=
  Fault.over e.faults.parseType? ((e.program.parseType text).mapError DataTypeError.raised)

/-- Adds a displacement to an address. -/
def advance (e : Engine) (a : Address) (d : Displacement) : Except Raised Address :=
  Fault.over e.faults.advance?
    ((e.program.space.advance a d).mapError DisplacementError.raised)

/-- Where the program is entered, or what kept that from being found. -/
def resolveEntry (e : Engine) : Except Raised Address :=
  match e.entryPoints with
  | .ok points => .ok (e.program.entryFrom points)
  | .error r => .error r

/-! ## Changes -/

/-- Names the symbol of an index of the table. -/
def setName (e : Engine) (index : Nat) (name : String) (source : Source) :
    Except Raised Engine :=
  match e.program.setName index name source with
  | .ok p => .ok { e with program := p }
  | .error err => .error err.raised

/-- Places data of a type at an address. -/
def placeData (e : Engine) (a : Address) (t : DataType) : Except Raised Engine :=
  match e.faults.placeData? with
  | some (.raise r) => .error r
  | some (.answer _) => .ok e
  | none =>
    match e.advance a (Program.lastDisplacement t) with
    | .error r => .error r
    | .ok last =>
      match e.program.placeUpTo a t last with
      | .ok p => .ok { e with program := p }
      | .error err => .error err.raised

/-! ## The decompiler's session -/

/-- Opens the program in the decompiler. -/
def openProgram (e : Engine) : Except Raised Bool × Engine :=
  match e.faults.openProgram? with
  | some (.raise r) => (.error r, e)
  | some (.answer b) => (.ok b, e)
  | none => (.ok true, { e with isOpen := true })

/-- Refuses to open another program; the session is closed. -/
def openOther (e : Engine) : Except Raised Bool × Engine :=
  match e.faults.openProgram? with
  | some (.raise r) => (.error r, e)
  | some (.answer b) => (.ok b, e)
  | none => (.ok false, { e with isOpen := false })

/-- What is logged about a session that cannot be closed. -/
def closeFailure (message : String) : String := "[report] decompiler close failed: " ++ message

/-- Closes the session, and gives the lines that are logged. A failing close is only logged, unless
there is nothing to log about it. -/
def closeProgram (e : Engine) : Engine × Except Raised (List String) :=
  match e.faults.closeProgram? with
  | some (.raise r) => (e, r.message.map fun message => [closeFailure message])
  | some (.answer _) => (e, .ok [])
  | none => ({ e with isOpen := false }, .ok [])

/-- The decompiler of the engine. -/
def decompiler (e : Engine) : Decompiler :=
  match e.faults.decompile? with
  | some (.raise r) => fun _ _ _ => .error r
  | some (.answer d) => fun _ _ _ => .ok (.answered d)
  | none => Decompiler.stored e.isOpen

end Engine

end BinaryReport
