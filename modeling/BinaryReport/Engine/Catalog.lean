import BinaryReport.Engine
import BinaryReport.Report.Basic

/-!
# Catalogs and disassembly

The parts of a report that list what the program holds: its functions, its symbols, and the
instructions from an address on.

The disassembly walks from an instruction to the address behind it. It ends at a bound, at an
address without an instruction, or at the end of the address space.
-/

namespace BinaryReport

/-! ## Records -/

/-- The record of a function. -/
def FunctionRecord.ofFunction (f : Function) : FunctionRecord :=
  ⟨f.name, f.entry.canonical, f.signature, f.body.text⟩

/-- The record of a symbol. -/
def SymbolRecord.ofSymbol (s : Symbol) : SymbolRecord :=
  ⟨s.name, s.address.canonical, s.kind.name, s.source.name⟩

/-- The record of a function with its decompiled code. -/
def DecompiledFunction.ofFunction (f : Function) (code : String) : DecompiledFunction :=
  ⟨f.name, f.entry.canonical, code, f.signature, f.body.text⟩

/-- Bytes in hexadecimal: two digits each, with spaces between them. Only the value modulo 256 of a
byte counts. -/
def bytesText (bytes : List Int) : String :=
  " ".intercalate (bytes.map fun b => String.ofList (Text.hexPair (b % 256).toNat))

/-- The record of an instruction with its comment. -/
def InstructionRecord.ofInstruction (i : Instruction) (comment? : Option String) :
    InstructionRecord :=
  ⟨i.address.canonical, i.mnemonic, i.operands, bytesText i.bytes, comment?.getD ""⟩

namespace Engine

/-! ## Catalogs -/

/-- The records of the functions. -/
def functionRecords (e : Engine) : Except Raised (List FunctionRecord) :=
  e.functions.map (List.map FunctionRecord.ofFunction)

/-- The records of the symbols that are defined inside the program. -/
def symbolRecords (e : Engine) : Except Raised (List SymbolRecord) :=
  e.symbols.map fun symbols => (symbols.filter (!·.isExternal)).map SymbolRecord.ofSymbol

/-! ## Disassembly -/

/-- What to do at a place of the walk. -/
inductive WalkStep where
  /-- Nothing more: there is no instruction. -/
  | stop
  /-- A last record: the address behind the instruction is outside the space. -/
  | last (r : InstructionRecord)
  /-- A record, and the address behind the instruction. -/
  | next (r : InstructionRecord) (behind : Address)

/-- Looks at the instruction at an address. -/
def walkStep (e : Engine) (cursor : Address) : Except Raised WalkStep :=
  match e.instructionAt cursor with
  | .error r => .error r
  | .ok none => .ok .stop
  | .ok (some i) =>
    match e.commentAt .endOfLine cursor with
    | .error r => .error r
    | .ok comment? =>
      let record := InstructionRecord.ofInstruction i comment?
      match e.advance i.address (.exact i.length) with
      | .ok behind => .ok (.next record behind)
      | .error r => if r.kind? = some .addressOverflow then .ok (.last record) else .error r

/-- Walks at most `fuel` steps, with `recorded` instructions behind it and a bound on their
number. -/
def walkFrom (e : Engine) (bound : Binary64) :
    (fuel recorded : Nat) → Address → Except Raised (List InstructionRecord)
  | 0, _, _ => .ok []
  | fuel + 1, recorded, cursor =>
    if Binary64.ofNat recorded < bound then
      match e.walkStep cursor with
      | .error r => .error r
      | .ok .stop => .ok []
      | .ok (.last record) => .ok [record]
      | .ok (.next record behind) =>
        (walkFrom e bound fuel (recorded + 1) behind).map (record :: ·)
    else .ok []

/-- The records of the instructions from an address on, up to a bound. A walk visits no instruction
twice, so the number of instructions bounds its steps. -/
def disassemble (e : Engine) (start : Address) (bound : Binary64) :
    Except Raised (List InstructionRecord) :=
  e.walkFrom bound (e.program.instructions.length + 1) 0 start

end Engine

end BinaryReport
