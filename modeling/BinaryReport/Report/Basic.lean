import BinaryReport.Json.Basic

/-!
# Reports

What the library answers, as records with their JSON form. The members of each form stand in a
fixed order, since the text of a report is read by other programs.

A report is either whole or an error report; there is nothing between the two.
-/

namespace BinaryReport

/-- A function in a report. -/
structure FunctionRecord where
  /-- Its name. -/
  name : String
  /-- Its entry. -/
  entryPoint : String
  /-- Its declaration. -/
  signature : String
  /-- The ranges of its body. -/
  bodyRange : String
deriving DecidableEq

/-- A symbol in a report. -/
structure SymbolRecord where
  /-- Its name. -/
  name : String
  /-- Its address. -/
  address : String
  /-- What it names. -/
  type : String
  /-- Where the name comes from. -/
  source : String
deriving DecidableEq

/-- An instruction in a report. -/
structure InstructionRecord where
  /-- Its address. -/
  address : String
  /-- The name of the operation. -/
  mnemonic : String
  /-- The operands. -/
  operands : String
  /-- The encoding in hexadecimal. -/
  bytes : String
  /-- The comment at the end of the line, possibly empty. -/
  comment : String
deriving DecidableEq

/-- A decompiled function. -/
structure DecompiledFunction where
  /-- Its name. -/
  name : String
  /-- Its entry. -/
  entryPoint : String
  /-- The code. -/
  code : String
  /-- Its declaration. -/
  signature : String
  /-- The ranges of its body. -/
  body : String
deriving DecidableEq

/-- A whole report. -/
structure AnalysisReport where
  /-- The name of the program. -/
  programName : String
  /-- Where the program is entered. -/
  entryPoint : String
  /-- The decompiled function that contains the entry, if there is one. -/
  entryFunction? : Option DecompiledFunction
  /-- The functions. -/
  functions : List FunctionRecord
  /-- The symbols. -/
  symbols : List SymbolRecord
  /-- The instructions from the entry on. -/
  disassembly : List InstructionRecord
  /-- The base of the image. -/
  imageBase : String
  /-- The language of the code. -/
  language : String
deriving DecidableEq

/-- What takes the place of a report that cannot be made. -/
structure ErrorReport where
  /-- What went wrong. -/
  message : String
  /-- Where it went wrong. -/
  traceback : String
  /-- The name of the program, as far as it is known. -/
  programName : String
deriving DecidableEq

/-- A report or what takes its place. -/
inductive Report where
  /-- A whole report. -/
  | whole (r : AnalysisReport)
  /-- An error report. -/
  | failed (r : ErrorReport)
deriving DecidableEq

/-- The outcome of a change to the program. -/
structure MutationResult where
  /-- Whether the change was made. -/
  success : Bool
  /-- What was done, or why nothing was. -/
  message : String
deriving DecidableEq

/-! ## JSON forms -/

/-- The JSON form of a function. -/
def FunctionRecord.toJson (r : FunctionRecord) : Json :=
  .object [("name", .string r.name), ("entry_point", .string r.entryPoint),
    ("signature", .string r.signature), ("body_range", .string r.bodyRange)]

/-- The JSON form of a symbol. -/
def SymbolRecord.toJson (r : SymbolRecord) : Json :=
  .object [("name", .string r.name), ("address", .string r.address), ("type", .string r.type),
    ("source", .string r.source)]

/-- The JSON form of an instruction. -/
def InstructionRecord.toJson (r : InstructionRecord) : Json :=
  .object [("address", .string r.address), ("mnemonic", .string r.mnemonic),
    ("operands", .string r.operands), ("bytes", .string r.bytes), ("comment", .string r.comment)]

/-- The JSON form of a decompiled function. -/
def DecompiledFunction.toJson (r : DecompiledFunction) : Json :=
  .object [("name", .string r.name), ("entry_point", .string r.entryPoint),
    ("code", .string r.code), ("signature", .string r.signature), ("body", .string r.body)]

/-- The JSON form of a decompiled function, null for none. -/
def DecompiledFunction.toJson? (r? : Option DecompiledFunction) : Json :=
  (r?.map toJson).getD .null

/-- The JSON form of a whole report. -/
def AnalysisReport.toJson (r : AnalysisReport) : Json :=
  .object [("program_name", .string r.programName), ("entry_point", .string r.entryPoint),
    ("entry_function", DecompiledFunction.toJson? r.entryFunction?),
    ("functions", .array (r.functions.map FunctionRecord.toJson)),
    ("symbols", .array (r.symbols.map SymbolRecord.toJson)),
    ("disassembly", .array (r.disassembly.map InstructionRecord.toJson)),
    ("image_base", .string r.imageBase), ("language", .string r.language)]

/-- The JSON form of an error report. -/
def ErrorReport.toJson (r : ErrorReport) : Json :=
  .object [("error", .bool true), ("message", .string r.message),
    ("traceback", .string r.traceback), ("program_name", .string r.programName)]

/-- The JSON form of a report. -/
def Report.toJson : Report → Json
  | .whole r => r.toJson
  | .failed r => r.toJson

/-- Whether a value is marked as an error report. -/
def Report.isMarkedFailed (v : Json) : Bool :=
  match v.get? "error" with
  | some (.bool true) => true
  | _ => false

/-- The JSON form of the outcome of a change. -/
def MutationResult.toJson (r : MutationResult) : Json :=
  .object [("success", .bool r.success), ("message", .string r.message)]

end BinaryReport
