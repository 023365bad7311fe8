import BinaryReport.Check
import BinaryReport.Report.Basic

/-!
# The schemas of reports

Reading reports and outcomes of changes from their JSON forms. The two forms of a report admit no
other members; their parts do.
-/

namespace BinaryReport

open Check

/-- A function in a report. -/
def FunctionRecord.check : Check FunctionRecord := record fun ms =>
  FunctionRecord.mk <$> required "name" anyText ms <*> required "entry_point" anyText ms
    <*> required "signature" anyText ms <*> required "body_range" anyText ms

/-- A symbol in a report. -/
def SymbolRecord.check : Check SymbolRecord := record fun ms =>
  SymbolRecord.mk <$> required "name" anyText ms <*> required "address" anyText ms
    <*> required "type" anyText ms <*> required "source" anyText ms

/-- An instruction in a report. -/
def InstructionRecord.check : Check InstructionRecord := record fun ms =>
  InstructionRecord.mk <$> required "address" anyText ms <*> required "mnemonic" anyText ms
    <*> required "operands" anyText ms <*> required "bytes" anyText ms
    <*> required "comment" anyText ms

/-- A decompiled function. -/
def DecompiledFunction.check : Check DecompiledFunction := record fun ms =>
  DecompiledFunction.mk <$> required "name" anyText ms <*> required "entry_point" anyText ms
    <*> required "code" anyText ms <*> required "signature" anyText ms
    <*> required "body" anyText ms

namespace AnalysisReport

/-- The members of a whole report. -/
def keys : List String :=
  ["program_name", "entry_point", "entry_function", "functions", "symbols", "disassembly",
    "image_base", "language"]

/-- Reads the members of a whole report. -/
def read (ms : Members) : Verdict AnalysisReport :=
  AnalysisReport.mk <$> required "program_name" anyText ms <*> required "entry_point" anyText ms
    <*> required "entry_function" (nullable DecompiledFunction.check) ms
    <*> required "functions" (array FunctionRecord.check) ms
    <*> required "symbols" (array SymbolRecord.check) ms
    <*> required "disassembly" (array InstructionRecord.check) ms
    <*> required "image_base" anyText ms <*> required "language" anyText ms

/-- A whole report, with no other members. -/
def check : Check AnalysisReport := strictRecord keys read

end AnalysisReport

namespace ErrorReport

/-- The members of an error report. -/
def keys : List String := ["error", "message", "traceback", "program_name"]

/-- The mark of an error report. -/
def mark : Check Unit where
  expected := "true"
  run
    | .bool true => .accepted ()
    | _ => .complain .noneOf

/-- Reads the members of an error report. -/
def read (ms : Members) : Verdict ErrorReport :=
  (fun _ => ErrorReport.mk) <$> required "error" mark ms <*> required "message" anyText ms
    <*> required "traceback" anyText ms <*> required "program_name" anyText ms

/-- An error report, with no other members. -/
def check : Check ErrorReport := strictRecord keys read

end ErrorReport

/-- The outcome of a change; other members are ignored. -/
def MutationResult.check : Check MutationResult := record fun ms =>
  MutationResult.mk <$> required "success" bool ms <*> required "message" anyText ms

end BinaryReport
