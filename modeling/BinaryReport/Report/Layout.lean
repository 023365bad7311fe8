import BinaryReport.Report.Basic
import BinaryReport.Runtime
import BinaryReport.Text.Blank
import BinaryReport.Text.Split
import BinaryReport.Text.Units

/-!
# Layouts of a report

Reports as text for people: a Markdown page with tables, a disassembly listing, and a view of the
decompiled code. Each is a list of lines that are joined by line feeds.
-/

namespace BinaryReport

/-- The text of a number of things. -/
def countText (n : Nat) : String := String.ofList (Nat.toDigits 10 n)

/-! ## Instructions -/

/-- An instruction in columns: the address, the bytes, the operation and the operands, and the
comment behind a semicolon. Without a comment the line ends with its last column. -/
def InstructionRecord.line (r : InstructionRecord) : String :=
  let columns := Text.padRight 18 (r.address ++ ":") ++ " " ++ Text.padRight 16 r.bytes ++ " "
    ++ Text.padRight 8 r.mnemonic ++ " " ++ Text.padRight 20 r.operands
  if r.comment.isEmpty then Text.trimEnd columns else columns ++ "  ; " ++ r.comment

/-! ## Markdown -/

/-- A text as a cell of a table: its pipes are escaped. -/
def markdownCell (s : String) : String :=
  String.ofList (s.toList.flatMap fun c => if c = '|' then ['\\', '|'] else [c])

/-- A row of a table. -/
def markdownRow (cells : List String) : String := "| " ++ " | ".intercalate cells ++ " |"

/-- The row of a function. -/
def FunctionRecord.row (r : FunctionRecord) : String :=
  markdownRow [markdownCell r.name, r.entryPoint, markdownCell r.signature, r.bodyRange]

/-- The row of a symbol. -/
def SymbolRecord.row (r : SymbolRecord) : String :=
  markdownRow [markdownCell r.name, r.address, r.type, r.source]

/-- A section of a page, with an empty line after it; nothing if there is nothing to show. -/
def markdownSection (head body tail : List String) : List String :=
  if body.isEmpty then [] else head ++ body ++ tail ++ [""]

namespace AnalysisReport

/-- The lines of the head of a page. -/
def markdownHead (r : AnalysisReport) : List String :=
  ["# Analysis report: " ++ r.programName, "", "## Overview", "- Entry point: " ++ r.entryPoint,
    "- Image base: " ++ r.imageBase, "- Language: " ++ r.language,
    "- Functions: " ++ countText r.functions.length ++ " | Symbols: "
      ++ countText r.symbols.length ++ " | Instructions: " ++ countText r.disassembly.length, ""]

/-- The section of the decompiled function. -/
def markdownEntryFunction (r : AnalysisReport) : List String :=
  match r.entryFunction? with
  | none => []
  | some f =>
    ["## Entry function: " ++ f.name ++ " @ " ++ f.entryPoint, "\x60\x60\x60c",
      Text.trimEnd f.code, "\x60\x60\x60", ""]

/-- The lines of a Markdown page. -/
def markdownLines (r : AnalysisReport) : List String :=
  r.markdownHead
    ++ markdownSection ["## Functions", "| Name | Entry | Signature | Body |", "|---|---:|---|---|"]
      (r.functions.map FunctionRecord.row) []
    ++ markdownSection ["## Symbols", "| Name | Address | Type | Source |", "|---|---:|---|---|"]
      (r.symbols.map SymbolRecord.row) []
    ++ r.markdownEntryFunction
    ++ markdownSection ["## Disassembly", "\x60\x60\x60asm"]
      (r.disassembly.map InstructionRecord.line) ["\x60\x60\x60"]

/-- The report as a Markdown page. -/
def markdown (r : AnalysisReport) : String := Text.joinLines r.markdownLines

end AnalysisReport

/-- The error report as a Markdown page. -/
def ErrorReport.markdown (r : ErrorReport) : String :=
  Text.joinLines ["# Analysis report", "", "- Program: " ++ r.programName, "- Status: error",
    "- Message: " ++ r.message]

/-- A report as a Markdown page. -/
def Report.markdown : Report → String
  | .whole r => r.markdown
  | .failed r => r.markdown

namespace AnalysisReport

/-! ## Listing -/

/-- The lines of the head of a listing. -/
def listingHead (r : AnalysisReport) : List String :=
  ["; Disassembly", "; Binary: " ++ r.programName, "; Entry Point: " ++ r.entryPoint,
    "; Architecture: " ++ r.language, "; Image Base: " ++ r.imageBase, ";", ""]

/-- The disassembly with a head. -/
def listing (r : AnalysisReport) : String :=
  Text.joinLines (r.listingHead ++ r.disassembly.map InstructionRecord.line)

/-! ## Decompiler view -/

/-- The lines of the head of the view. -/
def codeHead (r : AnalysisReport) : List String :=
  ["// Decompiler", "// Binary: " ++ r.programName, "// Entry Point: " ++ r.entryPoint,
    "// Architecture: " ++ r.language, "//", ""]

/-- The lines of the decompiled function. -/
def codeEntryFunction (r : AnalysisReport) : List String :=
  match r.entryFunction? with
  | none => []
  | some f =>
    ["// Function: " ++ f.name, "// Address: " ++ f.entryPoint, ""] ++ Text.lines f.code ++ [""]

/-- The functions that are not the decompiled one. -/
def otherFunctions (r : AnalysisReport) : List FunctionRecord :=
  match r.entryFunction? with
  | none => r.functions
  | some entry => r.functions.filter fun f => f.entryPoint ≠ entry.entryPoint

/-- The lines of the functions that are not the decompiled one. -/
def codeOthers (r : AnalysisReport) : List String :=
  ["", "// Other Functions:", ""] ++ r.otherFunctions.flatMap fun f =>
    ["// " ++ f.name ++ " @ " ++ f.entryPoint, "// " ++ f.signature, ""]

/-- The decompiled function and the declarations of the others. -/
def code (r : AnalysisReport) : String :=
  Text.joinLines (r.codeHead ++ r.codeEntryFunction ++ r.codeOthers)

/-- The same as a host makes it: the lines of the code are appended by one call. -/
def codeView (rt : Runtime) (r : AnalysisReport) : Except Failure String := do
  let lines ← match r.entryFunction? with
    | none => .ok r.codeHead
    | some f => do
      let lines ← rt.pushAll
        (r.codeHead ++ ["// Function: " ++ f.name, "// Address: " ++ f.entryPoint, ""])
        (Text.lines f.code)
      .ok (lines ++ [""])
  .ok (Text.joinLines (lines ++ r.codeOthers))

end AnalysisReport

end BinaryReport
