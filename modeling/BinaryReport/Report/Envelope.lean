import BinaryReport.Json.Reader
import BinaryReport.Report.Schema
import BinaryReport.Text.Blank

/-!
# Envelopes

A JSON document is found among other output by two markers on lines of their own: one before it and
one after it. Reading takes what stands between the first start marker and the first end marker
behind it.
-/

namespace BinaryReport.Envelope

/-- The marker before the document. -/
def startMarker : String := "__BINREPORT_JSON_START__"

/-- The marker after the document. -/
def endMarker : String := "__BINREPORT_JSON_END__"

/-- The document between its markers. -/
def format (payload : Json) : String :=
  startMarker ++ "\n" ++ payload.pretty ++ "\n" ++ endMarker ++ "\n"

/-- What stands between the markers, trimmed. -/
def extract? (output : String) : Option String := do
  let (_, rest) ← Text.splitFirst? startMarker.toList output.toList
  let (body, _) ← Text.splitFirst? endMarker.toList rest
  some (String.ofList (Text.trimChars body))

/-! ## Reading -/

/-- Why there is no document to read. -/
inductive Problem where
  /-- The markers are missing. -/
  | noBlock
  /-- What stands between them is not JSON. -/
  | invalidJson
deriving DecidableEq

/-- What is said about a document that cannot be read. -/
def Problem.message : Problem → String
  | .noBlock => "No marked JSON block in output"
  | .invalidJson => "Failed to parse output: invalid JSON"

/-- Reads the document. -/
def document (output : String) : Except Problem Json :=
  match extract? output with
  | none => .error .noBlock
  | some text =>
    match Json.read? text with
    | none => .error .invalidJson
    | some v => .ok v

/-- What an envelope with a report holds. -/
inductive ReportContent where
  /-- A report or what takes its place. -/
  | report (r : Report)
  /-- Neither; the reason says why. -/
  | invalid (reason : String)
deriving DecidableEq

/-- What an envelope with the outcome of a change holds. -/
inductive MutationContent where
  /-- The outcome of a change. -/
  | mutation (r : MutationResult)
  /-- Something else; the reason says why. -/
  | invalid (reason : String)
deriving DecidableEq

/-- What is said about a document that is no report. -/
def unexpectedShape (i : Issue) : String :=
  let place := PathStep.pathText i.path
  "Unexpected report shape at " ++ (if place.isEmpty then "(root)" else place) ++ ": " ++ i.message

/-- The report that a document is. -/
def reportOf (v : Json) : ReportContent :=
  match ErrorReport.check.run v with
  | .accepted r => .report (.failed r)
  | .refused _ _ =>
    match AnalysisReport.check.run v with
    | .accepted r => .report (.whole r)
    | .refused first _ => .invalid (unexpectedShape first)

/-- Reads a report from the output that holds it. -/
def readReport (output : String) : ReportContent :=
  match document output with
  | .ok v => reportOf v
  | .error p => .invalid p.message

/-- Reads the outcome of a change from the output that holds it. -/
def readMutation (output : String) : MutationContent :=
  match document output with
  | .error p => .invalid p.message
  | .ok v =>
    match MutationResult.check.run v with
    | .accepted r => .mutation r
    | .refused _ _ => .invalid "Unexpected mutation result shape"

/-! ## JSON forms -/

/-- The JSON form of what an envelope with a report holds. -/
def ReportContent.toJson : ReportContent → Json
  | .report (.whole r) => .object [("kind", .string "report"), ("report", r.toJson)]
  | .report (.failed r) => .object [("kind", .string "error"), ("report", r.toJson)]
  | .invalid reason => .object [("kind", .string "invalid"), ("reason", .string reason)]

/-- The JSON form of what an envelope with the outcome of a change holds. -/
def MutationContent.toJson : MutationContent → Json
  | .mutation r => .object [("kind", .string "mutation"), ("result", r.toJson)]
  | .invalid reason => .object [("kind", .string "invalid"), ("reason", .string reason)]

end BinaryReport.Envelope
