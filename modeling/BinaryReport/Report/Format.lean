import BinaryReport.Report.Envelope
import BinaryReport.Report.Layout

/-!
# Formats of a report

The four formats in which a report can be asked for, and how the command line prints them on a host.
-/

namespace BinaryReport

/-- A format of a report. -/
inductive ReportFormat where
  /-- The JSON document. -/
  | json
  /-- The Markdown page. -/
  | markdown
  /-- The disassembly listing. -/
  | listing
  /-- The decompiler view. -/
  | code
deriving DecidableEq

namespace ReportFormat

/-- The name of a format. -/
def name : ReportFormat → String
  | .json => "json"
  | .markdown => "markdown"
  | .listing => "listing"
  | .code => "c"

/-- All formats in the order in which messages list them. -/
def all : List ReportFormat := [.json, .markdown, .listing, .code]

/-- The formats with their names. -/
def options : List (String × ReportFormat) := all.map fun f => (f.name, f)

/-- The format of a name. -/
def ofName? (name : String) : Option ReportFormat := options.lookup name

end ReportFormat

/-- A whole report in a text format; the JSON document stands in an envelope. -/
def AnalysisReport.printed (rt : Runtime) (r : AnalysisReport) :
    ReportFormat → Except Failure String
  | .json => .ok (Envelope.format r.toJson)
  | .markdown => .ok (r.markdown ++ "\n")
  | .listing => .ok (r.listing ++ "\n")
  | .code => (r.codeView rt).map (· ++ "\n")

/-- A report as the command line prints it. An error report has no listing and no code. -/
def Report.printed (rt : Runtime) (format : ReportFormat) : Report → Except Failure String
  | .whole r => r.printed rt format
  | .failed r => .ok (if format = .json then Envelope.format r.toJson else r.markdown ++ "\n")

end BinaryReport
