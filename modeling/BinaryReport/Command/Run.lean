import BinaryReport.Command.Arguments
import BinaryReport.Command.Files
import BinaryReport.Config
import BinaryReport.Engine.Mutation
import BinaryReport.Json.Reader

/-!
# Running a command

A run reads its snapshot, does what the command asks for, and writes to two streams: a line about the
answer to the error stream, the answer itself to the output. What goes wrong behind the arguments
becomes part of the answer, so a run ends with the code zero unless the arguments make no sense. What
is raised while an answer is put together or printed ends the run without a code; what was written
before stays.
-/

namespace BinaryReport

/-- What a run has written, and how it ends. -/
structure CommandResult where
  /-- The code, or what the run raised. -/
  exit : Except Raised Nat
  /-- The texts written to the output, in order. -/
  stdout : List String
  /-- The texts written to the error stream, in order. -/
  stderr : List String

namespace Snapshot

/-- The text of a file. A path with a null character is refused before anything is read. -/
def textOfFile (read : FileReader) (path : String) : Except ReadError String :=
  if path.toList.contains '\x00' then .error .nullCharacter else read path

/-- Reads a snapshot from a file. -/
def ofFile (read : FileReader) (path : String) : Except Failure Snapshot :=
  match textOfFile read path with
  | .error e =>
    .error (.ofKind .snapshot ("Cannot read snapshot " ++ path ++ ": " ++ e.message path))
  | .ok text =>
    match Json.read? text with
    | none => .error (.ofKind .snapshot ("Snapshot " ++ path ++ " is not valid JSON: invalid JSON"))
    | some v => parse v

end Snapshot

namespace Command

/-- How the command is used. -/
def usageText : String :=
  "usage: binreport analyze <snapshot.json> [--max-instructions N] [--timeout S] "
    ++ "[--format json|markdown|listing|c]\n"
    ++ "       binreport rename  <snapshot.json> <address> <name>\n"
    ++ "       binreport retype  <snapshot.json> <address> <type>"

/-- The engine of a snapshot in a file. -/
def engineOf (read : FileReader) (path : String) : Except Failure Engine := do
  let snapshot ← Snapshot.ofFile read path
  Engine.ofSnapshot snapshot

/-! ## Reports -/

/-- The limits of a report: those of the options, else those of the settings. -/
def limitsOf (config : Config) (max? timeout? : Option Binary64) : Limits :=
  ⟨max?.getD config.maxInstructions, timeout?.getD config.timeoutSeconds⟩

/-- The settings and the engine of a run; the settings come first. -/
def prepare (read : FileReader) (env : Environment) (path : String) :
    Except Failure (Config × Engine) := do
  let config ← Config.load env
  let engine ← engineOf read path
  .ok (config, engine)

/-- The report that a run makes; what making it raises is reported, too, if it has a text. -/
def reportOf [Services] (read : FileReader) (env : Environment) (path : String)
    (max? timeout? : Option Binary64) : Except Raised Report :=
  match prepare read env path with
  | .error f => .ok (.failed (.ofFailure f (.ok "")))
  | .ok (config, engine) =>
    match (Report.build engine (limitsOf config max? timeout?)).2.outcome with
    | .ok report => .ok report
    | .error r => (ErrorReport.ofRaised r engine.name).map .failed

/-- The line about a report. -/
def reportLine : Report → String
  | .failed r => "[headless] analysis failed: " ++ r.message ++ "\n"
  | .whole r =>
    "[headless] " ++ r.programName ++ ": " ++ countText r.functions.length ++ " functions, "
      ++ countText r.symbols.length ++ " symbols, " ++ countText r.disassembly.length
      ++ " instructions\n"

/-- The end of a run that makes a report: the line about it comes before the report is printed. -/
def reportResult (rt : Runtime) (format : ReportFormat) (r : Report) : CommandResult :=
  match r.printed rt format with
  | .ok text => ⟨.ok 0, [text], [reportLine r]⟩
  | .error f => ⟨.error (.failure f), [], [reportLine r]⟩

/-! ## Changes -/

/-- The outcome of a change that a run makes; what it raises is an outcome, too, if it has a text. -/
def changeOf (read : FileReader) (path : String)
    (change : Engine → Engine × Except Raised MutationResult) : Except Raised MutationResult :=
  match engineOf read path with
  | .error f => .ok ⟨false, f.summary⟩
  | .ok engine =>
    match (change engine).2 with
    | .ok r => .ok r
    | .error r => r.message.map fun message => ⟨false, message⟩

/-- The line about a change. -/
def changeLine (command address : String) (r : MutationResult) : String :=
  "[headless] " ++ command ++ " " ++ address ++ ": " ++ r.message ++ "\n"

/-- The end of a run that makes a change. -/
def changeResult (command address : String) (r : MutationResult) : CommandResult :=
  ⟨.ok 0, [Envelope.format r.toJson], [changeLine command address r]⟩

/-- A run that goes on with an answer, unless something is raised before there is one. -/
def resultOf {α : Type} (answer : Except Raised α) (result : α → CommandResult) : CommandResult :=
  match answer with
  | .ok a => result a
  | .error r => ⟨.error r, [], []⟩

/-! ## Runs -/

/-- The file that a command reads. -/
def snapshotPath? : Command → Option String
  | .analyze path _ _ _ => some path
  | .rename path _ _ => some path
  | .retype path _ _ => some path
  | .help => none
  | .usage _ => none

/-- Does what a command asks for. -/
def run [Services] (rt : Runtime) (read : FileReader) (env : Environment) : Command → CommandResult
  | .help => ⟨.ok 0, [usageText ++ "\n"], []⟩
  | .usage message => ⟨.ok 2, [], [message ++ "\n" ++ usageText ++ "\n"]⟩
  | .analyze path format max? timeout? =>
    resultOf (reportOf read env path max? timeout?) (reportResult rt format)
  | .rename path address name =>
    resultOf (changeOf read path fun e => e.renameSymbol address name)
      (changeResult "rename" address)
  | .retype path address type =>
    resultOf (changeOf read path fun e => e.retypeData address type)
      (changeResult "retype" address)

/-- Does what the arguments ask for. -/
def runArguments [Services] (rt : Runtime) (read : FileReader) (env : Environment)
    (arguments : List String) : CommandResult :=
  (parse arguments).run rt read env

end Command

end BinaryReport
