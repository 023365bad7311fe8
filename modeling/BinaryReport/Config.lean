import BinaryReport.Check
import BinaryReport.Report.Assembly

/-!
# Configuration

The settings of the service, read from environment variables. Numbers are read from text in free
form; a variable that is not set has a default, one that cannot be used makes the whole environment
unusable.
-/

namespace BinaryReport

/-- The variables of an environment. -/
abbrev Environment := List (String × String)

/-- The settings of the service. -/
structure Config where
  /-- The port on which it listens. -/
  port : Binary64
  /-- The snapshot that it serves, if one is set. -/
  snapshotPath? : Option String
  /-- The time limit of the decompiler, in seconds. -/
  timeoutSeconds : Binary64
  /-- The largest number of instructions of a report. -/
  maxInstructions : Binary64
deriving DecidableEq

namespace Config

open Check

/-- The port when none is set. -/
def defaultPort : Binary64 := .ofNat 8787

/-- The rules about counts. -/
def countRules : List NumberRule := [.integer, .positive]

/-- The rules about time limits. -/
def timeoutRules : List NumberRule := [.positive, .finite]

/-- Reads the variables. -/
def check : Check Config := record fun ms =>
  Config.mk <$> withDefault "PORT" defaultPort (numeral countRules) ms
    <*> optional "BINREPORT_SNAPSHOT" nonemptyText ms
    <*> withDefault "BINREPORT_DECOMPILE_TIMEOUT" Limits.standard.timeoutSeconds
      (numeral timeoutRules) ms
    <*> withDefault "BINREPORT_MAX_INSTRUCTIONS" Limits.standard.maxInstructions
      (numeral countRules) ms

/-- The variables that are read. -/
def variableNames : List String :=
  ["PORT", "BINREPORT_SNAPSHOT", "BINREPORT_DECOMPILE_TIMEOUT", "BINREPORT_MAX_INSTRUCTIONS"]

/-- The failure of a variable that cannot be used. -/
def invalid (i : Issue) : Failure :=
  .ofKind .config
    ("Invalid environment variable " ++ PathStep.pathText i.path ++ ": " ++ i.message)

/-- Reads the settings from an environment. -/
def load (env : Environment) : Except Failure Config :=
  match check.run (.object (env.map fun v => (v.1, .string v.2))) with
  | .accepted c => .ok c
  | .refused first _ => .error (invalid first)

/-- The settings as a JSON value. -/
def toJson (c : Config) : Json :=
  .object [("port", .number c.port), ("snapshotPath", .ofText? c.snapshotPath?),
    ("decompileTimeoutSeconds", .number c.timeoutSeconds),
    ("maxInstructions", .number c.maxInstructions)]

end Config

end BinaryReport
