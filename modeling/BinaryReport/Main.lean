import BinaryReport.Command.Run
import BinaryReport.Text.Utf8

/-!
# The program

Reads the environment and the snapshot of a command, does what the command asks for, and writes
what the run has written.
-/

namespace BinaryReport.Command

/-- Why the system could not read a file. The system's number for a directory is 21, and its number
for a name that is too long is 36. -/
def readErrorOf : IO.Error → ReadError
  | .noFileOrDirectory _ _ _ => .missing
  | .inappropriateType _ code _ => if code = 21 then .directory else .notDirectory
  | .invalidArgument _ code details => if code = 36 then .nameTooLong else .other details
  | .permissionDenied _ _ _ => .denied
  | e => .other (toString e)

/-- Reads a file of the system. -/
def readFile (path : String) : IO (Except ReadError String) := do
  try
    let bytes ← IO.FS.readBinFile path
    return .ok (Text.Utf8.decode bytes.toList)
  catch e => return .error (readErrorOf e)

/-- The variables of the system's environment that are looked at. -/
def readEnvironment : IO Environment :=
  Config.variableNames.filterMapM fun name => do
    return (← IO.getEnv name).map fun value => (name, value)

/-- Reads the files that a command needs. -/
def readFiles (command : Command) : IO FileReader := do
  match command.snapshotPath? with
  | none => return fun _ => .error .missing
  | some path =>
    let content ← readFile path
    return fun _ => content

end BinaryReport.Command

/-- Does what the arguments ask for; the exit code is that of the run, or one if something was raised. -/
def main (arguments : List String) : IO UInt32 := do
  let command := BinaryReport.Command.parse arguments
  let result := command.run .standard (← command.readFiles) (← BinaryReport.Command.readEnvironment)
  for text in result.stdout do IO.print text
  for text in result.stderr do IO.eprint text
  match result.exit with
  | .ok code => return UInt32.ofNat code
  | .error r =>
    IO.eprintln r.summary
    return 1
