import BinaryReport.Check
import BinaryReport.Report.Assembly

/-!
# Tools

The tools that are offered to clients: what each is called, what it says about itself, whether it
changes the program, and the arguments it takes. `Tool.read` turns arguments into a `ToolCall`,
with the bounds that are not given taken from defaults.
-/

namespace BinaryReport

/-- A tool. -/
inductive Tool where
  /-- Makes a report. -/
  | report
  /-- Lists instructions from an address on. -/
  | disassemble
  /-- Decompiles the function that contains an address. -/
  | decompile
  /-- Names a symbol. -/
  | rename
  /-- Gives data another type. -/
  | retype
deriving DecidableEq

/-- A tool with its arguments. -/
inductive ToolCall where
  /-- Makes a report within limits. -/
  | report (limits : Limits)
  /-- Lists up to `count` instructions from an address on. -/
  | disassemble (address : String) (count : Binary64)
  /-- Decompiles the function that contains an address, within a time limit. -/
  | decompile (address : String) (timeoutSeconds : Binary64)
  /-- Names the symbol at an address. -/
  | rename (address name : String)
  /-- Gives the data at an address another type. -/
  | retype (address type : String)
deriving DecidableEq

namespace Tool

/-- All tools in the order in which they are listed. -/
def all : List Tool := [.report, .disassemble, .decompile, .rename, .retype]

/-- The name of a tool. -/
def name : Tool → String
  | .report => "program_report"
  | .disassemble => "disassemble"
  | .decompile => "decompile_function"
  | .rename => "rename_symbol"
  | .retype => "set_data_type"

/-- What a tool does. -/
def description : Tool → String
  | .report => "Entry point, entry function decompilation, function and symbol catalogs and a "
      ++ "disassembly window, as one report"
  | .disassemble => "Linear disassembly from an address, up to count instructions"
  | .decompile => "Decompile the function containing an address; function is null when there is "
      ++ "none or decompilation did not complete"
  | .rename => "Rename the first symbol at an address (user-defined provenance)"
  | .retype => "Apply a C type (e.g. int, char *, char[16]) to existing data at an address"

/-- Whether a tool changes the program. -/
def mutates : Tool → Bool
  | .rename => true
  | .retype => true
  | _ => false

/-- The tool of a name. -/
def ofName? (name : String) : Option Tool := all.find? fun t => t.name == name

/-- The description of a tool as a JSON value. -/
def toJson (t : Tool) : Json :=
  .object [("name", .string t.name), ("description", .string t.description),
    ("mutates", .bool t.mutates)]

/-- The list of all tools as a JSON value. -/
def catalog : Json := .array (all.map toJson)

/-- The list of all tools as text, one line each. -/
def catalogText : String :=
  "\n".intercalate (all.map fun t => "- " ++ t.name ++ ": " ++ t.description)

/-! ## Arguments -/

open Check

/-- The largest number of instructions that a client may ask for. -/
def maxCount : Nat := 10000

/-- A number of instructions. -/
def countCheck : Check Binary64 := number [.integer, .positive, .atMost maxCount]

/-- A time limit. -/
def timeoutCheck : Check Binary64 := number [.positive, .finite]

/-- The arguments that a tool takes. -/
def argumentCheck (defaults : Limits) : Tool → Check ToolCall
  | .report => record fun ms =>
    (fun count? timeout? => ToolCall.report
      ⟨count?.getD defaults.maxInstructions, timeout?.getD defaults.timeoutSeconds⟩)
      <$> optional "maxInstructions" countCheck ms <*> optional "timeoutSeconds" timeoutCheck ms
  | .disassemble => record fun ms =>
    (fun address count? => ToolCall.disassemble address (count?.getD defaults.maxInstructions))
      <$> required "address" anyText ms <*> optional "count" countCheck ms
  | .decompile => record fun ms =>
    (fun address timeout? => ToolCall.decompile address (timeout?.getD defaults.timeoutSeconds))
      <$> required "address" anyText ms <*> optional "timeoutSeconds" timeoutCheck ms
  | .rename => record fun ms =>
    ToolCall.rename <$> required "address" anyText ms <*> required "name" anyText ms
  | .retype => record fun ms =>
    ToolCall.retype <$> required "address" anyText ms <*> required "type" anyText ms

/-- The arguments, or an empty object in place of null. -/
def orEmpty : Json → Json
  | .null => .object []
  | v => v

/-- Reads the arguments of a tool. -/
def read (defaults : Limits) (t : Tool) (arguments : Json) : Verdict ToolCall :=
  (t.argumentCheck defaults).run (orEmpty arguments)

end Tool

end BinaryReport
