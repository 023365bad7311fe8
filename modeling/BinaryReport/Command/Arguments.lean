import BinaryReport.Check
import BinaryReport.Report.Format
import BinaryReport.Text.Split

/-!
# Command line arguments

Arguments are split into positionals and options; an option is a token that begins with two dashes,
and takes the token after it as its value, whatever that is. Options may stand anywhere, and of
several of one name the last counts. A request for help goes before everything behind it.
-/

namespace BinaryReport

/-- What the command line asks for. -/
inductive Command where
  /-- Print a report of a snapshot. -/
  | analyze (snapshot : String) (format : ReportFormat) (maxInstructions? : Option Binary64)
    (timeoutSeconds? : Option Binary64)
  /-- Name the symbol at an address. -/
  | rename (snapshot address name : String)
  /-- Give the data at an address another type. -/
  | retype (snapshot address type : String)
  /-- Print the usage. -/
  | help
  /-- The arguments make no sense; the message says why. -/
  | usage (message : String)
deriving DecidableEq

namespace Command

/-! ## Splitting -/

/-- The arguments by their roles. -/
inductive Split where
  /-- Help is asked for. -/
  | help
  /-- An option has no value. -/
  | missingValue (token : String)
  /-- The positionals, and the options with their values, each in order. -/
  | parts (positionals : List String) (options : List (String × String))
deriving DecidableEq

/-- Whether a token asks for help. -/
def isHelp (token : String) : Bool := token == "--help" || token == "-h"

/-- The name of the option that a token is. -/
def optionName? (token : String) : Option String :=
  (Text.dropBeginning? ['-', '-'] token.toList).map String.ofList

/-- Adds a positional in front. -/
def Split.addPositional (token : String) : Split → Split
  | .parts positionals options => .parts (token :: positionals) options
  | other => other

/-- Adds an option in front. -/
def Split.addOption (name value : String) : Split → Split
  | .parts positionals options => .parts positionals ((name, value) :: options)
  | other => other

/-- Splits the arguments. -/
def split : List String → Split
  | [] => .parts [] []
  | token :: rest =>
    if isHelp token then .help
    else
      match optionName? token, rest with
      | none, rest => (split rest).addPositional token
      | some _, [] => .missingValue token
      | some name, value :: rest => (split rest).addOption name value

/-! ## Options -/

/-- The one name under which no option can be given. -/
def unsettable : String := "__proto__"

/-- The options as an object: the last value of each name. -/
def optionObject (options : List (String × String)) : Json :=
  .ofMembers ((options.filter fun o => o.1 ≠ unsettable).map fun o => (o.1, .string o.2))

/-- Whether there are no options. -/
def hasNoOptions (options : List (String × String)) : Bool :=
  options.all fun o => o.1 = unsettable

/-- The options of a report. -/
structure ReportOptions where
  /-- The largest number of instructions. -/
  maxInstructions? : Option Binary64
  /-- The time limit of the decompiler, in seconds. -/
  timeoutSeconds? : Option Binary64
  /-- The format in which the report is printed. -/
  format : ReportFormat

open Check

/-- The options of a report, with no others. -/
def reportOptions : Check ReportOptions :=
  strictRecord ["max-instructions", "timeout", "format"] fun ms =>
    ReportOptions.mk <$> optional "max-instructions" (numeral [.integer, .positive]) ms
      <*> optional "timeout" (numeral [.positive, .finite]) ms
      <*> withDefault "format" .json (choice ReportFormat.options) ms

/-! ## Commands -/

/-- Reads the arguments of a report. -/
def readAnalyze (positionals : List String) (options : List (String × String)) : Command :=
  match positionals with
  | [snapshot] =>
    match reportOptions.run (optionObject options) with
    | .accepted o => .analyze snapshot o.format o.maxInstructions? o.timeoutSeconds?
    | .refused first _ => .usage first.message
  | _ => .usage "analyze takes exactly one snapshot path"

/-- Reads the arguments of a change. -/
def readChange (command : String) (make : String → String → String → Command)
    (positionals : List String) (options : List (String × String)) : Command :=
  if hasNoOptions options then
    match positionals with
    | [snapshot, address, value] => make snapshot address value
    | _ => .usage (command ++ " takes <snapshot.json> <address> <value>")
  else .usage (command ++ " takes no options")

/-- Reads arguments by their roles. -/
def ofSplit : Split → Command
  | .help => .help
  | .missingValue token => .usage ("Missing value for " ++ token)
  | .parts [] _ => .usage "Missing command"
  | .parts (command :: positionals) options =>
    if command = "analyze" then readAnalyze positionals options
    else if command = "rename" then readChange command .rename positionals options
    else if command = "retype" then readChange command .retype positionals options
    else .usage ("Unknown command: " ++ command)

/-- Reads the arguments. -/
def parse (arguments : List String) : Command := ofSplit (split arguments)

/-- The JSON form of a command. -/
def toJson : Command → Json
  | .analyze snapshot format max? timeout? =>
    .object ([("kind", .string "analyze"), ("snapshot", .string snapshot),
      ("format", .string format.name)]
      ++ (max?.map fun n => ("maxInstructions", Json.number n)).toList
      ++ (timeout?.map fun n => ("timeoutSeconds", Json.number n)).toList)
  | .rename snapshot address name =>
    .object [("kind", .string "rename"), ("snapshot", .string snapshot),
      ("address", .string address), ("name", .string name)]
  | .retype snapshot address type =>
    .object [("kind", .string "retype"), ("snapshot", .string snapshot),
      ("address", .string address), ("type", .string type)]
  | .help => .object [("kind", .string "help")]
  | .usage message => .object [("kind", .string "usage"), ("error", .string message)]

end Command

end BinaryReport
