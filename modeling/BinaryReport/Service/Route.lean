import BinaryReport.Service.Message
import BinaryReport.Service.Query

/-!
# Routes

What a request is for, by its method and its path. Letters of either case count as the same, and a
slash at the end of a path does not count. The name of a tool in a path is percent encoded.
-/

namespace BinaryReport

/-- What a request is for. -/
inductive Route where
  /-- Whether the service is there. -/
  | health
  /-- The list of the tools. -/
  | tools
  /-- The report of the program. -/
  | report
  /-- To run a tool. -/
  | tool (name : String)
  /-- Nothing; the path has a name that cannot be decoded. -/
  | undecodable (name : String)
  /-- Nothing that is offered. -/
  | unknown
deriving DecidableEq

namespace Route

/-- A path in small letters and without a slash at its end. -/
def plain (path : List Char) : List Char :=
  let cs := path.map Char.toLower
  if cs.getLast? = some '/' then cs.dropLast else cs

/-- The paths that have no parameters. -/
def fixed : List (List Char × Route) :=
  [("/health".toList, .health), ("/tools".toList, .tools), ("/report".toList, .report)]

/-- The name of a tool in a path: one that has no slash and is not empty. -/
def toolName? (path : List Char) : Option (List Char) :=
  let name := (path.drop 7).takeWhile (· ≠ '/')
  let behind := (path.drop 7).dropWhile (· ≠ '/')
  if (path.take 7).map Char.toLower = "/tools/".toList ∧ !name.isEmpty
      ∧ (behind = [] ∨ behind = ['/'])
  then some name else none

/-- The route of a path that has a tool's name in it. -/
def ofToolName (isPost : Bool) (name : List Char) : Route :=
  match Percent.decode? name with
  | none => .undecodable (String.ofList name)
  | some decoded => if isPost then .tool (String.ofList decoded) else .unknown

/-- The route of a request to a path. -/
def ofPath (r : Request) (path : List Char) : Route :=
  match fixed.lookup (plain path) with
  | some route => if r.isGet then route else .unknown
  | none =>
    match toolName? path with
    | some name => ofToolName (r.hasMethod "POST") name
    | none => .unknown

end Route

end BinaryReport
