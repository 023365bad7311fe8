import BinaryReport.Json.Printer

/-!
# Failures

What an operation can raise: a failure of a kind with a message, or a bare value. Operations of the
library return causes of their own types (an address error, a placement error, ...); they become
failures where different causes meet.

A failure shows itself in three ways: by its `name`, by its `summary` (the message, or the name if
the message is empty) and by its `trace`. A bare value is shown as its text; there are values that
have none, and where one of them has to be shown, `Raised.unshowable` is raised instead.
-/

namespace BinaryReport

/-- The kinds of failure. -/
inductive FailureKind where
  /-- A failure of no particular kind. -/
  | general
  /-- A value of a wrong type. -/
  | type
  /-- A number outside the range of an operation. -/
  | range
  /-- A failure of the analysis engine of no particular kind. -/
  | engine
  /-- Text that denotes no address. -/
  | addressParse
  /-- A displacement that leaves the address space. -/
  | addressOverflow
  /-- Text that denotes no data type. -/
  | typeParse
  /-- A text that cannot be a symbol's name. -/
  | invalidName
  /-- Data that would overlap what is already there. -/
  | dataConflict
  /-- A program snapshot that cannot be read or loaded. -/
  | snapshot
  /-- An environment that cannot be used. -/
  | config
deriving DecidableEq

namespace FailureKind

/-- The name that is shown for a kind. -/
def name : FailureKind → String
  | .general => "Error"
  | .type => "TypeError"
  | .range => "RangeError"
  | .engine => "EngineError"
  | .addressParse => "AddressParseError"
  | .addressOverflow => "AddressOverflowError"
  | .typeParse => "TypeParseError"
  | .invalidName => "InvalidNameError"
  | .dataConflict => "DataConflictError"
  | .snapshot => "SnapshotError"
  | .config => "ConfigError"

end FailureKind

/-- A failure. -/
structure Failure where
  /-- What kind of failure it is. -/
  kind : FailureKind
  /-- The message, possibly empty. -/
  message : String
  /-- A name that is shown in place of the kind's own. -/
  alias? : Option String := none
  /-- Whether the failure recorded where it arose. -/
  traced : Bool := true

namespace Failure

/-- The name that is shown. -/
def name (f : Failure) : String := f.alias?.getD f.kind.name

/-- The message, or the name if the message is empty. -/
def summary (f : Failure) : String := if f.message.isEmpty then f.name else f.message

/-- The name and the message. A recorded trace leaves out what is empty. -/
def trace (f : Failure) : String :=
  if f.traced && f.message.isEmpty then f.name
  else if f.traced && f.name.isEmpty then f.message
  else f.name ++ ": " ++ f.message

/-- A failure of a kind with a message. -/
def ofKind (kind : FailureKind) (message : String) : Failure := Failure.mk kind message none true

/-- The failure to show a value that has no text. -/
def unshowable : Failure := ofKind .type "Cannot convert object to primitive value"

end Failure

/-- What an operation raises. -/
inductive Raised where
  /-- A failure. -/
  | failure (f : Failure)
  /-- A value that is no failure. -/
  | value (v : Json)

namespace Raised

/-- A failure of a kind with a message. -/
def ofKind (kind : FailureKind) (message : String) : Raised := .failure (.ofKind kind message)

/-- The message that is shown, if there is a text. -/
def message? : Raised → Option String
  | .failure f => some f.summary
  | .value v => v.display?

/-- The trace that is shown, if there is a text. -/
def trace? : Raised → Option String
  | .failure f => some f.trace
  | .value v => v.display?

/-- What is raised where a value without a text has to be shown. -/
def unshowable : Raised := .failure .unshowable

/-- The message that is shown; where there is no text, that of what is raised instead. -/
def summary (r : Raised) : String := r.message?.getD Failure.unshowable.summary

/-- The message that is shown, or what is raised if there is no text. -/
def message (r : Raised) : Except Raised String :=
  match r.message? with
  | some s => .ok s
  | none => .error unshowable

/-- The kind of what is raised, if it is a failure. -/
def kind? : Raised → Option FailureKind
  | .failure f => some f.kind
  | .value _ => none

end Raised

end BinaryReport
