import BinaryReport.Json.Printer

/-!
# Verdicts

Checking a value against a schema either accepts it, with what it denotes, or refuses it with all
the issues found, in order. Checks are combined so that every part is looked at: `Verdict.apply`
keeps the issues of both sides, the left ones first. An issue says where it was found, as a path
from the value that was checked, and what is wrong there.
-/

namespace BinaryReport

/-- One step of a path into a JSON value. -/
inductive PathStep where
  /-- To the member of a key. -/
  | key (name : String)
  /-- To the item of an index. -/
  | index (n : Nat)
deriving DecidableEq

namespace PathStep

/-- The text of a step. -/
def text : PathStep → String
  | .key name => name
  | .index n => String.ofList (Nat.toDigits 10 n)

/-- The step as a JSON value. -/
def toJson : PathStep → Json
  | .key name => .string name
  | .index n => .number (.ofNat n)

/-- The text of a path: its steps joined by points. -/
def pathText (path : List PathStep) : String := ".".intercalate (path.map text)

/-- The text of a path, with a name for the empty one. -/
def pathName (path : List PathStep) : String :=
  if path.isEmpty then "(root)" else pathText path

end PathStep

/-- What is wrong with a value. -/
inductive Complaint where
  /-- It is not there. -/
  | missing (expected : String)
  /-- It is of another type. -/
  | mismatch (expected received : String)
  /-- It is a number with a fraction, or not finite. -/
  | notInteger
  /-- It is a number that is less than zero, or zero where that is not allowed. -/
  | tooSmall (zeroAllowed : Bool)
  /-- It is a number above a limit. -/
  | tooBig (limit : Nat)
  /-- It is not finite. -/
  | notFinite
  /-- It is an empty string. -/
  | emptyText
  /-- It is an empty array. -/
  | emptyArray
  /-- It is a string of a wrong form; the message says which form is expected. -/
  | badForm (message : String)
  /-- It is a string, but none of the listed ones. -/
  | badChoice (options : List String) (received : String)
  /-- It is none of the listed values. -/
  | noneOf
  /-- It is an object with keys that are not known. -/
  | unknownKeys (keys : List String)
deriving DecidableEq

namespace Complaint

/-- The names in single quotes. -/
def quotedNames (separator : String) (names : List String) : String :=
  separator.intercalate (names.map fun name => "'" ++ name ++ "'")

/-- What is said about a value. -/
def message : Complaint → String
  | .missing _ => "Required"
  | .mismatch expected received => "Expected " ++ expected ++ ", received " ++ received
  | .notInteger => "Expected integer, received float"
  | .tooSmall zeroAllowed =>
    "Number must be greater than " ++ (if zeroAllowed then "or equal to " else "") ++ "0"
  | .tooBig limit =>
    "Number must be less than or equal to " ++ String.ofList (Nat.toDigits 10 limit)
  | .notFinite => "Number must be finite"
  | .emptyText => "String must contain at least 1 character(s)"
  | .emptyArray => "Array must contain at least 1 element(s)"
  | .badForm message => message
  | .badChoice options received =>
    "Invalid enum value. Expected " ++ quotedNames " | " options ++ ", received '" ++ received
      ++ "'"
  | .noneOf => "Invalid input"
  | .unknownKeys keys => "Unrecognized key(s) in object: " ++ quotedNames ", " keys

/-- The members that a kind of size limit has in a full issue. -/
def sizeMembers (bound : String) (limit : Nat) (type : String) (inclusive : Bool) :
    List (String × Json) :=
  [(bound, .number (.ofNat limit)), ("type", .string type), ("inclusive", .bool inclusive),
    ("exact", .bool false)]

/-- The code of a complaint and the members that go with it. -/
def members : Complaint → List (String × Json)
  | .missing expected =>
    [("code", .string "invalid_type"), ("expected", .string expected),
      ("received", .string "undefined")]
  | .mismatch expected received =>
    [("code", .string "invalid_type"), ("expected", .string expected),
      ("received", .string received)]
  | .notInteger =>
    [("code", .string "invalid_type"), ("expected", .string "integer"),
      ("received", .string "float")]
  | .tooSmall zeroAllowed =>
    ("code", .string "too_small") :: sizeMembers "minimum" 0 "number" zeroAllowed
  | .tooBig limit => ("code", .string "too_big") :: sizeMembers "maximum" limit "number" true
  | .notFinite => [("code", .string "not_finite")]
  | .emptyText => ("code", .string "too_small") :: sizeMembers "minimum" 1 "string" true
  | .emptyArray => ("code", .string "too_small") :: sizeMembers "minimum" 1 "array" true
  | .badForm _ => [("validation", .string "regex"), ("code", .string "invalid_string")]
  | .badChoice options received =>
    [("received", .string received), ("code", .string "invalid_enum_value"),
      ("options", .strings options)]
  | .noneOf => [("code", .string "invalid_union")]
  | .unknownKeys keys => [("code", .string "unrecognized_keys"), ("keys", .strings keys)]

end Complaint

/-- Something wrong at a place of a value. -/
structure Issue where
  /-- The path to the place. -/
  path : List PathStep
  /-- What is wrong there. -/
  complaint : Complaint
deriving DecidableEq

namespace Issue

/-- What is said about the issue. -/
def message (i : Issue) : String := i.complaint.message

/-- The issue with a step before its path. -/
def under (step : PathStep) (i : Issue) : Issue := ⟨step :: i.path, i.complaint⟩

/-- The full issue. -/
def toJson (i : Issue) : Json :=
  .object (i.complaint.members
    ++ [("path", .array (i.path.map PathStep.toJson)), ("message", .string i.message)])

end Issue

/-- The outcome of a check. -/
inductive Verdict (α : Type) where
  /-- The value is accepted and denotes `value`. -/
  | accepted (value : α)
  /-- The value is refused; there is at least one issue. -/
  | refused (first : Issue) (others : List Issue)

namespace Verdict

variable {α β : Type}

/-- A refusal for one reason at the place itself. -/
def complain (c : Complaint) : Verdict α := .refused ⟨[], c⟩ []

/-- A refusal for the listed issues, if there are any. -/
def ofIssues (value : α) : List Issue → Verdict α
  | [] => .accepted value
  | first :: others => .refused first others

/-- Changes what an accepted value denotes. -/
def map (f : α → β) : Verdict α → Verdict β
  | .accepted a => .accepted (f a)
  | .refused first others => .refused first others

/-- Joins two verdicts; all issues are kept, those of the left side first. -/
def apply (f : Verdict (α → β)) (a : Verdict α) : Verdict β :=
  match f, a with
  | .accepted f, .accepted a => .accepted (f a)
  | .accepted _, .refused first others => .refused first others
  | .refused first others, .accepted _ => .refused first others
  | .refused first others, .refused first' others' => .refused first (others ++ first' :: others')

instance : Functor Verdict where
  map := map
  mapConst := map ∘ Function.const _

instance : Seq Verdict where
  seq f a := apply f (a ())

/-- The verdict on a part, with the step to the part before each path. -/
def under (step : PathStep) : Verdict α → Verdict α
  | .accepted a => .accepted a
  | .refused first others => .refused (first.under step) (others.map (Issue.under step))

/-- All the issues. -/
def issues : Verdict α → List Issue
  | .accepted _ => []
  | .refused first others => first :: others

/-- What an accepted value denotes. -/
def value? : Verdict α → Option α
  | .accepted a => some a
  | .refused _ _ => none

end Verdict

end BinaryReport
