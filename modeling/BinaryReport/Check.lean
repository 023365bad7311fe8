import BinaryReport.Binary64.Numeral
import BinaryReport.Verdict

/-!
# Checks

The building blocks of schemas. A check says what it expects and gives its verdict on a value.
Records are checked member by member in the order of the schema, whatever the order of the members
in the value; members the schema does not list are ignored, or refused after all other issues.
-/

namespace BinaryReport

/-- The name of a value's type in messages. -/
def Json.typeName : Json → String
  | .null => "null"
  | .bool _ => "boolean"
  | .number .nan => "nan"
  | .number _ => "number"
  | .string _ => "string"
  | .array _ => "array"
  | .object _ => "object"

/-- A check of a value that denotes something of type `α`. -/
structure Check (α : Type) where
  /-- What the check expects, as messages name it. -/
  expected : String
  /-- The verdict on a value. -/
  run : Json → Verdict α

namespace Check

variable {α β : Type}

/-- The refusal of a value of another type. -/
def mismatch (expected : String) (v : Json) : Verdict α :=
  .complain (.mismatch expected v.typeName)

/-! ## Leaves -/

/-- Any string. -/
def anyText : Check String where
  expected := "string"
  run
    | .string s => .accepted s
    | v => mismatch "string" v

/-- A string that is not empty. -/
def nonemptyText : Check String where
  expected := "string"
  run
    | .string s => if s.isEmpty then .complain .emptyText else .accepted s
    | v => mismatch "string" v

/-- A truth value. -/
def bool : Check Bool where
  expected := "boolean"
  run
    | .bool b => .accepted b
    | v => mismatch "boolean" v

/-- One of the listed strings. -/
def choice (options : List (String × α)) : Check α where
  expected := Complaint.quotedNames " | " (options.map Prod.fst)
  run
    | .string s =>
      match options.lookup s with
      | some a => .accepted a
      | none => .complain (.badChoice (options.map Prod.fst) s)
    | v => mismatch (Complaint.quotedNames " | " (options.map Prod.fst)) v

/-! ## Numbers -/

/-- A rule about numbers. -/
inductive NumberRule where
  /-- The number is an integer. -/
  | integer
  /-- The number is greater than zero. -/
  | positive
  /-- The number is not less than zero. -/
  | nonnegative
  /-- The number is finite. -/
  | finite
  /-- The number is not greater than a limit. -/
  | atMost (limit : Nat)
deriving DecidableEq

namespace NumberRule

/-- Whether a number keeps the rule. -/
def holds (x : Binary64) : NumberRule → Bool
  | .integer => x.toInt?.isSome
  | .positive => Binary64.lt (.finite 0) x
  | .nonnegative => Binary64.le (.finite 0) x
  | .finite => x.isFinite
  | .atMost limit => Binary64.le x (.ofNat limit)

/-- What is said about a number that breaks the rule. -/
def complaint : NumberRule → Complaint
  | .integer => .notInteger
  | .positive => .tooSmall false
  | .nonnegative => .tooSmall true
  | .finite => .notFinite
  | .atMost limit => .tooBig limit

/-- The verdict on a number: every rule it breaks is an issue. -/
def judge (rules : List NumberRule) (x : Binary64) : Verdict Binary64 :=
  .ofIssues x ((rules.filter fun r => !r.holds x).map fun r => ⟨[], r.complaint⟩)

end NumberRule

/-- A number that keeps the rules. -/
def number (rules : List NumberRule) : Check Binary64 where
  expected := "number"
  run
    | .number .nan => .complain (.mismatch "number" "nan")
    | .number x => NumberRule.judge rules x
    | v => mismatch "number" v

/-- The number that a value of the environment or of the command line denotes: text in free form. -/
def numeral (rules : List NumberRule) : Check Binary64 where
  expected := "number"
  run
    | .string s => (number rules).run (.number (.ofText s))
    | v => (number rules).run v

/-! ## Arrays -/

/-- The verdicts on the items from an index on. -/
def items (c : Check α) (index : Nat) : List Json → Verdict (List α)
  | [] => .accepted []
  | v :: rest =>
    ((c.run v).under (.index index)).map List.cons |>.apply (items c (index + 1) rest)

/-- An array whose items pass a check. -/
def array (c : Check α) : Check (List α) where
  expected := "array"
  run
    | .array vs => items c 0 vs
    | v => mismatch "array" v

/-- An array whose items pass a check and that has one at least. -/
def nonemptyArray (c : Check α) : Check (List α) where
  expected := "array"
  run
    | .array [] => .complain .emptyArray
    | .array vs => items c 0 vs
    | v => mismatch "array" v

/-- A value that passes a check, or null. -/
def nullable (c : Check α) : Check (Option α) where
  expected := c.expected
  run
    | .null => .accepted none
    | v => (c.run v).map some

/-! ## Records -/

/-- The members of an object. -/
abbrev Members := List (String × Json)

/-- A member that has to be there. -/
def required (key : String) (c : Check α) (ms : Members) : Verdict α :=
  match Json.lookup key ms with
  | some v => (c.run v).under (.key key)
  | none => .refused ⟨[.key key], .missing c.expected⟩ []

/-- A member that may be missing. -/
def optional (key : String) (c : Check α) (ms : Members) : Verdict (Option α) :=
  match Json.lookup key ms with
  | some v => ((c.run v).under (.key key)).map some
  | none => .accepted none

/-- A member that has a default. -/
def withDefault (key : String) (default : α) (c : Check α) (ms : Members) : Verdict α :=
  match Json.lookup key ms with
  | some v => (c.run v).under (.key key)
  | none => .accepted default

/-- An object whose members are read by `read`; others are ignored. -/
def record (read : Members → Verdict α) : Check α where
  expected := "object"
  run
    | .object ms => read ms
    | v => mismatch "object" v

/-- The keys of an object that are not listed. -/
def unknownKeys (known : List String) (ms : Members) : List String :=
  (ms.map Prod.fst).filter fun key => !known.contains key

/-- An object whose members are read by `read` and that has no member beside the known ones. -/
def strictRecord (known : List String) (read : Members → Verdict α) : Check α where
  expected := "object"
  run
    | .object ms =>
      let unknown := unknownKeys known ms
      let rest : Verdict Unit := if unknown.isEmpty then .accepted () else
        .complain (.unknownKeys unknown)
      ((read ms).map fun a _ => a).apply rest
    | v => mismatch "object" v

end Check

end BinaryReport
