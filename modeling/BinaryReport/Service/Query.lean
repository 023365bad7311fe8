import BinaryReport.Service.Percent
import BinaryReport.Service.Query.Value
import BinaryReport.Text.Split

/-!
# Query strings

A query is a list of keys with values, between ampersands. A key that is given more than once has a
list as its value, and a key with brackets describes a part of a value: `k[]` an item of a list,
`k[3]` the item of an index, `k[name]` an entry of a table. The parts of one key are merged.

Brackets are matched: what stands between a bracket and the bracket that closes it may have
brackets of its own. A bracket that nothing closes is part of a last name.
-/

namespace BinaryReport

namespace Query

/-! ## Keys -/

/-- A step of a key: a plain name, or what stands between brackets. -/
inductive KeyStep where
  /-- The name before the brackets. -/
  | name (s : List Char)
  /-- What stands between brackets. -/
  | bracket (s : List Char)

/-- The text before the bracket that closes a group, and the text behind it, where `inner` groups
inside that group are still open. -/
def splitGroup? : (inner : Nat) → List Char → Option (List Char × List Char)
  | _, [] => none
  | 0, ']' :: cs => some ([], cs)
  | inner + 1, ']' :: cs => (splitGroup? inner cs).map fun (inside, rest) => (']' :: inside, rest)
  | inner, '[' :: cs =>
    (splitGroup? (inner + 1) cs).map fun (inside, rest) => ('[' :: inside, rest)
  | inner, c :: cs => (splitGroup? inner cs).map fun (inside, rest) => (c :: inside, rest)

/-- The largest number of groups that are looked at; what remains of a longer key is one step. -/
def depthLimit : Nat := 5

/-- The bracket steps of the rest of a key. What stands between two groups does not count. -/
def bracketSteps (depth : Nat) (cs : List Char) : List KeyStep :=
  match cs.dropWhile (· ≠ '[') with
  | [] => []
  | c :: rest =>
    match depth, splitGroup? 0 rest with
    | depth + 1, some (inside, rest) => .bracket inside :: bracketSteps depth rest
    | _, _ => [.bracket (c :: rest)]

/-- The steps of a key. -/
def keySteps (key : List Char) : List KeyStep :=
  let name := key.takeWhile (· ≠ '[')
  (if name.isEmpty then [] else [.name name]) ++ bracketSteps depthLimit key

/-- The one name that no entry can have. -/
def unsettable : List Char := "__proto__".toList

/-- The table with one entry. -/
def single (key : List Char) (v : QueryValue) : QueryValue :=
  .table (if key = unsettable then [] else [(String.ofList key, v)]) none

/-- The value that describes a value at a bracket step. -/
def atBracket (inside : List Char) (v : QueryValue) : QueryValue :=
  if inside.isEmpty then
    match v with
    | .table _ (some _) => v
    | v => QueryValue.ofItems false v.asItems
  else
    match QueryValue.index? (String.ofList inside) with
    | some x =>
      if Binary64.lt x (.ofNat QueryValue.listLimit) then
        .list (List.replicate x.truncate.toNat .hole ++ [v]) false
      else .table [(String.ofList inside, v)] (some x)
    | none => single inside v

/-- The value that describes a value at a step. -/
def atStep (step : KeyStep) (v : QueryValue) : QueryValue :=
  match step with
  | .name key => single key v
  | .bracket inside => atBracket inside v

/-- The table that a key and its value describe. -/
def ofKey (key : List Char) (v : QueryValue) : QueryValue := (keySteps key).foldr atStep v

/-! ## Pairs -/

/-- Writes encoded brackets as brackets. -/
def plainBrackets : List Char → List Char
  | '%' :: '5' :: c :: rest =>
    if c = 'B' ∨ c = 'b' then '[' :: plainBrackets rest
    else if c = 'D' ∨ c = 'd' then ']' :: plainBrackets rest
    else '%' :: '5' :: plainBrackets (c :: rest)
  | c :: rest => c :: plainBrackets rest
  | [] => []

/-- Decodes a key or a value; text that is not well formed stays as it is. -/
def decodePart (cs : List Char) : List Char :=
  let spaced := cs.map fun c => if c = '+' then ' ' else c
  (Percent.decode? spaced).getD spaced

/-- Splits a pair at the equals sign behind a closing bracket, else at the first one. A pair
without an equals sign is a key with an empty value. -/
def splitPair (part : List Char) : List Char × List Char :=
  match Text.splitFirst? [']', '='] part with
  | some (before, value) => (before ++ [']'], value)
  | none =>
    match Text.splitFirst? ['='] part with
    | some (key, value) => (key, value)
    | none => (part, [])

/-- The largest number of pairs that are looked at. -/
def pairLimit : Nat := 1000

/-- Adds a pair: the values of one key are joined. -/
def addPair (entries : List (String × QueryValue)) (part : List Char) :
    List (String × QueryValue) :=
  let (key, value) := splitPair part
  let key := String.ofList (decodePart key)
  let v := QueryValue.text (String.ofList (decodePart value))
  match QueryValue.entry? key entries with
  | none => QueryValue.setEntry key v entries
  | some old => QueryValue.setEntry key (old.combine v) entries

/-- The keys of a query with their values. -/
def pairs (query : List Char) : List (String × QueryValue) :=
  if query.isEmpty then []
  else ((Text.splitAt '&' (plainBrackets query)).take pairLimit).foldl addPair []

/-- Reads a query, as the table of its values. -/
def parse (query : List Char) : QueryValue :=
  (pairs query).foldl
    (fun table p => if p.1.isEmpty then table else table.merge (ofKey p.1.toList p.2))
    (.table [] none)

/-- The value of a name in a query. -/
def get? (name : String) (query : QueryValue) : Option QueryValue :=
  match query with
  | .table entries _ => QueryValue.entry? name entries
  | _ => none

/-- Whether the value of a name is a text. -/
def isText (name text : String) (query : QueryValue) : Bool :=
  match get? name query with
  | some (.text s) => s == text
  | _ => false

end Query

end BinaryReport
