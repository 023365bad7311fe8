import BinaryReport.Binary64.Shortest
import BinaryReport.Text.Digits

/-!
# Values of a query

A query gives texts to names. A name that is given more than once has a list, a name with parts a
list or a table. `merge` puts a part into the value that is there already, and `combine` joins the
values of a key that is given again.

Lists are short: one that would grow past a thousand items becomes a table of its indices. Such a
table knows its last index, so that what is added without a key of its own goes behind it.

A name that has a table can be given a text as well. The text is put beside the table, in a list
that the table leads, and texts and items that come later go to the end of that list. Entries turn
a list into a table. If a table leads the list it is that table, with the other items at their
indices, else it is the table of all indices.
-/

namespace BinaryReport

/-- A value of a query. -/
inductive QueryValue where
  /-- A text. -/
  | text (s : String)
  /-- A place in a list at which nothing was put. -/
  | hole
  /-- A list. A list is led by its first item if that is a table that a text was put beside. -/
  | list (items : List QueryValue) (led : Bool)
  /-- A table. One that took the place of a list that had grown too long knows its last index. -/
  | table (entries : List (String × QueryValue)) (lastIndex? : Option Binary64)
deriving Inhabited

namespace QueryValue

/-- The largest number of items of a list. -/
def listLimit : Nat := 1000

/-- Whether a value has parts. -/
def isContainer : QueryValue → Bool
  | .list _ _ => true
  | .table _ _ => true
  | _ => false

/-- Whether a value is a place at which nothing was put. -/
def isHole : QueryValue → Bool
  | .hole => true
  | _ => false

/-! ## Indices -/

/-- The key of the place of an item. -/
def placeKey (n : Nat) : String := String.ofList (Nat.toDigits 10 n)

/-- The index that a key spells: digits that are the text of the number that they denote. -/
def index? (key : String) : Option Binary64 :=
  (Text.readDigits? 10 key.toList).bind fun n =>
    if (Binary64.ofNat n).text == key then some (.ofNat n) else none

/-- The index behind an index. -/
def nextIndex (x : Binary64) : Binary64 := x + Binary64.ofNat 1

/-- The last index once some keys have been added. -/
def raise (entries : List (String × QueryValue)) (last : Binary64) : Binary64 :=
  (entries.filterMap fun e => index? e.1).foldl
    (fun last x => if Binary64.lt last x then x else last) last

/-- The last index of a table that takes some entries, where `own?` is the one that it had and
`other?` the one that came with the entries. -/
def raise? (own? other? : Option Binary64) (entries : List (String × QueryValue)) :
    Option Binary64 :=
  (own?.or other?).map (raise entries)

/-! ## Lists and tables -/

/-- The items of a list with the keys of their places from one on, without the holes. -/
def indexed (start : Nat) : List QueryValue → List (String × QueryValue)
  | [] => []
  | .hole :: rest => indexed (start + 1) rest
  | v :: rest => (placeKey start, v) :: indexed (start + 1) rest

/-- The entries of a table that leads a list, with the other items at their indices. An entry that
the table has already stays what it is. -/
def spread (entries : List (String × QueryValue)) (others : List QueryValue) :
    List (String × QueryValue) :=
  entries ++ (indexed 1 others).filter fun e => !entries.any fun own => own.1 == e.1

/-- The table of a list that has grown too long. -/
def overflow (items : List QueryValue) : QueryValue :=
  .table (indexed 0 items) (some (.ofNat (items.length - 1)))

/-- The value of a list: a table if there are too many items. -/
def ofItems (led : Bool) (items : List QueryValue) : QueryValue :=
  if listLimit < items.length then overflow items else .list items led

/-- Sets the entry of a key. -/
def setEntry (key : String) (v : QueryValue) :
    List (String × QueryValue) → List (String × QueryValue)
  | [] => [(key, v)]
  | e :: rest => if e.1 == key then (key, v) :: rest else e :: setEntry key v rest

/-- The entry of a key. -/
def entry? (key : String) (entries : List (String × QueryValue)) : Option QueryValue :=
  entries.lookup key

/-- Adds a value to a table behind its last index. -/
def append (entries : List (String × QueryValue)) (last : Binary64) (v : QueryValue) : QueryValue :=
  let next := nextIndex last
  .table (setEntry next.text v entries) (some next)

/-- The entries with their indices moved by one, behind a first value. -/
def shift (first : QueryValue) (entries : List (String × QueryValue)) :
    List (String × QueryValue) :=
  entries.foldl
    (fun done e =>
      setEntry ((((index? e.1).map nextIndex).getD Binary64.nan).text) e.2 done)
    [(placeKey 0, first)]

/-- The items that a value contributes to a list. -/
def asItems : QueryValue → List QueryValue
  | .list items _ => items
  | v => [v]

/-- Joins the values of a key that is given again. -/
def combine (a b : QueryValue) : QueryValue :=
  match a with
  | .table entries (some last) => append entries last b
  | a => ofItems false (asItems a ++ asItems b)

/-! ## Merging -/

/-- Merges a text into a value. It goes to the end of a list, which becomes a table if it is full,
behind the last index of a table that has one, and beside any other table. -/
def mergeText (target : QueryValue) (s : String) : QueryValue :=
  match target with
  | .table entries (some last) => append entries last (.text s)
  | .table entries none => .list [.table entries none, .text s] true
  | .list items led => ofItems led (items ++ [.text s])
  | target => .list [target, .text s] false

mutual

/-- Merges a part of a value into what is there. -/
def merge (target : QueryValue) : QueryValue → QueryValue
  | .hole => target
  | .text s => if s.isEmpty then target else mergeText target s
  | .list items _ =>
    match target with
    | .list old led => .list (mergeItems [] old items) led
    | .table entries last? => .table (mergeIndexed entries 0 items) last?
    | target => ofItems false (target :: items)
  | .table entries last? =>
    match target with
    | .list (.table old oldLast? :: others) true =>
      .table (mergeEntries (spread old others) entries) (raise? oldLast? last? entries)
    | .list old _ => .table (mergeEntries (indexed 0 old) entries) (raise? none last? entries)
    | .table old oldLast? => .table (mergeEntries old entries) (raise? oldLast? last? entries)
    | target =>
      match last? with
      | some last => .table (shift target entries) (some (nextIndex last))
      | none => .list [target, .table entries none] false
termination_by structural part => part

/-- Merges the items of a list into the rest of a list, given the items before it in reverse:
containers at one place are merged, and an item whose place is taken is added at the end. The
limit does not count here. -/
def mergeItems (done old : List QueryValue) : List QueryValue → List QueryValue
  | [] => done.reverse ++ old
  | v :: rest =>
    match old with
    | [] => mergeItems (v :: done) [] rest
    | place :: old =>
      if v.isHole then mergeItems (place :: done) old rest
      else if place.isHole then mergeItems (v :: done) old rest
      else if place.isContainer && v.isContainer then
        mergeItems (merge place v :: done) old rest
      else mergeItems (place :: done) (old ++ [v]) rest
termination_by structural items => items

/-- Merges the items of a list from an index on into the entries of a table. A table that took the
place of a list is longer than any list, so its last index stays what it is. -/
def mergeIndexed (old : List (String × QueryValue)) (n : Nat) :
    List QueryValue → List (String × QueryValue)
  | [] => old
  | v :: rest =>
    if v.isHole then mergeIndexed old (n + 1) rest
    else
      match entry? (placeKey n) old with
      | none => mergeIndexed (setEntry (placeKey n) v old) (n + 1) rest
      | some place => mergeIndexed (setEntry (placeKey n) (merge place v) old) (n + 1) rest
termination_by structural items => items

/-- Merges the entries of a table. -/
def mergeEntries (old : List (String × QueryValue)) :
    List (String × QueryValue) → List (String × QueryValue)
  | [] => old
  | (key, v) :: rest =>
    match entry? key old with
    | none => mergeEntries (setEntry key v old) rest
    | some place => mergeEntries (setEntry key (merge place v) old) rest
termination_by structural entries => entries

end

/-! ## Display -/

mutual

/-- How a value reads as text: the items of a list joined by commas, and a fixed text for a table.
A table with an entry `toString` has no text, since the entry stands for the operation that would
give it. -/
def display? : QueryValue → Option String
  | .text s => some s
  | .hole => some ""
  | .list items _ => (displayItems? items).map ",".intercalate
  | .table entries _ =>
    if entries.any fun e => e.1 == "toString" then none else some "[object Object]"

/-- How the items of a list read, without the holes. -/
def displayItems? : List QueryValue → Option (List String)
  | [] => some []
  | .hole :: rest => displayItems? rest
  | v :: rest =>
    match display? v, displayItems? rest with
    | some s, some ss => some (s :: ss)
    | _, _ => none

end

end QueryValue

end BinaryReport
