/-!
# Splitting and searching text

`splitAt` cuts a text at every occurrence of a character, and `splitFirst?` at the first occurrence
of a word.
-/

namespace BinaryReport.Text

/-- The pieces of a text between the occurrences of a separator; there is always at least one. -/
def splitAt (separator : Char) : List Char → List (List Char)
  | [] => [[]]
  | c :: cs =>
    if c = separator then [] :: splitAt separator cs
    else
      match splitAt separator cs with
      | [] => [[c]]
      | piece :: rest => (c :: piece) :: rest

/-- The rest of a text after a beginning. -/
def dropBeginning? : (beginning text : List Char) → Option (List Char)
  | [], text => some text
  | _ :: _, [] => none
  | b :: beginning, c :: text => if b = c then dropBeginning? beginning text else none

/-- What stands before and after the first occurrence of a word. -/
def splitFirst? (word : List Char) : List Char → Option (List Char × List Char)
  | [] => (dropBeginning? word []).map fun rest => ([], rest)
  | c :: cs =>
    match dropBeginning? word (c :: cs) with
    | some rest => some ([], rest)
    | none => (splitFirst? word cs).map fun (before, rest) => (c :: before, rest)

/-- The lines of a text: its pieces between line feeds. -/
def lines (s : String) : List String := (splitAt '\n' s.toList).map String.ofList

/-- The lines joined by line feeds. -/
def joinLines (lines : List String) : String := "\n".intercalate lines

end BinaryReport.Text
