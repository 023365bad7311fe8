/-!
# Text measured in UTF-16 units

Column widths and the order of address space names count UTF-16 code units: a character of the
basic plane is one unit, any other is a surrogate pair.
-/

namespace BinaryReport.Text

/-- The UTF-16 code units of a character. -/
def units (c : Char) : List Nat :=
  let n := c.toNat
  if n < 0x10000 then [n]
  else [0xD800 + (n - 0x10000) / 0x400, 0xDC00 + (n - 0x10000) % 0x400]

/-- The number of UTF-16 units of a text. -/
def unitLength (cs : List Char) : Nat := (cs.flatMap units).length

/-- Pads with spaces on the right to `width` units; longer text is unchanged. -/
def padRight (width : Nat) (s : String) : String :=
  s ++ String.ofList (List.replicate (width - unitLength s.toList) ' ')

/-- Pads with a character on the left to `width` characters; longer text is unchanged. -/
def padLeft (width : Nat) (c : Char) (cs : List Char) : List Char :=
  List.replicate (width - cs.length) c ++ cs

/-- The lexicographic order of two texts by their UTF-16 units. -/
def compareUnits (s t : String) : Ordering :=
  compareLex (s.toList.flatMap units) (t.toList.flatMap units)
where
  /-- The lexicographic order of lists of numbers; a proper beginning comes first. -/
  compareLex : List Nat → List Nat → Ordering
    | [], [] => .eq
    | [], _ :: _ => .lt
    | _ :: _, [] => .gt
    | a :: as, b :: bs => (compare a b).then (compareLex as bs)

end BinaryReport.Text
