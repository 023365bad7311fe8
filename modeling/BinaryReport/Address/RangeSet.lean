import BinaryReport.Address.Basic

/-!
# Range sets

A range set is built from inclusive ranges in any order. They are sorted by their first addresses
and those that overlap or touch are merged. A range whose last address precedes its first is legal
and covers nothing.
-/

namespace BinaryReport

/-- A range of addresses, both ends included. -/
structure AddressRange where
  /-- The first address. -/
  first : Address
  /-- The last address. -/
  last : Address
deriving DecidableEq

namespace AddressRange

/-- Whether an address lies in the range. -/
def contains (r : AddressRange) (a : Address) : Bool :=
  r.first.offset ≤ a.offset && a.offset ≤ r.last.offset

/-- The range that begins like `r` and ends with the later end of the two. -/
def extend (r s : AddressRange) : AddressRange :=
  if r.last.offset < s.last.offset then ⟨r.first, s.last⟩ else r

/-- The text of a range: its ends in canonical form. -/
def text (r : AddressRange) : String :=
  "[" ++ r.first.canonical ++ ", " ++ r.last.canonical ++ "]"

end AddressRange

/-- A set of addresses as a list of ranges. -/
structure RangeSet where
  /-- The ranges, by ascending first address. -/
  ranges : List AddressRange
deriving DecidableEq

namespace RangeSet

/-- Whether the first range does not start after the second. -/
def startsBefore (r s : AddressRange) : Bool := r.first.offset ≤ s.first.offset

/-- Merges sorted ranges into a current one: a range that overlaps or touches it extends it, any
other begins a new one. -/
def mergeFrom (current : AddressRange) : List AddressRange → List AddressRange
  | [] => [current]
  | r :: rest =>
    if r.first.offset ≤ current.last.offset + 1 then mergeFrom (current.extend r) rest
    else current :: mergeFrom r rest

/-- Merges sorted ranges. -/
def mergeSorted : List AddressRange → List AddressRange
  | [] => []
  | r :: rest => mergeFrom r rest

/-- The set that ranges in any order cover. -/
def ofRanges (ranges : List AddressRange) : RangeSet := ⟨mergeSorted (ranges.mergeSort startsBefore)⟩

/-- Whether an address is in the set. -/
def contains (s : RangeSet) (a : Address) : Bool := s.ranges.any (·.contains a)

/-- The first address of the first range. -/
def min? (s : RangeSet) : Option Address := s.ranges.head?.map (·.first)

/-- The last address of the last range. -/
def max? (s : RangeSet) : Option Address := s.ranges.getLast?.map (·.last)

/-- The texts of the ranges, separated by spaces. -/
def text (s : RangeSet) : String := " ".intercalate (s.ranges.map AddressRange.text)

end RangeSet

end BinaryReport
