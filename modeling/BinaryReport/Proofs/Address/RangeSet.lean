import BinaryReport.Address.RangeSet
import BinaryReport.Proofs.Sorting

/-!
# What range sets cover

Merging neither adds nor loses addresses: a range set covers what the ranges that it was built from
cover, in whatever order they come and whether or not some of them are inverted (`contains_ofRanges`).
What a list of ranges covers (`Covers`) is the same before the ranges are sorted, after it and after
they are merged (`contains_iff_covers`).
-/

namespace BinaryReport

theorem AddressRange.contains_iff {r : AddressRange} {a : Address} :
    r.contains a = true ↔ r.first.offset ≤ a.offset ∧ a.offset ≤ r.last.offset := by
  unfold contains
  rw [Bool.and_eq_true, decide_eq_true_iff, decide_eq_true_iff]

/-- A range that is extended by one that starts in it or right behind it covers both. -/
theorem AddressRange.contains_extend {r s : AddressRange} {a : Address}
    (hstart : r.first.offset ≤ s.first.offset) (hmeet : s.first.offset ≤ r.last.offset + 1) :
    (r.extend s).contains a = true ↔ r.contains a = true ∨ s.contains a = true := by
  unfold extend
  split
  · rw [contains_iff, contains_iff, contains_iff]
    dsimp only
    omega
  · rw [contains_iff, contains_iff]
    omega

theorem AddressRange.first_extend (r s : AddressRange) : (r.extend s).first = r.first := by
  unfold extend
  split
  · rfl
  · rfl

namespace RangeSet

theorem contains_iff {s : RangeSet} {a : Address} :
    s.contains a = true ↔ ∃ r ∈ s.ranges, r.contains a = true := List.any_eq_true

theorem exists_mem_mergeFrom {current : AddressRange} {rest : List AddressRange} {a : Address}
    (hstarts : ∀ r ∈ rest, current.first.offset ≤ r.first.offset)
    (hsorted : rest.Pairwise fun r s => r.first.offset ≤ s.first.offset) :
    (∃ r ∈ mergeFrom current rest, r.contains a = true) ↔
      current.contains a = true ∨ ∃ r ∈ rest, r.contains a = true := by
  induction rest generalizing current with
  | nil => simp [mergeFrom]
  | cons r rest ih =>
    obtain ⟨hr, hrest⟩ := List.pairwise_cons.1 hsorted
    rw [mergeFrom]
    by_cases hmeet : r.first.offset ≤ current.last.offset + 1
    · have hfirst : ∀ s ∈ rest, (current.extend r).first.offset ≤ s.first.offset := by
        intro s hs
        rw [AddressRange.first_extend]
        exact hstarts s (List.mem_cons_of_mem r hs)
      have hextend := AddressRange.contains_extend (a := a) (hstarts r List.mem_cons_self) hmeet
      rw [if_pos hmeet, ih hfirst hrest, hextend, or_assoc, List.exists_mem_cons_iff]
    · rw [if_neg hmeet, List.exists_mem_cons_iff, ih hr hrest, List.exists_mem_cons_iff]

theorem exists_mem_mergeSorted {ranges : List AddressRange} {a : Address}
    (hsorted : ranges.Pairwise fun r s => r.first.offset ≤ s.first.offset) :
    (∃ r ∈ mergeSorted ranges, r.contains a = true) ↔ ∃ r ∈ ranges, r.contains a = true := by
  cases ranges with
  | nil => rfl
  | cons r rest =>
    obtain ⟨hr, hrest⟩ := List.pairwise_cons.1 hsorted
    rw [mergeSorted, exists_mem_mergeFrom hr hrest, List.exists_mem_cons_iff]

/-- A set covers what its ranges cover. -/
theorem contains_ofRanges {ranges : List AddressRange} {a : Address} :
    (ofRanges ranges).contains a = true ↔ ∃ r ∈ ranges, r.contains a = true := by
  have hsorted : (ranges.mergeSort startsBefore).Pairwise
      (fun r s => r.first.offset ≤ s.first.offset) :=
    Sorting.pairwise_mergeSort (fun r => r.first.offset) ranges
  rw [contains_iff, ofRanges, exists_mem_mergeSorted hsorted]
  constructor
  · rintro ⟨r, hr, ha⟩
    exact ⟨r, List.mem_mergeSort.1 hr, ha⟩
  · rintro ⟨r, hr, ha⟩
    exact ⟨r, List.mem_mergeSort.2 hr, ha⟩

/-- Whether some of the ranges reaches from an address at or before `a` to one at or behind it. An
inverted range does so for no address. -/
def Covers (ranges : List AddressRange) (a : Address) : Prop :=
  ∃ r ∈ ranges, r.first.offset ≤ a.offset ∧ a.offset ≤ r.last.offset

theorem contains_iff_covers_ranges {s : RangeSet} {a : Address} :
    s.contains a = true ↔ Covers s.ranges a := by
  simp only [contains_iff, AddressRange.contains_iff, Covers]

theorem covers_mergeSort {ranges : List AddressRange} {a : Address} :
    Covers (ranges.mergeSort startsBefore) a ↔ Covers ranges a := by
  simp only [Covers, List.mem_mergeSort]

/-- The set that is built from ranges contains the addresses that some of them covers. Sorting the
ranges changes nothing about what they cover, and merging the sorted ones does not either. -/
theorem contains_iff_covers (ranges : List AddressRange) (a : Address) :
    ((ofRanges ranges).contains a = true ↔ Covers ranges a) ∧
      (Covers (ranges.mergeSort startsBefore) a ↔ Covers ranges a) ∧
        (Covers (ofRanges ranges).ranges a ↔ Covers (ranges.mergeSort startsBefore) a) := by
  have hbuilt : (ofRanges ranges).contains a = true ↔ Covers ranges a := by
    simp only [contains_ofRanges, AddressRange.contains_iff, Covers]
  refine ⟨hbuilt, covers_mergeSort, ?_⟩
  rw [← contains_iff_covers_ranges, hbuilt, covers_mergeSort]

-- The inverted range is sorted first, and the one behind it begins a range of its own.
example : (ofRanges [⟨⟨6⟩, ⟨9⟩⟩, ⟨⟨4⟩, ⟨2⟩⟩]).ranges = [⟨⟨4⟩, ⟨2⟩⟩, ⟨⟨6⟩, ⟨9⟩⟩] := by
  simp [ofRanges, mergeSorted, mergeFrom, startsBefore, List.mergeSort]

end RangeSet

end BinaryReport
