import BinaryReport.Proofs.Address.RangeSet
import BinaryReport.Proofs.Address.Text
import BinaryReport.Proofs.Text.Join
import Mathlib.Combinatorics.Enumerative.DoubleCounting
import Mathlib.Data.List.Nodup
import Mathlib.Data.List.Pairwise

/-!
# Canonical range sets

Merging leaves ranges that stand apart: between any two of them there is an address that the set does
not cover (`apart_ofRanges`). If none of them is inverted, they are the stretches of covered addresses
that cannot be made longer (`Canonical.mem_iff`), so what is covered determines them
(`Canonical.eq_of_covers`), and no list with fewer ranges covers the same (`Canonical.length_le`). The
text of a set determines its ranges (`text_injective`), so two sets have the same text if and only if
they cover the same addresses (`text_eq_iff_covers`).
-/

namespace BinaryReport

/-- The range does not end before it begins. -/
def AddressRange.Proper (r : AddressRange) : Prop := r.first.offset ≤ r.last.offset

instance (r : AddressRange) : Decidable r.Proper := inferInstanceAs (Decidable (_ ≤ _))

theorem AddressRange.Proper.extend {r s : AddressRange} (h : r.Proper) : (r.extend s).Proper := by
  unfold Proper at h
  unfold AddressRange.extend
  split
  · next hlt => exact h.trans (le_of_lt hlt)
  · exact h

namespace RangeSet

/-! ## Merged ranges -/

/-- The second range begins behind the first, and does not touch it. -/
def Apart (r t : AddressRange) : Prop := r.last.offset + 1 < t.first.offset

/-- What is merged begins where one of the ranges began. -/
theorem exists_first_of_mem_mergeFrom {current t : AddressRange} {rest : List AddressRange}
    (h : t ∈ mergeFrom current rest) : ∃ r ∈ current :: rest, t.first = r.first := by
  induction rest generalizing current with
  | nil => exact ⟨current, List.mem_cons_self, congrArg AddressRange.first (List.mem_singleton.1 h)⟩
  | cons r rest ih =>
    rw [mergeFrom] at h
    split at h
    · obtain ⟨u, hu, hfirst⟩ := ih h
      rcases List.mem_cons.1 hu with rfl | hu
      · exact ⟨current, List.mem_cons_self, hfirst.trans (AddressRange.first_extend current r)⟩
      · exact ⟨u, List.mem_cons_of_mem _ (List.mem_cons_of_mem _ hu), hfirst⟩
    · rcases List.mem_cons.1 h with rfl | h
      · exact ⟨t, List.mem_cons_self, rfl⟩
      · obtain ⟨u, hu, hfirst⟩ := ih h
        exact ⟨u, List.mem_cons_of_mem _ hu, hfirst⟩

theorem apart_mergeFrom {current : AddressRange} {rest : List AddressRange}
    (hsorted : (current :: rest).Pairwise fun r t => r.first.offset ≤ t.first.offset) :
    (mergeFrom current rest).Pairwise Apart := by
  induction rest generalizing current with
  | nil => exact List.pairwise_singleton _ _
  | cons r rest ih =>
    obtain ⟨hstarts, hrest⟩ := List.pairwise_cons.1 hsorted
    rw [mergeFrom]
    split
    · refine ih (List.pairwise_cons.2 ⟨fun t ht => ?_, hrest.of_cons⟩)
      rw [AddressRange.first_extend]
      exact hstarts t (List.mem_cons_of_mem r ht)
    · next hbehind =>
      refine List.pairwise_cons.2 ⟨fun t ht => ?_, ih hrest⟩
      -- All that is merged behind begins at `r` or later.
      obtain ⟨u, hu, hfirst⟩ := exists_first_of_mem_mergeFrom ht
      have hle : r.first.offset ≤ u.first.offset := by
        rcases List.mem_cons.1 hu with rfl | hu
        · exact le_refl _
        · exact List.rel_of_pairwise_cons hrest hu
      rw [Apart, hfirst]
      omega

/-- The ranges of a set stand apart, also where some of them are inverted. -/
theorem apart_ofRanges (ranges : List AddressRange) : (ofRanges ranges).ranges.Pairwise Apart := by
  have hsorted := Sorting.pairwise_mergeSort (fun r : AddressRange => r.first.offset) ranges
  show (mergeSorted (ranges.mergeSort startsBefore)).Pairwise Apart
  cases hlist : ranges.mergeSort startsBefore with
  | nil => exact .nil
  | cons r rest => exact apart_mergeFrom (hlist ▸ hsorted)

theorem proper_mergeFrom {current : AddressRange} {rest : List AddressRange}
    (h : ∀ r ∈ current :: rest, r.Proper) : ∀ t ∈ mergeFrom current rest, t.Proper := by
  induction rest generalizing current with
  | nil => exact h
  | cons r rest ih =>
    obtain ⟨hcurrent, hrest⟩ := List.forall_mem_cons.1 h
    rw [mergeFrom]
    split
    · exact ih (List.forall_mem_cons.2 ⟨hcurrent.extend, (List.forall_mem_cons.1 hrest).2⟩)
    · exact List.forall_mem_cons.2 ⟨hcurrent, ih hrest⟩

theorem proper_ofRanges {ranges : List AddressRange} (h : ∀ r ∈ ranges, r.Proper) :
    ∀ t ∈ (ofRanges ranges).ranges, t.Proper := by
  have hsorted : ∀ r ∈ ranges.mergeSort startsBefore, r.Proper := by
    intro r hr
    exact h r (List.mem_mergeSort.1 hr)
  show ∀ t ∈ mergeSorted (ranges.mergeSort startsBefore), t.Proper
  cases hlist : ranges.mergeSort startsBefore with
  | nil => exact fun t ht => absurd ht List.not_mem_nil
  | cons r rest => exact proper_mergeFrom (hlist ▸ hsorted)

theorem mergeFrom_ne_nil (current : AddressRange) (rest : List AddressRange) :
    mergeFrom current rest ≠ [] := by
  induction rest generalizing current with
  | nil => exact List.cons_ne_nil _ _
  | cons r rest ih =>
    rw [mergeFrom]
    split
    · exact ih _
    · exact List.cons_ne_nil _ _

theorem ranges_ofRanges_eq_nil_iff {ranges : List AddressRange} :
    (ofRanges ranges).ranges = [] ↔ ranges = [] := by
  have hlength : (ranges.mergeSort startsBefore).length = ranges.length :=
    List.length_mergeSort ranges
  show mergeSorted (ranges.mergeSort startsBefore) = [] ↔ _
  cases hlist : ranges.mergeSort startsBefore with
  | nil =>
    rw [hlist] at hlength
    simp only [mergeSorted, true_iff]
    exact List.eq_nil_of_length_eq_zero hlength.symm
  | cons r rest =>
    rw [hlist] at hlength
    constructor
    · intro h
      exact absurd h (mergeFrom_ne_nil r rest)
    · rintro rfl
      cases hlength

/-! ## Canonical lists of ranges -/

/-- Ranges that stand apart, none of them inverted. -/
structure Canonical (ranges : List AddressRange) : Prop where
  proper : ∀ r ∈ ranges, r.Proper
  apart : ranges.Pairwise Apart

theorem canonical_ofRanges {ranges : List AddressRange} (h : ∀ r ∈ ranges, r.Proper) :
    Canonical (ofRanges ranges).ranges := ⟨proper_ofRanges h, apart_ofRanges ranges⟩

/-- A range of covered addresses whose neighbours on both sides are not covered. -/
structure IsStretch (ranges : List AddressRange) (r : AddressRange) : Prop where
  proper : r.Proper
  covered : ∀ a : Address, r.first.offset ≤ a.offset → a.offset ≤ r.last.offset → Covers ranges a
  before : ∀ a : Address, a.offset + 1 = r.first.offset → ¬ Covers ranges a
  behind : ¬ Covers ranges ⟨r.last.offset + 1⟩

theorem IsStretch.congr {ranges others : List AddressRange} {r : AddressRange}
    (hsame : ∀ a, Covers ranges a ↔ Covers others a) (h : IsStretch ranges r) :
    IsStretch others r where
  proper := h.proper
  covered a hfirst hlast := (hsame a).1 (h.covered a hfirst hlast)
  before a ha := mt (hsame a).2 (h.before a ha)
  behind := mt (hsame _).2 h.behind

namespace Canonical

variable {ranges others : List AddressRange} {r t : AddressRange} {a : Address}

theorem eq_or_apart (h : Canonical ranges) (hr : r ∈ ranges) (ht : t ∈ ranges) :
    r = t ∨ Apart r t ∨ Apart t r := by
  have hsymm : Std.Symm fun r t : AddressRange => Apart r t ∨ Apart t r := ⟨fun r t => Or.symm⟩
  have hall : ranges.Pairwise fun r t => Apart r t ∨ Apart t r := h.apart.imp Or.inl
  by_cases heq : r = t
  · exact Or.inl heq
  · exact Or.inr (hall.forall hr ht heq)

theorem isStretch (h : Canonical ranges) (hr : r ∈ ranges) : IsStretch ranges r := by
  have hproper := h.proper r hr
  unfold AddressRange.Proper at hproper
  constructor
  case proper => exact hproper
  case covered => exact fun a hfirst hlast => ⟨r, hr, hfirst, hlast⟩
  case before =>
    rintro a ha ⟨t, ht, hfirst, hlast⟩
    have hapart := h.eq_or_apart hr ht
    unfold Apart at hapart
    rcases hapart with rfl | hapart | hapart
    all_goals omega
  case behind =>
    rintro ⟨t, ht, hfirst, hlast⟩
    have hapart := h.eq_or_apart hr ht
    unfold Apart at hapart
    dsimp only at hfirst hlast
    rcases hapart with rfl | hapart | hapart
    all_goals omega

/-- The ranges are the stretches of what they cover. -/
theorem mem_iff (h : Canonical ranges) : r ∈ ranges ↔ IsStretch ranges r := by
  refine ⟨h.isStretch, fun hr => ?_⟩
  have hproper := hr.proper
  unfold AddressRange.Proper at hproper
  obtain ⟨t, ht, hfirst, hlast⟩ := hr.covered r.first (le_refl _) hproper
  have hstretch := h.isStretch ht
  -- The range around the first address begins and ends with the stretch.
  have hbegins : t.first.offset = r.first.offset := by
    by_contra hne
    refine hr.before ⟨r.first.offset - 1⟩ ?_ ⟨t, ht, ?_, ?_⟩
    all_goals dsimp only; omega
  have hends : t.last.offset = r.last.offset := by
    rcases Nat.lt_trichotomy t.last.offset r.last.offset with hlt | heq | hgt
    · refine absurd (hr.covered ⟨t.last.offset + 1⟩ ?_ ?_) hstretch.behind
      all_goals dsimp only; omega
    · exact heq
    · refine absurd ⟨t, ht, ?_, ?_⟩ hr.behind
      all_goals dsimp only; omega
  have heq : t = r := by
    obtain ⟨⟨first⟩, ⟨last⟩⟩ := t
    obtain ⟨⟨first'⟩, ⟨last'⟩⟩ := r
    obtain rfl : first = first' := hbegins
    obtain rfl : last = last' := hends
    rfl
  exact heq ▸ ht

theorem ascending (h : Canonical ranges) :
    ranges.Pairwise fun r t => r.first.offset < t.first.offset := by
  refine h.apart.imp_of_mem fun {r t} hr _ hapart => ?_
  have hproper := h.proper r hr
  unfold AddressRange.Proper at hproper
  unfold Apart at hapart
  omega

theorem nodup (h : Canonical ranges) : ranges.Nodup := by
  refine h.ascending.imp fun hlt heq => ?_
  rw [heq] at hlt
  exact lt_irrefl _ hlt

/-- What is covered determines the ranges. -/
theorem eq_of_covers (h : Canonical ranges) (h' : Canonical others)
    (hsame : ∀ a, Covers ranges a ↔ Covers others a) : ranges = others := by
  have hmem (r : AddressRange) : r ∈ ranges ↔ r ∈ others := by
    rw [h.mem_iff, h'.mem_iff]
    exact ⟨.congr hsame, .congr fun a => (hsame a).symm⟩
  have hperm := (List.perm_ext_iff_of_nodup h.nodup h'.nodup).2 hmem
  exact Sorting.eq_of_perm_of_ascending hperm h.ascending h'.ascending

/-- Each range needs one of its own in every list that covers the same: a range of the other list that
covers the beginnings of two of them covers what lies between. -/
theorem length_le (h : Canonical ranges) (hsame : ∀ a, Covers others a ↔ Covers ranges a) :
    ranges.length ≤ others.length := by
  have hown : ∀ r ∈ ranges.toFinset, ∃ t ∈ others.toFinset, t.contains r.first = true := by
    intro r hr
    have hr := List.mem_toFinset.1 hr
    obtain ⟨t, ht, hfirst, hlast⟩ := (hsame r.first).2 ⟨r, hr, le_refl _, h.proper r hr⟩
    exact ⟨t, List.mem_toFinset.2 ht, AddressRange.contains_iff.2 ⟨hfirst, hlast⟩⟩
  have hcard := Finset.card_le_card_of_forall_subsingleton
    (fun r t : AddressRange => t.contains r.first = true) hown ?_
  · rw [List.toFinset_card_of_nodup h.nodup] at hcard
    exact hcard.trans (List.toFinset_card_le others)
  · rintro t ht r ⟨hr, hcontains⟩ u ⟨hu, hcontains'⟩
    have ht := List.mem_toFinset.1 ht
    have hr := List.mem_toFinset.1 hr
    have hu := List.mem_toFinset.1 hu
    obtain ⟨hr₁, hr₂⟩ := AddressRange.contains_iff.1 hcontains
    obtain ⟨hu₁, hu₂⟩ := AddressRange.contains_iff.1 hcontains'
    have hproper := h.proper r hr
    have hproper' := h.proper u hu
    unfold AddressRange.Proper at hproper hproper'
    rcases h.eq_or_apart hr hu with heq | hapart | hapart
    · exact heq
    · unfold Apart at hapart
      refine absurd ((hsame _).1 ⟨t, ht, ?_, ?_⟩) (h.isStretch hr).behind
      all_goals dsimp only; omega
    · unfold Apart at hapart
      refine absurd ((hsame _).1 ⟨t, ht, ?_, ?_⟩) (h.isStretch hu).behind
      all_goals dsimp only; omega

end Canonical

/-! ## Text -/

end RangeSet

/-- No mark between or behind addresses occurs in one. -/
theorem Address.notMem_canonical (a : Address) : ',' ∉ a.canonical.toList ∧ ']' ∉ a.canonical.toList := by
  have hdigits : ∀ d < 16, Nat.digitChar d ≠ ',' ∧ Nat.digitChar d ≠ ']' := by decide
  constructor
  all_goals
    intro h
    rcases cases_of_mem_canonical h with heq | ⟨d, hd, heq⟩
    · exact absurd heq (by decide)
    · have hne := hdigits d hd
      simp only [← heq, ne_eq, not_true_eq_false, and_false, false_and] at hne

namespace AddressRange

theorem toList_text (r : AddressRange) :
    r.text.toList = '[' :: r.first.canonical.toList ++ ',' :: ' ' :: r.last.canonical.toList ++ [']'] := by
  simp [text]

theorem endsIn_text (r : AddressRange) : Text.EndsIn ']' r.text.toList := by
  refine ⟨_, ?_, r.toList_text⟩
  simp only [List.mem_append, List.mem_cons, r.first.notMem_canonical.2, r.last.notMem_canonical.2]
  decide

theorem text_injective : Function.Injective text := by
  intro r t h
  have hchars := congrArg String.toList h
  rw [toList_text, toList_text, List.append_cancel_right_eq] at hchars
  have hcomma (a : Address) : ',' ∉ '[' :: a.canonical.toList := by
    simp only [List.mem_cons, a.notMem_canonical.1]
    decide
  obtain ⟨hfirst, hlast⟩ := Text.append_cons_inj (hcomma r.first) (hcomma t.first) hchars
  have hfirst' := Address.canonical_inj.1 (String.toList_injective (List.cons.inj hfirst).2)
  have hlast' := Address.canonical_inj.1 (String.toList_injective (List.cons.inj hlast).2)
  obtain ⟨first, last⟩ := r
  obtain rfl : first = t.first := hfirst'
  obtain rfl : last = t.last := hlast'
  rfl

end AddressRange

namespace RangeSet

/-- The text of a set determines its ranges. -/
theorem text_injective : Function.Injective text := by
  intro s t h
  have hchars := congrArg String.toList h
  unfold text at hchars
  rw [String.toList_intercalate, String.toList_intercalate] at hchars
  have hpieces (s : RangeSet) :
      ∀ x ∈ (s.ranges.map AddressRange.text).map String.toList, Text.EndsIn ']' x := by
    simp only [List.mem_map, forall_exists_index, and_imp, forall_apply_eq_imp_iff₂]
    exact fun r _ => r.endsIn_text
  have htexts := Text.intercalate_inj_of_endsIn (hpieces s) (hpieces t) hchars
  have hchars : Function.Injective String.toList := fun _ _ => String.toList_injective
  exact congrArg RangeSet.mk (AddressRange.text_injective.list_map (hchars.list_map htexts))

/-! ## Normal forms -/

/-- The address is the least one that is covered. -/
def IsFirst (ranges : List AddressRange) (a : Address) : Prop :=
  Covers ranges a ∧ ∀ b, Covers ranges b → a.offset ≤ b.offset

/-- The address is the greatest one that is covered. -/
def IsLast (ranges : List AddressRange) (a : Address) : Prop :=
  Covers ranges a ∧ ∀ b, Covers ranges b → b.offset ≤ a.offset

namespace Canonical

variable {s : RangeSet} {ranges : List AddressRange} {a : Address}

theorem isFirst_of_cons {r : AddressRange} {rest : List AddressRange}
    (h : Canonical (r :: rest)) : IsFirst (r :: rest) r.first := by
  refine ⟨⟨r, List.mem_cons_self, le_refl _, h.proper r List.mem_cons_self⟩, ?_⟩
  rintro b ⟨t, ht, hfirst, -⟩
  rcases List.mem_cons.1 ht with rfl | ht
  · exact hfirst
  · exact (le_of_lt (List.rel_of_pairwise_cons h.ascending ht)).trans hfirst

theorem isLast_of_concat {r : AddressRange} {front : List AddressRange}
    (h : Canonical (front ++ [r])) : IsLast (front ++ [r]) r.last := by
  have hr : r ∈ front ++ [r] := List.mem_append_right _ (List.mem_singleton_self r)
  have hproper := h.proper r hr
  refine ⟨⟨r, hr, hproper, le_refl _⟩, ?_⟩
  rintro b ⟨t, ht, -, hlast⟩
  rcases List.mem_append.1 ht with ht | ht
  · have hapart := (List.pairwise_append.1 h.apart).2.2 t ht r (List.mem_singleton_self r)
    unfold Apart at hapart
    unfold AddressRange.Proper at hproper
    omega
  · rw [List.mem_singleton.1 ht] at hlast
    exact hlast

theorem min?_eq_some_iff (h : Canonical s.ranges) : s.min? = some a ↔ IsFirst s.ranges a := by
  unfold min?
  cases hranges : s.ranges with
  | nil =>
    constructor
    · intro hnone
      cases hnone
    · rintro ⟨⟨r, hr, -⟩, -⟩
      cases hr
  | cons r rest =>
    have hfirst := isFirst_of_cons (hranges ▸ h)
    constructor
    · intro ha
      exact Option.some.inj ha ▸ hfirst
    · intro ha
      have heq := le_antisymm (hfirst.2 a ha.1) (ha.2 r.first hfirst.1)
      exact congrArg some (congrArg Address.mk heq)

theorem max?_eq_some_iff (h : Canonical s.ranges) : s.max? = some a ↔ IsLast s.ranges a := by
  unfold max?
  rcases List.eq_nil_or_concat s.ranges with hranges | ⟨front, r, hranges⟩
  · rw [hranges]
    constructor
    · intro hnone
      cases hnone
    · rintro ⟨⟨r, hr, -⟩, -⟩
      cases hr
  · rw [List.concat_eq_append] at hranges
    have hlast := isLast_of_concat (hranges ▸ h)
    rw [hranges, List.getLast?_concat]
    constructor
    · intro ha
      exact Option.some.inj ha ▸ hlast
    · intro ha
      have heq := le_antisymm (ha.2 r.last hlast.1) (hlast.2 a ha.1)
      exact congrArg some (congrArg Address.mk heq)

/-- Behind each range an address that is not covered comes before the next one. -/
theorem gaps (h : Canonical ranges) : ranges.Pairwise fun r t =>
    ∃ a : Address, r.last.offset < a.offset ∧ a.offset < t.first.offset ∧ ¬ Covers ranges a := by
  refine h.apart.imp_of_mem fun {r t} hr _ hapart => ?_
  exact ⟨⟨r.last.offset + 1⟩, Nat.lt_succ_self _, hapart, (h.isStretch hr).behind⟩

end Canonical

/-- The set writes what the ranges cover in the only way that has no range too many: in ascending order
and with gaps between its ranges. -/
structure IsNormalForm (ranges : List AddressRange) (s : RangeSet) : Prop where
  covers : ∀ a, Covers s.ranges a ↔ Covers ranges a
  proper : ∀ r ∈ s.ranges, r.Proper
  ascending : s.ranges.Pairwise fun r t => r.first.offset < t.first.offset
  /-- Between two ranges there is an address that is not covered. -/
  gaps : s.ranges.Pairwise fun r t =>
    ∃ a : Address, r.last.offset < a.offset ∧ a.offset < t.first.offset ∧ ¬ Covers ranges a
  min? : ∀ a, s.min? = some a ↔ IsFirst ranges a
  max? : ∀ a, s.max? = some a ↔ IsLast ranges a
  /-- Only a set that is built from no range has no first and no last address. -/
  bounds : (s.min? = none ↔ ranges = []) ∧ (s.max? = none ↔ ranges = [])
  /-- No list with fewer ranges covers the same addresses. -/
  fewest : ∀ others, (∀ a, Covers others a ↔ Covers ranges a) → s.ranges.length ≤ others.length

theorem covers_ofRanges {ranges : List AddressRange} {a : Address} :
    Covers (ofRanges ranges).ranges a ↔ Covers ranges a := by
  rw [← contains_iff_covers_ranges, contains_ofRanges]
  simp only [AddressRange.contains_iff, Covers]

/-- Two sets whose ranges are canonical are equal if what they were built from covers the same. -/
theorem ofRanges_eq_of_covers {ranges others : List AddressRange}
    (h : Canonical (ofRanges ranges).ranges) (h' : Canonical (ofRanges others).ranges)
    (hsame : ∀ a, Covers ranges a ↔ Covers others a) : ofRanges ranges = ofRanges others := by
  have hranges := h.eq_of_covers h' fun a => by rw [covers_ofRanges, covers_ofRanges, hsame]
  exact congrArg RangeSet.mk hranges

theorem isNormalForm_ofRanges {ranges : List AddressRange} (h : ∀ r ∈ ranges, r.Proper) :
    IsNormalForm ranges (ofRanges ranges) := by
  have hcanonical := canonical_ofRanges h
  have hcovers : Covers (ofRanges ranges).ranges = Covers ranges := funext fun a => propext covers_ofRanges
  constructor
  case covers => exact fun a => covers_ofRanges
  case proper => exact hcanonical.proper
  case ascending => exact hcanonical.ascending
  case gaps => exact hcovers ▸ hcanonical.gaps
  case min? =>
    intro a
    rw [hcanonical.min?_eq_some_iff, IsFirst, IsFirst, hcovers]
  case max? =>
    intro a
    rw [hcanonical.max?_eq_some_iff, IsLast, IsLast, hcovers]
  case bounds =>
    rw [RangeSet.min?, RangeSet.max?, Option.map_eq_none_iff, Option.map_eq_none_iff,
      List.head?_eq_none_iff, List.getLast?_eq_none_iff, ranges_ofRanges_eq_nil_iff]
    exact ⟨Iff.rfl, Iff.rfl⟩
  case fewest =>
    intro others hsame
    exact hcanonical.length_le fun a => (hsame a).trans covers_ofRanges.symm

/-- Two sets that are built from ranges of which none is inverted have the same text if and only if the
ranges cover the same addresses, and each of them is a normal form of its ranges. -/
theorem text_eq_iff_covers {ranges others : List AddressRange} (h : ∀ r ∈ ranges, r.Proper)
    (h' : ∀ r ∈ others, r.Proper) :
    ((ofRanges ranges).text = (ofRanges others).text ↔
        ∀ a, Covers ranges a ↔ Covers others a) ∧
      IsNormalForm ranges (ofRanges ranges) ∧ IsNormalForm others (ofRanges others) := by
  refine ⟨⟨fun htext a => ?_, fun hsame => ?_⟩, isNormalForm_ofRanges h, isNormalForm_ofRanges h'⟩
  · rw [← covers_ofRanges, text_injective htext, covers_ofRanges]
  · exact congrArg text (ofRanges_eq_of_covers (canonical_ofRanges h) (canonical_ofRanges h') hsame)

/-- Ranges that overlap and touch, with one address left out between them. -/
def scattered : List AddressRange := [⟨⟨8⟩, ⟨12⟩⟩, ⟨⟨1⟩, ⟨3⟩⟩, ⟨⟨7⟩, ⟨9⟩⟩, ⟨⟨4⟩, ⟨5⟩⟩]

/-- Other ranges that cover the same addresses. -/
def regrouped : List AddressRange := [⟨⟨2⟩, ⟨5⟩⟩, ⟨⟨7⟩, ⟨12⟩⟩, ⟨⟨1⟩, ⟨4⟩⟩]

theorem ofRanges_scattered : ofRanges scattered = ⟨[⟨⟨1⟩, ⟨5⟩⟩, ⟨⟨7⟩, ⟨12⟩⟩]⟩ := by
  simp [ofRanges, scattered, mergeSorted, mergeFrom, AddressRange.extend, startsBefore,
    List.mergeSort]

theorem ofRanges_regrouped : ofRanges regrouped = ⟨[⟨⟨1⟩, ⟨5⟩⟩, ⟨⟨7⟩, ⟨12⟩⟩]⟩ := by
  simp [ofRanges, regrouped, mergeSorted, mergeFrom, AddressRange.extend, startsBefore,
    List.mergeSort]

theorem text_eq_iff_covers_scattered :
    (∀ r ∈ scattered, r.Proper) ∧ (∀ r ∈ regrouped, r.Proper) ∧
      (ofRanges scattered).text = "[0x1, 0x5] [0x7, 0xc]" ∧
      (∀ a, Covers scattered a ↔ Covers regrouped a) ∧ IsFirst scattered ⟨1⟩ ∧
      ∀ others, (∀ a, Covers others a ↔ Covers scattered a) → 2 ≤ others.length := by
  have hscattered : ∀ r ∈ scattered, r.Proper := by decide
  have hregrouped : ∀ r ∈ regrouped, r.Proper := by decide
  obtain ⟨hiff, hnormal, -⟩ := text_eq_iff_covers hscattered hregrouped
  have hfirst := (hnormal.min? ⟨1⟩).1 (by rw [ofRanges_scattered]; rfl)
  have hfewest := hnormal.fewest
  rw [ofRanges_scattered, ofRanges_regrouped] at hiff
  rw [ofRanges_scattered] at hfewest ⊢
  exact ⟨hscattered, hregrouped, by decide +kernel, hiff.1 rfl, hfirst, hfewest⟩

end RangeSet

end BinaryReport
