import BinaryReport.Proofs.Address.Canonical
import BinaryReport.Proofs.Program.Loaded
import BinaryReport.Proofs.Report.Coherence

/-!
# Bodies of functions

Loading checks that a function is entered inside its body, and nothing else about the ranges that are
listed for it. The ranges of a body are well formed if none of those that were listed is inverted
(`body_wellFormed_iff`). An inverted one covers nothing, but it stays in the body, and in the report, as a
range of its own, unless merging makes it vanish: the body is well formed exactly if it is what the other
ranges give alone.
-/

namespace BinaryReport

open Program

namespace RangeSet

/-- The ranges are in order with gaps between them, none is inverted, and the first and the last address
are those of the set. -/
structure WellFormed (s : RangeSet) : Prop where
  proper : ∀ r ∈ s.ranges, r.Proper
  ascending : s.ranges.Pairwise fun r t => r.last.offset < t.first.offset
  /-- Between two ranges there is an address that the set does not contain. -/
  gaps : s.ranges.Pairwise fun r t =>
    ∃ a : Address, r.last.offset < a.offset ∧ a.offset < t.first.offset ∧ s.contains a = false
  min? : ∃ a, s.min? = some a ∧ s.contains a = true ∧ ∀ b, s.contains b = true → a.offset ≤ b.offset
  max? : ∃ a, s.max? = some a ∧ s.contains a = true ∧ ∀ b, s.contains b = true → b.offset ≤ a.offset

theorem contains_eq_false_iff {s : RangeSet} {a : Address} :
    s.contains a = false ↔ ¬ Covers s.ranges a := by
  rw [← Bool.not_eq_true, contains_iff_covers_ranges]

theorem Canonical.wellFormed {s : RangeSet} (h : Canonical s.ranges) (hne : s.ranges ≠ []) :
    s.WellFormed := by
  constructor
  case proper => exact h.proper
  case ascending =>
    refine h.apart.imp fun hapart => ?_
    unfold Apart at hapart
    omega
  case gaps =>
    simp only [contains_eq_false_iff]
    exact h.gaps
  case min? =>
    obtain ⟨r, rest, hranges⟩ := List.exists_cons_of_ne_nil hne
    have hfirst := isFirst_of_cons (hranges ▸ h)
    rw [← hranges] at hfirst
    refine ⟨r.first, h.min?_eq_some_iff.2 hfirst, contains_iff_covers_ranges.2 hfirst.1, fun b hb => ?_⟩
    exact hfirst.2 b (contains_iff_covers_ranges.1 hb)
  case max? =>
    obtain ⟨front, r, hranges⟩ := (List.eq_nil_or_concat' s.ranges).resolve_left hne
    have hlast := isLast_of_concat (hranges ▸ h)
    rw [← hranges] at hlast
    refine ⟨r.last, h.max?_eq_some_iff.2 hlast, contains_iff_covers_ranges.2 hlast.1, fun b hb => ?_⟩
    exact hlast.2 b (contains_iff_covers_ranges.1 hb)

/-- Ranges without those that are inverted. -/
def properRanges (ranges : List AddressRange) : List AddressRange := ranges.filter fun r => r.Proper

theorem proper_of_mem_properRanges {ranges : List AddressRange} :
    ∀ r ∈ properRanges ranges, r.Proper := by
  intro r hr
  exact of_decide_eq_true (List.mem_filter.1 hr).2

/-- Inverted ranges cover nothing. -/
theorem covers_properRanges {ranges : List AddressRange} {a : Address} :
    Covers (properRanges ranges) a ↔ Covers ranges a := by
  constructor
  · rintro ⟨r, hr, hbounds⟩
    exact ⟨r, (List.mem_filter.1 hr).1, hbounds⟩
  · rintro ⟨r, hr, hfirst, hlast⟩
    exact ⟨r, List.mem_filter.2 ⟨hr, decide_eq_true (hfirst.trans hlast)⟩, hfirst, hlast⟩

/-- No range of a set is inverted exactly if the inverted ones that it was built from leave no trace. -/
theorem forall_proper_iff {ranges : List AddressRange} :
    (∀ r ∈ (ofRanges ranges).ranges, r.Proper) ↔
      ofRanges ranges = ofRanges (properRanges ranges) := by
  have hproper := canonical_ofRanges (@proper_of_mem_properRanges ranges)
  constructor
  · intro h
    have hcanonical : Canonical (ofRanges ranges).ranges := ⟨h, apart_ofRanges ranges⟩
    exact ofRanges_eq_of_covers hcanonical hproper fun a => covers_properRanges.symm
  · intro h
    rw [h]
    exact hproper.proper

theorem wellFormed_ofRanges_iff {ranges : List AddressRange} (hne : ranges ≠ []) :
    (ofRanges ranges).WellFormed ↔ ofRanges ranges = ofRanges (properRanges ranges) := by
  rw [← forall_proper_iff]
  constructor
  · exact WellFormed.proper
  · intro h
    exact Canonical.wellFormed ⟨h, apart_ofRanges ranges⟩ (mt ranges_ofRanges_eq_nil_iff.1 hne)

end RangeSet

open RangeSet

/-! ## Loaded bodies -/

/-- A record shows the range as one of those that its text consists of. -/
def FunctionRecord.Shows (g : FunctionRecord) (r : AddressRange) : Prop :=
  ∃ ranges : List AddressRange, g.bodyRange = RangeSet.text ⟨ranges⟩ ∧ r ∈ ranges

theorem FunctionRecord.shows_ofFunction {f : Function} {r : AddressRange} :
    (ofFunction f).Shows r ↔ r ∈ f.body.ranges := by
  constructor
  · rintro ⟨ranges, htext, hr⟩
    have hbody : f.body = ⟨ranges⟩ := RangeSet.text_injective htext
    rw [hbody]
    exact hr
  · intro hr
    exact ⟨f.body.ranges, rfl, hr⟩

namespace Report

/-- A loaded function whose listed ranges are not inverted has a well-formed body. In general its body is
well formed if and only if the inverted ranges of its entry leave no trace, and if and only if its record
in a report shows no inverted range. -/
theorem body_wellFormed_iff {s : Snapshot} {e : Engine} (h : Engine.ofSnapshot s = .ok e)
    {f : Function} (hf : f ∈ e.program.functions) (limits : Limits) :
    ∃ entry ranges r, entry ∈ s.functions ∧ entry.Denotes s.space f ∧
      List.Forall₂ (BodyEntry.Denotes s.space) entry.body ranges ∧
      (build e limits).2.outcome = .ok (.whole r) ∧ .ofFunction f ∈ r.functions ∧
      ((∀ range ∈ ranges, range.Proper) → f.body.WellFormed) ∧
      (f.body.WellFormed ↔ f.body = ofRanges (properRanges ranges)) ∧
      (f.body.WellFormed ↔ ∀ range, (FunctionRecord.ofFunction f).Shows range → range.Proper) := by
  obtain ⟨p, hload, rfl⟩ := Engine.ofSnapshot_cases h
  obtain ⟨entry, hentry, hdenotes⟩ := exists_denotes_of_load hload hf
  obtain ⟨a, ranges, ha, hranges, ⟨inside, hinside, hcontains⟩, hfunction⟩ := hdenotes
  have hopen : Engine.Faultless { Engine.ofProgram p with isOpen := true } := rfl
  obtain ⟨r, hr, hfilled⟩ := exists_filled (Engine.faultless_ofProgram p) limits
  have hbody : f.body = ofRanges ranges := by rw [hfunction]
  have hiff : f.body.WellFormed ↔ f.body = ofRanges (properRanges ranges) := by
    rw [hbody]
    exact wellFormed_ofRanges_iff (List.ne_nil_of_mem hinside)
  refine ⟨entry, ranges, r, hentry, ⟨a, ranges, ha, hranges, ⟨inside, hinside, hcontains⟩, hfunction⟩,
    hranges, hr, ?_, ?_, hiff, ?_⟩
  · rw [hfilled.functions_eq hopen]
    exact List.mem_map_of_mem hf
  · intro hproper
    rw [hiff, hbody]
    exact forall_proper_iff.1 (proper_ofRanges hproper)
  · rw [hiff, hbody, ← forall_proper_iff, ← hbody]
    simp only [FunctionRecord.shows_ofFunction]

/-! ## Swallowed and inverted ranges -/

/-- An entry of a function that is entered at 0x10. -/
def bodyEntry (body : List BodyEntry) : FunctionEntry :=
  ⟨"main", "10", body, "void", [], .analysis, none, 0⟩

/-- The function of the entry, with a body. -/
def bodyFunction (body : RangeSet) : Function :=
  ⟨⟨"main", ⟨16⟩, .function, .analysis, false⟩, body, "void", [], none, 0⟩

/-- A snapshot with that function alone. -/
def bodySnapshot (body : List BodyEntry) : Snapshot :=
  ⟨"p", "x", "0", .eight, [], [], [], [bodyEntry body], [], [], []⟩

/-- The program of the snapshot. -/
def bodyProgram (body : RangeSet) : Program :=
  ⟨"p", "x", ⟨8⟩, ⟨0⟩, none, [], [bodyFunction body], [], [], [], []⟩

theorem load_bodySnapshot {body : List BodyEntry} {ranges : List AddressRange}
    (hranges : List.Forall₂ (BodyEntry.Denotes ⟨8⟩) body ranges)
    (hinside : ∃ r ∈ ranges, r.contains ⟨16⟩ = true) :
    load (bodySnapshot body) = .ok (bodyProgram (ofRanges ranges)) := by
  have hexact : (bodySnapshot body).HasExactTypes := fun entry hentry => by cases hentry
  have hentry : AddressSpace.parse ⟨8⟩ "10" = .ok ⟨16⟩ := by decide +kernel
  have hdenotes : (bodyEntry body).Denotes ⟨8⟩ (bodyFunction (ofRanges ranges)) :=
    ⟨⟨16⟩, ranges, hentry, hranges, hinside, rfl⟩
  have hzero : (bodySnapshot body).space.parse "0" = .ok ⟨0⟩ := by
    show AddressSpace.parse ⟨8⟩ "0" = .ok ⟨0⟩
    decide +kernel
  exact (load_eq_ok_iff_loadsTo hexact).2 {
    name := rfl
    language := rfl
    space := rfl
    imageBase := hzero
    memory := ⟨[], .nil, rfl⟩
    entryPoints := .nil
    instructions := .nil
    distinct := List.nodup_nil
    functions := ⟨_, .cons hdenotes .nil, .refl _⟩
    ascending := List.pairwise_singleton _ _
    labels := rfl
    data := ⟨[], .nil, trivial, rfl⟩
    comments := .nil }

/-- Ranges of which the second is inverted, and vanishes in the first. -/
def swallowedRanges : List AddressRange := [⟨⟨16⟩, ⟨32⟩⟩, ⟨⟨24⟩, ⟨21⟩⟩, ⟨⟨33⟩, ⟨47⟩⟩]

/-- The ranges as they are listed. -/
def swallowedBody : List BodyEntry := [⟨"10", "20"⟩, ⟨"18", "15"⟩, ⟨"21", "2f"⟩]

theorem denotes_swallowedBody :
    List.Forall₂ (BodyEntry.Denotes ⟨8⟩) swallowedBody swallowedRanges := by
  refine .cons ⟨?_, ?_⟩ (.cons ⟨?_, ?_⟩ (.cons ⟨?_, ?_⟩ .nil))
  all_goals decide +kernel

theorem ofRanges_swallowedRanges :
    ofRanges swallowedRanges = ofRanges (properRanges swallowedRanges) := by
  simp [ofRanges, properRanges, AddressRange.Proper, swallowedRanges, mergeSorted, mergeFrom,
    AddressRange.extend, startsBefore, List.mergeSort]

theorem body_wellFormed_iff_swallowed :
    Engine.ofSnapshot (bodySnapshot swallowedBody) =
        .ok (Engine.ofProgram (bodyProgram (ofRanges swallowedRanges))) ∧
      bodyFunction (ofRanges swallowedRanges) ∈ (bodyProgram (ofRanges swallowedRanges)).functions ∧
      (ofRanges swallowedRanges).WellFormed := by
  have hinside : ∃ r ∈ swallowedRanges, r.contains ⟨16⟩ = true :=
    ⟨⟨⟨16⟩, ⟨32⟩⟩, List.mem_cons_self, rfl⟩
  have hload := Engine.ofSnapshot_of_load (load_bodySnapshot denotes_swallowedBody hinside)
  have hf : bodyFunction (ofRanges swallowedRanges) ∈
    (bodyProgram (ofRanges swallowedRanges)).functions := List.mem_cons_self
  obtain ⟨entry, ranges, -, hentry, -, hranges, -, -, -, hiff, -⟩ :=
    body_wellFormed_iff hload hf .standard
  obtain rfl := List.mem_singleton.1 hentry
  obtain rfl := List.right_unique_forall₂' (BodyEntry.rightUnique_denotes _) denotes_swallowedBody
    hranges
  exact ⟨hload, hf, hiff.2 ofRanges_swallowedRanges⟩

/-- A range and an inverted one far behind it. -/
def invertedBody : List BodyEntry := [⟨"10", "20"⟩, ⟨"50", "40"⟩]

/-- The set that the ranges are loaded to. -/
def invertedSet : RangeSet := ⟨[⟨⟨16⟩, ⟨32⟩⟩, ⟨⟨80⟩, ⟨64⟩⟩]⟩

/-- The inverted range is shown, and the greatest address of the body is outside the body. -/
theorem body_shows_inverted_range :
    Engine.ofSnapshot (bodySnapshot invertedBody) = .ok (Engine.ofProgram (bodyProgram invertedSet)) ∧
      ∃ r, (build (Engine.ofProgram (bodyProgram invertedSet)) .standard).2.outcome = .ok (.whole r) ∧
        r.functions.map (·.bodyRange) = ["[0x10, 0x20] [0x50, 0x40]"] ∧
        invertedSet.max? = some ⟨64⟩ ∧ invertedSet.contains ⟨64⟩ = false ∧
        ¬ (bodyFunction invertedSet).body.WellFormed := by
  have hranges : List.Forall₂ (BodyEntry.Denotes ⟨8⟩) invertedBody invertedSet.ranges := by
    refine .cons ⟨?_, ?_⟩ (.cons ⟨?_, ?_⟩ .nil)
    all_goals decide +kernel
  have hset : ofRanges invertedSet.ranges = invertedSet := by
    simp [ofRanges, invertedSet, mergeSorted, mergeFrom, startsBefore, List.mergeSort]
  have hload := load_bodySnapshot hranges ⟨⟨⟨16⟩, ⟨32⟩⟩, List.mem_cons_self, rfl⟩
  rw [hset] at hload
  have hopen : Engine.Faultless { Engine.ofProgram (bodyProgram invertedSet) with isOpen := true } := rfl
  obtain ⟨r, hr, hfilled⟩ :=
    exists_filled (Engine.faultless_ofProgram (bodyProgram invertedSet)) .standard
  refine ⟨Engine.ofSnapshot_of_load hload, r, hr, ?_, rfl, rfl, fun hformed => ?_⟩
  · rw [hfilled.functions_eq hopen]
    decide +kernel
  · have hproper := hformed.proper ⟨⟨80⟩, ⟨64⟩⟩ (List.mem_cons_of_mem _ List.mem_cons_self)
    exact absurd hproper (by decide)

end Report

end BinaryReport
