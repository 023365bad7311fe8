import BinaryReport.Proofs.Program.Entry
import BinaryReport.Proofs.Program.Loaded

/-!
# The function around an address

Bodies may overlap, so several functions may cover an address. The functions of a program ascend, and the
first one that contains the address is taken: it is the one of least entry (`Snapshot.Surrounds`), in
whatever order the functions and their ranges were listed (`Program.functionContaining?_eq_some_iff`).

The address at which a program is entered is read off a snapshot in the same way, without loading it
(`Snapshot.EnteredAt`).
-/

namespace BinaryReport

open Outcome

/-! ## Functions that cover an address -/

/-- One of the ranges that are listed for the function covers the address. -/
def FunctionEntry.Covers (space : AddressSpace) (x : FunctionEntry) (a : Address) : Prop :=
  ∃ range ∈ x.body, ∃ first last, space.parse range.start = .ok first ∧
    space.parse range.last = .ok last ∧ first.offset ≤ a.offset ∧ a.offset ≤ last.offset

/-- The function covers the address, and none that covers it is entered before. -/
structure Snapshot.Surrounds (s : Snapshot) (a : Address) (x : FunctionEntry) : Prop where
  mem : x ∈ s.functions
  covers : x.Covers s.space a
  least : ∃ entry, s.space.parse x.entry = .ok entry ∧ ∀ y ∈ s.functions, y.Covers s.space a →
    ∃ other, s.space.parse y.entry = .ok other ∧ entry.offset ≤ other.offset

/-- Merging the ranges of a function changes nothing about what they cover. -/
theorem FunctionEntry.Denotes.contains_iff {space : AddressSpace} {x : FunctionEntry} {f : Function}
    (h : x.Denotes space f) (a : Address) : f.body.contains a = true ↔ x.Covers space a := by
  obtain ⟨entry, ranges, -, hranges, -, rfl⟩ := h
  show (RangeSet.ofRanges ranges).contains a = true ↔ _
  rw [RangeSet.contains_ofRanges]
  constructor
  · rintro ⟨r, hr, hcontains⟩
    obtain ⟨range, hrange, hfirst, hlast⟩ := Matching.exists_of_mem_right hranges hr
    obtain ⟨hlow, hhigh⟩ := AddressRange.contains_iff.1 hcontains
    exact ⟨range, hrange, r.first, r.last, hfirst, hlast, hlow, hhigh⟩
  · rintro ⟨range, hrange, first, last, hfirst, hlast, hlow, hhigh⟩
    obtain ⟨r, hr, hfirst', hlast'⟩ := Matching.exists_of_mem_left hranges hrange
    obtain rfl := Except.ok.inj (hfirst'.symm.trans hfirst)
    obtain rfl := Except.ok.inj (hlast'.symm.trans hlast)
    exact ⟨r, hr, AddressRange.contains_iff.2 ⟨hlow, hhigh⟩⟩

namespace Program

variable {s : Snapshot} {p : Program} {a : Address} {f : Function}

theorem exists_function_of_load (h : load s = .ok p) {x : FunctionEntry} (hx : x ∈ s.functions) :
    ∃ f ∈ p.functions, x.Denotes s.space f := by
  obtain ⟨listed, hlisted, hperm⟩ := functions_load h
  obtain ⟨f, hf, hdenotes⟩ := Matching.exists_of_mem_left hlisted hx
  exact ⟨f, hperm.mem_iff.2 hf, hdenotes⟩

theorem functionContaining?_eq_none_iff (h : load s = .ok p) :
    p.functionContaining? a = none ↔ ∀ x ∈ s.functions, ¬ x.Covers s.space a := by
  unfold functionContaining?
  rw [List.find?_eq_none]
  constructor
  · intro hnone x hx hcovers
    obtain ⟨f, hf, hdenotes⟩ := exists_function_of_load h hx
    exact hnone f hf ((hdenotes.contains_iff a).2 hcovers)
  · intro hnone f hf hcontains
    obtain ⟨x, hx, hdenotes⟩ := exists_denotes_of_load h hf
    exact hnone x hx ((hdenotes.contains_iff a).1 hcontains)

/-- The function around an address is the one of least entry among those that cover it. -/
theorem functionContaining?_eq_some_iff (h : load s = .ok p) :
    p.functionContaining? a = some f ↔ ∃ x, s.Surrounds a x ∧ x.Denotes s.space f := by
  have hascending := List.pairwise_map.1 (hasFunctionsOf_load h).ascending
  unfold functionContaining?
  rw [Sorting.find?_eq_some_iff hascending]
  constructor
  · rintro ⟨hf, hcontains, hleast⟩
    obtain ⟨x, hx, hdenotes⟩ := exists_denotes_of_load h hf
    refine ⟨x, ⟨hx, (hdenotes.contains_iff a).1 hcontains, f.entry, hdenotes.parse_entry, ?_⟩, hdenotes⟩
    intro y hy hcovers
    obtain ⟨g, hg, hdenotes'⟩ := exists_function_of_load h hy
    exact ⟨g.entry, hdenotes'.parse_entry, hleast g hg ((hdenotes'.contains_iff a).2 hcovers)⟩
  · rintro ⟨x, hsurrounds, hdenotes⟩
    obtain ⟨f', hf, hdenotes'⟩ := exists_function_of_load h hsurrounds.mem
    obtain rfl := FunctionEntry.rightUnique_denotes s.space hdenotes' hdenotes
    obtain ⟨entry, hentry, hleast⟩ := hsurrounds.least
    obtain rfl := Except.ok.inj (hentry.symm.trans hdenotes.parse_entry)
    refine ⟨hf, (hdenotes.contains_iff a).2 hsurrounds.covers, fun g hg hcontains => ?_⟩
    obtain ⟨y, hy, hdenotes'⟩ := exists_denotes_of_load h hg
    obtain ⟨other, hother, hle⟩ := hleast y hy ((hdenotes'.contains_iff a).1 hcontains)
    obtain rfl := Except.ok.inj (hother.symm.trans hdenotes'.parse_entry)
    exact hle

end Program

/-! ## The entry -/

/-- The program is entered at the address. -/
inductive Snapshot.EnteredAt (s : Snapshot) (a : Address) : Prop where
  /-- It is the first entry point. -/
  | entryPoint {text : String} {rest : List String} (h : s.entryPoints = text :: rest)
    (hread : s.space.parse text = .ok a)
  /-- There is no entry point, and it is the lowest start of a block of memory. -/
  | memory {block : MemoryEntry} (hnone : s.entryPoints = []) (hblock : block ∈ s.memory)
    (hread : s.space.parse block.start = .ok a)
    (hleast : ∀ other ∈ s.memory, ∃ b, s.space.parse other.start = .ok b ∧ a.offset ≤ b.offset)
  /-- There is neither an entry point nor memory, and it is the base of the image. -/
  | imageBase (hnone : s.entryPoints = []) (hmemory : s.memory = [])
    (hread : s.space.parse s.imageBase = .ok a)

namespace Program

variable {s : Snapshot} {p : Program}

theorem Load.least?_eq_none_iff {as : List Address} : least? as = none ↔ as = [] := by
  cases as with
  | nil => exact iff_of_true rfl rfl
  | cons a as =>
    rw [least?]
    cases least? as <;> simp

theorem Load.least?_le {as : List Address} {a : Address} (h : least? as = some a) :
    ∀ b ∈ as, a.offset ≤ b.offset := by
  induction as generalizing a with
  | nil => cases h
  | cons c as ih =>
    rw [least?] at h
    rw [List.forall_mem_cons]
    cases hleast : least? as with
    | none =>
      rw [hleast] at h
      obtain rfl := Option.some.inj h
      obtain rfl := least?_eq_none_iff.1 hleast
      exact ⟨le_rfl, by simp⟩
    | some d =>
      rw [hleast] at h
      obtain rfl := Option.some.inj h
      have hrest := ih hleast
      by_cases hlt : d.offset < c.offset
      · rw [if_pos hlt]
        exact ⟨le_of_lt hlt, hrest⟩
      · rw [if_neg hlt]
        exact ⟨le_rfl, fun b hb => (not_lt.1 hlt).trans (hrest b hb)⟩

/-- What an entry is taken from is read by loading. -/
theorem entries_load (h : load s = .ok p) :
    s.space.parse s.imageBase = .ok p.imageBase ∧
      (∃ starts, List.Forall₂ (fun e a => s.space.parse e.start = .ok a) s.memory starts ∧
        p.minAddress? = Load.least? starts) ∧
      List.Forall₂ (fun text a => s.space.parse text = .ok a) s.entryPoints p.entryPoints := by
  obtain ⟨start, data, comments, hstart, rfl⟩ := exists_bare_of_load h
  obtain ⟨imageBase, himageBase, hstart⟩ := bind_eq_ok hstart
  obtain ⟨starts, hstarts, hstart⟩ := bind_eq_ok hstart
  obtain ⟨points, hpoints, hstart⟩ := bind_eq_ok hstart
  obtain ⟨instructions, -, hstart⟩ := bind_eq_ok hstart
  obtain ⟨functions, -, hstart⟩ := bind_eq_ok hstart
  obtain ⟨labels, -, hstart⟩ := bind_eq_ok hstart
  obtain rfl := Except.ok.inj hstart
  have hmemory : List.Forall₂ (fun e a => s.space.parse e.start = .ok a) s.memory starts := by
    refine Load.forall₂_each (fun i e a hread => ?_) hstarts
    exact Load.address_eq_ok_iff.1 hread
  have htexts : List.Forall₂ (fun text a => s.space.parse text = .ok a) s.entryPoints points := by
    refine Load.forall₂_each (fun i text a hread => ?_) hpoints
    exact Load.address_eq_ok_iff.1 hread
  exact ⟨Load.address_eq_ok_iff.1 himageBase, ⟨starts, hmemory, rfl⟩, htexts⟩

theorem enteredAt_load (h : load s = .ok p) : s.EnteredAt (p.entryFrom p.entryPoints) := by
  obtain ⟨himageBase, ⟨starts, hstarts, hlowest⟩, hpoints⟩ := entries_load h
  unfold entryFrom
  rw [hlowest]
  cases hpoints' : p.entryPoints with
  | cons a points =>
    rw [hpoints'] at hpoints
    obtain ⟨text, rest, hread, -, htexts⟩ := List.forall₂_cons_right_iff.1 hpoints
    exact .entryPoint htexts hread
  | nil =>
    rw [hpoints', List.forall₂_nil_right_iff] at hpoints
    cases hleast : Load.least? starts with
    | some a =>
      obtain ⟨block, hblock, hread⟩ := Matching.exists_of_mem_right hstarts (Load.mem_of_least? hleast)
      refine .memory hpoints hblock hread fun other hother => ?_
      obtain ⟨b, hb, hread'⟩ := Matching.exists_of_mem_left hstarts hother
      exact ⟨b, hread', Load.least?_le hleast b hb⟩
    | none =>
      rw [Load.least?_eq_none_iff.1 hleast, List.forall₂_nil_right_iff] at hstarts
      exact .imageBase hpoints hstarts himageBase

end Program

end BinaryReport
