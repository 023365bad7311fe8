import BinaryReport.Proofs.Program.Placement
import BinaryReport.Proofs.Snapshot.ByteText

/-!
# Room for data

Data is placed from its address up to a last one if no offset between them is covered by an instruction
or by a unit at another address (`Program.HasRoom`). The last address is computed from the length of the
type with one taken off, in binary64 numbers: for lengths up to `exactLimit` it is the address of the
last byte, behind it the computed one may be one byte too far or one too near (`reach`). What is already
there is measured exactly.

Data is placed if and only if there is room up to the computed address (`Measured.placeData_eq_ok_iff_hasRoom`).
With pointers of four bytes that is the same as room up to the last byte (`reach_of_exact`), since
longer data does not fit into the space.
-/

namespace BinaryReport

open Binary64

/-! ## Extents -/

/-- The offset is one of those from the address of the instruction to its last. -/
def Instruction.Covers (i : Instruction) (x : Nat) : Prop := i.address.offset ≤ x ∧ (x : Int) ≤ i.last

/-- The offset is one of those from the address of the unit to its last. -/
def DataUnit.Covers (u : DataUnit) (x : Nat) : Prop := u.address.offset ≤ x ∧ (x : Int) ≤ u.last

theorem forall_not_within_iff {first last start : Nat} {stop : Int} (hle : first ≤ last)
    (hle' : (start : Int) ≤ stop) :
    (∀ x : Nat, first ≤ x → x ≤ last → ¬ (start ≤ x ∧ (x : Int) ≤ stop)) ↔
      (last : Int) < start ∨ stop < first := by
  constructor
  · intro h
    by_contra hmeet
    -- Stretches that meet share the greater one of their starts.
    rcases Nat.le_total first start with hstart | hfirst
    · exact h start hstart (by omega) ⟨le_refl start, hle'⟩
    · exact h first (le_refl first) hle ⟨hfirst, by omega⟩
  · rintro h x hx hx' ⟨hstart, hstop⟩
    omega

namespace Program

variable {p p' : Program} {a : Address} {t : DataType} {n : Nat}

/-- There is room for data from an address up to a last offset. -/
structure HasRoom (p : Program) (a : Address) (last : Nat) : Prop where
  /-- The last offset is inside the space. -/
  inside : last < p.space.size
  /-- No instruction covers any of the offsets. -/
  clear : ∀ i ∈ p.instructions, ∀ x, a.offset ≤ x → x ≤ last → ¬ i.Covers x
  /-- No unit at another address does. -/
  apart : ∀ u ∈ p.data, u.address ≠ a → ∀ x, a.offset ≤ x → x ≤ last → ¬ u.Covers x

/-- Instructions and units have a byte at least. -/
structure Measured (p : Program) : Prop where
  /-- An instruction has a byte at least. -/
  instruction : ∀ i ∈ p.instructions, 1 ≤ i.length
  /-- A unit of data has a byte at least. -/
  data : ∀ u ∈ p.data, 1 ≤ u.length

theorem Measured.conflict?_eq_none_iff (h : p.Measured) {last : Nat} (hle : a.offset ≤ last)
    (hinside : last < p.space.size) : p.conflict? a last = none ↔ p.HasRoom a last := by
  have hinstruction : ∀ i ∈ p.instructions,
      (∀ x, a.offset ≤ x → x ≤ last → ¬ i.Covers x) ↔
        (last : Int) < i.address.offset ∨ i.last < a.offset := by
    intro i hi
    have hpos := h.instruction i hi
    exact forall_not_within_iff hle (by rw [Instruction.last]; omega)
  have hdata : ∀ u ∈ p.data,
      (∀ x, a.offset ≤ x → x ≤ last → ¬ u.Covers x) ↔
        (last : Int) < u.address.offset ∨ u.last < a.offset := by
    intro u hu
    have hpos := h.data u hu
    exact forall_not_within_iff hle (by rw [DataUnit.last]; omega)
  rw [Program.conflict?_eq_none_iff]
  constructor
  · rintro ⟨hclear, hapart⟩
    exact ⟨hinside, fun i hi => (hinstruction i hi).2 (hclear i hi),
      fun u hu hne => (hdata u hu).2 (hapart u hu hne)⟩
  · rintro ⟨-, hclear, hapart⟩
    exact ⟨fun i hi => (hinstruction i hi).1 (hclear i hi),
      fun u hu hne => (hdata u hu).1 (hapart u hu hne)⟩

theorem kind_of_conflict? {last : Int} {err : PlacementError} (h : p.conflict? a last = some err) :
    err.kind = .dataConflict := by
  unfold conflict? at h
  split at h
  · obtain rfl := Option.some.inj h
    rfl
  · split at h
    · obtain rfl := Option.some.inj h
      rfl
    · cases h

/-! ## The computed end -/

/-- How far the last address of data of a length is taken to be from the first. -/
def reach (n : Nat) : Nat :=
  if n ≤ exactLimit then n - 1 else if n < 2 ^ 54 ∧ n % 4 = 2 then n - 2 else n

theorem reach_of_le (h : n ≤ exactLimit) : reach n = n - 1 := if_pos h

theorem exactLimit_le_reach (h : exactLimit < n) : exactLimit ≤ reach n := by
  have hlimit : exactLimit % 4 = 0 := by decide
  unfold reach
  rw [if_neg (by omega)]
  split_ifs <;> omega

theorem toInt?_lastDisplacement (hcount : IsCount t.length) (hrounded : IsRounded t.length)
    (hlength : t.length = .finite n) : (lastDisplacement t).toInt? = some (reach n : Int) := by
  have hpos : 0 < n := by
    rw [hlength] at hcount
    generalize hvalue : (n : Rat) = value at hcount
    cases hcount with
    | finite hm =>
      obtain rfl : n = _ := Nat.cast_inj.1 hvalue
      exact hm
  show (t.length - 1).toInt? = _
  unfold reach
  by_cases hle : n ≤ exactLimit
  · rw [hlength, sub_one_of_le hpos hle, toInt?_finite_natCast, if_pos hle]
  · -- Taking one off is not exact any more, but the length itself is.
    obtain ⟨m, hm⟩ := hrounded n hlength
    rw [hlength, sub_one_of_isRepresentable (not_le.1 hle) (isRepresentable_of_round hm),
      toInt?_finite_natCast, if_neg hle]

theorem advance_reach {space : AddressSpace}
    (hdisplacement : (lastDisplacement t).toInt? = some (reach n : Int)) :
    space.advance a (lastDisplacement t) =
      if a.offset + reach n < space.size then .ok ⟨a.offset + reach n⟩
      else .error (.overflow (space.native a) (lastDisplacement t).text) := by
  unfold AddressSpace.advance
  rw [hdisplacement]
  dsimp only
  rw [AddressSpace.shift?_natCast]
  by_cases hinside : a.offset + reach n < space.size
  · rw [if_pos hinside, if_pos hinside]
  · rw [if_neg hinside, if_neg hinside]

/-! ## Placing data -/

/-- Data is placed exactly if there is room up to the computed end. -/
theorem Measured.placeData_eq_ok_iff_hasRoom (h : p.Measured)
    (hdisplacement : (lastDisplacement t).toInt? = some (reach n : Int)) :
    p.placeData a t = .ok p' ↔
      p.HasRoom a (a.offset + reach n) ∧ p' = { p with data := putData ⟨a, t⟩ p.data } := by
  unfold placeData
  rw [advance_reach hdisplacement]
  by_cases hinside : a.offset + reach n < p.space.size
  · have hroom := h.conflict?_eq_none_iff (Nat.le_add_right a.offset (reach n)) hinside
    rw [if_pos hinside, ← hroom]
    dsimp only [placeUpTo]
    cases hconflict : p.conflict? a ((a.offset + reach n : Nat) : Int) with
    | none => simp only [true_and, Except.ok.injEq, eq_comm]
    | some err => simp only [reduceCtorEq, false_and]
  · rw [if_neg hinside]
    constructor
    · intro hplace
      cases hplace
    · rintro ⟨hroom, -⟩
      exact absurd hroom.inside hinside

/-- What keeps data from being placed: it ends outside the space, or else it conflicts with what is
there. -/
theorem kind_of_placeData {err : PlacementError}
    (hdisplacement : (lastDisplacement t).toInt? = some (reach n : Int))
    (h : p.placeData a t = .error err) :
    err.kind = if a.offset + reach n < p.space.size then .dataConflict else .addressOverflow := by
  unfold placeData at h
  rw [advance_reach hdisplacement] at h
  by_cases hinside : a.offset + reach n < p.space.size
  · rw [if_pos hinside] at h
    rw [if_pos hinside]
    dsimp only [placeUpTo] at h
    cases hconflict : p.conflict? a ((a.offset + reach n : Nat) : Int) with
    | none => rw [hconflict] at h; cases h
    | some conflict =>
      rw [hconflict] at h
      obtain rfl := Except.error.inj h
      exact kind_of_conflict? hconflict
  · rw [if_neg hinside] at h
    obtain rfl := Except.error.inj h
    rw [if_neg hinside]
    rfl

/-- Up to the limit the computed end is the last byte; nothing longer ends inside a small space. -/
theorem reach_of_exact {space : AddressSpace} (hexact : space.pointerSize = 4 ∨ n ≤ exactLimit) :
    reach n = n - 1 ∨ space.size ≤ reach n ∧ space.size ≤ n - 1 := by
  by_cases hle : n ≤ exactLimit
  · exact Or.inl (reach_of_le hle)
  · have hsize : space.size ≤ exactLimit := by
      rw [AddressSpace.size, hexact.resolve_right hle]
      decide
    have hreach := exactLimit_le_reach (not_le.1 hle)
    omega

/-! ## Programs that are measured -/

theorem Measured.congr (h : p.Measured) (hinstructions : p'.instructions = p.instructions)
    (hdata : p'.data = p.data) : p'.Measured := by
  constructor
  · rw [hinstructions]
    exact h.instruction
  · rw [hdata]
    exact h.data

theorem exists_length_of_placeData (hcount : IsCount t.length) (hplace : p.placeData a t = .ok p') :
    ∃ n : Nat, 0 < n ∧ t.length = .finite n := by
  unfold placeData lastDisplacement at hplace
  generalize t.length = length at hcount hplace
  cases hcount with
  | @finite n hn => exact ⟨n, hn, rfl⟩
  | infinite =>
    rw [infinite_sub_one] at hplace
    cases hplace

theorem Measured.placeData (h : p.Measured) (hcount : IsCount t.length)
    (hplace : p.placeData a t = .ok p') : p'.Measured := by
  obtain ⟨n, hn, hlength⟩ := exists_length_of_placeData hcount hplace
  obtain rfl := placeData_eq hplace
  refine ⟨h.instruction, fun u hu => ?_⟩
  rcases mem_of_mem_putData hu with rfl | hu
  · rw [DataUnit.length_eq hlength]
    omega
  · exact h.data u hu

theorem measured_bare {s : Snapshot} (h : Load.bare s = .ok p) : p.Measured := by
  obtain ⟨-, hdata, hinstructions, -⟩ := Load.bare_cases h
  constructor
  · refine Load.addEach_induct (P := fun is : List Instruction => ∀ i ∈ is, 1 ≤ i.length)
      (fun done index entry done' _ hdone hadd => ?_) (fun i hi => by cases hi) hinstructions
    obtain ⟨a, -, hadd⟩ := Outcome.bind_eq_ok hadd
    split at hadd
    · cases hadd
    · obtain rfl := Except.ok.inj hadd
      intro i hi
      rcases List.mem_append.1 hi with hi | hi
      · exact hdone i hi
      · rw [List.mem_singleton.1 hi, Instruction.length, List.length_map]
        exact ByteText.length_bytes_pos entry.bytes
  · rw [hdata]
    intro u hu
    cases hu

theorem measured_load {s : Snapshot} (h : load s = .ok p) : p.Measured := by
  obtain ⟨bare, loaded, comments, hbare, hadd, -, rfl⟩ := load_eq_ok_iff.1 h
  -- Data is added after the instructions; what comes after that leaves both alone.
  have hloaded : loaded.Measured := by
    refine Load.addEach_induct (P := Measured) (fun q index entry q' _ hq hadd => ?_)
      (measured_bare hbare) hadd
    obtain ⟨a, t, htype, hplace⟩ := Load.addData_cases hadd
    exact hq.placeData (DataType.isCount_of_parse htype) hplace
  exact hloaded.congr rfl rfl

end Program

end BinaryReport
