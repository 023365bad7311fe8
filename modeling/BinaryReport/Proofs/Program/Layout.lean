import BinaryReport.Proofs.Binary64.Rounding
import BinaryReport.Proofs.Program.Entries

/-!
# The layout of data

In a program that is `WellLaid` every unit of data has a byte at least and ends inside the address
space, no two units share an address, and the units meet neither one another nor an instruction.
Placing data keeps this (`WellLaid.placeData`), as long as the length of the type is computed
exactly (`IsExactIn`): lengths are binary64 numbers, but in a space of four byte pointers a length
that could be rounded does not fit in. Loading places the data of a snapshot unit by unit, so a
loaded program is well laid (`wellLaid_load`).
-/

namespace BinaryReport

open Binary64

/-! ## Lengths of types -/

/-- A type whose length needs no rounding, or would not fit in the space if it did. -/
def DataType.IsExactIn (space : AddressSpace) (t : DataType) : Prop :=
  space.pointerSize = 4 ∨ t.length ≤ Binary64.ofNat exactLimit

/-- The bytes of a base type, or of a pointer to it. -/
def BaseSize.unit (size : BaseSize) (pointerSize stars : Nat) : Nat :=
  if stars = 0 then size.toNat pointerSize else pointerSize

/-- The type of a text by its parts: the base type has a size, and no dimension is zero. -/
theorem DataType.ofTypeText_eq_ok_iff {pointerSize : Nat} {text : String} {parts : TypeText}
    {t : DataType} :
    ofTypeText pointerSize text parts = .ok t ↔
      ∃ size, baseSize? parts.base = some size ∧ size.unit pointerSize parts.stars ≠ 0 ∧
        (∀ n ∈ parts.dimensions, (Binary64.ofNat n).isZero = false) ∧
        t = ⟨nameOf parts.base parts.stars (parts.dimensions.map Binary64.ofNat),
          (parts.dimensions.map Binary64.ofNat).foldl (· * ·)
            (.ofNat (size.unit pointerSize parts.stars))⟩ := by
  unfold ofTypeText
  cases hsize : baseSize? parts.base with
  | none => simp
  | some size =>
    show (if size.unit pointerSize parts.stars = 0 then _ else _) = _ ↔ _
    by_cases hunit : size.unit pointerSize parts.stars = 0
    · simp [hunit]
    · rw [if_neg hunit]
      by_cases hzero : (parts.dimensions.map Binary64.ofNat).any isZero = true
      · rw [if_pos hzero]
        have hnot : ¬ ∀ n ∈ parts.dimensions, (Binary64.ofNat n).isZero = false := by
          simpa using hzero
        exact iff_of_false nofun fun ⟨_, _, _, hall, _⟩ => hnot hall
      · rw [if_neg hzero]
        have hall : ∀ n ∈ parts.dimensions, (Binary64.ofNat n).isZero = false := by
          simpa using hzero
        constructor
        · intro h
          exact ⟨size, rfl, hunit, hall, (Except.ok.inj h).symm⟩
        · rintro ⟨size', hsize', -, -, rfl⟩
          obtain rfl := Option.some.inj hsize'
          rfl

/-- The length of a type is a product of positive counts. -/
theorem DataType.length_of_ofTypeText {pointerSize : Nat} {text : String} {parts : TypeText}
    {t : DataType} (h : ofTypeText pointerSize text parts = .ok t) :
    ∃ (unit : Nat) (dimensions : List Binary64), 0 < unit ∧ (∀ y ∈ dimensions, IsCount y) ∧
      t.length = dimensions.foldl (· * ·) (.ofNat unit) := by
  obtain ⟨size, -, hunit, hall, rfl⟩ := ofTypeText_eq_ok_iff.1 h
  refine ⟨_, _, Nat.pos_of_ne_zero hunit, fun y hy => ?_, rfl⟩
  obtain ⟨n, hn, rfl⟩ := List.mem_map.1 hy
  exact isCount_ofNat_of_isZero (hall n hn)

theorem DataType.parse_of_read {pointerSize : Nat} {text : String} {parts : TypeText}
    (h : TypeText.read? text = some parts) :
    parse pointerSize text = ofTypeText pointerSize text parts := by
  unfold parse
  rw [h]

theorem DataType.length_of_parse {pointerSize : Nat} {text : String} {t : DataType}
    (h : parse pointerSize text = .ok t) :
    ∃ (unit : Nat) (dimensions : List Binary64), 0 < unit ∧ (∀ y ∈ dimensions, IsCount y) ∧
      t.length = dimensions.foldl (· * ·) (.ofNat unit) := by
  unfold parse at h
  split at h
  · cases h
  · exact length_of_ofTypeText h

/-- The length of a type that is read is a count. -/
theorem DataType.isCount_of_parse {pointerSize : Nat} {text : String} {t : DataType}
    (h : parse pointerSize text = .ok t) : IsCount t.length := by
  obtain ⟨unit, dimensions, hunit, hdimensions, hlength⟩ := length_of_parse h
  rw [hlength]
  exact (isCount_ofNat hunit).foldl_mul hdimensions

theorem DataType.isRounded_of_parse {pointerSize : Nat} {text : String} {t : DataType}
    (h : parse pointerSize text = .ok t) : IsRounded t.length := by
  obtain ⟨unit, dimensions, hunit, hdimensions, hlength⟩ := length_of_parse h
  rw [hlength]
  exact (isCount_ofNat hunit).isRounded_foldl_mul (isRounded_ofNat unit) hdimensions

/-! ## Addresses -/

theorem le_ofNat_exactLimit_iff {n : Nat} :
    Binary64.finite n ≤ Binary64.ofNat exactLimit ↔ n ≤ exactLimit := by
  rw [ofNat_eq (le_refl _)]
  show decide ((n : Rat) ≤ (exactLimit : Nat)) = true ↔ _
  rw [decide_eq_true_iff, Nat.cast_le]

theorem toInt?_finite_natCast (n : Nat) : toInt? (.finite n) = some (n : Int) := toInt?_finite n

theorem AddressSpace.shift?_natCast (space : AddressSpace) (a : Address) (n : Nat) :
    space.shift? a n = if a.offset + n < space.size then some ⟨a.offset + n⟩ else none := by
  unfold shift?
  dsimp only
  rw [← Int.natCast_add, Int.toNat_natCast]
  by_cases hin : a.offset + n < space.size
  · rw [if_pos hin, if_pos (by omega)]
  · rw [if_neg hin, if_neg (by omega)]

theorem AddressSpace.shift?_eq_some_iff {space : AddressSpace} {a b : Address} {n : Nat} :
    space.shift? a n = some b ↔ b = ⟨a.offset + n⟩ ∧ a.offset + n < space.size := by
  rw [shift?_natCast]
  by_cases hin : a.offset + n < space.size
  · rw [if_pos hin, Option.some.injEq, eq_comm, and_iff_left hin]
  · rw [if_neg hin]
    exact iff_of_false nofun fun h => hin h.2

/-- A whole displacement that stays in the space. -/
theorem AddressSpace.offset_of_advance {space : AddressSpace} {a last : Address} {x : Binary64}
    {n : Nat} (hx : x = .finite n) (h : space.advance a (.number x) = .ok last) :
    last.offset = a.offset + n ∧ last.offset < space.size := by
  subst hx
  unfold advance Displacement.toInt? at h
  simp only [toInt?_finite_natCast] at h
  split at h
  · next b hshift =>
    obtain rfl := Except.ok.inj h
    obtain ⟨rfl, hin⟩ := shift?_eq_some_iff.1 hshift
    exact ⟨rfl, hin⟩
  · cases h

/-- The last address of data whose length is exact. -/
theorem AddressSpace.last_of_advance {space : AddressSpace} {a last : Address} {t : DataType}
    (hcount : IsCount t.length) (hexact : t.IsExactIn space)
    (h : space.advance a (Program.lastDisplacement t) = .ok last) :
    ∃ n : Nat, 0 < n ∧ t.length = .finite n ∧ last.offset + 1 = a.offset + n ∧
      last.offset < space.size := by
  unfold Program.lastDisplacement at h
  generalize hlength : t.length = length at hcount h
  cases hcount with
  | infinite =>
    rw [infinite_sub_one] at h
    cases h
  | @finite n hn =>
    by_cases hle : n ≤ exactLimit
    · obtain ⟨hlast, hsize⟩ := offset_of_advance (sub_one_of_le hn hle) h
      exact ⟨n, hn, rfl, by omega, hsize⟩
    · -- The length is rounded, so the space is small and the end lies behind it.
      have hfour : space.pointerSize = 4 := by
        rcases hexact with hfour | hlimit
        · exact hfour
        · rw [hlength, le_ofNat_exactLimit_iff] at hlimit
          exact absurd hlimit hle
      have hsize : space.size = 2 ^ 32 := by
        rw [size, hfour]
        rfl
      rcases sub_one_of_lt (not_le.1 hle) with hsub | ⟨m, hm, hsub⟩
      · rw [hsub] at h
        cases h
      · obtain ⟨hlast, hlt⟩ := offset_of_advance hsub h
        rw [hsize] at hlt
        unfold exactLimit at hm
        omega

/-! ## Placing data -/

theorem DataUnit.length_eq {u : DataUnit} {n : Nat} (h : u.type.length = .finite n) :
    u.length = n := by
  rw [length, h, toInt?_finite_natCast]
  rfl

namespace Program

variable {p p' : Program}

/-- Every unit of data has its place to itself. -/
structure WellLaid (p : Program) : Prop where
  /-- No two units share an address. -/
  nodup : (p.data.map (·.address)).Nodup
  /-- A unit has a byte at least. -/
  length : ∀ u ∈ p.data, 1 ≤ u.length
  /-- A unit ends inside the space. -/
  inside : ∀ u ∈ p.data, u.last < p.space.size
  /-- Units at different addresses do not meet. -/
  apart : ∀ u ∈ p.data, ∀ v ∈ p.data, u.address ≠ v.address →
    u.last < v.address.offset ∨ v.last < u.address.offset
  /-- No unit meets an instruction. -/
  clear : ∀ u ∈ p.data, ∀ i ∈ p.instructions,
    u.last < i.address.offset ∨ i.last < u.address.offset

/-- The layout looks at the space, the instructions and the data only. -/
theorem WellLaid.congr (h : p.WellLaid) (hspace : p'.space = p.space)
    (hinstructions : p'.instructions = p.instructions) (hdata : p'.data = p.data) :
    p'.WellLaid := by
  constructor
  · rw [hdata]
    exact h.nodup
  · rw [hdata]
    exact h.length
  · rw [hdata, hspace]
    exact h.inside
  · rw [hdata]
    exact h.apart
  · rw [hdata, hinstructions]
    exact h.clear

theorem mem_of_mem_putData {u v : DataUnit} {data : List DataUnit} (h : v ∈ putData u data) :
    v = u ∨ v ∈ data := by
  induction data with
  | nil =>
    rw [putData, List.mem_singleton] at h
    exact Or.inl h
  | cons w data ih =>
    rw [putData] at h
    by_cases hw : w.address = u.address
    · rw [if_pos hw] at h
      exact (List.mem_cons.1 h).imp_right fun hv => List.mem_cons_of_mem w hv
    · rw [if_neg hw] at h
      rcases List.mem_cons.1 h with rfl | hv
      · exact Or.inr List.mem_cons_self
      · exact (ih hv).imp_right fun hv => List.mem_cons_of_mem w hv

theorem mem_putData {u v : DataUnit} {data : List DataUnit}
    (hnodup : (data.map (·.address)).Nodup) (h : v ∈ putData u data) :
    v = u ∨ v ∈ data ∧ v.address ≠ u.address := by
  induction data with
  | nil =>
    rw [putData, List.mem_singleton] at h
    exact Or.inl h
  | cons w data ih =>
    rw [List.map_cons, List.nodup_cons] at hnodup
    rw [putData] at h
    by_cases hw : w.address = u.address
    · rw [if_pos hw] at h
      rcases List.mem_cons.1 h with rfl | hv
      · exact Or.inl rfl
      · refine Or.inr ⟨List.mem_cons_of_mem w hv, fun heq => hnodup.1 ?_⟩
        rw [hw, ← heq]
        exact List.mem_map_of_mem hv
    · rw [if_neg hw] at h
      rcases List.mem_cons.1 h with rfl | hv
      · exact Or.inr ⟨List.mem_cons_self, hw⟩
      · rcases ih hnodup.2 hv with rfl | ⟨hmem, hne⟩
        · exact Or.inl rfl
        · exact Or.inr ⟨List.mem_cons_of_mem w hmem, hne⟩

theorem mem_putData_self (u : DataUnit) (data : List DataUnit) : u ∈ putData u data := by
  induction data with
  | nil => exact List.mem_singleton_self u
  | cons w data ih =>
    rw [putData]
    by_cases hw : w.address = u.address
    · rw [if_pos hw]
      exact List.mem_cons_self
    · rw [if_neg hw]
      exact List.mem_cons_of_mem w ih

theorem nodup_putData {u : DataUnit} {data : List DataUnit}
    (hnodup : (data.map (·.address)).Nodup) : ((putData u data).map (·.address)).Nodup := by
  induction data with
  | nil => exact List.nodup_cons.2 ⟨List.not_mem_nil, List.nodup_nil⟩
  | cons w data ih =>
    have hcons := List.nodup_cons.1 hnodup
    rw [putData]
    by_cases hw : w.address = u.address
    · rw [if_pos hw, List.map_cons, ← hw]
      exact hnodup
    · rw [if_neg hw, List.map_cons, List.nodup_cons]
      refine ⟨fun hmem => ?_, ih hcons.2⟩
      obtain ⟨v, hv, heq⟩ := List.mem_map.1 hmem
      rcases mem_putData hcons.2 hv with rfl | ⟨hdata, -⟩
      · exact hw heq.symm
      · exact hcons.1 (List.mem_map.2 ⟨v, hdata, heq⟩)

theorem not_meets_iff {first last first' last' : Int} :
    meets first last first' last' = false ↔ last < first' ∨ last' < first := by
  unfold meets
  rw [Bool.and_eq_false_iff, decide_eq_false_iff_not, decide_eq_false_iff_not, not_le, not_le]

theorem conflict?_eq_none {a : Address} {last : Int} (h : p.conflict? a last = none) :
    (∀ i ∈ p.instructions, last < i.address.offset ∨ i.last < a.offset) ∧
      ∀ u ∈ p.data, u.address ≠ a → last < u.address.offset ∨ u.last < a.offset := by
  unfold conflict? at h
  split at h
  · cases h
  · next hinstructions =>
    split at h
    · cases h
    · next hdata =>
      rw [List.find?_eq_none] at hinstructions hdata
      refine ⟨fun i hi => ?_, fun u hu hne => ?_⟩
      · exact not_meets_iff.1 (eq_false_of_ne_true (hinstructions i hi))
      · have hfree := hdata u hu
        rw [Bool.and_eq_true, not_and] at hfree
        exact not_meets_iff.1 (eq_false_of_ne_true (hfree (decide_eq_true hne)))

/-- Placing data up to its last address keeps the layout. -/
theorem WellLaid.placeUpTo (h : p.WellLaid) {a last : Address} {t : DataType} {n : Nat}
    (hpos : 0 < n) (hlength : t.length = .finite n) (hlast : last.offset + 1 = a.offset + n)
    (hinside : last.offset < p.space.size) (hplace : p.placeUpTo a t last = .ok p') :
    p'.WellLaid := by
  unfold Program.placeUpTo at hplace
  split at hplace
  · cases hplace
  · next hconflict =>
    obtain rfl := Except.ok.inj hplace
    obtain ⟨hinstructions, hdata⟩ := conflict?_eq_none hconflict
    have hunit : DataUnit.length ⟨a, t⟩ = n := DataUnit.length_eq hlength
    have hunitLast : DataUnit.last ⟨a, t⟩ = last.offset := by
      rw [DataUnit.last, hunit]
      show (a.offset : Int) + n - 1 = last.offset
      omega
    have hcases {v : DataUnit} (hv : v ∈ putData ⟨a, t⟩ p.data) := mem_putData h.nodup hv
    constructor
    · exact nodup_putData h.nodup
    · intro u hu
      rcases hcases hu with rfl | ⟨hold, -⟩
      · rw [hunit]
        omega
      · exact h.length u hold
    · intro u hu
      rcases hcases hu with rfl | ⟨hold, -⟩
      · rw [hunitLast]
        exact Int.ofNat_lt.2 hinside
      · exact h.inside u hold
    · intro u hu v hv hne
      rcases hcases hu with rfl | ⟨hu, hua⟩
      · rcases hcases hv with rfl | ⟨hv, hva⟩
        · exact absurd rfl hne
        · rw [hunitLast]
          exact hdata v hv hva
      · rcases hcases hv with rfl | ⟨hv, hva⟩
        · rw [hunitLast]
          exact (hdata u hu hua).symm
        · exact h.apart u hu v hv hne
    · intro u hu i hi
      rcases hcases hu with rfl | ⟨hold, -⟩
      · rw [hunitLast]
        exact hinstructions i hi
      · exact h.clear u hold i hi

/-- Placing data of a type that was read keeps the layout. -/
theorem WellLaid.placeData (h : p.WellLaid) {a : Address} {t : DataType}
    (hcount : IsCount t.length) (hexact : t.IsExactIn p.space)
    (hplace : p.placeData a t = .ok p') : p'.WellLaid := by
  unfold Program.placeData at hplace
  cases hadvance : p.space.advance a (lastDisplacement t) with
  | error err => rw [hadvance] at hplace; cases hplace
  | ok last =>
    rw [hadvance] at hplace
    obtain ⟨n, hpos, hlength, hlast, hinside⟩ :=
      AddressSpace.last_of_advance hcount hexact hadvance
    exact h.placeUpTo hpos hlength hlast hinside hplace

theorem placeData_eq {a : Address} {t : DataType} (hplace : p.placeData a t = .ok p') :
    p' = { p with data := putData ⟨a, t⟩ p.data } := by
  unfold placeData at hplace
  split at hplace
  · cases hplace
  · unfold placeUpTo at hplace
    split at hplace
    · cases hplace
    · exact (Except.ok.inj hplace).symm

/-! ## Loading -/

namespace Load

/-- What every entry keeps, the whole list keeps. -/
theorem addEach_induct {α σ : Type} {add : σ → Nat → α → Except LoadError σ} {P : σ → Prop}
    {entries : List α}
    (hstep : ∀ state index entry state', entry ∈ entries → P state →
      add state index entry = .ok state' → P state')
    {state state' : σ} {index : Nat} (hstart : P state)
    (h : addEach add state index entries = .ok state') : P state' := by
  induction entries generalizing state index with
  | nil =>
    obtain rfl := Except.ok.inj h
    exact hstart
  | cons entry entries ih =>
    obtain ⟨next, hadd, hrest⟩ := Outcome.bind_eq_ok h
    refine ih (fun state index other state' hmem => ?_) ?_ hrest
    · exact hstep state index other state' (List.mem_cons_of_mem entry hmem)
    · exact hstep state index entry next List.mem_cons_self hstart hadd

/-- What adding a unit of data does. -/
theorem addData_cases {index : Nat} {entry : DataEntry}
    (h : addData p index entry = .ok p') :
    ∃ a t, p.parseType entry.type = .ok t ∧ p.placeData a t = .ok p' := by
  obtain ⟨a, -, h⟩ := Outcome.bind_eq_ok h
  obtain ⟨t, htype, h⟩ := Outcome.bind_eq_ok h
  exact ⟨a, t, Outcome.ok_of_mapError htype, Outcome.ok_of_mapError h⟩

theorem addData_space {index : Nat} {entry : DataEntry} (h : addData p index entry = .ok p') :
    p'.space = p.space := by
  obtain ⟨a, t, -, hplace⟩ := addData_cases h
  rw [placeData_eq hplace]

end Load

/-- All but the data and the comments of a program is loaded first. -/
theorem exists_bare_of_load {s : Snapshot} (h : load s = .ok p) :
    ∃ start data comments, Load.bare s = .ok start ∧
      p = { start with data := data, comments := comments } := by
  obtain ⟨start, loaded, comments, hstart, hadd, -, rfl⟩ := load_eq_ok_iff.1 h
  have hloaded : ∃ data, loaded = { start with data := data } := by
    refine Load.addEach_induct (P := fun p => ∃ data, p = { start with data := data }) ?_
      ⟨start.data, rfl⟩ hadd
    rintro _ index entry p' _ ⟨data, rfl⟩ hdata
    obtain ⟨a, t, -, hplace⟩ := Load.addData_cases hdata
    obtain rfl := placeData_eq hplace
    exact ⟨_, rfl⟩
  obtain ⟨data, rfl⟩ := hloaded
  exact ⟨start, data, comments, hstart, rfl⟩

/-- A loaded program has the space and the functions of its snapshot and the data of its entries. -/
theorem load_cases {s : Snapshot} (h : load s = .ok p) :
    ∃ bare loaded comments, bare.space = ⟨s.pointerSize.bytes⟩ ∧ bare.data = [] ∧
      Load.sortedFunctions ⟨s.pointerSize.bytes⟩ s.functions = .ok bare.functions ∧
      Load.addEach Load.addData bare 0 s.data = .ok loaded ∧
      p = { loaded with comments := comments } := by
  obtain ⟨bare, loaded, comments, hbare, hadd, -, hp⟩ := load_eq_ok_iff.1 h
  obtain ⟨hspace, hdata, -, hfunctions⟩ := Load.bare_cases hbare
  exact ⟨bare, loaded, comments, hspace, hdata, hfunctions, hadd, hp⟩

theorem wellLaid_of_data_eq_nil (h : p.data = []) : p.WellLaid := by
  constructor
  · rw [h]
    exact List.nodup_nil
  all_goals
    rw [h]
    intro u hu
    cases hu

/-- A loaded program is well laid, if the lengths of its types are exact. -/
theorem wellLaid_load {s : Snapshot} (h : load s = .ok p)
    (hexact : ∀ entry ∈ s.data, ∀ t, DataType.parse s.pointerSize.bytes entry.type = .ok t →
      t.IsExactIn ⟨s.pointerSize.bytes⟩) : p.WellLaid ∧ p.space = ⟨s.pointerSize.bytes⟩ := by
  obtain ⟨bare, loaded, comments, hspace, hdata, -, hadd, rfl⟩ := load_cases h
  have hloaded : loaded.WellLaid ∧ loaded.space = ⟨s.pointerSize.bytes⟩ := by
    refine Load.addEach_induct (P := fun p => p.WellLaid ∧ p.space = ⟨s.pointerSize.bytes⟩)
      (fun p index entry p' hmem hp hadd => ?_) ⟨wellLaid_of_data_eq_nil hdata, hspace⟩ hadd
    obtain ⟨hlaid, hspace⟩ := hp
    refine ⟨?_, (Load.addData_space hadd).trans hspace⟩
    obtain ⟨a, t, htype, hplace⟩ := Load.addData_cases hadd
    unfold parseType at htype
    have ht : t.IsExactIn p.space := by
      rw [hspace] at htype ⊢
      exact hexact entry hmem t htype
    exact hlaid.placeData (DataType.isCount_of_parse htype) ht hplace
  exact ⟨hloaded.1.congr rfl rfl rfl, hloaded.2⟩

end Program

end BinaryReport
