import BinaryReport.Engine
import BinaryReport.Proofs.Program.Loaded
import BinaryReport.Proofs.Snapshot.Places

/-!
# Refused snapshots

A value from which no engine is made is refused with a `SnapshotError` that names a place of the value
(`Json.HasPlace`), with one exception: data whose type is so long that its length is no number
(`Snapshot.EndlessData`). Its last address cannot be computed, and the failure of that computation is
raised as it is (`Engine.ofJson_cases`).
-/

namespace BinaryReport

open Binary64 Outcome

/-! ## Endless data -/

/-- What is raised about data whose length is not finite. -/
def Snapshot.endlessLength : Failure :=
  .ofKind .range "The number Infinity cannot be converted to a BigInt because it is not an integer"

/-- A snapshot of which everything before a unit of data can be loaded, and then the length of the
type of that unit is not finite. -/
def Snapshot.EndlessData (s : Snapshot) : Prop :=
  ∃ i entry a t, s.data[i]? = some entry ∧
    (∃ p, Program.load { s with data := s.data.take i, comments := [] } = .ok p) ∧
    AddressSpace.parse ⟨s.pointerSize.bytes⟩ entry.address = .ok a ∧
    DataType.parse s.pointerSize.bytes entry.type = .ok t ∧ t.length = .infinite false

namespace Program

variable {p : Program} {a : Address} {t : DataType}

theorem placeData_of_endless (h : t.length = .infinite false) :
    p.placeData a t = .error (.extent (.notInteger "Infinity")) := by
  have hlast : lastDisplacement t = .number (.infinite false) := by
    rw [lastDisplacement, h, infinite_sub_one]
  unfold placeData
  rw [hlast]
  rfl

/-- Only the length of endless data has no last byte. -/
theorem endless_of_placeData {pointerSize : Nat} {text : String} {displacement : String}
    (htype : DataType.parse pointerSize text = .ok t)
    (h : p.placeData a t = .error (.extent (.notInteger displacement))) :
    t.length = .infinite false := by
  have hcount := DataType.isCount_of_parse htype
  have hrounded := DataType.isRounded_of_parse htype
  generalize hlength : t.length = length at hcount hrounded
  cases hcount with
  | infinite => rfl
  | @finite n hn =>
    obtain ⟨k, hk⟩ := sub_one_of_isRounded hn hrounded
    have hlast : (lastDisplacement t).toInt? = some (k : Int) := by
      rw [lastDisplacement, hlength, hk]
      exact toInt?_finite_natCast k
    unfold placeData AddressSpace.advance at h
    rw [hlast] at h
    dsimp only at h
    cases hshift : p.space.shift? a (k : Int) with
    | none =>
      rw [hshift] at h
      cases h
    | some last =>
      rw [hshift] at h
      dsimp only [placeUpTo] at h
      cases hconflict : p.conflict? a last.offset with
      | none =>
        rw [hconflict] at h
        cases h
      | some e =>
        -- A conflict is with an instruction or with data, not with the extent.
        rw [hconflict] at h
        obtain rfl := Except.error.inj h
        unfold conflict? at hconflict
        split at hconflict
        · cases hconflict
        · split at hconflict
          · cases hconflict
          · cases hconflict

end Program

/-! ## Blame -/

/-- An error is blamed on a place of the snapshot. -/
structure LoadError.Blames (s : Snapshot) (err : LoadError) : Prop where
  /-- The path leads to what was being loaded. -/
  place : s.Place err.path
  /-- The failure names the path. -/
  failure : err.failure = Snapshot.invalidAt (PathStep.pathText err.path) err.reason.message

namespace Program.Load

variable {s : Snapshot} {err : LoadError} {space : AddressSpace}

theorem blames_address {path : List PathStep} {text : String} (hplace : s.Place path)
    (h : address space path text = .error err) : err.Blames s := by
  obtain ⟨cause, -, rfl⟩ := error_of_mapError h
  exact ⟨hplace, rfl⟩

theorem blames_addInstruction {done : List Instruction} {i : Nat} {e : InstructionEntry}
    (hi : s.instructions[i]? = some e) (h : addInstruction space done i e = .error err) :
    err.Blames s := by
  rcases bind_eq_error h with h | ⟨a, -, h⟩
  · exact blames_address (.instruction hi) h
  · split at h
    · obtain rfl := Except.error.inj h
      exact ⟨.instruction hi, rfl⟩
    · cases h

theorem blames_function {i : Nat} {e : FunctionEntry} (hi : s.functions[i]? = some e)
    (h : function space i e = .error err) : err.Blames s := by
  rcases bind_eq_error h with h | ⟨entry, -, h⟩
  · exact blames_address (.entry hi) h
  rcases bind_eq_error h with h | ⟨ranges, -, h⟩
  · obtain ⟨j, range, hj, h⟩ := each_eq_error h
    rw [Nat.zero_add] at h
    rcases bind_eq_error h with h | ⟨first, -, h⟩
    · exact blames_address (.bodyStart hi hj) h
    · rcases bind_eq_error h with h | ⟨last, -, h⟩
      · exact blames_address (.bodyEnd hi hj) h
      · cases h
  · dsimp only at h
    split at h
    · cases h
    · obtain rfl := Except.error.inj h
      exact ⟨.body hi, rfl⟩

theorem blames_sortedFunctions (h : sortedFunctions space s.functions = .error err) :
    err.Blames s := by
  rcases bind_eq_error h with h | ⟨placed, hplaced, h⟩
  · obtain ⟨i, e, hi, h⟩ := each_eq_error h
    rw [Nat.zero_add] at h
    exact blames_function hi h
  · obtain ⟨_, f, done, hf, -, h⟩ := addEach_eq_error_iff.1 h
    -- A second function of one entry is blamed at its place before the sorting.
    have hmem : f ∈ placed := List.mem_mergeSort.1 (List.mem_of_getElem? hf)
    obtain ⟨i, e, hi, hfunction⟩ := exists_of_mem_each hplaced hmem
    rw [Nat.zero_add] at hfunction
    unfold addFunction at h
    split at h
    · obtain rfl := Except.error.inj h
      rw [(function_eq_ok_iff.1 hfunction).1]
      exact ⟨.entry hi, rfl⟩
    · cases h

theorem blames_addSymbol {functions : List Function} {labels : List Symbol} {i : Nat}
    {e : SymbolEntry} (hi : s.symbols[i]? = some e)
    (h : addSymbol space functions labels i e = .error err) : err.Blames s := by
  rcases bind_eq_error h with h | ⟨a, -, h⟩
  · exact blames_address (.symbol hi) h
  · dsimp only at h
    split at h <;> cases h

theorem blames_bare (h : bare s = .error err) : err.Blames s := by
  rcases bind_eq_error h with h | ⟨imageBase, -, h⟩
  · exact blames_address .imageBase h
  rcases bind_eq_error h with h | ⟨starts, -, h⟩
  · obtain ⟨i, e, hi, h⟩ := each_eq_error h
    rw [Nat.zero_add] at h
    exact blames_address (.memory hi) h
  rcases bind_eq_error h with h | ⟨entryPoints, -, h⟩
  · obtain ⟨i, text, hi, h⟩ := each_eq_error h
    rw [Nat.zero_add] at h
    exact blames_address (.entryPoint hi) h
  rcases bind_eq_error h with h | ⟨instructions, -, h⟩
  · obtain ⟨i, e, done, hi, -, h⟩ := addEach_eq_error_iff.1 h
    rw [Nat.zero_add] at h
    exact blames_addInstruction hi h
  rcases bind_eq_error h with h | ⟨functions, -, h⟩
  · exact blames_sortedFunctions h
  rcases bind_eq_error h with h | ⟨labels, -, h⟩
  · obtain ⟨i, e, done, hi, -, h⟩ := addEach_eq_error_iff.1 h
    rw [Nat.zero_add] at h
    exact blames_addSymbol hi h
  · cases h

theorem space_addEach {p p' : Program} {i : Nat} {entries : List DataEntry}
    (h : addEach addData p i entries = .ok p') : p'.space = p.space := by
  refine addEach_induct (P := fun q => q.space = p.space) ?_ rfl h
  intro q index entry q' _ hq hadd
  exact (addData_space hadd).trans hq

/-- Data that cannot be added is to blame, unless its type is endless. -/
theorem addData_eq_error {p : Program} {i : Nat} {e : DataEntry} (hi : s.data[i]? = some e)
    (h : addData p i e = .error err) :
    err.Blames s ∨ err.failure = Snapshot.endlessLength ∧
      ∃ a t, p.space.parse e.address = .ok a ∧ p.parseType e.type = .ok t ∧
        t.length = .infinite false := by
  rcases bind_eq_error h with h | ⟨a, ha, h⟩
  · exact Or.inl (blames_address (.dataAddress hi) h)
  rcases bind_eq_error h with h | ⟨t, ht, h⟩
  · obtain ⟨cause, -, rfl⟩ := error_of_mapError h
    exact Or.inl ⟨.data hi, rfl⟩
  obtain ⟨cause, hplace, rfl⟩ := error_of_mapError h
  have haddress := ok_of_mapError ha
  have htype := ok_of_mapError ht
  cases cause with
  | instruction text => exact Or.inl ⟨.data hi, rfl⟩
  | data text => exact Or.inl ⟨.data hi, rfl⟩
  | extent e =>
    cases e with
    | overflow start displacement => exact Or.inl ⟨.data hi, rfl⟩
    | notInteger displacement =>
      have hlength := endless_of_placeData htype hplace
      rw [placeData_of_endless hlength] at hplace
      have hcause := Program.PlacementError.extent.inj (Except.error.inj hplace)
      obtain rfl := DisplacementError.notInteger.inj hcause
      exact Or.inr ⟨rfl, a, t, haddress, htype, hlength⟩

end Program.Load

namespace Program

variable {s : Snapshot}

open Load

/-- What cannot be loaded is to blame, unless it is endless data. -/
theorem load_eq_error {err : LoadError} (h : load s = .error err) :
    err.Blames s ∨ err.failure = Snapshot.endlessLength ∧ s.EndlessData := by
  rw [load_eq_bind] at h
  rcases bind_eq_error h with h | ⟨start, hstart, h⟩
  · exact Or.inl (blames_bare h)
  rcases bind_eq_error h with h | ⟨p, -, h⟩
  · obtain ⟨i, entry, before, hi, hbefore, h⟩ := addEach_eq_error_iff.1 h
    rw [Nat.zero_add] at h
    rcases addData_eq_error hi h with hblames | ⟨hraised, a, t, ha, ht, hlength⟩
    · exact Or.inl hblames
    · have hspace : before.space = ⟨s.pointerSize.bytes⟩ :=
        (space_addEach hbefore).trans (bare_cases hstart).1
      unfold parseType at ht
      rw [hspace] at ha ht
      have hload : load { s with data := s.data.take i, comments := [] } =
          .ok { before with comments := [] } :=
        load_eq_ok_iff.2 ⟨start, before, [], hstart, hbefore, rfl, rfl⟩
      exact Or.inr ⟨hraised, i, entry, a, t, hi, ⟨_, hload⟩, ha, ht, hlength⟩
  rcases bind_eq_error h with h | ⟨comments, -, h⟩
  · obtain ⟨i, e, hi, h⟩ := each_eq_error h
    rw [Nat.zero_add] at h
    rcases bind_eq_error h with h | ⟨a, -, h⟩
    · exact Or.inl (blames_address (.comment hi) h)
    · cases h
  · cases h

theorem load_of_endlessData (h : s.EndlessData) :
    ∃ err, load s = .error err ∧ err.failure = Snapshot.endlessLength := by
  obtain ⟨i, entry, a, t, hi, ⟨p, hload⟩, ha, ht, hlength⟩ := h
  obtain ⟨start, before, comments, hstart, hbefore, -, -⟩ := load_eq_ok_iff.1 hload
  have hspace : before.space = ⟨s.pointerSize.bytes⟩ :=
    (space_addEach hbefore).trans (bare_cases hstart).1
  have hadd : addData before i entry =
      .error ⟨item "data" i, .placement (.extent (.notInteger "Infinity"))⟩ := by
    unfold addData address parseType
    rw [hspace, ha, ht, mapError_ok, mapError_ok]
    show (before.placeData a t).mapError _ = _
    rw [placeData_of_endless hlength]
    rfl
  have hdata : addEach addData start 0 s.data =
      .error ⟨item "data" i, .placement (.extent (.notInteger "Infinity"))⟩ := by
    refine addEach_eq_error_iff.2 ⟨i, entry, before, hi, hbefore, ?_⟩
    rw [Nat.zero_add]
    exact hadd
  have hload : load s = .error ⟨item "data" i, .placement (.extent (.notInteger "Infinity"))⟩ := by
    have hstart : bare s = .ok start := hstart
    rw [load_eq_bind, hstart]
    show (addEach addData start 0 s.data >>= _) = _
    rw [hdata]
    rfl
  exact ⟨_, hload, rfl⟩

end Program

/-! ## Engines -/

namespace Engine

theorem ofJson_of_parse {v : Json} {s : Snapshot} (h : Snapshot.parse v = .ok s) :
    ofJson v = ofSnapshot s := by
  unfold ofJson
  rw [h]

theorem ofJson_of_endlessData {v : Json} {s : Snapshot} (hparse : Snapshot.parse v = .ok s)
    (h : s.EndlessData) : ofJson v = .error Snapshot.endlessLength := by
  obtain ⟨err, hload, hraised⟩ := Program.load_of_endlessData h
  rw [ofJson_of_parse hparse, ofSnapshot, hload, ← hraised]

/-- Whatever a value is, an engine is made of it, or a failure blames a place of the value, or there is
endless data. -/
theorem ofJson_cases (v : Json) :
    (∃ e, ofJson v = .ok e) ∨
      (∃ path reason, v.HasPlace path reason ∧
        ofJson v = .error (Snapshot.invalidAt (PathStep.pathName path) reason)) ∨
      ∃ s, Snapshot.parse v = .ok s ∧ s.EndlessData := by
  cases hparse : Snapshot.parse v with
  | error r =>
    obtain ⟨path, message, hplace, rfl⟩ := Snapshot.parse_eq_error hparse
    refine Or.inr (Or.inl ⟨path, message, hplace, ?_⟩)
    rw [ofJson, hparse]
  | ok s =>
    rw [ofJson_of_parse hparse, ofSnapshot]
    cases hload : Program.load s with
    | ok p => exact Or.inl ⟨_, rfl⟩
    | error err =>
      rcases Program.load_eq_error hload with hblames | ⟨-, hendless⟩
      · have hsome := Snapshot.isSome_at?_of_place (Snapshot.check_of_parse hparse) hblames.place
        refine Or.inr (Or.inl ⟨err.path, err.reason.message, .present hsome _, ?_⟩)
        rw [hblames.place.pathName_eq]
        exact congrArg Except.error hblames.failure
      · exact Or.inr (Or.inr ⟨s, rfl, hendless⟩)

/-- An engine is made of a value, or a failure blames a place of the value, with the one exception of
endless data, for which the failure of the computation is raised. -/
theorem ofJson_blames (v : Json) :
    (ofJson v = .error Snapshot.endlessLength ↔
        ∃ s, Snapshot.parse v = .ok s ∧ s.EndlessData) ∧
      (ofJson v = .error Snapshot.endlessLength ∨ (∃ e, ofJson v = .ok e) ∨
        ∃ path reason, v.HasPlace path reason ∧
          ofJson v = .error (Snapshot.invalidAt (PathStep.pathName path) reason)) := by
  have hraised : (∃ s, Snapshot.parse v = .ok s ∧ s.EndlessData) →
      ofJson v = .error Snapshot.endlessLength := by
    rintro ⟨s, hparse, hendless⟩
    exact ofJson_of_endlessData hparse hendless
  rcases ofJson_cases v with ⟨e, he⟩ | ⟨path, reason, hplace, hinvalid⟩ | hendless
  · refine ⟨⟨fun h => ?_, hraised⟩, Or.inr (Or.inl ⟨e, he⟩)⟩
    rw [he] at h
    cases h
  · refine ⟨⟨fun h => ?_, hraised⟩, Or.inr (Or.inr ⟨path, reason, hplace, hinvalid⟩)⟩
    -- A failure of a snapshot is of another kind.
    rw [hinvalid] at h
    cases h
  · exact ⟨⟨fun _ => hendless, hraised⟩, Or.inl (hraised hendless)⟩

/-- A type with a dimension of 400 digits. -/
def endlessType : String := String.ofList ("char[".toList ++ List.replicate 400 '9' ++ [']'])

/-- A snapshot with data of the type. -/
def endlessJson : Json :=
  .object [("name", .string "p"), ("language", .string "x"), ("imageBase", .string "0"),
    ("data", .array [.object [("address", .string "0"), ("type", .string endlessType)]])]

/-- The snapshot of the value. -/
def endlessSnapshot : Snapshot :=
  ⟨"p", "x", "0", .eight, [], [], [], [], [], [⟨"0", endlessType⟩], []⟩

theorem parse_endlessType :
    DataType.parse 8 endlessType = .ok ⟨"char[Infinity]", .infinite false⟩ := by
  have hread : TypeText.read? endlessType = some ⟨["char"], 0, [10 ^ 400 - 1]⟩ := by
    unfold endlessType TypeText.read?
    rw [String.toList_ofList]
    decide +kernel
  rw [DataType.parse_of_read hread]
  decide +kernel

theorem ofJson_endlessJson :
    ofJson endlessJson = .error Snapshot.endlessLength ∧
      ¬ ((∃ e, ofJson endlessJson = .ok e) ∨
        ∃ path reason, endlessJson.HasPlace path reason ∧
          ofJson endlessJson = .error (Snapshot.invalidAt (PathStep.pathName path) reason)) := by
  have hparse : Snapshot.parse endlessJson = .ok endlessSnapshot := by rfl
  have hload : Program.load { endlessSnapshot with data := [], comments := [] } =
      .ok ⟨"p", "x", ⟨8⟩, ⟨0⟩, none, [], [], [], [], [], []⟩ := by
    decide +kernel
  have hendless : endlessSnapshot.EndlessData := by
    have haddress : AddressSpace.parse ⟨8⟩ "0" = .ok ⟨0⟩ := by decide +kernel
    exact ⟨0, _, ⟨0⟩, _, rfl, ⟨_, hload⟩, haddress, parse_endlessType, rfl⟩
  have hraised := ofJson_of_endlessData hparse hendless
  refine ⟨hraised, ?_⟩
  rw [hraised]
  rintro (⟨e, he⟩ | ⟨path, reason, -, hinvalid⟩)
  · cases he
  · cases hinvalid

end Engine

end BinaryReport
