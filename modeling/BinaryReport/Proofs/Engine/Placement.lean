import BinaryReport.Proofs.Engine.History
import BinaryReport.Proofs.Program.Extent

/-!
# Where data can be placed

Which data an engine places, whatever was changed before: data whose type was read is placed if and
only if there is room up to its computed end; else the failure says whether the data ends outside the
space or conflicts with what is there (`placeData_iff_hasRoom`). For lengths that are exact, and with
pointers of four bytes always, the computed end is the last byte; so of two units that would overlap the
later one is refused. A longer unit may be placed over an instruction (`placeData_over_instruction`).
-/

namespace BinaryReport

open Binary64

namespace Program

theorem Measured.change {p p' : Program} (h : p.Measured) (hchange : Engine.Change p p') :
    p'.Measured := by
  cases hchange with
  | none => exact h
  | name index name source hvalid =>
    unfold renameIndex
    split_ifs
    · exact h.congr rfl rfl
    · exact h.congr rfl rfl
  | data haddress htype hplace => exact h.placeData (DataType.isCount_of_parse htype) hplace

theorem toInt?_lastDisplacement_of_parse {p : Program} {text : String} {t : DataType} {n : Nat}
    (htype : p.parseType text = .ok t) (hlength : t.length = .finite n) :
    (lastDisplacement t).toInt? = some (reach n : Int) :=
  toInt?_lastDisplacement (DataType.isCount_of_parse htype) (DataType.isRounded_of_parse htype)
    hlength

end Program

namespace Engine

variable {s : Snapshot} {e e' : Engine} {a : Address} {t : DataType} {n : Nat} {text : String}

theorem Reached.measured (h : Reached s e) : e.program.Measured :=
  h.induct (fun _ => Program.measured_load) fun _ _ => Program.Measured.change

/-- Data of a type that was read is placed exactly if there is room up to the computed end, and then
one unit is put and nothing else changes. -/
theorem Faultless.placeData_eq_ok_iff (h : e.Faultless) (hmeasured : e.program.Measured)
    (htype : e.program.parseType text = .ok t) (hlength : t.length = .finite n) :
    e.placeData a t = .ok e' ↔
      e.program.HasRoom a (a.offset + Program.reach n) ∧
        e' = { e with program :=
          { e.program with data := Program.putData ⟨a, t⟩ e.program.data } } := by
  have hplace (p' : Program) : e.program.placeData a t = .ok p' ↔
      e.program.HasRoom a (a.offset + Program.reach n) ∧
        p' = { e.program with data := Program.putData ⟨a, t⟩ e.program.data } :=
    hmeasured.placeData_eq_ok_iff_hasRoom (Program.toInt?_lastDisplacement_of_parse htype hlength)
  constructor
  · intro hplaced
    obtain ⟨p, hp, rfl⟩ := h.placeData_cases hplaced
    obtain ⟨hroom, rfl⟩ := (hplace p).1 hp
    exact ⟨hroom, rfl⟩
  · rintro ⟨hroom, rfl⟩
    rw [h.placeData_eq, (hplace _).2 ⟨hroom, rfl⟩]
    rfl

theorem Faultless.kind_of_placeData (h : e.Faultless) (htype : e.program.parseType text = .ok t)
    (hlength : t.length = .finite n) {r : Raised} (hrefused : e.placeData a t = .error r) :
    ∃ f, r = .failure f ∧
      f.kind = if a.offset + Program.reach n < e.program.space.size then .dataConflict
        else .addressOverflow := by
  rw [h.placeData_eq] at hrefused
  cases hplace : e.program.placeData a t with
  | ok p => rw [hplace] at hrefused; cases hrefused
  | error err =>
    rw [hplace] at hrefused
    obtain rfl := Except.error.inj hrefused
    exact ⟨_, rfl, Program.kind_of_placeData
      (Program.toInt?_lastDisplacement_of_parse htype hlength) hplace⟩

/-- The engine places data of a type at an address exactly if there is room up to a last offset; else
the failure is an overflow if that offset is outside the space, and a conflict if it is inside. -/
def PlacesUpTo (e : Engine) (a : Address) (t : DataType) (last : Nat) : Prop :=
  ((∃ e', e.placeData a t = .ok e') ↔ e.program.HasRoom a last) ∧
    ∀ r, e.placeData a t = .error r → ∃ f, r = .failure f ∧
      f.kind = if last < e.program.space.size then .dataConflict else .addressOverflow

theorem Faultless.placesUpTo (h : e.Faultless) (hmeasured : e.program.Measured)
    (htype : e.program.parseType text = .ok t) (hlength : t.length = .finite n) (a : Address) :
    e.PlacesUpTo a t (a.offset + Program.reach n) := by
  refine ⟨⟨?_, fun hroom => ?_⟩, fun r => h.kind_of_placeData htype hlength⟩
  · rintro ⟨e', he'⟩
    exact ((h.placeData_eq_ok_iff hmeasured htype hlength).1 he').1
  · exact ⟨_, (h.placeData_eq_ok_iff hmeasured htype hlength).2 ⟨hroom, rfl⟩⟩

/-- With exact lengths the computed end is the last byte. -/
theorem PlacesUpTo.of_reach (h : e.PlacesUpTo a t (a.offset + Program.reach n))
    (hexact : e.program.space.pointerSize = 4 ∨ n ≤ exactLimit) :
    e.PlacesUpTo a t (a.offset + (n - 1)) := by
  rcases Program.reach_of_exact hexact with hreach | ⟨houtside, houtside'⟩
  · rw [← hreach]
    exact h
  · -- The space is so small that neither of the two ends is inside.
    obtain ⟨hplaces, hrefused⟩ := h
    have hroom (last : Nat) (hlast : e.program.space.size ≤ last) : ¬ e.program.HasRoom a last :=
      fun hroom => absurd hroom.inside (not_lt.2 hlast)
    refine ⟨?_, fun r hr => ?_⟩
    · rw [hplaces, iff_false_intro (hroom _ (by omega)), iff_false_intro (hroom _ (by omega))]
    · have hkind := hrefused r hr
      rw [if_neg (by omega)] at hkind ⊢
      exact hkind

/-- Data that would reach into a unit from another address is refused. -/
def Keeps (e : Engine) (u : DataUnit) : Prop :=
  ∀ (b : Address) (t : DataType) (text : String) (m x : Nat), b ≠ u.address →
    e.program.parseType text = .ok t → t.length = .finite m →
    u.Covers x → b.offset ≤ x → x ≤ b.offset + Program.reach m →
    ∃ f, e.placeData b t = .error (.failure f)

theorem Faultless.keeps (h : e.Faultless) (hmeasured : e.program.Measured) {u : DataUnit}
    (hu : u ∈ e.program.data) : e.Keeps u := by
  intro b t text m x hne htype hlength hcovers hbx hxb
  cases hplace : e.placeData b t with
  | ok e' =>
    have hroom := ((h.placeData_eq_ok_iff hmeasured htype hlength).1 hplace).1
    exact absurd hcovers (hroom.apart u hu hne.symm x hbx hxb)
  | error r =>
    obtain ⟨f, rfl, -⟩ := h.kind_of_placeData htype hlength hplace
    exact ⟨f, rfl⟩

/-- Whatever was changed before, data of a type with a finite length is placed if and only if there is
room up to its computed end, which is its last byte if the length is exact. What was placed is measured
exactly and keeps its place: later data that would reach into it from another address is refused. -/
theorem placeData_iff_hasRoom (h : Reached s e) (htype : e.program.parseType text = .ok t)
    (hlength : t.length = .finite n) (a : Address) :
    e.PlacesUpTo a t (a.offset + Program.reach n) ∧
      (e.program.space.pointerSize = 4 ∨ n ≤ exactLimit → e.PlacesUpTo a t (a.offset + (n - 1))) ∧
      ∀ e', e.placeData a t = .ok e' →
        e' = { e with program :=
          { e.program with data := Program.putData ⟨a, t⟩ e.program.data } } ∧
        DataUnit.last ⟨a, t⟩ = a.offset + (n - 1 : Nat) ∧ e'.Keeps ⟨a, t⟩ := by
  have hplaces := h.faultless.placesUpTo h.measured htype hlength a
  refine ⟨hplaces, hplaces.of_reach, fun e' hplace => ?_⟩
  obtain ⟨-, hplaced⟩ := (h.faultless.placeData_eq_ok_iff h.measured htype hlength).1 hplace
  have hunit : (⟨a, t⟩ : DataUnit) ∈ e'.program.data := by
    rw [hplaced]
    exact Program.mem_putData_self _ _
  obtain ⟨p, hp, rfl⟩ := h.faultless.placeData_cases hplace
  have hmeasured : p.Measured := h.measured.placeData (DataType.isCount_of_parse htype) hp
  have hfaultless : Faultless { e with program := p } := h.faultless
  have hpos := hmeasured.data _ hunit
  rw [DataUnit.length_eq hlength] at hpos
  refine ⟨hplaced, ?_, hfaultless.keeps hmeasured hunit⟩
  rw [DataUnit.last, DataUnit.length_eq hlength]
  show (a.offset : Int) + n - 1 = _
  omega

/-! ## Data longer than the limit -/

/-- A snapshot with one instruction, far behind the start of its space. -/
def farSnapshot : Snapshot :=
  ⟨"p", "x", "0", .eight, [], [], [⟨"20000000000001", "INT3", "", ⟨"cc", by decide +kernel⟩⟩], [], [],
    [], []⟩

/-- The instruction. -/
def farInstruction : Instruction := ⟨⟨9007199254740993⟩, "INT3", "", [-52]⟩

/-- The program of the snapshot. -/
def farProgram : Program :=
  ⟨"p", "x", ⟨8⟩, ⟨0⟩, none, [], [], [], [farInstruction], [], []⟩

/-- A type whose last byte, at the start of the space, is that of the instruction. -/
def farType : DataType := ⟨"char[9007199254740994]", .finite (9007199254740994 : Nat)⟩

theorem ofSnapshot_farSnapshot : ofSnapshot farSnapshot = .ok (ofProgram farProgram) :=
  ofSnapshot_of_load (by decide +kernel)

theorem reached_farSnapshot : Reached farSnapshot (ofProgram farProgram) :=
  ⟨ofProgram farProgram, [], false, ofSnapshot_farSnapshot, rfl⟩

theorem parseType_farType : farProgram.parseType "char[9007199254740994]" = .ok farType := by
  decide +kernel

/-- The computed end lies one byte before the instruction, so there is room. -/
theorem placeData_iff_hasRoom_far :
    Reached farSnapshot (ofProgram farProgram) ∧
      farProgram.parseType "char[9007199254740994]" = .ok farType ∧
      farType.length = .finite (9007199254740994 : Nat) ∧
      ∃ e', (ofProgram farProgram).placeData ⟨0⟩ farType = .ok e' ∧ e'.Keeps ⟨⟨0⟩, farType⟩ := by
  obtain ⟨⟨hplaces, -⟩, -, hkept⟩ :=
    placeData_iff_hasRoom reached_farSnapshot parseType_farType rfl ⟨0⟩
  have hroom : farProgram.HasRoom ⟨0⟩ (0 + Program.reach 9007199254740994) := by
    refine ⟨by decide +kernel, fun i hi x _ hx hcovers => ?_, fun u hu => by cases hu⟩
    have hreach : Program.reach 9007199254740994 = 9007199254740992 := by decide +kernel
    have hstart : (9007199254740993 : Nat) ≤ x := by
      rw [List.mem_singleton.1 hi] at hcovers
      exact hcovers.1
    omega
  obtain ⟨e', he'⟩ := hplaces.2 hroom
  exact ⟨reached_farSnapshot, parseType_farType, rfl, e', he', (hkept e' he').2.2⟩

/-- The data is placed although its last byte is that of the instruction. -/
theorem placeData_over_instruction :
    ofSnapshot farSnapshot = .ok (ofProgram farProgram) ∧
      farProgram.parseType "char[9007199254740994]" = .ok farType ∧
      (∃ e', (ofProgram farProgram).placeData ⟨0⟩ farType = .ok e') ∧
      farInstruction.Covers (0 + (9007199254740994 - 1)) ∧
      ¬ (ofProgram farProgram).PlacesUpTo ⟨0⟩ farType (0 + (9007199254740994 - 1)) := by
  have hplaced : ∃ e', (ofProgram farProgram).placeData ⟨0⟩ farType = .ok e' :=
    Outcome.exists_ok_of_toBool (by decide +kernel)
  have hcovers : farInstruction.Covers (0 + (9007199254740994 - 1)) := by
    constructor
    all_goals decide +kernel
  refine ⟨ofSnapshot_farSnapshot, parseType_farType, hplaced, hcovers, fun hplaces => ?_⟩
  have hroom := hplaces.1.1 hplaced
  exact hroom.clear farInstruction List.mem_cons_self _ (Nat.zero_le _) (le_refl _) hcovers

end Engine

end BinaryReport
