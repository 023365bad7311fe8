import BinaryReport.Engine
import BinaryReport.Proofs.Outcome

/-!
# Engines without faults

An engine without faults answers every question from its program. The equations say so site by site,
so that later proofs need not look at faults.
-/

namespace BinaryReport.Engine

/-- An engine whose questions are answered by its program. -/
def Faultless (e : Engine) : Prop := e.faults = {}

theorem faultless_ofProgram (p : Program) : (ofProgram p).Faultless := rfl

theorem ofSnapshot_cases {s : Snapshot} {e : Engine} (h : ofSnapshot s = .ok e) :
    ∃ p, Program.load s = .ok p ∧ e = ofProgram p := by
  unfold ofSnapshot at h
  cases hload : Program.load s with
  | error err => rw [hload] at h; cases h
  | ok p =>
    rw [hload] at h
    exact ⟨p, rfl, (Except.ok.inj h).symm⟩

theorem ofSnapshot_of_load {s : Snapshot} {p : Program} (h : Program.load s = .ok p) :
    ofSnapshot s = .ok (ofProgram p) := by
  rw [ofSnapshot, h]

theorem exists_ofSnapshot_iff {s : Snapshot} :
    (∃ e, ofSnapshot s = .ok e) ↔ ∃ p, Program.load s = .ok p := by
  constructor
  · rintro ⟨e, he⟩
    obtain ⟨p, hload, -⟩ := ofSnapshot_cases he
    exact ⟨p, hload⟩
  · rintro ⟨p, hload⟩
    exact ⟨ofProgram p, ofSnapshot_of_load hload⟩

theorem eq_ofProgram_of_ofJson {v : Json} {e : Engine} (h : ofJson v = .ok e) :
    e = ofProgram e.program := by
  unfold ofJson at h
  cases hparse : Snapshot.parse v with
  | error r => rw [hparse] at h; cases h
  | ok s =>
    rw [hparse] at h
    obtain ⟨p, -, rfl⟩ := ofSnapshot_cases h
    rfl

theorem faultless_ofSnapshot {s : Snapshot} {e : Engine} (h : ofSnapshot s = .ok e) :
    e.Faultless := by
  obtain ⟨p, -, rfl⟩ := ofSnapshot_cases h
  exact faultless_ofProgram p

/-- The engine of a snapshot has no faults. -/
theorem faultless_ofJson {v : Json} {e : Engine} (h : ofJson v = .ok e) : e.Faultless := by
  rw [eq_ofProgram_of_ofJson h]
  exact faultless_ofProgram e.program

/-- An engine without faults is its program with a session that is open or not. -/
theorem Faultless.eq_mk {e : Engine} (h : e.Faultless) : e = ⟨e.program, e.isOpen, {}⟩ := by
  obtain ⟨p, isOpen, faults⟩ := e
  obtain rfl : faults = {} := h
  rfl

section Questions

variable {e : Engine}

theorem Faultless.name_eq (h : e.Faultless) : e.name = .ok e.program.name := by
  rw [name, h]
  rfl

theorem Faultless.symbols_eq (h : e.Faultless) : e.symbols = .ok e.program.symbols := by
  rw [symbols, h]
  rfl

theorem Faultless.functions_eq (h : e.Faultless) : e.functions = .ok e.program.functions := by
  rw [functions, h]
  rfl

theorem Faultless.functionContaining_eq (h : e.Faultless) (a : Address) :
    e.functionContaining a = .ok (e.program.functionContaining? a) := by
  rw [functionContaining, h]
  rfl

theorem Faultless.instructionAt_eq (h : e.Faultless) (a : Address) :
    e.instructionAt a = .ok (e.program.instructionAt? a) := by
  rw [instructionAt, h]
  rfl

theorem Faultless.commentAt_eq (h : e.Faultless) (kind : CommentKind) (a : Address) :
    e.commentAt kind a = .ok (e.program.commentAt? kind a) := by
  rw [commentAt, h]
  rfl

theorem Faultless.symbolsAt_eq (h : e.Faultless) (a : Address) :
    e.symbolsAt a = .ok (e.program.symbolsAt a) := by
  rw [symbolsAt, h]
  rfl

theorem Faultless.dataAt_eq (h : e.Faultless) (a : Address) :
    e.dataAt a = .ok (e.program.dataAt? a) := by
  rw [dataAt, h]
  rfl

theorem Faultless.parseAddress_eq (h : e.Faultless) (text : String) :
    e.parseAddress text = (e.program.parseAddress text).mapError AddressError.raised := by
  rw [parseAddress, h]
  rfl

theorem Faultless.parseType_eq (h : e.Faultless) (text : String) :
    e.parseType text = (e.program.parseType text).mapError DataTypeError.raised := by
  rw [parseType, h]
  rfl

theorem Faultless.advance_eq (h : e.Faultless) (a : Address) (d : Displacement) :
    e.advance a d = (e.program.space.advance a d).mapError DisplacementError.raised := by
  rw [advance, h]
  rfl

theorem Faultless.resolveEntry_eq (h : e.Faultless) :
    e.resolveEntry = .ok (e.program.entryFrom e.program.entryPoints) := by
  rw [resolveEntry, entryPoints, h]
  rfl

theorem Faultless.placeData_eq (h : e.Faultless) (a : Address) (t : DataType) :
    e.placeData a t = ((e.program.placeData a t).mapError Program.PlacementError.raised).map
      fun p => { e with program := p } := by
  rw [placeData, h, h.advance_eq, Program.placeData]
  cases e.program.space.advance a (Program.lastDisplacement t) with
  | error err => rfl
  | ok last =>
    rw [Outcome.mapError_ok]
    dsimp only
    cases e.program.placeUpTo a t last with
    | error err => rfl
    | ok p => rfl

theorem Faultless.openProgram_eq (h : e.Faultless) :
    e.openProgram = (.ok true, { e with isOpen := true }) := by
  rw [openProgram, h]

theorem Faultless.closeProgram_eq (h : e.Faultless) :
    e.closeProgram = ({ e with isOpen := false }, .ok []) := by
  rw [closeProgram, h]

theorem Faultless.decompiler_eq (h : e.Faultless) : e.decompiler = Decompiler.stored e.isOpen := by
  rw [decompiler, h]

end Questions

end BinaryReport.Engine
