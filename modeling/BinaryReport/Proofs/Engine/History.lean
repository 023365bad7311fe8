import BinaryReport.Engine.Mutation
import BinaryReport.Proofs.Engine.Faultless
import BinaryReport.Proofs.Outcome

/-!
# Histories of changes

The changes that can be asked of an engine (`Edit`), and the engine after a list of them
(`Engine.editAll`). A change that fails leaves the engine as it was.

`Engine.Faultless.edit_cases` says all that a change can do to an engine without faults: nothing, giving a
symbol another name, or placing data of a type that was read from text at an address of the space. What
each of these keeps holds of every engine that a snapshot can become (`Engine.Reached.induct`).
-/

namespace BinaryReport

/-- A change that is asked of an engine. -/
inductive Edit where
  /-- Place data of a type at an address. -/
  | create (address type : String)
  /-- Give the data at an address another type. -/
  | retype (address type : String)
  /-- Name the first symbol at an address. -/
  | rename (address name : String)
  /-- Name the symbol of an index of the table. -/
  | setName (index : Nat) (name : String) (source : Source)
deriving DecidableEq

namespace Engine

/-- Places data of a type at an address, both read from text. -/
def createData (e : Engine) (address type : String) : Except Raised Engine := do
  let a ← e.parseAddress address
  let t ← e.parseType type
  e.placeData a t

/-- The engine after a change. -/
def edit (e : Engine) : Edit → Engine
  | .create address type => (e.createData address type).toOption.getD e
  | .retype address type => (e.retypeData address type).1
  | .rename address name => (e.renameSymbol address name).1
  | .setName index name source => (e.setName index name source).toOption.getD e

/-- The engine after a list of changes. -/
def editAll (e : Engine) (edits : List Edit) : Engine := edits.foldl edit e

/-! ## What a change can do -/

/-- What a change can do to a program. -/
inductive Change (p : Program) : Program → Prop where
  /-- Nothing. -/
  | none : Change p p
  /-- A symbol is given another name. -/
  | name (index : Nat) (name : String) (source : Source) (h : Program.isSymbolName name = true) :
    Change p (p.renameIndex index name source)
  /-- Data is placed. -/
  | data {a : Address} {t : DataType} {p' : Program} {address type : String}
    (haddress : p.parseAddress address = .ok a) (htype : p.parseType type = .ok t)
    (hplace : p.placeData a t = .ok p') : Change p p'

section Change

variable {e e' : Engine}

theorem Faultless.placeData_cases (h : e.Faultless) {a : Address} {t : DataType}
    (hplace : e.placeData a t = .ok e') :
    ∃ p, e.program.placeData a t = .ok p ∧ e' = { e with program := p } := by
  rw [h.placeData_eq] at hplace
  cases hp : e.program.placeData a t with
  | error err => rw [hp] at hplace; cases hplace
  | ok p =>
    rw [hp] at hplace
    exact ⟨p, rfl, (Except.ok.inj hplace).symm⟩

theorem setName_cases {index : Nat} {name : String} {source : Source}
    (hname : e.setName index name source = .ok e') :
    Program.isSymbolName name = true ∧
      e' = { e with program := e.program.renameIndex index name source } := by
  unfold setName Program.setName at hname
  by_cases hvalid : Program.isSymbolName name = true
  · rw [if_pos hvalid] at hname
    exact ⟨hvalid, (Except.ok.inj hname).symm⟩
  · rw [if_neg hvalid] at hname
    cases hname

theorem Faultless.createData_cases (h : e.Faultless) {address type : String}
    (hcreate : e.createData address type = .ok e') :
    ∃ p, Change e.program p ∧ e' = { e with program := p } := by
  unfold createData at hcreate
  cases haddress : e.parseAddress address with
  | error r => rw [haddress] at hcreate; cases hcreate
  | ok a =>
    cases htype : e.parseType type with
    | error r => rw [haddress, htype] at hcreate; cases hcreate
    | ok t =>
      rw [haddress, htype] at hcreate
      obtain ⟨p, hplace, he'⟩ := h.placeData_cases hcreate
      rw [h.parseAddress_eq] at haddress
      rw [h.parseType_eq] at htype
      exact ⟨p, .data (Outcome.ok_of_mapError haddress) (Outcome.ok_of_mapError htype) hplace, he'⟩

theorem parseAddress_of_addressOf {address : String} {a : Address}
    (haddress : e.addressOf address = .ok a) : e.parseAddress address = .ok a := by
  unfold addressOf readAddress at haddress
  cases hparse : e.parseAddress address with
  | ok b =>
    rw [hparse] at haddress
    exact congrArg _ (Except.ok.inj haddress)
  | error r =>
    rw [hparse] at haddress
    cases r with
    | value v => cases haddress
    | failure f =>
      by_cases hkind : f.kind = .addressParse
      · simp only [if_pos hkind] at haddress
        cases haddress
      · simp only [if_neg hkind] at haddress
        cases haddress

theorem tryRename_cases {address name : String} (hrename : e.tryRename address name = .ok e') :
    ∃ p, Change e.program p ∧ e' = { e with program := p } := by
  unfold tryRename at hrename
  cases haddress : e.addressOf address with
  | error err => rw [haddress] at hrename; cases hrename
  | ok a =>
    rw [haddress] at hrename
    cases hsymbols : e.symbolsAt a with
    | error r => simp only [hsymbols] at hrename; cases hrename
    | ok symbols =>
      cases symbols with
      | nil => simp only [hsymbols] at hrename; cases hrename
      | cons s symbols =>
        simp only [hsymbols] at hrename
        obtain ⟨hvalid, he'⟩ := setName_cases (Outcome.ok_of_mapError hrename)
        exact ⟨_, .name _ name .userDefined hvalid, he'⟩

theorem Faultless.tryRetype_cases (h : e.Faultless) {address type : String}
    (hretype : e.tryRetype address type = .ok e') :
    ∃ p, Change e.program p ∧ e' = { e with program := p } := by
  unfold tryRetype at hretype
  cases haddress : e.addressOf address with
  | error err => rw [haddress] at hretype; cases hretype
  | ok a =>
    rw [haddress] at hretype
    cases hdata : e.dataAt a with
    | error r => simp only [hdata] at hretype; cases hretype
    | ok unit? =>
      cases unit? with
      | none => simp only [hdata] at hretype; cases hretype
      | some u =>
        cases htype : e.parseType type with
        | error r => simp only [hdata, htype] at hretype; cases hretype
        | ok t =>
          simp only [hdata, htype] at hretype
          obtain ⟨p, hplace, he'⟩ := h.placeData_cases (Outcome.ok_of_mapError hretype)
          have hparse := parseAddress_of_addressOf haddress
          rw [h.parseAddress_eq] at hparse
          rw [h.parseType_eq] at htype
          exact ⟨p, .data (Outcome.ok_of_mapError hparse) (Outcome.ok_of_mapError htype) hplace, he'⟩

theorem conclude_cases {done : String} {tried : Except ChangeProblem Engine}
    (h : ∀ e', tried = .ok e' → ∃ p, Change e.program p ∧ e' = { e with program := p }) :
    ∃ p, Change e.program p ∧ (e.conclude done tried).1 = { e with program := p } := by
  cases tried with
  | ok e' => exact h e' rfl
  | error problem => exact ⟨e.program, .none, rfl⟩

theorem getD_cases {tried : Except Raised Engine}
    (h : ∀ e', tried = .ok e' → ∃ p, Change e.program p ∧ e' = { e with program := p }) :
    ∃ p, Change e.program p ∧ tried.toOption.getD e = { e with program := p } := by
  cases tried with
  | ok e' => exact h e' rfl
  | error r => exact ⟨e.program, .none, rfl⟩

/-- All that a change can do to an engine without faults. -/
theorem Faultless.edit_cases (h : e.Faultless) (x : Edit) :
    ∃ p, Change e.program p ∧ e.edit x = { e with program := p } := by
  cases x with
  | create address type => exact getD_cases fun e' => h.createData_cases
  | retype address type => exact conclude_cases fun e' => h.tryRetype_cases
  | rename address name => exact conclude_cases fun e' => tryRename_cases
  | setName index name source =>
    refine getD_cases fun e' he' => ?_
    obtain ⟨hvalid, heq⟩ := setName_cases he'
    exact ⟨_, .name index name source hvalid, heq⟩

theorem Faultless.edit (h : e.Faultless) (x : Edit) : (e.edit x).Faultless := by
  obtain ⟨p, -, hp⟩ := h.edit_cases x
  rw [hp]
  exact h

/-! ## Along a history -/

theorem Faultless.editAll (h : e.Faultless) (edits : List Edit) : (e.editAll edits).Faultless := by
  induction edits generalizing e with
  | nil => exact h
  | cons x edits ih => exact ih (h.edit x)

/-- What every change keeps, a history keeps. -/
theorem Faultless.editAll_induct (h : e.Faultless) {P : Program → Prop} (hstart : P e.program)
    (hchange : ∀ p p', P p → Change p p' → P p') (edits : List Edit) :
    P (e.editAll edits).program := by
  induction edits generalizing e with
  | nil => exact hstart
  | cons x edits ih =>
    obtain ⟨p, hp, heq⟩ := h.edit_cases x
    refine ih (h.edit x) ?_
    rw [heq]
    exact hchange e.program p hstart hp

end Change

/-! ## Engines that are reached -/

/-- An engine that a snapshot was loaded into, after changes, in a session or not. -/
def Reached (s : Snapshot) (e : Engine) : Prop :=
  ∃ e₀ edits isOpen, ofSnapshot s = .ok e₀ ∧ e = { editAll e₀ edits with isOpen := isOpen }

section Reached

variable {s : Snapshot} {e : Engine}

theorem Reached.faultless (h : Reached s e) : e.Faultless := by
  obtain ⟨e₀, edits, isOpen, hload, rfl⟩ := h
  exact (faultless_ofSnapshot hload).editAll edits

/-- What holds of a loaded program and is kept by every change holds of the programs that are
reached. -/
theorem Reached.induct (h : Reached s e) {P : Program → Prop}
    (hloaded : ∀ p, Program.load s = .ok p → P p)
    (hchange : ∀ p p', P p → Change p p' → P p') : P e.program := by
  obtain ⟨e₀, edits, isOpen, hload, rfl⟩ := h
  obtain ⟨p, hp, rfl⟩ := ofSnapshot_cases hload
  exact (faultless_ofProgram p).editAll_induct (hloaded p hp) hchange edits

end Reached

end Engine

end BinaryReport
