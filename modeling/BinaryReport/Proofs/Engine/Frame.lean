import BinaryReport.Proofs.Engine.History
import BinaryReport.Proofs.Program.Layout
import BinaryReport.Proofs.Program.Names
import Mathlib.Data.List.Nodup

/-!
# What a change leaves as it was

A change of a loaded program always says whether it was made (`Engine.IsAtomic`). If it was not made,
the engine is as it was; if it was made, one symbol or one unit of data is different and nothing
else is (`Program.RenamedAt`, `Program.RetypedAt`).

No two units of a loaded program share an address, so the unit at an address is the one that is
replaced. A unit is replaced in its place; the addresses that hold data stay the same.
-/

namespace BinaryReport

namespace Program

variable {p p' : Program}

/-! ## Renaming -/

/-- `p'` is `p` with another name, given by the user, for the first symbol that is bound inside the
program at the address of a text. -/
def RenamedAt (p : Program) (address name : String) (p' : Program) : Prop :=
  ∃ a before s after, p.parseAddress address = .ok a ∧ p.symbols = before ++ s :: after ∧
    s.isExternal = false ∧ s.address = a ∧ (∀ x ∈ before, x.isExternal = true ∨ x.address ≠ a) ∧
    p'.symbols = before ++ ⟨name, s.address, s.kind, .userDefined, s.isExternal⟩ :: after ∧
    p' = p.withSymbols p'.symbols

theorem isBoundAt_iff {a : Address} {s : Symbol} :
    isBoundAt a s = true ↔ s.isExternal = false ∧ s.address = a := by
  simp [isBoundAt]

theorem isBoundAt_eq_false_iff {a : Address} {s : Symbol} :
    isBoundAt a s = false ↔ s.isExternal = true ∨ s.address ≠ a := by
  rw [← Bool.not_eq_true, isBoundAt_iff, not_and_or, Bool.not_eq_false]

theorem renamedAt_of_symbolsAt {a : Address} {address : String} (name : String)
    (haddress : p.parseAddress address = .ok a) (hsymbols : p.symbolsAt a ≠ []) :
    p.RenamedAt address name
      (p.renameIndex (p.symbols.findIdx (isBoundAt a)) name .userDefined) := by
  obtain ⟨before, s, after, heq, hs, hbefore, hindex⟩ := exists_symbols_eq_append hsymbols
  obtain ⟨hinside, hat⟩ := isBoundAt_iff.1 hs
  have htable : p.symbols.modify before.length (rename name .userDefined) =
      before ++ rename name .userDefined s :: after := by
    rw [heq, modify_append_cons]
  have hlength : (before ++ rename name .userDefined s :: after).length = p.symbols.length := by
    rw [← htable, List.length_modify]
  rw [renameIndex_eq, hindex, htable]
  refine ⟨a, before, s, after, haddress, heq, hinside, hat, fun x hx => ?_, ?_, ?_⟩
  · exact isBoundAt_eq_false_iff.1 (hbefore x hx)
  · exact symbols_withSymbols hlength
  · rw [symbols_withSymbols hlength]

/-! ## Retyping -/

/-- `p'` is `p` with another type, read from text, for the unit of data at the address of a text. -/
def RetypedAt (p : Program) (address type : String) (p' : Program) : Prop :=
  ∃ a t before u after, p.parseAddress address = .ok a ∧ p.parseType type = .ok t ∧
    p.data = before ++ u :: after ∧ u.address = a ∧ (∀ v ∈ before ++ after, v.address ≠ a) ∧
    p'.data = before ++ ⟨u.address, t⟩ :: after ∧ p' = { p with data := p'.data }

theorem putData_eq_append {u v : DataUnit} {before : List DataUnit} (after : List DataUnit)
    (hv : v.address = u.address) (hbefore : ∀ w ∈ before, w.address ≠ u.address) :
    putData u (before ++ v :: after) = before ++ u :: after := by
  induction before with
  | nil => rw [List.nil_append, putData, if_pos hv, List.nil_append]
  | cons w before ih =>
    have hw : w.address ≠ u.address := hbefore w List.mem_cons_self
    have hrest := ih fun x hx => hbefore x (List.mem_cons_of_mem w hx)
    rw [List.cons_append, putData, if_neg hw, hrest, List.cons_append]

/-- If no two units share an address, the one at an address is alone there. -/
theorem exists_data_eq_append (hnodup : (p.data.map (·.address)).Nodup) {a : Address} {u : DataUnit}
    (hu : p.dataAt? a = some u) :
    ∃ before after, p.data = before ++ u :: after ∧ u.address = a ∧
      ∀ v ∈ before ++ after, v.address ≠ a := by
  obtain ⟨hat, before, after, heq, -⟩ := List.find?_eq_some_iff_append.1 hu
  have hat : u.address = a := of_decide_eq_true hat
  refine ⟨before, after, heq, hat, fun v hv hva => ?_⟩
  rw [heq, List.map_append, List.map_cons, List.nodup_middle, ← List.map_append] at hnodup
  refine (List.nodup_cons.1 hnodup).1 ?_
  rw [hat, ← hva]
  exact List.mem_map_of_mem hv

theorem retypedAt_of_placeData (hnodup : (p.data.map (·.address)).Nodup) {a : Address}
    {t : DataType} {u : DataUnit} {address type : String}
    (haddress : p.parseAddress address = .ok a) (htype : p.parseType type = .ok t)
    (hu : p.dataAt? a = some u) (hplace : p.placeData a t = .ok p') :
    p.RetypedAt address type p' := by
  obtain ⟨before, after, heq, hat, hother⟩ := exists_data_eq_append hnodup hu
  have hdata : putData ⟨a, t⟩ p.data = before ++ ⟨u.address, t⟩ :: after := by
    rw [heq, hat]
    exact putData_eq_append after hat fun w hw => hother w (List.mem_append_left after hw)
  obtain rfl := placeData_eq hplace
  exact ⟨a, t, before, u, after, haddress, htype, heq, hat, hother, hdata, rfl⟩

/-- The addresses that hold data stay the same. -/
theorem RetypedAt.addresses {address type : String} (h : p.RetypedAt address type p') :
    p'.data.map (·.address) = p.data.map (·.address) := by
  obtain ⟨a, t, before, u, after, -, -, heq, -, -, heq', -⟩ := h
  rw [heq, heq', List.map_append, List.map_append, List.map_cons, List.map_cons]

/-! ## The addresses of data -/

theorem nodup_data_load {s : Snapshot} (h : load s = .ok p) : (p.data.map (·.address)).Nodup := by
  obtain ⟨bare, loaded, comments, -, hdata, -, hadd, rfl⟩ := load_cases h
  refine Load.addEach_induct (P := fun p => (p.data.map (·.address)).Nodup) ?_ ?_ hadd
  · intro p index entry p' _ hnodup hadd
    obtain ⟨a, t, -, hplace⟩ := Load.addData_cases hadd
    rw [placeData_eq hplace]
    exact nodup_putData hnodup
  · rw [hdata]
    exact List.nodup_nil

theorem nodup_data_change (h : Engine.Change p p') (hnodup : (p.data.map (·.address)).Nodup) :
    (p'.data.map (·.address)).Nodup := by
  cases h with
  | none => exact hnodup
  | name index name source hvalid =>
    rw [renameIndex_eq]
    exact hnodup
  | data haddress htype hplace =>
    rw [placeData_eq hplace]
    exact nodup_putData hnodup

end Program

namespace Engine

variable {e : Engine}

/-! ## Outcomes -/

/-- A change either is made, which is when it is possible, and then `made` describes the new
program; or it is not made, and everything is as it was. Either way there is an answer that says
which. -/
def IsAtomic (e : Engine) (possible : Prop) (made : Program → Prop)
    (outcome : Engine × Except Raised MutationResult) : Prop :=
  ∃ r, outcome.2 = .ok r ∧ (r.success = true ↔ possible) ∧
    (r.success = false → outcome.1 = e) ∧
    (r.success = true → ∃ p, outcome.1 = { e with program := p } ∧ made p)

/-- A change that was tried and made. -/
theorem isAtomic_conclude_ok {possible : Prop} {made : Program → Prop} {done : String}
    {tried : Except ChangeProblem Engine} {p : Program} (htried : tried = .ok { e with program := p })
    (hpossible : possible) (hmade : made p) :
    e.IsAtomic possible made (e.conclude done tried) := by
  subst htried
  refine ⟨⟨true, done⟩, rfl, ⟨fun _ => hpossible, fun _ => rfl⟩, fun h => ?_, fun _ => ?_⟩
  · cases h
  · exact ⟨p, rfl, hmade⟩

/-- A change that was tried and cannot be made. -/
theorem isAtomic_conclude_error {possible : Prop} {made : Program → Prop} {done message : String}
    {tried : Except ChangeProblem Engine} {problem : ChangeProblem} (htried : tried = .error problem)
    (hmessage : problem.message = .ok message) (himpossible : ¬possible) :
    e.IsAtomic possible made (e.conclude done tried) := by
  subst htried
  refine ⟨⟨false, message⟩, ?_, ⟨fun h => ?_, fun h => absurd h himpossible⟩, fun _ => rfl,
    fun h => ?_⟩
  · show problem.message.map _ = _
    rw [hmessage]
    rfl
  · cases h
  · cases h

/-- An engine without faults raises no failure of an address text. -/
theorem Faultless.addressOf_eq (h : e.Faultless) (text : String) :
    e.addressOf text =
      (e.program.parseAddress text).mapError fun err => .unreadable err.message := by
  unfold addressOf readAddress
  rw [h.parseAddress_eq]
  cases e.program.parseAddress text with
  | ok a => rfl
  | error err => rfl

/-! ## Changes -/

/-- The symbol at the address of a text can be given a name. -/
def CanRename (p : Program) (address name : String) : Prop :=
  ∃ a, p.parseAddress address = .ok a ∧ p.symbolsAt a ≠ [] ∧ Program.isSymbolName name = true

/-- The data at the address of a text can be given a type. -/
def CanRetype (p : Program) (address type : String) : Prop :=
  ∃ a t p', p.parseAddress address = .ok a ∧ p.dataAt? a ≠ none ∧ p.parseType type = .ok t ∧
    p.placeData a t = .ok p'

theorem Faultless.isAtomic_renameSymbol (h : e.Faultless) (address name : String) :
    e.IsAtomic (CanRename e.program address name) (e.program.RenamedAt address name)
      (e.renameSymbol address name) := by
  unfold renameSymbol tryRename
  rw [h.addressOf_eq]
  cases haddress : e.program.parseAddress address with
  | error err =>
    refine isAtomic_conclude_error rfl rfl ?_
    rintro ⟨a, ha, -, -⟩
    cases haddress.symm.trans ha
  | ok a =>
    rw [Outcome.mapError_ok]
    dsimp only
    rw [h.symbolsAt_eq]
    cases hsymbols : e.program.symbolsAt a with
    | nil =>
      refine isAtomic_conclude_error rfl rfl ?_
      rintro ⟨b, hb, hne, -⟩
      obtain rfl := Except.ok.inj (haddress.symm.trans hb)
      exact hne hsymbols
    | cons s symbols =>
      have hne : e.program.symbolsAt a ≠ [] := by
        rw [hsymbols]
        exact List.cons_ne_nil s symbols
      unfold setName Program.setName
      by_cases hname : Program.isSymbolName name = true
      · simp only [if_pos hname]
        exact isAtomic_conclude_ok rfl ⟨a, haddress, hne, hname⟩
          (Program.renamedAt_of_symbolsAt name haddress hne)
      · simp only [if_neg hname]
        refine isAtomic_conclude_error rfl rfl ?_
        rintro ⟨b, -, -, hvalid⟩
        exact hname hvalid

theorem Faultless.isAtomic_retypeData (h : e.Faultless)
    (hnodup : (e.program.data.map (·.address)).Nodup) (address type : String) :
    e.IsAtomic (CanRetype e.program address type) (e.program.RetypedAt address type)
      (e.retypeData address type) := by
  unfold retypeData tryRetype
  rw [h.addressOf_eq]
  cases haddress : e.program.parseAddress address with
  | error err =>
    refine isAtomic_conclude_error rfl rfl ?_
    rintro ⟨a, t, p', ha, -⟩
    cases haddress.symm.trans ha
  | ok a =>
    rw [Outcome.mapError_ok]
    dsimp only
    rw [h.dataAt_eq]
    cases hdata : e.program.dataAt? a with
    | none =>
      refine isAtomic_conclude_error rfl rfl ?_
      rintro ⟨b, t, p', hb, hne, -⟩
      obtain rfl := Except.ok.inj (haddress.symm.trans hb)
      exact hne hdata
    | some u =>
      dsimp only
      rw [h.parseType_eq]
      cases htype : e.program.parseType type with
      | error err =>
        refine isAtomic_conclude_error rfl rfl ?_
        rintro ⟨b, t, p', -, -, ht, -⟩
        cases htype.symm.trans ht
      | ok t =>
        rw [Outcome.mapError_ok]
        dsimp only
        rw [h.placeData_eq]
        cases hplace : e.program.placeData a t with
        | error err =>
          refine isAtomic_conclude_error rfl rfl ?_
          rintro ⟨b, t', p', hb, -, ht, hp'⟩
          obtain rfl := Except.ok.inj (haddress.symm.trans hb)
          obtain rfl := Except.ok.inj (htype.symm.trans ht)
          cases hplace.symm.trans hp'
        | ok p' =>
          have hne : e.program.dataAt? a ≠ none := by
            rw [hdata]
            exact Option.some_ne_none u
          exact isAtomic_conclude_ok rfl ⟨a, t, p', haddress, hne, htype, hplace⟩
            (Program.retypedAt_of_placeData hnodup haddress htype hdata hplace)

/-- Every change of a loaded program is atomic, whatever was changed before. -/
theorem changes_atomic {s : Snapshot} (h : Reached s e) (address text : String) :
    e.IsAtomic (CanRename e.program address text) (e.program.RenamedAt address text)
        (e.renameSymbol address text) ∧
      e.IsAtomic (CanRetype e.program address text)
        (fun p => e.program.RetypedAt address text p ∧
          p.data.map (·.address) = e.program.data.map (·.address))
        (e.retypeData address text) := by
  have hnodup : (e.program.data.map (·.address)).Nodup := by
    refine h.induct (P := fun p => (p.data.map (·.address)).Nodup) ?_ ?_
    · intro p
      exact Program.nodup_data_load
    · intro p p' hp hchange
      exact Program.nodup_data_change hchange hp
  refine ⟨h.faultless.isAtomic_renameSymbol address text, ?_⟩
  obtain ⟨r, hr, hpossible, hfailed, hmade⟩ := h.faultless.isAtomic_retypeData hnodup address text
  refine ⟨r, hr, hpossible, hfailed, fun hsuccess => ?_⟩
  obtain ⟨p, hp, hretyped⟩ := hmade hsuccess
  exact ⟨p, hp, hretyped, hretyped.addresses⟩

/-- A snapshot in which the first symbol of an address is outside the program. -/
def importSnapshot : Snapshot :=
  ⟨"a", "x", "0", .four, [], [], [], [], [⟨"printf", "10", .label, .imported, true⟩,
    ⟨"stub", "10", .label, .analysis, false⟩], [⟨"20", "int"⟩], []⟩

/-- The engine of the snapshot. -/
def importEngine : Engine :=
  ofProgram ⟨"a", "x", ⟨4⟩, ⟨0⟩, none, [], [], [⟨"printf", ⟨16⟩, .label, .imported, true⟩,
    ⟨"stub", ⟨16⟩, .label, .analysis, false⟩], [], [⟨⟨32⟩, ⟨"int", 4⟩⟩], []⟩

theorem changes_atomic_importEngine :
    Reached importSnapshot importEngine ∧
      (∃ r, (importEngine.renameSymbol "0x10" "puts").2 = .ok r ∧ r.success = true) ∧
      (importEngine.retypeData "20" "int[").1 = importEngine := by
  have hreached : Reached importSnapshot importEngine := by
    have hload : Program.load importSnapshot = .ok importEngine.program := by decide +kernel
    refine ⟨importEngine, [], false, ?_, rfl⟩
    rw [ofSnapshot, hload]
    rfl
  refine ⟨hreached, ?_, ?_⟩
  · obtain ⟨r, hr, hpossible, -⟩ := (changes_atomic hreached "0x10" "puts").1
    refine ⟨r, hr, hpossible.2 ⟨⟨16⟩, ?_, ?_, ?_⟩⟩
    all_goals decide +kernel
  · obtain ⟨r, -, hpossible, hfailed, -⟩ := (changes_atomic hreached "20" "int[").2
    refine hfailed (eq_false_of_ne_true fun hsuccess => ?_)
    obtain ⟨a, t, p', -, -, ht, -⟩ := hpossible.1 hsuccess
    have hmalformed : importEngine.program.parseType "int[" = .error (.malformed "int[") := by
      decide +kernel
    cases hmalformed.symm.trans ht

end Engine

end BinaryReport
