import BinaryReport.Proofs.Program.Functions
import BinaryReport.Proofs.Report.Build
import BinaryReport.Proofs.Report.Stages
import BinaryReport.Proofs.Text.Digits

/-!
# Coherent reports

A report shows a function in up to three places: in the list of functions, among the symbols, and as
the function around the entry. The places agree (`Report.Coherent`): the functions are those of the
snapshot in ascending order, the first symbols name them one by one, and the function around the entry
is one of them. This holds of every report of a loaded program, whatever was renamed or retyped before
(`Report.coherent_build`).
-/

namespace BinaryReport

open Outcome

/-! ## The parts of a report -/

/-- The declaration that an entry of a snapshot gives a function of a name. -/
def FunctionEntry.declaration (e : FunctionEntry) (name : String) : String :=
  e.returnType ++ " " ++ name ++ "(" ++
    (if e.parameters.isEmpty then "void" else ", ".intercalate e.parameters) ++ ")"

/-- The record of a decompiled function without its code. -/
def DecompiledFunction.record (d : DecompiledFunction) : FunctionRecord :=
  ⟨d.name, d.entryPoint, d.signature, d.body⟩

namespace Report

/-- A symbol names a function. -/
def Names (s : SymbolRecord) (f : FunctionRecord) : Prop :=
  s.type = "Function" ∧ s.name = f.name ∧ s.address = f.entryPoint

/-- A function is declared by an entry of a snapshot, under its own name. -/
def DeclaredBy (space : AddressSpace) (e : FunctionEntry) (f : FunctionRecord) : Prop :=
  (∃ a, space.parse e.entry = .ok a ∧ f.entryPoint = a.canonical) ∧
    f.signature = e.declaration f.name

/-- The report of a program that was loaded from a snapshot agrees with itself and with both. -/
structure Coherent (s : Snapshot) (p : Program) (r : AnalysisReport) : Prop where
  /-- The functions stand in strictly ascending order of their entries. -/
  ascending : ∃ entries : List Address, entries.Pairwise (fun a b => a.offset < b.offset) ∧
    r.functions.map (·.entryPoint) = entries.map (·.canonical)
  /-- No two functions have one entry. -/
  nodup : (r.functions.map (·.entryPoint)).Nodup
  /-- The functions have the names that they have in the program. -/
  current : r.functions.map (·.name) = p.functions.map (·.name)
  /-- The first symbols are those of the functions, in their order. -/
  listed : List.Forall₂ Names (r.symbols.take r.functions.length) r.functions
  /-- The declarations are those of the snapshot, under the current names. -/
  declared : ∃ order, order.Perm s.functions ∧
    List.Forall₂ (DeclaredBy ⟨s.pointerSize.bytes⟩) order r.functions
  /-- The function around the entry is the one of that entry point in the list. -/
  entryFunction : ∀ d, r.entryFunction? = some d → d.record ∈ r.functions ∧
    ∀ f ∈ r.functions, f.entryPoint = d.entryPoint → f = d.record

/-! ## Whole reports -/

variable {e : Engine}

theorem firstRaised?_eq_none (h : e.Faultless) (limits : Limits) : firstRaised? e limits = none := by
  refine List.findSome?_eq_none_iff.2 fun stage _ => ?_
  cases stage with
  | decompilation =>
    rw [Stage.raised?, h]
    exact ite_self none
  | disassembly =>
    rw [Stage.raised?, h.resolveEntry_eq]
    show e.disassemblyRaised? _ _ = none
    rw [Engine.disassemblyRaised?, h.walkRaised?_eq, ite_self]
  | opening => rw [Stage.raised?, h]; rfl
  | entry => rw [Stage.raised?, h]; rfl
  | surroundings => rw [Stage.raised?, h]; rfl
  | functions => rw [Stage.raised?, h]; rfl
  | symbols => rw [Stage.raised?, h]; rfl
  | name => rw [Stage.raised?, h]; rfl

/-- An engine without faults makes a whole report that holds what it answers. -/
theorem exists_filled (h : e.Faultless) (limits : Limits) :
    ∃ r, (build e limits).2.outcome = .ok (.whole r) ∧
      Filled { e with isOpen := true } true limits r := by
  have hopens : e.opens = true := by rw [Engine.opens, h.openProgram_eq]; rfl
  rcases raises_stages e limits with ⟨r, hraised, -⟩ | ⟨-, r, hstages⟩
  · rw [firstRaised?_eq_none h limits] at hraised
    cases hraised
  · have hopen : Engine.Faultless { e with isOpen := true } := h
    have hfilled := filled_of_stages hstages
    rw [hopens, h.openProgram_eq] at hfilled
    refine ⟨r, ?_, hfilled⟩
    rw [build_eq_conclude, hopens, hstages, h.openProgram_eq]
    dsimp only
    rw [conclude_eq hopen]

/-! ## The function around the entry -/

theorem eq_ofFunction_of_decompile {f : Function} {limit : Binary64} {d : DecompiledFunction}
    (h : e.decompile f limit = .ok (some d)) : ∃ code, d = .ofFunction f code := by
  rw [Engine.decompile_eq] at h
  cases hcall : Call.supervise e.decompiler f limit with
  | error r => rw [hcall] at h; cases h
  | ok call =>
    rw [hcall] at h
    have hsome : call.run.functionOf? f = some d := Except.ok.inj h
    obtain ⟨answer, -, hanswer⟩ := Option.bind_eq_some_iff.1 hsome
    unfold Decompilation.functionOf? at hanswer
    split at hanswer
    · next code hcompleted hcode =>
      split at hanswer
      · cases hanswer
      · exact ⟨code, (Option.some.inj hanswer).symm⟩
    · cases hanswer

/-- A function that is shown decompiled is one of the program. -/
theorem mem_functions_of_filled (h : e.Faultless) {limits : Limits} {r : AnalysisReport}
    (hfilled : Filled e true limits r) {d : DecompiledFunction} (hd : r.entryFunction? = some d) :
    ∃ f code, f ∈ e.program.functions ∧ d = .ofFunction f code := by
  obtain ⟨entry, function?, hlocate, -, hdecompile, -⟩ := hfilled.entry
  obtain ⟨entry', -, hlocate⟩ := bind_eq_ok hlocate
  obtain ⟨found?, hfound, hlocate⟩ := bind_eq_ok hlocate
  obtain ⟨rfl, rfl⟩ := Prod.mk.inj (Except.ok.inj hlocate)
  rw [h.functionContaining_eq] at hfound
  rw [hd] at hdecompile
  cases found? with
  | none => cases hdecompile
  | some f =>
    obtain ⟨code, hcode⟩ := eq_ofFunction_of_decompile hdecompile
    exact ⟨f, code, List.mem_of_find?_eq_some (Except.ok.inj hfound), hcode⟩

/-! ## Coherence -/

section Lists

variable {s : Snapshot} {p : Program}

theorem entryPoints_records (functions : List Function) :
    (functions.map FunctionRecord.ofFunction).map (·.entryPoint) =
      (functions.map (·.entry)).map (·.canonical) := by
  rw [List.map_map, List.map_map]
  rfl

theorem nodup_entryPoints (h : p.HasFunctionsOf s) :
    ((p.functions.map FunctionRecord.ofFunction).map (·.entryPoint)).Nodup := by
  rw [entryPoints_records]
  exact h.nodup_entries.map fun _ _ => Address.canonical_inj.1

theorem names_records (h : p.HasFunctionsOf s) :
    List.Forall₂ Names
      (((p.symbols.filter (!·.isExternal)).map SymbolRecord.ofSymbol).take
        (p.functions.map FunctionRecord.ofFunction).length)
      (p.functions.map FunctionRecord.ofFunction) := by
  have hinside : (p.functions.map (·.symbol)).filter (!·.isExternal) = p.functions.map (·.symbol) := by
    refine List.filter_eq_self.2 fun x hx => ?_
    obtain ⟨f, hf, rfl⟩ := List.mem_map.1 hx
    rw [(h.symbol f hf).2]
    rfl
  have hlength : (p.functions.map FunctionRecord.ofFunction).length =
      ((p.functions.map (·.symbol)).map SymbolRecord.ofSymbol).length := by
    rw [List.length_map, List.length_map, List.length_map]
  unfold Program.symbols
  rw [List.filter_append, hinside, List.map_append, hlength, List.take_left, List.map_map]
  refine List.forall₂_map_left_iff.2 (List.forall₂_map_right_iff.2 (List.forall₂_same.2 ?_))
  intro f hf
  have htype : f.symbol.kind.name = "Function" := by
    rw [(h.symbol f hf).1]
    rfl
  exact ⟨htype, rfl, rfl⟩

theorem declaredBy_records {space : AddressSpace} {order : List FunctionEntry}
    {functions : List Function} (h : List.Forall₂ (Program.LoadedFrom space) order functions) :
    List.Forall₂ (DeclaredBy space) order (functions.map FunctionRecord.ofFunction) := by
  refine List.forall₂_map_right_iff.2 (h.imp fun entry f hf => ⟨⟨f.entry, hf.entry, rfl⟩, ?_⟩)
  show f.signature = entry.declaration f.name
  unfold Function.signature Function.parameterText FunctionEntry.declaration
  rw [hf.returnType, hf.parameters]

end Lists

/-- The symbols of a report are those of the table that are not external. -/
theorem Filled.symbols_eq (h : e.Faultless) {limits : Limits} {r : AnalysisReport}
    (hfilled : Filled e true limits r) :
    r.symbols = (e.program.symbols.filter (!·.isExternal)).map SymbolRecord.ofSymbol := by
  have heq := hfilled.symbols
  unfold Engine.symbolRecords at heq
  rw [h.symbols_eq] at heq
  exact (Except.ok.inj heq).symm

theorem Filled.functions_eq (h : e.Faultless) {limits : Limits} {r : AnalysisReport}
    (hfilled : Filled e true limits r) :
    r.functions = e.program.functions.map FunctionRecord.ofFunction := by
  have heq := hfilled.functions
  unfold Engine.functionRecords at heq
  rw [h.functions_eq] at heq
  exact (Except.ok.inj heq).symm

theorem coherent_of_filled {s : Snapshot} (h : e.Faultless) (hfunctions : e.program.HasFunctionsOf s)
    {limits : Limits} {r : AnalysisReport} (hfilled : Filled e true limits r) :
    Coherent s e.program r := by
  have hrecords := hfilled.functions_eq h
  have hsymbols := hfilled.symbols_eq h
  have hnodup : (r.functions.map (·.entryPoint)).Nodup := by
    rw [hrecords]
    exact nodup_entryPoints hfunctions
  constructor
  · refine ⟨e.program.functions.map (·.entry), hfunctions.ascending, ?_⟩
    rw [hrecords, entryPoints_records]
  · exact hnodup
  · rw [hrecords, List.map_map]
    rfl
  · rw [hrecords, hsymbols]
    exact names_records hfunctions
  · obtain ⟨order, hperm, hloaded⟩ := hfunctions.loaded
    rw [hrecords]
    exact ⟨order, hperm, declaredBy_records hloaded⟩
  · intro d hd
    obtain ⟨f, code, hf, rfl⟩ := mem_functions_of_filled h hfilled hd
    have hmem : (DecompiledFunction.ofFunction f code).record ∈ r.functions := by
      rw [hrecords]
      exact List.mem_map_of_mem hf
    exact ⟨hmem, fun g hg heq => List.inj_on_of_nodup_map hnodup hg hmem heq⟩

/-- Every report of a loaded program is coherent, whatever was changed before and whatever the limits
are. -/
theorem coherent_build {s : Snapshot} (h : Engine.Reached s e) (limits : Limits) :
    ∃ r, (build e limits).2.outcome = .ok (.whole r) ∧ Coherent s e.program r := by
  obtain ⟨r, hr, hfilled⟩ := exists_filled h.faultless limits
  have hopen : Engine.Faultless { e with isOpen := true } := h.faultless
  exact ⟨r, hr, coherent_of_filled hopen h.hasFunctionsOf hfilled⟩

/-- A snapshot with a function and a label at its entry. -/
def labelledSnapshot : Snapshot :=
  ⟨"a", "x", "0", .four, ["8"], [], [],
    [⟨"main", "8", [⟨"8", "f"⟩], "int", ["int argc"], .analysis, some "return 0;", 1⟩],
    [⟨"start", "8", .label, .imported, false⟩], [], []⟩

/-- The program of the snapshot. -/
def labelledProgram : Program :=
  ⟨"a", "x", ⟨4⟩, ⟨0⟩, none, [⟨8⟩],
    [⟨⟨"main", ⟨8⟩, .function, .analysis, false⟩, ⟨[⟨⟨8⟩, ⟨15⟩⟩]⟩, "int", ["int argc"],
      some "return 0;", 1⟩], [⟨"start", ⟨8⟩, .label, .imported, false⟩], [], [], []⟩

theorem load_labelledSnapshot : Program.load labelledSnapshot = .ok labelledProgram := by
  decide +kernel

/-- A change after which the function has the name of the label, and one that is refused. -/
def collidingEdits : List Edit := [.rename "0x8" "start", .setName 0 "" .imported]

theorem coherent_build_colliding :
    ∃ r, (build ((Engine.ofProgram labelledProgram).editAll collidingEdits) .standard).2.outcome =
        .ok (.whole r) ∧ r.functions.map (·.name) = ["start"] ∧
      ∃ order, order.Perm labelledSnapshot.functions ∧
        List.Forall₂ (DeclaredBy ⟨4⟩) order r.functions := by
  have hreached : Engine.Reached labelledSnapshot
      ((Engine.ofProgram labelledProgram).editAll collidingEdits) := by
    refine ⟨Engine.ofProgram labelledProgram, collidingEdits, false, ?_, rfl⟩
    rw [Engine.ofSnapshot, load_labelledSnapshot]
  obtain ⟨r, hr, hcoherent⟩ := coherent_build hreached .standard
  refine ⟨r, hr, ?_, hcoherent.declared⟩
  rw [hcoherent.current]
  decide +kernel

end Report

end BinaryReport
