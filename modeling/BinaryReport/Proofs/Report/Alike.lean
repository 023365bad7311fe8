import BinaryReport.Proofs.Engine.Faultless
import BinaryReport.Proofs.Program.Reordered
import BinaryReport.Report.Assembly

/-!
# Reports of programs that are alike

A report is made of what the program answers about addresses, so programs that are alike have the same
report, stage by stage (`Report.build_eq_of_alike`). The one thing that it looks at besides is how many
instructions there are, as a bound of the walk. So the report does not depend on the order in which
the unordered parts of a snapshot are listed.
-/

namespace BinaryReport

variable {p p' : Program}

namespace Engine

/-! ## Disassembly -/

theorem walkStep_eq_of_alike (h : p.Alike p') (isOpen : Bool) (cursor : Address) :
    walkStep ⟨p', isOpen, {}⟩ cursor = walkStep ⟨p, isOpen, {}⟩ cursor := by
  have hinstruction : instructionAt ⟨p', isOpen, {}⟩ cursor =
      instructionAt ⟨p, isOpen, {}⟩ cursor :=
    congrArg Except.ok (h.instructionAt? cursor)
  have hcomment : commentAt ⟨p', isOpen, {}⟩ .endOfLine cursor =
      commentAt ⟨p, isOpen, {}⟩ .endOfLine cursor :=
    congrArg Except.ok (h.commentAt? .endOfLine cursor)
  have hadvance (a : Address) (d : Displacement) :
      advance ⟨p', isOpen, {}⟩ a d = advance ⟨p, isOpen, {}⟩ a d := by
    unfold advance
    rw [h.space]
  unfold walkStep
  simp only [hinstruction, hcomment, hadvance]

theorem walkFrom_eq_of_alike (h : p.Alike p') (isOpen : Bool) (bound : Binary64)
    (fuel recorded : Nat) (cursor : Address) :
    walkFrom ⟨p', isOpen, {}⟩ bound fuel recorded cursor =
      walkFrom ⟨p, isOpen, {}⟩ bound fuel recorded cursor := by
  induction fuel generalizing recorded cursor with
  | zero => rfl
  | succ fuel ih =>
    rw [walkFrom, walkFrom, walkStep_eq_of_alike h]
    simp only [ih]

theorem disassemble_eq_of_alike (h : p.Alike p') (isOpen : Bool) (start : Address)
    (bound : Binary64) :
    disassemble ⟨p', isOpen, {}⟩ start bound = disassemble ⟨p, isOpen, {}⟩ start bound := by
  unfold disassemble
  rw [walkFrom_eq_of_alike h]
  dsimp only
  rw [h.count]

end Engine

namespace Report

/-! ## Stages -/

theorem gather_eq_of_alike (h : p.Alike p') (isOpen : Bool) (limits : Limits) (entry : Address)
    (entryFunction? : Option DecompiledFunction) :
    gather ⟨p', isOpen, {}⟩ limits entry entryFunction? =
      gather ⟨p, isOpen, {}⟩ limits entry entryFunction? := by
  have hfunctions : Engine.functionRecords ⟨p', isOpen, {}⟩ =
      Engine.functionRecords ⟨p, isOpen, {}⟩ := by
    unfold Engine.functionRecords Engine.functions
    rw [h.functions]
  have hsymbols : Engine.symbolRecords ⟨p', isOpen, {}⟩ = Engine.symbolRecords ⟨p, isOpen, {}⟩ := by
    unfold Engine.symbolRecords Engine.symbols Program.symbols
    rw [h.functions, h.labels]
  have hname : Engine.name ⟨p', isOpen, {}⟩ = Engine.name ⟨p, isOpen, {}⟩ :=
    congrArg Except.ok h.name
  unfold gather
  simp only [Services.disassemble_own]
  rw [hfunctions, hsymbols, hname, Engine.disassemble_eq_of_alike h]
  rw [h.imageBase, h.language]

/-- Reports end in the same way, and so do the sessions. -/
theorem conclude_eq_of_alike (h : p.Alike p') (isOpen opened : Bool)
    (stages : Except Raised AnalysisReport) :
    ∃ isOpen' result, conclude ⟨p, isOpen, {}⟩ opened stages = (⟨p, isOpen', {}⟩, result) ∧
      conclude ⟨p', isOpen, {}⟩ opened stages = (⟨p', isOpen', {}⟩, result) := by
  have hreport : ofStages ⟨p', isOpen, {}⟩ stages = ofStages ⟨p, isOpen, {}⟩ stages := by
    have hname : Engine.name ⟨p', isOpen, {}⟩ = Engine.name ⟨p, isOpen, {}⟩ :=
      congrArg Except.ok h.name
    unfold ofStages
    rw [hname]
  unfold conclude
  rw [hreport]
  cases opened with
  | true => exact ⟨_, _, rfl, rfl⟩
  | false => exact ⟨_, _, rfl, rfl⟩

theorem locate_eq_of_alike (h : p.Alike p') (isOpen : Bool) :
    locate ⟨p', isOpen, {}⟩ = locate ⟨p, isOpen, {}⟩ := by
  have hentry : Engine.resolveEntry ⟨p', isOpen, {}⟩ = Engine.resolveEntry ⟨p, isOpen, {}⟩ := by
    unfold Engine.resolveEntry Engine.entryPoints Program.entryFrom
    rw [h.entryPoints, h.minAddress?, h.imageBase]
  have hcontaining (a : Address) : Engine.functionContaining ⟨p', isOpen, {}⟩ a =
      Engine.functionContaining ⟨p, isOpen, {}⟩ a := by
    unfold Engine.functionContaining Program.functionContaining?
    rw [h.functions]
  unfold locate
  simp only [hentry, hcontaining]

/-- The first parts of the reports come to the same. -/
theorem start_eq_of_alike (h : p.Alike p') (limits : Limits) :
    ∃ isOpen begun, start (Engine.ofProgram p) limits = (⟨p, isOpen, {}⟩, begun) ∧
      start (Engine.ofProgram p') limits = (⟨p', isOpen, {}⟩, begun) := by
  have hconclude (stages : Except Raised AnalysisReport) :
      ∃ isOpen begun, concludeNow ⟨p, true, {}⟩ true stages = (⟨p, isOpen, {}⟩, begun) ∧
        concludeNow ⟨p', true, {}⟩ true stages = (⟨p', isOpen, {}⟩, begun) := by
    obtain ⟨isOpen, result, hp, hp'⟩ := conclude_eq_of_alike h true true stages
    unfold concludeNow
    rw [hp, hp']
    exact ⟨_, _, rfl, rfl⟩
  show ∃ isOpen begun, startWith ⟨p, true, {}⟩ limits true = (⟨p, isOpen, {}⟩, begun) ∧
    startWith ⟨p', true, {}⟩ limits true = (⟨p', isOpen, {}⟩, begun)
  unfold startWith
  rw [locate_eq_of_alike h]
  cases locate ⟨p, true, {}⟩ with
  | error r => exact hconclude (.error r)
  | ok place =>
    obtain ⟨entry, function?⟩ := place
    cases function? with
    | none =>
      dsimp only
      rw [gather_eq_of_alike h]
      exact hconclude _
    | some f =>
      -- The decompiler of either engine is the same.
      have hdecompiler : Engine.decompiler ⟨p', true, {}⟩ = Engine.decompiler ⟨p, true, {}⟩ := rfl
      simp only [if_true, Services.decompiler_own]
      rw [hdecompiler]
      cases Call.supervise (Engine.decompiler ⟨p, true, {}⟩) f limits.timeoutSeconds with
      | error r => exact hconclude (.error r)
      | ok call => exact ⟨_, _, rfl, rfl⟩

/-! ## Whole reports -/

theorem build_eq_of_alike (h : p.Alike p') (limits : Limits) :
    (build (Engine.ofProgram p') limits).2 = (build (Engine.ofProgram p) limits).2 := by
  obtain ⟨isOpen, begun, hp, hp'⟩ := start_eq_of_alike h limits
  unfold build
  rw [hp, hp']
  cases begun with
  | finished result => rfl
  | decompiling call rest =>
    dsimp only
    unfold finish
    rw [gather_eq_of_alike h]
    obtain ⟨_, result, hend, hend'⟩ := conclude_eq_of_alike h isOpen true
      (gather ⟨p, isOpen, {}⟩ rest.limits rest.entry (call.run.functionOf? rest.function))
    rw [hend, hend']

end Report

namespace Engine

/-- The order in which the unordered parts of a snapshot are listed matters neither for whether an
engine is made of it, nor for its reports, nor for what it answers about an address. -/
theorem ofSnapshot_reordered {s s' : Snapshot} (hreordered : s.Reordered s')
    (hexact : s.HasExactTypes) (hunambiguous : s.Unambiguous) :
    ((∃ e, ofSnapshot s = .ok e) ↔ ∃ e', ofSnapshot s' = .ok e') ∧
      ∀ e e', ofSnapshot s = .ok e → ofSnapshot s' = .ok e' →
        (∀ limits, (Report.build e' limits).2 = (Report.build e limits).2) ∧
        ∀ a, e'.dataAt a = e.dataAt a ∧ e'.instructionAt a = e.instructionAt a ∧
          ∀ kind, e'.commentAt kind a = e.commentAt kind a := by
  refine ⟨?_, ?_⟩
  · rw [exists_ofSnapshot_iff, exists_ofSnapshot_iff]
    constructor
    · rintro ⟨p, hload⟩
      obtain ⟨p', hload', -⟩ := Program.load_reordered hreordered hexact hunambiguous hload
      exact ⟨p', hload'⟩
    · rintro ⟨p', hload'⟩
      obtain ⟨p, hload, -⟩ := Program.load_reordered hreordered.symm
        (hreordered.hasExactTypes hexact) (hreordered.unambiguous hunambiguous) hload'
      exact ⟨p, hload⟩
  · intro e e' he he'
    obtain ⟨p, hload, rfl⟩ := ofSnapshot_cases he
    obtain ⟨p', hload', halike⟩ := Program.load_reordered hreordered hexact hunambiguous hload
    obtain rfl := Except.ok.inj ((ofSnapshot_of_load hload').symm.trans he')
    refine ⟨Report.build_eq_of_alike halike, fun a => ⟨?_, ?_, fun kind => ?_⟩⟩
    · exact congrArg Except.ok (halike.dataAt? a)
    · exact congrArg Except.ok (halike.instructionAt? a)
    · exact congrArg Except.ok (halike.commentAt? kind a)

/-- A snapshot with two units of data, two instructions and two comments. -/
def scatteredSnapshot : Snapshot :=
  ⟨"a", "x", "0", .four, [], [⟨"low", "8", 4⟩, ⟨"high", "20", 8⟩],
    [⟨"8", "NOP", "", ⟨"90", by decide⟩⟩, ⟨"9", "HLT", "", ⟨"f4", by decide⟩⟩],
    [⟨"f", "8", [⟨"8", "9"⟩], "void", [], .analysis, some "return;", 1⟩], [],
    [⟨"20", "int"⟩, ⟨"24", "char[4]"⟩], [⟨"9", .endOfLine, "out"⟩, ⟨"8", .endOfLine, "in"⟩]⟩

theorem ofSnapshot_reordered_reversed :
    scatteredSnapshot.HasExactTypes ∧ scatteredSnapshot.Unambiguous ∧
      ∃ e e', ofSnapshot scatteredSnapshot = .ok e ∧
        ofSnapshot scatteredSnapshot.reversed = .ok e' ∧
        (Report.build e' .standard).2 = (Report.build e .standard).2 := by
  have hexact : scatteredSnapshot.HasExactTypes := by decide +kernel
  have hunambiguous : scatteredSnapshot.Unambiguous :=
    Snapshot.unambiguous_of_parse_ne (by decide +kernel) (by decide +kernel)
  have hloads : ∃ e, ofSnapshot scatteredSnapshot = .ok e :=
    exists_ofSnapshot_iff.2 (Outcome.exists_ok_of_toBool (by decide +kernel))
  obtain ⟨hiff, hsame⟩ :=
    ofSnapshot_reordered scatteredSnapshot.reordered_reversed hexact hunambiguous
  obtain ⟨e, he⟩ := hloads
  obtain ⟨e', he'⟩ := hiff.1 ⟨e, he⟩
  exact ⟨hexact, hunambiguous, e, e', he, he', (hsame e e' he he').1 .standard⟩

end Engine

end BinaryReport
