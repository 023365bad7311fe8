import BinaryReport.Proofs.Decompiler.Call
import BinaryReport.Proofs.Engine.Faultless
import BinaryReport.Proofs.Engine.Walk
import BinaryReport.Report.Assembly

/-!
# Reports of engines without faults

An engine without faults always makes a whole report (`Report.start_cases`), and which one depends
on its program and the limits only: it is the report of the program, `Program.HasReport`. A report
that is made in two parts, with a call of the decompiler between them, is the report of the program
too, once the call is settled (`hasReport_of_finish`).
-/

namespace BinaryReport

/-- The report that is made of a program alone. -/
def Program.HasReport (p : Program) (limits : Limits) (r : AnalysisReport) : Prop :=
  (Report.build (Engine.ofProgram p) limits).2.outcome = .ok (.whole r)

namespace Engine

variable {e : Engine}

/-! ## Disassembly -/

theorem Faultless.walkRaised?_eq (h : e.Faultless) (cursor : Address) :
    e.walkRaised? cursor = none := by
  unfold walkRaised?
  rw [h.instructionAt_eq, h]
  cases e.program.instructionAt? cursor with
  | none => rfl
  | some i => rfl

theorem Faultless.exists_disassemble (h : e.Faultless) (start : Address) (bound : Binary64) :
    ∃ records, e.disassemble start bound = .ok records := by
  rcases e.raises_disassemble start bound with ⟨r, hraised, -⟩ | ⟨-, hrecords⟩
  · rw [disassemblyRaised?, h.walkRaised?_eq, ite_self] at hraised
    cases hraised
  · exact hrecords

end Engine

namespace Report

variable {e : Engine}

/-! ## Stages -/

theorem exists_gather (h : e.Faultless) (limits : Limits) (entry : Address)
    (entryFunction? : Option DecompiledFunction) :
    ∃ r, gather e limits entry entryFunction? = .ok r := by
  obtain ⟨records, hrecords⟩ := h.exists_disassemble entry limits.maxInstructions
  unfold gather Engine.functionRecords Engine.symbolRecords
  rw [h.functions_eq, h.symbols_eq, Services.disassemble_own, hrecords, h.name_eq]
  exact ⟨_, rfl⟩

theorem conclude_eq (h : e.Faultless) (r : AnalysisReport) :
    conclude e true (.ok r) = ({ e with isOpen := false }, ⟨.ok (.whole r), []⟩) := by
  unfold conclude
  rw [if_pos rfl, h.closeProgram_eq]
  rfl

/-- What the second part of a report comes to. -/
theorem exists_finish (h : e.Faultless) (rest : Rest) (entryFunction? : Option DecompiledFunction) :
    ∃ r, finish e rest entryFunction? = ({ e with isOpen := false }, ⟨.ok (.whole r), []⟩) := by
  obtain ⟨r, hr⟩ := exists_gather h rest.limits rest.entry entryFunction?
  unfold finish
  rw [hr, conclude_eq h]
  exact ⟨r, rfl⟩

/-- What the first part of a report comes to: a whole report, or a call of the decompiler. -/
theorem start_cases (h : e.Faultless) (limits : Limits) :
    (∃ r, start e limits = ({ e with isOpen := false }, .finished ⟨.ok (.whole r), []⟩)) ∨
      ∃ call rest, start e limits = ({ e with isOpen := true }, .decompiling call rest) := by
  have hopen : Engine.Faultless { e with isOpen := true } := h
  unfold start
  rw [h.openProgram_eq]
  dsimp only
  unfold startWith locate
  rw [hopen.resolveEntry_eq]
  dsimp only [Except.bind, bind]
  rw [hopen.functionContaining_eq]
  dsimp only [Except.bind, bind]
  cases e.program.functionContaining? _ with
  | none =>
    left
    obtain ⟨r, hr⟩ := exists_gather hopen limits (e.program.entryFrom e.program.entryPoints) none
    refine ⟨r, ?_⟩
    unfold concludeNow
    dsimp only
    rw [hr, conclude_eq hopen]
  | some f =>
    right
    rw [Services.decompiler_own, hopen.decompiler_eq]
    exact ⟨_, _, rfl⟩

/-- A report that is made alone is whole, and the session is closed behind it. -/
theorem exists_build_whole (h : e.Faultless) (limits : Limits) :
    ∃ r, build e limits = ({ e with isOpen := false }, ⟨.ok (.whole r), []⟩) := by
  unfold build
  rcases start_cases h limits with ⟨r, hstart⟩ | ⟨call, rest, hstart⟩
  · rw [hstart]
    exact ⟨r, rfl⟩
  · have hopen : Engine.Faultless { e with isOpen := true } := h
    obtain ⟨r, hfinish⟩ := exists_finish hopen rest (call.run.functionOf? rest.function)
    rw [hstart]
    exact ⟨r, hfinish⟩

/-! ## The report of a program -/

/-- The session that is open before does not matter. -/
theorem start_eq_ofProgram (h : e.Faultless) (limits : Limits) :
    start e limits = start (Engine.ofProgram e.program) limits := by
  rw [h.eq_mk]
  rfl

theorem hasReport_of_finished (h : e.Faultless) {limits : Limits} {e' : Engine}
    {r : AnalysisReport} {log : List String}
    (hstart : start e limits = (e', .finished ⟨.ok (.whole r), log⟩)) :
    e.program.HasReport limits r := by
  rw [start_eq_ofProgram h] at hstart
  unfold Program.HasReport build
  rw [hstart]

theorem hasReport_of_finish (h : e.Faultless) {limits : Limits} {e' e'' : Engine} {call : Call}
    {rest : Rest} {r : AnalysisReport} {log : List String}
    (hstart : start e limits = (e', .decompiling call rest))
    (hfinish : finish e' rest (call.run.functionOf? rest.function) = (e'', ⟨.ok (.whole r), log⟩)) :
    e.program.HasReport limits r := by
  rw [start_eq_ofProgram h] at hstart
  unfold Program.HasReport build
  rw [hstart]
  dsimp only
  rw [hfinish]

end Report

end BinaryReport
