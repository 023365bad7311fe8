import BinaryReport.Report.Format

/-!
# Printing a report on a host

The lines of the decompiled code become the arguments of one call, so the view of the code needs a host
that takes as many (`AnalysisReport.codeView_eq`). Nothing else about printing depends on the host
(`Report.Overruns`).
-/

namespace BinaryReport

namespace AnalysisReport

/-- The number of lines of the decompiled code. -/
def codeLineCount (r : AnalysisReport) : Nat :=
  match r.entryFunction? with
  | none => 0
  | some f => (Text.lines f.code).length

/-- A host makes the whole view or fails on the lines of the code. -/
theorem codeView_eq (rt : Runtime) (r : AnalysisReport) :
    r.codeView rt =
      if r.codeLineCount ≤ rt.maxArguments then .ok r.code else .error Runtime.stackExceeded := by
  unfold codeView codeLineCount code codeEntryFunction
  cases r.entryFunction? with
  | none =>
    rw [if_pos (Nat.zero_le rt.maxArguments)]
    dsimp only
    rw [List.append_nil]
    rfl
  | some f =>
    dsimp only
    unfold Runtime.pushAll
    by_cases hle : (Text.lines f.code).length ≤ rt.maxArguments
    · rw [if_pos hle, if_pos hle, ← List.append_assoc r.codeHead, ← List.append_assoc r.codeHead]
      rfl
    · rw [if_neg hle, if_neg hle]
      rfl

theorem printed_code (rt : Runtime) (r : AnalysisReport) :
    r.printed rt .code =
      if r.codeLineCount ≤ rt.maxArguments then .ok (r.code ++ "\n")
      else .error Runtime.stackExceeded := by
  rw [printed, codeView_eq]
  by_cases hle : r.codeLineCount ≤ rt.maxArguments
  · rw [if_pos hle, if_pos hle]
    rfl
  · rw [if_neg hle, if_neg hle]
    rfl

end AnalysisReport

namespace Report

variable {rt : Runtime} {format : ReportFormat}

/-- The report cannot be printed in a format: its code has more lines than a call has arguments. -/
def Overruns (rt : Runtime) (format : ReportFormat) : Report → Prop
  | .whole r => format = .code ∧ rt.maxArguments < r.codeLineCount
  | .failed _ => False

theorem printed_json (rt : Runtime) (r : Report) :
    r.printed rt .json = .ok (Envelope.format r.toJson) := by
  cases r with
  | whole r => rfl
  | failed r => rfl

theorem printed_of_overruns {r : Report} (h : r.Overruns rt format) :
    r.printed rt format = .error Runtime.stackExceeded := by
  cases r with
  | whole r =>
    obtain ⟨rfl, hlt⟩ := h
    rw [printed, r.printed_code, if_neg (Nat.not_le.2 hlt)]
  | failed r => exact h.elim

theorem exists_printed {r : Report} (h : ¬ r.Overruns rt format) :
    ∃ text, r.printed rt format = .ok text := by
  cases r with
  | whole r =>
    cases format with
    | json => exact ⟨_, rfl⟩
    | markdown => exact ⟨_, rfl⟩
    | listing => exact ⟨_, rfl⟩
    | code =>
      have hle : r.codeLineCount ≤ rt.maxArguments := Nat.not_lt.1 fun hlt => h ⟨rfl, hlt⟩
      refine ⟨r.code ++ "\n", ?_⟩
      rw [printed, r.printed_code, if_pos hle]
  | failed r => exact ⟨_, rfl⟩

end Report

end BinaryReport
