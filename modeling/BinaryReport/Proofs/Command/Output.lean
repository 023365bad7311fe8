import BinaryReport.Proofs.Command.Answers
import BinaryReport.Proofs.Report.Envelope
import BinaryReport.Proofs.Report.Printed

/-!
# Reading the output of a command

A run that makes a report in the JSON format, or a change, writes one envelope and nothing else to
its output. The reader of envelopes gets the report or the outcome back exactly if the end marker is
in none of its texts (`runArguments_read_back`). The texts come from the snapshot and from the
arguments, which may hold the marker (`rename_endMarker_unreadable`).
-/

namespace BinaryReport

open Envelope

namespace Command

/-- An envelope on its own has no output before it and none behind it. -/
theorem document_alone {v : Json} (h : v.Legible) {texts : List String}
    (htexts : Json.Mentions endMarker.toList v ↔ Mentioned endMarker texts) :
    document (String.join [format v]) =
      if Mentioned endMarker texts then .error .invalidJson else .ok v := by
  have hstart : ¬ startMarker.toList <:+: "".toList := fun hin =>
    isCapitalWord_startMarker.ne_nil (List.infix_nil.1 hin)
  have halone := document_format_eq h htexts (Or.inl rfl) hstart ""
  have hjoin : String.join [format v] = format v := String.empty_append
  rw [String.empty_append, String.append_empty] at halone
  rw [hjoin, halone]

theorem readReport_alone (r : Report) :
    readReport (String.join [format r.toJson]) =
      if Mentioned endMarker r.texts then .invalid Problem.invalidJson.message else .report r := by
  rw [readReport, document_alone r.legible (r.mentions_iff outgrowsKeys_endMarker)]
  by_cases hmentioned : Mentioned endMarker r.texts
  · rw [if_pos hmentioned, if_pos hmentioned]
  · rw [if_neg hmentioned, if_neg hmentioned]
    exact reportOf_toJson r

theorem readMutation_alone (r : MutationResult) :
    readMutation (String.join [format r.toJson]) =
      if Mentioned endMarker r.texts then .invalid Problem.invalidJson.message
      else .mutation r := by
  rw [readMutation, document_alone r.legible (r.mentions_iff outgrowsKeys_endMarker)]
  by_cases hmentioned : Mentioned endMarker r.texts
  · rw [if_pos hmentioned, if_pos hmentioned]
  · rw [if_neg hmentioned, if_neg hmentioned]
    rfl

theorem stdout_reportResult (rt : Runtime) (r : Report) :
    (reportResult rt .json r).stdout = [format r.toJson] := by
  unfold reportResult
  rw [Report.printed_json]

/-- What the reader of envelopes makes of the whole output of a run. -/
theorem runArguments_read_back (rt : Runtime) (read : FileReader) (env : Environment)
    (arguments : List String) :
    match parse arguments with
    | .analyze path .json max? timeout? =>
      ∃ r, reportOf read env path max? timeout? = .ok r ∧
        readReport (String.join (runArguments rt read env arguments).stdout) =
          if Mentioned endMarker r.texts then .invalid Problem.invalidJson.message else .report r
    | .rename path address name =>
      ∃ r, (changeOf read path fun e => e.renameSymbol address name) = .ok r ∧
        readMutation (String.join (runArguments rt read env arguments).stdout) =
          if Mentioned endMarker r.texts then .invalid Problem.invalidJson.message else .mutation r
    | .retype path address type =>
      ∃ r, (changeOf read path fun e => e.retypeData address type) = .ok r ∧
        readMutation (String.join (runArguments rt read env arguments).stdout) =
          if Mentioned endMarker r.texts then .invalid Problem.invalidJson.message else .mutation r
    | _ => True := by
  rw [runArguments]
  split
  · next path max? timeout? hparse =>
    obtain ⟨r, hr, -⟩ := exists_reportOf read env path max? timeout?
    refine ⟨r, hr, ?_⟩
    rw [hparse, run, hr, resultOf, stdout_reportResult]
    exact readReport_alone r
  · next path address name hparse =>
    obtain ⟨r, hr, -⟩ := exists_renamed read path address name
    refine ⟨r, hr, ?_⟩
    rw [hparse, run, hr]
    exact readMutation_alone r
  · next path address type hparse =>
    obtain ⟨r, hr, -⟩ := exists_retyped read path address type
    refine ⟨r, hr, ?_⟩
    rw [hparse, run, hr]
    exact readMutation_alone r
  · trivial

/-- The text of a snapshot with one symbol. -/
def oneSymbolText : String :=
  Json.compact (.object [("name", .string "a"), ("language", .string "x"),
    ("imageBase", .string "0"), ("pointerSize", .number (.ofNat 4)),
    ("symbols", .array [.object [("name", .string "f"), ("address", .string "0")]])])

/-- A symbol that takes the name of the end marker: the change is made, and its outcome is not
read. -/
theorem rename_endMarker_unreadable :
    changeOf (fun _ => .ok oneSymbolText) "p" (fun e => e.renameSymbol "0" endMarker) =
        .ok ⟨true, "Renamed to __BINREPORT_JSON_END__"⟩ ∧
      readMutation (String.join (runArguments .standard (fun _ => .ok oneSymbolText) []
          ["rename", "p", "0", endMarker]).stdout) =
        .invalid "Failed to parse output: invalid JSON" := by
  refine ⟨Outcome.ok_of_toOption ?_, ?_⟩
  all_goals decide +kernel

end Command

end BinaryReport
