import BinaryReport.Proofs.Engine.Frame
import BinaryReport.Proofs.Tool.Run

/-!
# Sequences of runs

Tools are run one after the other on an engine that nothing has open. A run is refused, or it answers
and changes nothing, or it answers that a change was made, and then the tool is one that changes the
program (`Tool.Ran`). In each case the engine is at rest again (`Tool.Ran.atRest`), so the runs that
made no change can be left out of a sequence (`ToolRun.replay_eq`).
-/

namespace BinaryReport

/-! ## Engines at rest -/

/-- An engine without faults that has nothing open, in whose program the addresses of data are
distinct. -/
structure Engine.AtRest (e : Engine) : Prop where
  faultless : e.Faultless
  closed : e.isOpen = false
  nodup : (e.program.data.map (·.address)).Nodup

theorem Engine.Reached.nodup_data {s : Snapshot} {e : Engine} (h : Reached s e) :
    (e.program.data.map (·.address)).Nodup := by
  refine h.induct (P := fun p => (p.data.map (·.address)).Nodup) ?_ ?_
  · intro p
    exact Program.nodup_data_load
  · intro p p' hp hchange
    exact Program.nodup_data_change hchange hp

theorem Engine.Reached.atRest {s : Snapshot} {e : Engine} (h : Reached s e)
    (hclosed : e.isOpen = false) : e.AtRest :=
  ⟨h.faultless, hclosed, h.nodup_data⟩

/-- Closing an engine at rest changes nothing. -/
theorem Engine.AtRest.close_eq {e : Engine} (h : e.AtRest) : { e with isOpen := false } = e := by
  obtain ⟨p, isOpen, faults⟩ := e
  obtain rfl : isOpen = false := h.closed
  rfl

theorem Program.RenamedAt.data {p p' : Program} {address name : String}
    (h : p.RenamedAt address name p') : p'.data = p.data := by
  obtain ⟨a, before, s, after, -, -, -, -, -, -, heq⟩ := h
  rw [heq]
  rfl

/-! ## What a run comes to -/

/-- Whether an outcome is the answer that a change was made. -/
def ToolOutcome.isSuccess : ToolOutcome → Bool
  | .answered r => r.isSuccess
  | .refused _ => false

theorem Tool.mutates_iff {t : Tool} : t.mutates = true ↔ t = .rename ∨ t = .retype := by
  cases t with
  | report | disassemble | decompile | rename | retype => simp [mutates]

theorem ToolResult.isSuccess_iff {r : ToolResult} :
    r.isSuccess = true ↔ r.toJson.get? "success" = some (.bool true) := by
  cases r with
  | report r =>
    cases r with
    | whole r => simp [isSuccess, toJson, Report.toJson, AnalysisReport.toJson, Json.get?, Json.lookup]
    | failed r => simp [isSuccess, toJson, Report.toJson, ErrorReport.toJson, Json.get?, Json.lookup]
  | disassembly start instructions => simp [isSuccess, toJson, Json.get?, Json.lookup]
  | function r? =>
    cases r? with
    | none => simp [isSuccess, toJson, Json.get?, Json.lookup]
    | some d => simp [isSuccess, toJson, Json.get?, Json.lookup]
  | mutation r => simp [isSuccess, toJson, MutationResult.toJson, Json.get?, Json.lookup]
  | unreadable message => simp [isSuccess, toJson, Json.get?, Json.lookup]

/-- All that a run of a tool can come to. -/
inductive Tool.Ran (e : Engine) (t : Tool) : Engine × Logged ToolReply → Prop where
  /-- The arguments are refused. -/
  | refused (issues : List Issue) (log : List String) : Ran e t (e, ⟨.ok (.refused issues), log⟩)
  /-- There is an answer, and nothing has changed. -/
  | unchanged {r : ToolResult} (log : List String) (hfailed : r.isSuccess = false) :
    Ran e t (e, ⟨.ok (.answered r), log⟩)
  /-- The answer is that a change was made. -/
  | changed {r : ToolResult} {p : Program} (log : List String) (hsuccess : r.isSuccess = true)
    (hmutates : t.mutates = true) (hnodup : (p.data.map (·.address)).Nodup) :
    Ran e t ({ e with program := p }, ⟨.ok (.answered r), log⟩)

section Ran

variable {e : Engine} {t : Tool}

theorem Tool.Ran.of_isAtomic {possible : Prop} {made : Program → Prop}
    {outcome : Engine × Except Raised MutationResult} (h : e.IsAtomic possible made outcome)
    (hmutates : t.mutates = true)
    (hmade : ∀ p, made p → (p.data.map (·.address)).Nodup) :
    Ran e t (outcome.1, ⟨(outcome.2.map ToolResult.mutation).map .answered, []⟩) := by
  obtain ⟨after, answer⟩ := outcome
  obtain ⟨r, rfl, -, hfailed, hchanged⟩ := h
  cases hsuccess : r.success with
  | false =>
    obtain rfl := hfailed hsuccess
    exact .unchanged (r := .mutation r) [] hsuccess
  | true =>
    obtain ⟨p, rfl, hp⟩ := hchanged hsuccess
    exact .changed (r := .mutation r) [] hsuccess hmutates (hmade p hp)

/-- A call whose address cannot be read changes nothing; any other goes on with the address. -/
theorem ToolCall.ran_withAddress (h : e.Faultless) {text : String} {call : ToolCall}
    {next : Address → Engine × Begun ToolRest ToolReply}
    (hstart : call.start e = withAddress e text next)
    (hnext : ∀ a, e.program.parseAddress text = .ok a → Tool.Ran e t (call.run e)) :
    Tool.Ran e t (call.run e) := by
  cases ha : e.program.parseAddress text with
  | ok a => exact hnext a ha
  | error err =>
    rw [run, hstart, withAddress_of_error h ha]
    exact .unchanged [] rfl

theorem Engine.AtRest.ran_call (h : e.AtRest) (call : ToolCall) :
    Tool.Ran e call.tool (call.run e) := by
  cases call with
  | report limits =>
    obtain ⟨r, hrun, -⟩ := ToolCall.exists_report h.faultless limits
    rw [hrun, h.close_eq]
    exact .unchanged [] rfl
  | disassemble address count =>
    refine ToolCall.ran_withAddress h.faultless rfl fun a ha => ?_
    obtain ⟨records, hrecords⟩ := h.faultless.exists_disassemble a count
    rw [ToolCall.run_disassemble h.faultless ha hrecords]
    exact .unchanged [] rfl
  | decompile address limit =>
    refine ToolCall.ran_withAddress h.faultless rfl fun a ha => ?_
    obtain ⟨d?, hd⟩ := Report.exists_decompileEntry h.faultless ⟨limit, limit⟩
      (e.program.functionContaining? a)
    obtain ⟨isOpen, hopen, hrun⟩ := ToolCall.run_decompile h.faultless ha hd
    obtain rfl : isOpen = false := by
      by_contra hne
      have hwas := hopen (Bool.eq_true_of_not_eq_false hne)
      rw [h.closed] at hwas
      cases hwas
    rw [hrun, h.close_eq]
    exact .unchanged [] rfl
  | rename address name =>
    refine .of_isAtomic (h.faultless.isAtomic_renameSymbol address name) rfl ?_
    intro p hp
    rw [hp.data]
    exact h.nodup
  | retype address type =>
    refine .of_isAtomic (h.faultless.isAtomic_retypeData h.nodup address type) rfl ?_
    intro p hp
    rw [hp.addresses]
    exact h.nodup

/-- What a tool comes to that runs on an engine at rest. -/
theorem Engine.AtRest.ran (h : e.AtRest) (defaults : Limits) (t : Tool) (arguments : Json) :
    Tool.Ran e t (t.run e defaults arguments) := by
  cases hread : t.read defaults arguments with
  | accepted call =>
    rw [Tool.run_of_accepted e hread, ← Tool.tool_of_read hread]
    exact h.ran_call call
  | refused first others =>
    rw [Tool.run_of_refused e hread]
    exact .refused (first :: others) []

theorem Tool.Ran.atRest {part : Engine × Logged ToolReply} (h : e.AtRest) (hran : Ran e t part) :
    part.1.AtRest := by
  cases hran with
  | refused => exact h
  | unchanged => exact h
  | changed log hsuccess hmutates hnodup => exact ⟨h.faultless, h.closed, hnodup⟩

end Ran

/-! ## Replay -/

/-- A tool that is to be run, with its arguments and what stands in for the limits among them that are
not given. -/
structure ToolRun where
  /-- The tool. -/
  tool : Tool
  /-- Its arguments. -/
  arguments : Json
  /-- The limits that are taken if none are given. -/
  defaults : Limits

namespace ToolRun

/-- The engine and the outcome of a run. -/
def result (e : Engine) (x : ToolRun) : Engine × Logged ToolReply :=
  x.tool.run e x.defaults x.arguments

/-- Whether a run succeeds: it answers that a change was made. -/
def succeeds (e : Engine) (x : ToolRun) : Bool :=
  (x.result e).2.outcome.toOption.any ToolOutcome.isSuccess

/-- The engine after a list of runs. -/
def engineAfter (e : Engine) (xs : List ToolRun) : Engine := xs.foldl (fun e x => (x.result e).1) e

/-- The runs of a list that succeed in their turn. -/
def successes (e : Engine) : List ToolRun → List ToolRun
  | [] => []
  | x :: rest =>
    if x.succeeds e then x :: successes (x.result e).1 rest else successes (x.result e).1 rest

/-- A run comes to an end and leaves nothing open. If the arguments are refused, or the tool is none that
changes the program, or the answer does not say that a change was made, everything is as it was. -/
def IsSound (e : Engine) (x : ToolRun) : Prop :=
  ∃ o, (x.result e).2.outcome = .ok o ∧ (x.result e).1.isOpen = false ∧
    ((∃ issues, o = .refused issues) ∨ x.tool.mutates = false ∨
        (∀ r, o = .answered r → r.toJson.get? "success" ≠ some (.bool true)) →
      (x.result e).1 = e)

variable {e : Engine}

theorem isSound (h : e.AtRest) (x : ToolRun) : x.IsSound e := by
  have hran : Tool.Ran e x.tool (x.result e) := h.ran x.defaults x.tool x.arguments
  have hclosed : (x.result e).1.isOpen = false := (hran.atRest h).closed
  unfold IsSound
  generalize x.result e = part at hran hclosed ⊢
  cases hran with
  | refused issues log => exact ⟨_, rfl, hclosed, fun _ => rfl⟩
  | unchanged log hfailed => exact ⟨_, rfl, hclosed, fun _ => rfl⟩
  | @changed r p log hsuccess hmutates hnodup =>
    refine ⟨_, rfl, hclosed, fun hquiet => ?_⟩
    rcases hquiet with ⟨issues, hissues⟩ | hreads | hsilent
    · cases hissues
    · rw [hmutates] at hreads
      cases hreads
    · exact absurd (ToolResult.isSuccess_iff.1 hsuccess) (hsilent r rfl)

theorem atRest_result (h : e.AtRest) (x : ToolRun) : (x.result e).1.AtRest :=
  (h.ran x.defaults x.tool x.arguments).atRest h

theorem atRest_engineAfter (h : e.AtRest) (xs : List ToolRun) : (engineAfter e xs).AtRest := by
  induction xs generalizing e with
  | nil => exact h
  | cons x xs ih => exact ih (atRest_result h x)

/-- A run that does not succeed changes nothing, and one that does is of a tool that changes the
program. -/
theorem succeeds_cases (h : e.AtRest) (x : ToolRun) :
    (x.succeeds e = true ∧ x.tool.mutates = true) ∨
      (x.succeeds e = false ∧ (x.result e).1 = e) := by
  have hran : Tool.Ran e x.tool (x.result e) := h.ran x.defaults x.tool x.arguments
  unfold succeeds
  generalize x.result e = part at hran ⊢
  cases hran with
  | refused => exact Or.inr ⟨rfl, rfl⟩
  | unchanged log hfailed =>
    exact Or.inr ⟨by simp [ToolOutcome.isSuccess, Except.toOption, hfailed], rfl⟩
  | changed log hsuccess hmutates hnodup =>
    exact Or.inl ⟨by simp [ToolOutcome.isSuccess, Except.toOption, hsuccess], hmutates⟩

theorem sublist_successes (e : Engine) (xs : List ToolRun) : (successes e xs).Sublist xs := by
  induction xs generalizing e with
  | nil => exact List.Sublist.slnil
  | cons x xs ih =>
    rw [successes]
    split
    · exact (ih _).cons_cons x
    · exact (ih _).cons x

theorem mutates_of_mem_successes (h : e.AtRest) {xs : List ToolRun} :
    ∀ x ∈ successes e xs, x.tool.mutates = true := by
  induction xs generalizing e with
  | nil => simp [successes]
  | cons x xs ih =>
    have hrest := ih (atRest_result h x)
    rw [successes]
    rcases succeeds_cases h x with ⟨hx, hmutates⟩ | ⟨hx, -⟩
    · rw [if_pos hx]
      exact List.forall_mem_cons.2 ⟨hmutates, hrest⟩
    · simpa [hx] using hrest

/-- The runs that succeed lead to the same engine without the others, and succeed again. -/
theorem replay_eq (h : e.AtRest) (xs : List ToolRun) :
    engineAfter e (successes e xs) = engineAfter e xs ∧
      successes e (successes e xs) = successes e xs := by
  induction xs generalizing e with
  | nil => exact ⟨rfl, rfl⟩
  | cons x xs ih =>
    have hfirst (ys : List ToolRun) :
        engineAfter e (x :: ys) = engineAfter (x.result e).1 ys := rfl
    rw [successes]
    rcases succeeds_cases h x with ⟨hx, -⟩ | ⟨hx, hsame⟩
    · obtain ⟨hafter, hagain⟩ := ih (atRest_result h x)
      rw [if_pos hx, hfirst, hfirst, successes, if_pos hx, hagain]
      exact ⟨hafter, rfl⟩
    · simp only [hx, Bool.false_eq_true, if_false, hfirst, hsame]
      exact ih h

/-- Every run is sound, whatever was changed and run before, and the state after a sequence of runs is
the one that its successful changes lead to alone. -/
theorem successes_replay {s : Snapshot} (h : Engine.Reached s e) (hclosed : e.isOpen = false)
    (xs : List ToolRun) :
    (∀ x : ToolRun, x.IsSound (engineAfter e xs)) ∧
      engineAfter e (successes e xs) = engineAfter e xs ∧
      (successes e xs).Sublist xs ∧
      (∀ x ∈ successes e xs, x.tool = .rename ∨ x.tool = .retype) ∧
      successes e (successes e xs) = successes e xs := by
  have hrest : e.AtRest := h.atRest hclosed
  obtain ⟨hafter, hagain⟩ := replay_eq hrest xs
  refine ⟨fun x => isSound (atRest_engineAfter hrest xs) x, hafter, sublist_successes e xs, ?_, hagain⟩
  intro x hx
  exact Tool.mutates_iff.1 (mutates_of_mem_successes hrest x hx)

/-- Runs of all tools, of which only one rename is possible. -/
def mixedRuns : List ToolRun :=
  [⟨.rename, .object [("address", .string "0x8")], .standard⟩,
    ⟨.rename, .object [("address", .string "0x8"), ("name", .string "")], .standard⟩,
    ⟨.decompile, .object [("address", .string "8"), ("timeoutSeconds", .number 5)], .standard⟩,
    ⟨.rename, .object [("address", .string "0x8"), ("name", .string "begin")], .standard⟩,
    ⟨.retype, .object [("address", .string "0x8"), ("type", .string "int")], .standard⟩,
    ⟨.disassemble, .object [("address", .string "nowhere")], .standard⟩,
    ⟨.report, .null, .standard⟩]

theorem successes_replay_mixedRuns :
    Engine.Reached Report.labelledSnapshot (Engine.ofProgram Report.labelledProgram) ∧
      (Engine.ofProgram Report.labelledProgram).isOpen = false ∧
      (successes (Engine.ofProgram Report.labelledProgram) mixedRuns).map (·.tool) = [.rename] ∧
      engineAfter (Engine.ofProgram Report.labelledProgram)
          (successes (Engine.ofProgram Report.labelledProgram) mixedRuns) =
        engineAfter (Engine.ofProgram Report.labelledProgram) mixedRuns := by
  have hreached : Engine.Reached Report.labelledSnapshot (Engine.ofProgram Report.labelledProgram) :=
    ⟨_, [], false, Engine.ofSnapshot_of_load Report.load_labelledSnapshot, rfl⟩
  obtain ⟨-, hafter, -⟩ := successes_replay hreached rfl mixedRuns
  exact ⟨hreached, rfl, by decide +kernel, hafter⟩

end ToolRun

end BinaryReport
