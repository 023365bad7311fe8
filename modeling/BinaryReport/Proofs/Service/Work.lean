import BinaryReport.Proofs.Engine.History
import BinaryReport.Proofs.Report.Build
import BinaryReport.Proofs.Report.Stages
import BinaryReport.Proofs.Verdict
import BinaryReport.Service.Work

/-!
# Work without faults

What a piece of work does to an engine without faults (`Work.underway_start`). Only a tool that
changes the program can leave another program behind, and then its answer says so. A report comes
out whole, and it is the report of the program that is there when the work is done. Work that waits
for the decompiler has changed nothing, and will change nothing; it has the program open, and the first
timer answers its call (`Work.opens_start`).
-/

namespace BinaryReport

/-! ## Tools -/

/-- The tool that a call is for. -/
def ToolCall.tool : ToolCall → Tool
  | .report _ => .report
  | .disassemble _ _ => .disassemble
  | .decompile _ _ => .decompile
  | .rename _ _ => .rename
  | .retype _ _ => .retype

/-- A tool reads calls of its own only. -/
theorem Tool.tool_of_read {defaults : Limits} {t : Tool} {arguments : Json} {call : ToolCall}
    (h : t.read defaults arguments = .accepted call) : call.tool = t := by
  unfold read argumentCheck at h
  cases t with
  | report | disassemble | decompile | rename | retype =>
    unfold Check.record at h
    dsimp only at h
    split at h
    · obtain ⟨g, a, hg, -, rfl⟩ := Verdict.seq_eq_accepted h
      obtain ⟨b, -, rfl⟩ := Verdict.map_eq_accepted hg
      rfl
    · cases h

/-! ## Outcomes -/

/-- Whether an outcome says that the program was changed. -/
def WorkOutcome.isChange : WorkOutcome → Bool
  | .tool t (.ok (.answered r)) => t.mutates && r.isSuccess
  | _ => false

/-- What is known of an outcome when the work is done, for the engine before and after it. -/
structure Work.Done (w : Work) (limits : Limits) (before after : Engine) (o : WorkOutcome) :
    Prop where
  /-- The engine has no faults. -/
  faultless : after.Faultless
  /-- The program is as before, unless the outcome says that it was changed. -/
  program : o.isChange = false → after.program = before.program
  /-- A whole report is the report of the program. -/
  report : ∀ r, o = .report (.ok (.whole r)) → after.program.HasReport limits r
  /-- The outcome of a report is a whole report. -/
  whole : w = .report → ∃ r, o = .report (.ok (.whole r))

/-- What is known of a piece of work between its parts: nothing has changed, and once the call is
settled the rest will change nothing. -/
inductive Work.Underway (w : Work) (limits : Limits) (before : Engine) :
    Engine × Begun WorkRest WorkOutcome → Prop where
  /-- The work is done. -/
  | finished {after : Engine} {o : WorkOutcome} {log : List String}
    (h : w.Done limits before after o) : Underway w limits before (after, .finished ⟨o, log⟩)
  /-- The work waits for a call of the decompiler, some timers of which have fired. -/
  | decompiling {after : Engine} {call : Call} {n : Nat} {rest : WorkRest}
    (hfaultless : after.Faultless) (hprogram : after.program = before.program)
    (hrest : w.Done limits before (rest.finish after call.run).1
      (rest.finish after call.run).2.outcome)
    (hchange : (rest.finish after call.run).2.outcome.isChange = false) :
    Underway w limits before (after, .decompiling (call.steps n) rest)

namespace Work

variable {e : Engine} {limits : Limits}

/-! ## Between the parts -/

/-- Of the engine before the work only the program matters. -/
theorem Done.rebase {w : Work} {before before' after : Engine} {o : WorkOutcome}
    (h : w.Done limits before after o) (hprogram : before'.program = before.program) :
    w.Done limits before' after o where
  faultless := h.faultless
  program ho := (h.program ho).trans hprogram.symm
  report := h.report
  whole := h.whole

theorem Underway.rebase {w : Work} {before before' : Engine}
    {part : Engine × Begun WorkRest WorkOutcome} (h : w.Underway limits before part)
    (hprogram : before'.program = before.program) : w.Underway limits before' part := by
  cases h with
  | finished hdone => exact .finished (hdone.rebase hprogram)
  | decompiling hfaultless hsame hrest hchange =>
    exact .decompiling hfaultless (hsame.trans hprogram.symm) (hrest.rebase hprogram) hchange

/-- One more timer may fire. -/
theorem Underway.step {w : Work} {before after : Engine} {call : Call} {rest : WorkRest}
    (h : w.Underway limits before (after, .decompiling call rest)) :
    w.Underway limits before (after, .decompiling call.step rest) := by
  cases h with
  | @decompiling _ call n _ hfaultless hprogram hrest hchange =>
    rw [← Call.steps_succ]
    exact .decompiling hfaultless hprogram hrest hchange

/-! ## Reports -/

theorem underway_report (h : e.Faultless) :
    Work.report.Underway limits e (Work.report.start e limits) := by
  unfold start
  dsimp only
  rcases Report.start_cases h limits with ⟨r, hstart⟩ | ⟨call, rest, hstart⟩
  · have hreport := Report.hasReport_of_finished h hstart
    rw [hstart]
    refine .finished ⟨h, fun _ => rfl, fun r' hr' => ?_, fun _ => ⟨r, rfl⟩⟩
    cases hr'
    exact hreport
  · have hopen : Engine.Faultless { e with isOpen := true } := h
    obtain ⟨r, hr⟩ := Report.exists_finish hopen rest (call.run.functionOf? rest.function)
    have hreport := Report.hasReport_of_finish h hstart hr
    have hfinish : (WorkRest.report rest).finish { e with isOpen := true } call.run =
        ({ e with isOpen := false }, ⟨.report (.ok (.whole r)), []⟩) := by
      rw [WorkRest.finish, hr]
    rw [hstart]
    refine .decompiling (n := 0) hopen rfl ?_ ?_
    · rw [hfinish]
      refine ⟨h, fun _ => rfl, fun r' hr' => ?_, fun _ => ⟨r, rfl⟩⟩
      cases hr'
      exact hreport
    · rw [hfinish]
      rfl

/-! ## Tools -/

/-- What is known between the parts of a tool, for the work that runs it. -/
def ToolUnderway (t : Tool) (arguments : Json) (limits : Limits) (e : Engine)
    (part : Engine × Begun ToolRest ToolReply) : Prop :=
  (Work.tool t arguments).Underway limits e (part.1, part.2.map (.tool t) (.tool t))

variable {t : Tool} {arguments : Json}

/-- A tool has no part in the reports that are kept, so its outcome is about the program only. -/
theorem done_tool {after : Engine} {r : ToolReply} (hfaultless : after.Faultless)
    (hprogram : (WorkOutcome.tool t r).isChange = false → after.program = e.program) :
    (Work.tool t arguments).Done limits e after (.tool t r) :=
  ⟨hfaultless, hprogram, nofun, nofun⟩

theorem toolUnderway_finished {after : Engine} {r : ToolReply} {log : List String}
    (hfaultless : after.Faultless) (hprogram : after.program = e.program) :
    ToolUnderway t arguments limits e (after, .finished ⟨r, log⟩) :=
  .finished (done_tool hfaultless fun _ => hprogram)

theorem toolUnderway_decompiling {after : Engine} {call : Call} {rest : ToolRest}
    (hfaultless : after.Faultless) (hprogram : after.program = e.program)
    (hrest : (rest.finish after call.run).1.Faultless ∧
      (rest.finish after call.run).1.program = e.program)
    (hchange : (WorkOutcome.tool t (rest.finish after call.run).2.outcome).isChange = false) :
    ToolUnderway t arguments limits e (after, .decompiling call rest) :=
  .decompiling (n := 0) hfaultless hprogram (done_tool hrest.1 fun _ => hrest.2) hchange

theorem toolUnderway_report (h : e.Faultless) (limits' : Limits) :
    ToolUnderway t arguments limits e ((ToolCall.report limits').start e) := by
  unfold ToolCall.start
  dsimp only
  rcases Report.start_cases h limits' with ⟨r, hstart⟩ | ⟨call, rest, hstart⟩
  · rw [hstart]
    exact toolUnderway_finished h rfl
  · have hopen : Engine.Faultless { e with isOpen := true } := h
    obtain ⟨r, hr⟩ := Report.exists_finish hopen rest (call.run.functionOf? rest.function)
    have hfinish : (ToolRest.report rest).finish { e with isOpen := true } call.run =
        ({ e with isOpen := false }, ⟨.ok (.answered (.report (.whole r))), []⟩) := by
      rw [ToolRest.finish, hr]
      rfl
    rw [hstart]
    refine toolUnderway_decompiling hopen rfl ?_ ?_
    · rw [hfinish]
      exact ⟨h, rfl⟩
    · rw [hfinish]
      exact Bool.and_false _

theorem toolUnderway_withAddress (h : e.Faultless) (text : String)
    {next : Address → Engine × Begun ToolRest ToolReply}
    (hnext : ∀ a, ToolUnderway t arguments limits e (next a)) :
    ToolUnderway t arguments limits e (ToolCall.withAddress e text next) := by
  unfold ToolCall.withAddress
  split
  · exact toolUnderway_finished h rfl
  · exact toolUnderway_finished h rfl
  · exact hnext _

theorem toolUnderway_decompile (h : e.Faultless) (a : Address) (limit : Binary64) :
    ToolUnderway t arguments limits e (ToolCall.startDecompile e a limit) := by
  have hopen : Engine.Faultless { e with isOpen := true } := h
  unfold ToolCall.startDecompile
  rw [h.functionContaining_eq]
  cases e.program.functionContaining? a with
  | none => exact toolUnderway_finished h rfl
  | some f =>
    dsimp only
    rw [h.openProgram_eq]
    dsimp only
    unfold ToolCall.startDecompiler
    rw [Services.decompiler_own, hopen.decompiler_eq]
    have hfinish (call : Call) : (ToolRest.decompile f).finish { e with isOpen := true } call =
        ({ e with isOpen := false }, ⟨.ok (.answered (.function (call.functionOf? f))), []⟩) := by
      rw [ToolRest.finish, ToolCall.closeWith, hopen.closeProgram_eq]
      rfl
    refine toolUnderway_decompiling hopen rfl ?_ ?_
    · rw [hfinish]
      exact ⟨h, rfl⟩
    · rw [hfinish]
      exact Bool.and_false _

/-- The outcome of a change, for the tool that makes it. -/
theorem toolUnderway_conclude (h : e.Faultless) (ht : t.mutates = true) {done : String}
    {tried : Except ChangeProblem Engine}
    (htried : ∀ e', tried = .ok e' → ∃ p, Engine.Change e.program p ∧ e' = { e with program := p }) :
    ToolUnderway t arguments limits e ((e.conclude done tried).1,
      ToolCall.finishedWith ((e.conclude done tried).2.map .mutation) []) := by
  cases tried with
  | ok e' =>
    obtain ⟨p, -, rfl⟩ := htried e' rfl
    refine .finished (done_tool h fun hchange => ?_)
    -- The answer says that the change was made.
    have hmade : (t.mutates && true) = false := hchange
    rw [ht] at hmade
    cases hmade
  | error problem => exact toolUnderway_finished h rfl

theorem toolUnderway_start (h : e.Faultless) {call : ToolCall} (hcall : call.tool = t) :
    ToolUnderway t arguments limits e (call.start e) := by
  subst hcall
  cases call with
  | report limits' => exact toolUnderway_report h limits'
  | disassemble address count =>
    exact toolUnderway_withAddress h address fun a => toolUnderway_finished h rfl
  | decompile address limit =>
    exact toolUnderway_withAddress h address fun a => toolUnderway_decompile h a limit
  | rename address name =>
    exact toolUnderway_conclude h rfl fun e' => Engine.tryRename_cases
  | retype address type =>
    exact toolUnderway_conclude h rfl fun e' => h.tryRetype_cases

/-- What a piece of work does to an engine without faults, up to its end or to its call of the
decompiler. -/
theorem underway_start (h : e.Faultless) (w : Work) : w.Underway limits e (w.start e limits) := by
  cases w with
  | report => exact underway_report h
  | tool t arguments =>
    show ToolUnderway t arguments limits e (t.start e limits arguments)
    unfold Tool.start
    cases hread : t.read limits arguments with
    | accepted call => exact toolUnderway_start h (Tool.tool_of_read hread)
    | refused first others => exact toolUnderway_finished h rfl

end Work

/-! ## Work that waits -/

/-- If an activity waits for the decompiler, it has opened the program, and the first timer answers
its call. -/
def Begun.Opens {κ ρ : Type} (part : Engine × Begun κ ρ) : Prop :=
  ∀ call rest, part.2 = .decompiling call rest →
    part.1.isOpen = true ∧ call.step.result?.isSome = true

theorem Begun.Opens.map {κ ρ κ' ρ' : Type} {e : Engine} {begun : Begun κ ρ}
    (h : Begun.Opens (e, begun)) (f : κ → κ') (g : ρ → ρ') : Begun.Opens (e, begun.map f g) := by
  intro call rest heq
  cases begun with
  | finished r => cases heq
  | decompiling call' rest' =>
    cases heq
    exact h call rest' rfl

theorem Begun.opens_finished {κ ρ : Type} (e : Engine) (r : Logged ρ) :
    Begun.Opens ((e, .finished r) : Engine × Begun κ ρ) := by
  intro call rest heq
  cases heq

section Opens

variable {e : Engine}

theorem Report.opens_start (h : e.Faultless) (limits : Limits) :
    Begun.Opens (Report.start e limits) := by
  intro call rest heq
  rcases Report.start_cases h limits with ⟨r, hstart⟩ | ⟨call', rest', hstart⟩
  · rw [hstart] at heq
    cases heq
  · rw [hstart] at heq ⊢
    cases heq
    obtain ⟨-, o, f, hcall⟩ := Report.supervise_of_start hstart
    exact ⟨rfl, Report.isSome_result?_of_decompiler hcall⟩

theorem ToolCall.opens_withAddress (e : Engine) (text : String)
    {next : Address → Engine × Begun ToolRest ToolReply} (hnext : ∀ a, Begun.Opens (next a)) :
    Begun.Opens (ToolCall.withAddress e text next) := by
  unfold ToolCall.withAddress
  split
  · exact Begun.opens_finished _ _
  · exact Begun.opens_finished _ _
  · exact hnext _

theorem ToolCall.opens_startDecompile (h : e.Faultless) (a : Address) (limit : Binary64) :
    Begun.Opens (ToolCall.startDecompile e a limit) := by
  unfold ToolCall.startDecompile
  rw [h.functionContaining_eq]
  cases e.program.functionContaining? a with
  | none => exact Begun.opens_finished _ _
  | some f =>
    dsimp only
    rw [h.openProgram_eq]
    dsimp only
    unfold ToolCall.startDecompiler
    cases hcall : Call.supervise (Engine.decompiler { e with isOpen := true }) f limit with
    | error r => exact Begun.opens_finished _ _
    | ok call =>
      intro call' rest heq
      cases heq
      exact ⟨rfl, Report.isSome_result?_of_decompiler hcall⟩

theorem ToolCall.opens_start (h : e.Faultless) (call : ToolCall) : Begun.Opens (call.start e) := by
  cases call with
  | report limits => exact (Report.opens_start h limits).map _ _
  | disassemble address count =>
    exact opens_withAddress e address fun a => Begun.opens_finished _ _
  | decompile address limit =>
    exact opens_withAddress e address fun a => opens_startDecompile h a limit
  | rename address name => exact Begun.opens_finished _ _
  | retype address type => exact Begun.opens_finished _ _

/-- Work that waits for the decompiler has opened the program, and the first timer answers its
call. -/
theorem Work.opens_start (h : e.Faultless) (limits : Limits) (w : Work) :
    Begun.Opens (w.start e limits) := by
  cases w with
  | report => exact (Report.opens_start h limits).map _ _
  | tool t arguments =>
    have htool : Begun.Opens (t.start e limits arguments) := by
      unfold Tool.start
      cases t.read limits arguments with
      | accepted call => exact ToolCall.opens_start h call
      | refused first others => exact Begun.opens_finished _ _
    exact htool.map _ _

/-- What is known of work that is done alone. -/
theorem Work.done_run (h : e.Faultless) (limits : Limits) (w : Work) :
    w.Done limits e (w.run e limits).1 (w.run e limits).2.outcome := by
  have hunderway : w.Underway limits e (w.start e limits) := Work.underway_start h w
  unfold Work.run
  generalize w.start e limits = part at hunderway
  cases hunderway with
  | finished hdone => exact hdone
  | @decompiling after call n rest _ _ hrest _ =>
    dsimp only
    rw [Call.run_steps]
    exact hrest

/-- Work leaves no faults behind. -/
theorem Work.faultless_run (h : e.Faultless) (limits : Limits) (w : Work) :
    (w.run e limits).1.Faultless := (w.done_run h limits).faultless

end Opens

end BinaryReport
