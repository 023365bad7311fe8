import BinaryReport.Proofs.Report.Coherence
import BinaryReport.Proofs.Service.Work

/-!
# Runs of tools

What a call of a tool comes to when it runs alone on an engine without faults, one lemma for each kind
of call. A report is whole and holds what the engine answers; a listing and a decompilation say what
the engine answers for the address that was read. A session that a call has opened is closed at its
end, and nothing is logged.
-/

namespace BinaryReport

/-- A call that runs alone. -/
def ToolCall.run [Services] (e : Engine) (call : ToolCall) : Engine × Logged ToolReply :=
  match call.start e with
  | (e, .finished result) => (e, result)
  | (e, .decompiling call rest) => rest.finish e call.run

theorem Tool.run_of_accepted [Services] (e : Engine) {defaults : Limits} {t : Tool}
    {arguments : Json} {call : ToolCall} (h : t.read defaults arguments = .accepted call) :
    t.run e defaults arguments = call.run e := by
  have hstart : t.start e defaults arguments = call.start e := by
    unfold Tool.start
    rw [h]
  unfold Tool.run ToolCall.run
  cases hcall : call.start e with
  | mk o begun =>
    rw [hcall] at hstart
    cases begun with
    | finished result => simp only [hstart]
    | decompiling c rest => simp only [hstart]

theorem Tool.run_of_refused [Services] (e : Engine) {defaults : Limits} {t : Tool}
    {arguments : Json} {first : Issue} {others : List Issue}
    (h : t.read defaults arguments = .refused first others) :
    t.run e defaults arguments = (e, ⟨.ok (.refused (first :: others)), []⟩) := by
  unfold Tool.run Tool.start
  rw [h]

/-- A report that is made alone holds what the engine answers while the program is open. -/
theorem Report.exists_build {e : Engine} (h : e.Faultless) (limits : Limits) :
    ∃ r, build e limits = ({ e with isOpen := false }, ⟨.ok (.whole r), []⟩) ∧
      Filled { e with isOpen := true } true limits r := by
  obtain ⟨r, hr⟩ := exists_build_whole h limits
  obtain ⟨r', hr', hfilled⟩ := exists_filled h limits
  rw [hr] at hr'
  obtain rfl : r = r' := by simpa using hr'
  exact ⟨r, hr, hfilled⟩

/-- Without faults the decompiler takes every call for the function around an entry. -/
theorem Report.exists_decompileEntry {e : Engine} (h : e.Faultless) (limits : Limits)
    (function? : Option Function) :
    ∃ d?, decompileEntry { e with isOpen := true } limits true function? = .ok d? := by
  have hopen : Engine.Faultless { e with isOpen := true } := h
  cases function? with
  | none => exact ⟨none, rfl⟩
  | some f =>
    rw [decompileEntry, Engine.decompile_eq, hopen.decompiler_eq]
    exact ⟨_, rfl⟩

namespace ToolCall

variable {e : Engine}

/-! ## Reports -/

theorem run_report (e : Engine) (limits : Limits) :
    (ToolCall.report limits).run e = ((Report.build e limits).1,
      ⟨(Report.build e limits).2.outcome.map fun r => .answered (.report r),
        (Report.build e limits).2.log⟩) := by
  rw [run, start, Report.build]
  obtain ⟨o, begun⟩ := Report.start e limits
  cases begun with
  | finished result => rfl
  | decompiling call rest => rfl

theorem exists_report (h : e.Faultless) (limits : Limits) :
    ∃ r, (ToolCall.report limits).run e =
        ({ e with isOpen := false }, ⟨.ok (.answered (.report (.whole r))), []⟩) ∧
      Report.Filled { e with isOpen := true } true limits r := by
  obtain ⟨r, hbuild, hfilled⟩ := Report.exists_build h limits
  refine ⟨r, ?_, hfilled⟩
  rw [run_report, hbuild]
  rfl

/-! ## Addresses -/

theorem withAddress_of_ok (h : e.Faultless) {text : String} {a : Address}
    (ha : e.program.parseAddress text = .ok a)
    (next : Address → Engine × Begun ToolRest ToolReply) : withAddress e text next = next a := by
  unfold withAddress Engine.readAddress
  rw [h.parseAddress_eq, ha, Outcome.mapError_ok]

theorem withAddress_of_error (h : e.Faultless) {text : String} {err : AddressError}
    (herr : e.program.parseAddress text = .error err)
    (next : Address → Engine × Begun ToolRest ToolReply) :
    withAddress e text next = (e, finishedWith (.ok (.unreadable err.message)) []) := by
  unfold withAddress Engine.readAddress
  rw [h.parseAddress_eq, herr]
  rfl

/-! ## Listings -/

theorem run_disassemble (h : e.Faultless) {text : String} {a : Address} {count : Binary64}
    {records : List InstructionRecord} (ha : e.program.parseAddress text = .ok a)
    (hrecords : e.disassemble a count = .ok records) :
    (ToolCall.disassemble text count).run e =
      (e, ⟨.ok (.answered (.disassembly a records)), []⟩) := by
  rw [run, start, withAddress_of_ok h ha, Services.disassemble_own, hrecords]
  rfl

/-! ## Decompilations -/

theorem run_decompile (h : e.Faultless) {text : String} {a : Address} {limits : Limits}
    {d? : Option DecompiledFunction} (ha : e.program.parseAddress text = .ok a)
    (hd : Report.decompileEntry { e with isOpen := true } limits true
      (e.program.functionContaining? a) = .ok d?) :
    ∃ isOpen, (isOpen = true → e.isOpen = true) ∧
      (ToolCall.decompile text limits.timeoutSeconds).run e =
        ({ e with isOpen := isOpen }, ⟨.ok (.answered (.function d?)), []⟩) := by
  have hopen : Engine.Faultless { e with isOpen := true } := h
  rw [run, start, withAddress_of_ok h ha, startDecompile, h.functionContaining_eq]
  cases hfunction : e.program.functionContaining? a with
  | none =>
    rw [hfunction] at hd
    obtain rfl := Except.ok.inj hd
    exact ⟨e.isOpen, id, rfl⟩
  | some f =>
    rw [hfunction] at hd
    have hdecompile : Engine.decompile { e with isOpen := true } f limits.timeoutSeconds = .ok d? := hd
    rw [Engine.decompile_eq] at hdecompile
    dsimp only
    rw [h.openProgram_eq]
    dsimp only
    unfold startDecompiler
    -- Without faults the decompiler takes the call, so the session is closed behind its answer.
    cases hcall : Call.supervise (Engine.decompiler { e with isOpen := true }) f
        limits.timeoutSeconds with
    | error r =>
      rw [hcall] at hdecompile
      cases hdecompile
    | ok call =>
      rw [hcall] at hdecompile
      have hresult : call.run.functionOf? f = d? := Except.ok.inj hdecompile
      refine ⟨false, nofun, ?_⟩
      dsimp only
      rw [ToolRest.finish, closeWith, hopen.closeProgram_eq, hresult]
      rfl

end ToolCall

end BinaryReport
