import BinaryReport.Command.Run
import BinaryReport.Proofs.Limits.Checks
import BinaryReport.Proofs.Report.Stages
import BinaryReport.Proofs.Tool.Run

/-!
# What an engine is asked under a limit

The runs of the library take the walk over instructions and the decompiler from an instance (`Services`).
Services that do what the engine does under certain limits, and anything else under others
(`Services.ServesUnder`), make no difference to a run whose limits are among them: nothing else is asked
(`Report.build_eq`, `ToolCall.run_eq`).
-/

namespace BinaryReport

/-- The services are those of the engine for bounds of one kind and time limits of another. -/
structure Services.ServesUnder (s : Services) (bounded limited : Binary64 → Prop) : Prop where
  disassemble : ∀ e start bound, bounded bound →
    s.disassemble e start bound = e.disassemble start bound
  decompiler : ∀ e f limit aborted, limited limit →
    s.decompiler e f limit aborted = e.decompiler f limit aborted

variable {s : Services} {bounded limited : Binary64 → Prop}

theorem Services.ServesUnder.supervise_eq (hs : s.ServesUnder bounded limited) (e : Engine)
    (f : Function) {limit : Binary64} (hlimit : limited limit) :
    Call.supervise (s.decompiler e) f limit = Call.supervise e.decompiler f limit := by
  rw [Call.supervise, hs.decompiler e f limit false hlimit, Call.supervise]

/-! ## Reports -/

namespace Report

variable {limits : Limits}

theorem gather_eq (hs : s.ServesUnder bounded limited) (hbound : bounded limits.maxInstructions)
    (e : Engine) (entry : Address) (entryFunction? : Option DecompiledFunction) :
    @gather s e limits entry entryFunction? = @gather .own e limits entry entryFunction? := by
  unfold gather
  rw [hs.disassemble e entry _ hbound, Services.disassemble_own]

theorem startWith_eq (hs : s.ServesUnder bounded limited) (hbound : bounded limits.maxInstructions)
    (hlimit : limited limits.timeoutSeconds) (e : Engine) (opened : Bool) :
    @startWith s e limits opened = @startWith .own e limits opened := by
  have hsupervise (f : Function) := hs.supervise_eq e f hlimit
  simp only [startWith, gather_eq hs hbound, hsupervise, Services.decompiler_own]

theorem start_eq (hs : s.ServesUnder bounded limited) (hbound : bounded limits.maxInstructions)
    (hlimit : limited limits.timeoutSeconds) (e : Engine) :
    @start s e limits = @start .own e limits := by
  simp only [start, startWith_eq hs hbound hlimit]

theorem finish_eq (hs : s.ServesUnder bounded limited) (e : Engine) {rest : Rest}
    (hbound : bounded rest.limits.maxInstructions) (entryFunction? : Option DecompiledFunction) :
    @finish s e rest entryFunction? = @finish .own e rest entryFunction? := by
  unfold finish
  rw [gather_eq hs hbound]

theorem build_eq (hs : s.ServesUnder bounded limited) (hbound : bounded limits.maxInstructions)
    (hlimit : limited limits.timeoutSeconds) (e : Engine) :
    @build s e limits = @build .own e limits := by
  unfold build
  rw [start_eq hs hbound hlimit]
  cases hstart : @start .own e limits with
  | mk o begun =>
    cases begun with
    | finished result => rfl
    | decompiling call rest =>
      -- The bounds of what is left to do are those that the report was begun under.
      obtain ⟨hrest, -⟩ := supervise_of_start hstart
      exact finish_eq hs o (hrest ▸ hbound) _

end Report

/-! ## Calls of tools -/

/-- The bound of what is left to do is of some kind. -/
def ToolRest.IsUnder (bounded : Binary64 → Prop) : ToolRest → Prop
  | .report rest => bounded rest.limits.maxInstructions
  | .decompile _ => True

theorem ToolRest.finish_eq (hs : s.ServesUnder bounded limited) {rest : ToolRest}
    (hrest : rest.IsUnder bounded) (e : Engine) (call : Call) :
    @ToolRest.finish s e call rest = @ToolRest.finish .own e call rest := by
  cases rest with
  | report rest =>
    simp only [ToolRest.finish, Report.finish_eq hs e hrest]
  | decompile f => rfl

namespace ToolCall

variable {call : ToolCall}

theorem startDecompile_eq (hs : s.ServesUnder bounded limited) {limit : Binary64}
    (hlimit : limited limit) (e : Engine) (a : Address) :
    @startDecompile s e a limit = @startDecompile .own e a limit := by
  have hsupervise (o : Engine) (f : Function) := hs.supervise_eq o f hlimit
  simp only [startDecompile, startDecompiler, hsupervise, Services.decompiler_own]

theorem start_eq (hs : s.ServesUnder bounded limited) (hcall : call.IsUnder bounded limited)
    (e : Engine) : @start s e call = @start .own e call := by
  cases call with
  | report limits =>
    simp only [start, Report.start_eq hs hcall.1 hcall.2]
  | disassemble address count =>
    have hsame (a : Address) := hs.disassemble e a count hcall
    simp only [start, hsame, Services.disassemble_own]
  | decompile address limit => simp only [start, startDecompile_eq hs hcall]
  | rename address name => rfl
  | retype address type => rfl

/-- What is left to do after decompiling a function has no bound. -/
theorem isUnder_of_startDecompile {e e' : Engine} {a : Address} {limit : Binary64} {c : Call}
    {rest : ToolRest} (h : @startDecompile .own e a limit = (e', .decompiling c rest)) :
    rest.IsUnder bounded := by
  unfold startDecompile at h
  cases hfunction : e.functionContaining a with
  | error r => rw [hfunction] at h; cases h
  | ok function? =>
    rw [hfunction] at h
    cases function? with
    | none => cases h
    | some f =>
      dsimp only at h
      generalize e.openProgram = opened at h
      obtain ⟨opened?, o⟩ := opened
      cases opened? with
      | error r => cases h
      | ok opened =>
        cases opened with
        | false => cases h
        | true =>
          dsimp only at h
          unfold startDecompiler at h
          cases hcall : Call.supervise (@Services.decompiler .own o) f limit with
          | error r => rw [hcall] at h; cases h
          | ok call => rw [hcall] at h; cases h; trivial

theorem isUnder_of_start (hcall : call.IsUnder bounded limited) {e e' : Engine} {c : Call}
    {rest : ToolRest} (h : @start .own e call = (e', .decompiling c rest)) : rest.IsUnder bounded := by
  cases call with
  | report limits =>
    rw [start] at h
    cases hstart : @Report.start .own e limits with
    | mk o begun =>
      rw [hstart] at h
      cases begun with
      | finished result => cases h
      | decompiling c' rest' =>
        cases h
        obtain ⟨hrest, -⟩ := Report.supervise_of_start hstart
        rw [ToolRest.IsUnder, hrest]
        exact hcall.1
  | disassemble address count =>
    rw [start, withAddress] at h
    cases hread : e.readAddress address with
    | error r => rw [hread] at h; cases h
    | ok reading => rw [hread] at h; cases reading <;> cases h
  | decompile address limit =>
    rw [start, withAddress] at h
    cases hread : e.readAddress address with
    | error r => rw [hread] at h; cases h
    | ok reading =>
      rw [hread] at h
      cases reading with
      | address a => exact isUnder_of_startDecompile h
      | unreadable message => cases h
  | rename address name => cases h
  | retype address type => cases h

theorem run_eq (hs : s.ServesUnder bounded limited) (hcall : call.IsUnder bounded limited)
    (e : Engine) : @run s e call = @run .own e call := by
  unfold run
  rw [start_eq hs hcall]
  cases hstart : @start .own e call with
  | mk o begun =>
    cases begun with
    | finished result => rfl
    | decompiling c rest => exact ToolRest.finish_eq hs (isUnder_of_start hcall hstart) o _

end ToolCall

/-- A tool makes no difference between services if none of the calls that it accepts does. -/
theorem Tool.run_eq (hs : s.ServesUnder bounded limited) {defaults : Limits} {t : Tool}
    {arguments : Json}
    (hcalls : ∀ call, t.read defaults arguments = .accepted call → call.IsUnder bounded limited)
    (e : Engine) : @Tool.run s e defaults t arguments = @Tool.run .own e defaults t arguments := by
  cases hread : t.read defaults arguments with
  | refused first others => rw [@run_of_refused s e _ _ _ _ _ hread, @run_of_refused .own e _ _ _ _ _ hread]
  | accepted call =>
    rw [@run_of_accepted s e _ _ _ _ hread, @run_of_accepted .own e _ _ _ _ hread]
    exact ToolCall.run_eq hs (hcalls call hread) e

/-! ## Commands -/

namespace Command

variable {read : FileReader} {env : Environment}

theorem load_of_prepare {path : String} {config : Config} {e : Engine}
    (h : prepare read env path = .ok (config, e)) : Config.load env = .ok config := by
  obtain ⟨c, hload, hc⟩ := Outcome.bind_eq_ok h
  obtain ⟨o, -, hpair⟩ := Outcome.bind_eq_ok hc
  obtain rfl := (Prod.mk.inj (Except.ok.inj hpair)).1
  exact hload

theorem reportOf_eq (hs : s.ServesUnder bounded limited) {path : String}
    {max? timeout? : Option Binary64}
    (hlimits : ∀ config, Config.load env = .ok config →
      bounded (limitsOf config max? timeout?).maxInstructions ∧
        limited (limitsOf config max? timeout?).timeoutSeconds) :
    @reportOf s read env path max? timeout? = @reportOf .own read env path max? timeout? := by
  unfold reportOf
  cases hready : prepare read env path with
  | error f => rfl
  | ok ready =>
    obtain ⟨config, e⟩ := ready
    obtain ⟨hbound, hlimit⟩ := hlimits config (load_of_prepare hready)
    dsimp only
    rw [Report.build_eq hs hbound hlimit]

/-- A run makes no difference between services that make the same report. -/
theorem runArguments_eq {rt : Runtime} {arguments : List String}
    (h : ∀ path format max? timeout?, parse arguments = .analyze path format max? timeout? →
      @reportOf s read env path max? timeout? = @reportOf .own read env path max? timeout?) :
    @runArguments s rt read env arguments = @runArguments .own rt read env arguments := by
  unfold runArguments
  cases hparse : parse arguments with
  | analyze path format max? timeout? =>
    simp only [run, h path format max? timeout? hparse]
  | help => rfl
  | usage message => rfl
  | rename path address name => rfl
  | retype path address type => rfl

end Command

end BinaryReport
