import BinaryReport.Command.Run
import BinaryReport.Proofs.Command.Requests
import BinaryReport.Proofs.Report.Printed
import BinaryReport.Proofs.Report.Records
import BinaryReport.Proofs.Service.Account

/-!
# One report for all front ends

A report can be asked for on the command line, through a tool, and from the service. The limits come
as options or as variables of the environment, as arguments of the tool, and as defaults of the
service. Wherever they come from, the report of a file under the same limits is the same
(`Report.same_for_front_ends`).
-/

namespace BinaryReport

open Binary64 (IsPositiveInteger IsPositiveFinite)

/-! ## A queue with one task -/

namespace AppQueue

variable (app : App) (task : AppTask)

/-- A task that has settled is delivered, and then there is nothing to do. -/
theorem drainFor_settled (o : WorkOutcome) (n : Nat) :
    SerialQueue.drainFor App.host (n + 2)
        ⟨app, false, [], none, [.advance, .deliver task o]⟩ =
      ⟨app.deliver task o, true, [], none, []⟩ := by
  cases n with
  | zero => rfl
  | succ n => rfl

/-- A turn of a task sends nothing. -/
theorem responses_of_effect {app app' : App} {part : Engine × Begun WorkRest WorkOutcome}
    {turn : Turn (Call × WorkRest) WorkOutcome} (h : app.effectOf part = ⟨app', [], turn⟩) :
    app'.responses = app.responses := by
  obtain ⟨e, begun⟩ := part
  unfold App.effectOf at h
  cases begun with
  | finished result =>
    obtain ⟨rfl, -, -⟩ := Effect.mk.inj h
    rfl
  | decompiling call rest =>
    dsimp only at h
    split at h
    · obtain ⟨rfl, -, -⟩ := Effect.mk.inj h
      rfl
    · obtain ⟨rfl, -, -⟩ := Effect.mk.inj h
      rfl

/-- A task that waits for the decompiler is woken once, and then it is delivered. -/
theorem finishFor_decompiling {before : Engine} {limits : Limits} (hfaultless : before.Faultless)
    {call : Call} {rest : WorkRest} (n m : Nat)
    (hstart : task.work.start before limits = (app.engine, .decompiling call rest)) :
    ∃ app' : App, app'.responses = app.responses ∧
      (SerialQueue.finishFor App.host (m + 1)
          ⟨app, false, [], some (task, (call.steps n, rest)), []⟩).world =
        app'.deliver task (task.work.run before limits).2.outcome := by
  obtain ⟨app', -, -, heffect⟩ := Session.effectOf_of_decompiling app hfaultless n hstart
  refine ⟨app', responses_of_effect heffect, ?_⟩
  have hwake : SerialQueue.wake App.host ⟨app, false, [], some (task, (call.steps n, rest)), []⟩ =
      ⟨app', false, [], none, [.advance, .deliver task (task.work.run before limits).2.outcome]⟩ := by
    show SerialQueue.absorb ⟨app, false, [], none, []⟩ task
      (app.effectOf (app.engine, .decompiling (call.steps n).step rest)) = _
    rw [← Call.steps_succ, heffect]
    rfl
  have hdrain := drainFor_settled app' task (task.work.run before limits).2.outcome 0
  rw [SerialQueue.finishFor]
  dsimp only
  rw [hwake]
  show (SerialQueue.finishFor App.host m (SerialQueue.drainFor App.host (0 + 2) _)).world = _
  rw [hdrain]
  cases m with
  | zero => rfl
  | succ m => rfl

/-- A task that is about to be started is brought to its end and delivered. -/
theorem finish_starting (hfaultless : app.engine.Faultless) :
    ∃ app' : App, app'.responses = app.responses ∧
      (SerialQueue.finish App.host ⟨app, false, [], none, [.start task]⟩).world =
        app'.deliver task (task.work.run app.engine app.defaults).2.outcome := by
  -- Starting the task is the first of the five jobs and turns that the queue makes room for.
  have hdrain : SerialQueue.drain App.host ⟨app, false, [], none, [.start task]⟩ =
      SerialQueue.drainFor App.host 4 (SerialQueue.absorb ⟨app, false, [], none, []⟩ task
        (app.effectOf (task.work.start app.engine app.defaults))) := rfl
  show ∃ app', _ ∧ (SerialQueue.finishFor App.host 5 (SerialQueue.drain App.host _)).world = _
  rw [hdrain]
  rcases Session.effectOf_cases app (Session.leads_start app.defaults app.engine task.work) with
    ⟨app', -, -, heffect⟩ | ⟨e, call, n, rest, hstart, -, -, heffect⟩
  · refine ⟨app', responses_of_effect heffect, ?_⟩
    rw [heffect]
    show (SerialQueue.finishFor App.host 5 (SerialQueue.drainFor App.host (2 + 2)
      ⟨app', false, [], none, [.advance, .deliver task _]⟩)).world = _
    rw [drainFor_settled]
    rfl
  · rw [heffect]
    have hresponses : ({ app with engine := e } : App).responses = app.responses := rfl
    obtain ⟨app', hsame, hworld⟩ := finishFor_decompiling { app with engine := e } task
      hfaultless n 4 hstart
    exact ⟨app', hsame.trans hresponses, hworld⟩

/-! ## The report from the service -/

theorem run_report (e : Engine) (limits : Limits) :
    (Work.report.run e limits).2.outcome = .report (Report.build e limits).2.outcome := by
  unfold Work.run Work.start Report.build
  obtain ⟨e', begun⟩ := Report.start e limits
  cases begun with
  | finished result => rfl
  | decompiling call rest => rfl

/-- A service that has not been asked anything makes the report and answers with it. -/
theorem serve_report {e : Engine} (hfaultless : e.Faultless) {limits : Limits} {r : AnalysisReport}
    (hbuild : (Report.build e limits).2.outcome = .ok (.whole r)) (key : String) {request : Request}
    {format : ReportFormat} (hformat : request.reportFormat? = some format) :
    (serve (.empty (.start e key limits)) [request]).world.responses =
      [Ticket.sent ⟨0, request.wantsNoBody⟩ (App.reportResponse r format)] := by
  have hreceived := received (.empty (.start e key limits)) 0 request
  show (SerialQueue.finish App.host (receive (.empty (.start e key limits)) 0 request)).world.responses = _
  generalize receive (.empty (.start e key limits)) 0 request = q at hreceived
  cases hreceived with
  | answered _ _ _ hreport =>
    -- There is no report that is kept.
    obtain ⟨kept, hkept, -⟩ := hreport format hformat
    cases hkept
  | @submitted app work format' hsetup _ hresponses hreport =>
    obtain ⟨rfl, rfl⟩ := hreport format hformat
    have hengine : app.engine = e := hsetup.engine
    have hdefaults : app.defaults = limits := hsetup.defaults
    have hnothing : app.responses = [] := hresponses
    obtain ⟨app', hsame, hworld⟩ := finish_starting app
      ⟨⟨0, request.wantsNoBody⟩, .report, format', request.client⟩ (hengine ▸ hfaultless)
    have hdelivered := App.delivered app'
      ⟨⟨0, request.wantsNoBody⟩, .report, format', request.client⟩ (.report (.ok (.whole r)))
    obtain ⟨response, hsent, hwhole⟩ := hdelivered.responses
    rw [hengine, hdefaults, run_report, hbuild] at hworld
    show (SerialQueue.finish App.host ⟨app, false, [], none, [.start _]⟩).world.responses = _
    rw [hworld, hsent, hsame, hnothing, hwhole r rfl]
    rfl

end AppQueue

/-! ## The report from the command line -/

namespace Command

variable {rt : Runtime} {read : FileReader} {path : String} {e : Engine} {limits : Limits}
  {r : AnalysisReport}

theorem runArguments_report (hload : engineOf read path = .ok e)
    (hbuild : (Report.build e limits).2.outcome = .ok (.whole r)) {env : Environment} {config : Config}
    (hconfig : Config.load env = .ok config) {arguments : List String} {format : ReportFormat}
    {max? timeout? : Option Binary64} (hparse : parse arguments = .analyze path format max? timeout?)
    (hlimits : limitsOf config max? timeout? = limits) :
    runArguments rt read env arguments = reportResult rt format (.whole r) := by
  have hprepare : prepare read env path = .ok (config, e) := by
    unfold prepare
    rw [hconfig, hload]
    rfl
  have hreport : reportOf read env path max? timeout? = .ok (.whole r) := by
    unfold reportOf
    rw [hprepare]
    dsimp only
    rw [hlimits, hbuild]
  rw [runArguments, hparse, run, hreport, resultOf]

/-- Limits that are given as options count, whatever the environment says. -/
theorem runArguments_of_options (hload : engineOf read path = .ok e)
    (hbuild : (Report.build e limits).2.outcome = .ok (.whole r))
    (hcount : limits.maxInstructions.IsPositiveInteger)
    (hlimit : limits.timeoutSeconds.IsPositiveFinite) {env : Environment} {config : Config}
    (hconfig : Config.load env = .ok config) {arguments : List String} {format : ReportFormat}
    {max timeout : String} (hmax : Binary64.ofText max = limits.maxInstructions)
    (htimeout : Binary64.ofText timeout = limits.timeoutSeconds)
    (hrequest : RequestsReport arguments path format (some max) (some timeout)) :
    runArguments rt read env arguments = reportResult rt format (.whole r) := by
  have hparse := hrequest.parse_eq
    (fun text htext => by
      obtain rfl := Option.some.inj htext
      rw [hmax]
      exact hcount)
    (fun text htext => by
      obtain rfl := Option.some.inj htext
      rw [htimeout]
      exact hlimit)
  refine runArguments_report hload hbuild hconfig hparse ?_
  rw [Option.map_some, Option.map_some, hmax, htimeout]
  rfl

/-- Without options the limits of the environment count. -/
theorem runArguments_of_environment (hload : engineOf read path = .ok e)
    (hbuild : (Report.build e limits).2.outcome = .ok (.whole r)) {env : Environment}
    (husable : Config.IsUsable env)
    (hmax : (env.lookup "BINREPORT_MAX_INSTRUCTIONS").map Binary64.ofText =
      some limits.maxInstructions)
    (htimeout : (env.lookup "BINREPORT_DECOMPILE_TIMEOUT").map Binary64.ofText =
      some limits.timeoutSeconds)
    {arguments : List String} {format : ReportFormat}
    (hrequest : RequestsReport arguments path format none none) :
    runArguments rt read env arguments = reportResult rt format (.whole r) := by
  obtain ⟨config, hconfig⟩ := husable.exists_load
  have hlimits := Config.limits_of_load hconfig
  have hparse := hrequest.parse_eq nofun nofun
  refine runArguments_report hload hbuild hconfig hparse ?_
  show (⟨config.maxInstructions, config.timeoutSeconds⟩ : Limits) = limits
  rw [hlimits.maxInstructions, hlimits.timeoutSeconds, hmax, htimeout]
  rfl

end Command

/-! ## The report from the tool -/

theorem Tool.read_report_of_lookup (defaults : Limits) {limits : Limits} {members : Check.Members}
    (hcount : limits.maxInstructions.IsPositiveInteger)
    (hle : limits.maxInstructions ≤ .ofNat 10000) (hlimit : limits.timeoutSeconds.IsPositiveFinite)
    (hmax : Json.lookup "maxInstructions" members = some (.number limits.maxInstructions))
    (htimeout : Json.lookup "timeoutSeconds" members = some (.number limits.timeoutSeconds)) :
    Tool.report.read defaults (.object members) = .accepted (.report limits) := by
  have hmaxMember := Check.optional_of_lookup hmax
    (countCheck_eq_accepted_iff.2 ⟨rfl, hcount, hle⟩)
  have htimeoutMember := Check.optional_of_lookup (c := timeoutCheck) htimeout
    (Check.timeout_eq_accepted_iff.2 ⟨rfl, hlimit⟩)
  unfold read orEmpty argumentCheck Check.record
  dsimp only
  rw [hmaxMember, htimeoutMember]
  rfl

/-! ## Front ends -/

/-- The command line prints a text format as the service sends it, with a line feed behind it, if it can
print it at all. -/
theorem App.reportResponse_text (r : AnalysisReport) {format : ReportFormat} (h : format ≠ .json) :
    ∃ type text, reportResponse r format = .text type text ∧
      ∀ rt, (¬ (Report.whole r).Overruns rt format → r.printed rt format = .ok (text ++ "\n")) ∧
        ((Report.whole r).Overruns rt format → r.printed rt format = .error Runtime.stackExceeded) := by
  cases format with
  | json => exact absurd rfl h
  | markdown => exact ⟨.markdown, r.markdown, rfl, fun rt => ⟨fun _ => rfl, nofun⟩⟩
  | listing => exact ⟨.plain, r.listing, rfl, fun rt => ⟨fun _ => rfl, nofun⟩⟩
  | code =>
    refine ⟨.plain, r.code, rfl, fun rt => ⟨fun hprints => ?_, Report.printed_of_overruns⟩⟩
    have hle : r.codeLineCount ≤ rt.maxArguments := Nat.not_lt.1 fun hlt => hprints ⟨rfl, hlt⟩
    rw [r.printed_code, if_pos hle]

/-- The report of a file that loads is one document for every front end that is given the same limits,
and a text format of it differs by a line feed only. On the command line the host has to take the lines
of a code as arguments. -/
theorem Report.same_for_front_ends {read : FileReader} {path : String} {e : Engine}
    (hload : Command.engineOf read path = .ok e) {limits : Limits}
    (hcount : limits.maxInstructions.IsPositiveInteger)
    (hle : limits.maxInstructions ≤ .ofNat 10000)
    (hlimit : limits.timeoutSeconds.IsPositiveFinite) :
    ∃ r : AnalysisReport,
      -- The command line with the limits as options, in any environment that can be used.
      (∀ rt env config, Config.load env = .ok config → ∀ arguments format max timeout,
        Binary64.ofText max = limits.maxInstructions →
        Binary64.ofText timeout = limits.timeoutSeconds →
        Command.RequestsReport arguments path format (some max) (some timeout) →
        Command.runArguments rt read env arguments =
          Command.reportResult rt format (.whole r)) ∧
      -- The command line with the limits in the environment only.
      (∀ rt env, Config.IsUsable env →
        (env.lookup "BINREPORT_MAX_INSTRUCTIONS").map Binary64.ofText = some limits.maxInstructions →
        (env.lookup "BINREPORT_DECOMPILE_TIMEOUT").map Binary64.ofText =
          some limits.timeoutSeconds →
        ∀ arguments format, Command.RequestsReport arguments path format none none →
        Command.runArguments rt read env arguments =
          Command.reportResult rt format (.whole r)) ∧
      -- The tool with the limits as arguments.
      (∀ defaults members,
        Json.lookup "maxInstructions" members = some (.number limits.maxInstructions) →
        Json.lookup "timeoutSeconds" members = some (.number limits.timeoutSeconds) →
        (Tool.report.run e defaults (.object members)).2 =
          ⟨.ok (.answered (.report (.whole r))), []⟩) ∧
      -- A service that has not been asked anything, with the limits as defaults.
      (∀ key (request : Request) format, request.reportFormat? = some format →
        request.wantsNoBody = false →
        (AppQueue.serve (.empty (.start e key limits)) [request]).world.responses =
          [(0, App.reportResponse r format)]) ∧
      -- The document is one: it is answered and sent, and what is printed reads as it.
      (ToolResult.report (.whole r)).toJson = r.toJson ∧
      App.reportResponse r .json = .json 200 r.toJson ∧
      (∀ rt, r.printed rt .json = .ok (Envelope.format r.toJson)) ∧
      Json.read? r.toJson.pretty = some r.toJson ∧
      ∀ format, format ≠ .json → ∃ type text, App.reportResponse r format = .text type text ∧
        ∀ rt, (¬ (Report.whole r).Overruns rt format → r.printed rt format = .ok (text ++ "\n")) ∧
          ((Report.whole r).Overruns rt format →
            r.printed rt format = .error Runtime.stackExceeded) := by
  have hfaultless : e.Faultless := by
    obtain ⟨snapshot, -, hsnapshot⟩ := Outcome.bind_eq_ok hload
    exact Engine.faultless_ofSnapshot hsnapshot
  obtain ⟨r, hr, -⟩ := Report.exists_build hfaultless limits
  have hbuild : (Report.build e limits).2.outcome = .ok (.whole r) := by rw [hr]
  refine ⟨r, ?_, ?_, ?_, ?_, rfl, rfl, fun rt => rfl, ?_, ?_⟩
  · intro rt env config hconfig arguments format max timeout hmax htimeout hrequest
    exact Command.runArguments_of_options hload hbuild hcount hlimit hconfig hmax htimeout hrequest
  · intro rt env husable hmax htimeout arguments format hrequest
    exact Command.runArguments_of_environment hload hbuild husable hmax htimeout hrequest
  · intro defaults members hmax htimeout
    have hread := Tool.read_report_of_lookup defaults hcount hle hlimit hmax htimeout
    rw [Tool.run_of_accepted e hread, ToolCall.run_report, hr]
    rfl
  · intro key request format hformat hbody
    rw [AppQueue.serve_report hfaultless hbuild key hformat, hbody]
    rfl
  · have hchars := Json.readChars?_prettyChars r.legible
    rw [Json.read?, Json.pretty, String.toList_ofList]
    exact hchars
  · exact fun format hformat => App.reportResponse_text r hformat

/-- The text of a file with one function. -/
def oneFunctionText : String :=
  "\x7b\"name\":\"a\",\"language\":\"x\",\"imageBase\":\"0\",\"entryPoints\":[\"8\"],"
    ++ "\"functions\":[\x7b\"name\":\"main\",\"entry\":\"8\","
    ++ "\"body\":[\x7b\"start\":\"8\",\"end\":\"f\"\x7d],\"decompiled\":\"return 0;\"\x7d]\x7d"

/-- Nine instructions and half a second, as options, in the environment and as defaults. The options
go before what an environment says. -/
theorem Report.same_for_front_ends_oneFunction :
    ∃ e r, Command.engineOf (fun _ => .ok oneFunctionText) "p.json" = .ok e ∧
      (Command.runArguments .standard (fun _ => .ok oneFunctionText) [("BINREPORT_MAX_INSTRUCTIONS", "3")]
        ["--timeout", ".5", "analyze", "p.json", "--max-instructions", "0x9"]).stdout =
          [Envelope.format (AnalysisReport.toJson r)] ∧
      (Command.runArguments .standard (fun _ => .ok oneFunctionText)
        [("BINREPORT_DECOMPILE_TIMEOUT", "5e-1"), ("BINREPORT_MAX_INSTRUCTIONS", " 9 ")]
        ["analyze", "p.json"]).stdout = [Envelope.format r.toJson] ∧
      (Tool.report.run e .standard (Tool.reportArguments ⟨.ofNat 9, .finite (1 / 2)⟩)).2.outcome =
        .ok (.answered (.report (.whole r))) ∧
      (AppQueue.serve (.empty (.start e "k" ⟨.ofNat 9, .finite (1 / 2)⟩))
        [⟨"GET", "/report?format=c", none, none, "x"⟩]).world.responses =
          [(0, .text .plain r.code)] := by
  have hloads : (Command.engineOf (fun _ => .ok oneFunctionText) "p.json").toOption.isSome = true := by
    decide +kernel
  cases hload : Command.engineOf (fun _ => .ok oneFunctionText) "p.json" with
  | error raised =>
    rw [hload] at hloads
    cases hloads
  | ok e =>
    have hcount (n : Nat) (hpos : 0 < n) (hle : n ≤ Binary64.exactLimit) :
        (Binary64.ofNat n).IsPositiveInteger := ⟨n, hpos, Binary64.ofNat_eq hle⟩
    have hlimit : (Binary64.finite (1 / 2)).IsPositiveFinite := ⟨1 / 2, by decide +kernel, rfl⟩
    have hthree : Binary64.ofText "3" = .ofNat 3 := by decide +kernel
    have hnine : Binary64.ofText " 9 " = .ofNat 9 := by decide +kernel
    have hhalf : Binary64.ofText "5e-1" = .finite (1 / 2) := by decide +kernel
    obtain ⟨r, hoptions, henvironment, htool, hservice, -⟩ := @same_for_front_ends _ _ _ hload
      ⟨.ofNat 9, .finite (1 / 2)⟩ (hcount 9 (by decide) (by decide)) (by decide +kernel) hlimit
    refine ⟨e, r, rfl, ?_, ?_, ?_, ?_⟩
    · have husable : Config.IsUsable [("BINREPORT_MAX_INSTRUCTIONS", "3")] := by
        refine ⟨nofun, nofun, nofun, ?_⟩
        rintro text ⟨⟩
        exact hthree ▸ hcount 3 (by decide) (by decide)
      obtain ⟨config, hconfig⟩ := husable.exists_load
      rw [hoptions .standard _ _ hconfig ["--timeout", ".5", "analyze", "p.json", "--max-instructions", "0x9"]
        .json "0x9" ".5" (by decide +kernel) (by decide +kernel) ?_]
      · rfl
      · refine ⟨⟨[.option "timeout" ".5", .positional "analyze", .positional "p.json",
          .option "max-instructions" "0x9"], by decide +kernel, rfl, rfl⟩, ?_, ?_, ?_, ?_⟩
        all_goals decide +kernel
    · have husable : Config.IsUsable
          [("BINREPORT_DECOMPILE_TIMEOUT", "5e-1"), ("BINREPORT_MAX_INSTRUCTIONS", " 9 ")] := by
        refine ⟨nofun, nofun, ?_, ?_⟩
        · rintro text ⟨⟩
          exact hhalf ▸ hlimit
        · rintro text ⟨⟩
          exact hnine ▸ hcount 9 (by decide) (by decide)
      rw [henvironment .standard _ husable (congrArg some hnine) (congrArg some hhalf) ["analyze", "p.json"]
        .json ?_]
      · rfl
      · refine ⟨⟨[.positional "analyze", .positional "p.json"], by decide +kernel, rfl, rfl⟩,
          nofun, rfl, rfl, rfl⟩
    · rw [Tool.reportArguments, htool .standard _ rfl rfl]
    · exact hservice "k" _ .code (by decide +kernel) (by decide +kernel)

end BinaryReport
