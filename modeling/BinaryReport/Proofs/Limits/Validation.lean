import BinaryReport.Proofs.Limits.Services

/-!
# Limits that reach an engine

Whatever the command line, the environment and the arguments of tools are: an engine walks under a
positive whole bound, of ten thousand at most if a client gave it, and decompiles under a positive finite
time limit (`Services.asked_under_valid_limits`). What denotes another number ends the run before there
is an engine to ask: the usage is printed, the environment is reported as unusable, or the arguments are
refused.

That an engine is asked under such limits only is said by exchanging what it does under others: no run
can tell (`Services.ServesUnder`).
-/

namespace BinaryReport

open Binary64 (IsPositiveInteger IsPositiveFinite)

/-! ## Requests for help -/

namespace Command

variable {arguments : List String}

theorem addPositional_eq_help {x : Split} {token : String} (h : x.addPositional token = .help) :
    x = .help := by
  cases x with
  | help => rfl
  | missingValue token => cases h
  | parts positionals options => cases h

theorem addOption_eq_help {x : Split} {name value : String} (h : x.addOption name value = .help) :
    x = .help := by
  cases x with
  | help => rfl
  | missingValue token => cases h
  | parts positionals options => cases h

theorem exists_help_of_split (h : split arguments = .help) :
    ∃ token ∈ arguments, isHelp token = true := by
  induction arguments using split.induct with
  | case1 => cases h
  | case2 token rest hhelp => exact ⟨token, List.mem_cons_self, hhelp⟩
  | case3 token hhelp rest hname ih =>
    rw [split_of_none (eq_false_of_ne_true hhelp) hname] at h
    obtain ⟨other, hother, hishelp⟩ := ih (addPositional_eq_help h)
    exact ⟨other, List.mem_cons_of_mem token hother, hishelp⟩
  | case4 token hhelp name hname =>
    rw [split_singleton (eq_false_of_ne_true hhelp) hname] at h
    cases h
  | case5 token hhelp name value rest hname ih =>
    rw [split_of_some (eq_false_of_ne_true hhelp) hname] at h
    obtain ⟨other, hother, hishelp⟩ := ih (addOption_eq_help h)
    exact ⟨other, List.mem_cons_of_mem token (List.mem_cons_of_mem value hother), hishelp⟩

theorem readAnalyze_ne_help (positionals : List String) (options : List (String × String)) :
    readAnalyze positionals options ≠ .help := by
  intro h
  rcases readAnalyze_cases positionals options with ⟨message, heq⟩ | ⟨path, o, -, -, heq⟩
  · rw [heq] at h; cases h
  · rw [heq] at h; cases h

theorem readChange_ne_help {command : String} {make : String → String → String → Command}
    (hmake : ∀ path address value, make path address value ≠ .help) (positionals : List String)
    (options : List (String × String)) : readChange command make positionals options ≠ .help := by
  intro h
  rcases readChange_cases command make positionals options with
    ⟨message, heq⟩ | ⟨path, address, value, -, -, heq⟩
  · rw [heq] at h; cases h
  · exact hmake path address value (heq.symm.trans h)

theorem ofSplit_parts_ne_help (positionals : List String) (options : List (String × String)) :
    ofSplit (.parts positionals options) ≠ .help := by
  cases positionals with
  | nil =>
    intro h
    cases h
  | cons command positionals =>
    rw [ofSplit]
    split_ifs
    · exact readAnalyze_ne_help positionals options
    · exact readChange_ne_help (fun path address value heq => by cases heq) positionals options
    · exact readChange_ne_help (fun path address value heq => by cases heq) positionals options
    · intro h
      cases h

theorem exists_help_of_parse (h : parse arguments = .help) :
    ∃ token ∈ arguments, isHelp token = true := by
  rw [parse] at h
  cases hsplit : split arguments with
  | help => exact exists_help_of_split hsplit
  | missingValue token => rw [hsplit] at h; cases h
  | parts positionals options =>
    rw [hsplit] at h
    exact absurd h (ofSplit_parts_ne_help positionals options)

/-! ## The command line -/

/-- A run that has nothing to do but to print the usage, with a reason or for want of help. Neither the
file nor an engine is looked at. -/
def PrintsUsage (arguments : List String) : Prop :=
  (∃ message, ∀ (s : Services) rt read env, @runArguments s rt read env arguments =
      ⟨.ok 2, [], [message ++ "\n" ++ usageText ++ "\n"]⟩) ∨
    (∃ token ∈ arguments, isHelp token = true) ∧
      ∀ (s : Services) rt read env, @runArguments s rt read env arguments =
        ⟨.ok 0, [usageText ++ "\n"], []⟩

theorem printsUsage_of_parse
    (hanalyze : ∀ path format max? timeout?, parse arguments ≠ .analyze path format max? timeout?)
    (hchange : ∃ o ∈ optionTokens arguments, o.1 ≠ "--__proto__") : PrintsUsage arguments := by
  obtain ⟨o, ho, hne⟩ := hchange
  cases hc : parse arguments with
  | help =>
    refine Or.inr ⟨exists_help_of_parse hc, fun s rt read env => ?_⟩
    rw [runArguments, hc]
    rfl
  | usage message =>
    refine Or.inl ⟨message, fun s rt read env => ?_⟩
    rw [runArguments, hc]
    rfl
  | analyze path format max? timeout? => exact absurd hc (hanalyze path format max? timeout?)
  | rename path address name =>
    obtain ⟨parts, hproper, rfl, hasks⟩ := exists_asks hc nofun nofun
    exact absurd (hasks.change_options hproper nofun o ho) hne
  | retype path address type =>
    obtain ⟨parts, hproper, rfl, hasks⟩ := exists_asks hc nofun nofun
    exact absurd (hasks.change_options hproper nofun o ho) hne

theorem mem_optionTokens_of_lastValue? {token text : String}
    (h : lastValue? token arguments = some text) : ∃ o ∈ optionTokens arguments, o.1 = token := by
  have hlast : (Json.valuesOf token (optionTokens arguments)).getLast? = some (some text) :=
    Option.join_eq_some_iff.1 h
  obtain ⟨o, ho, -⟩ := List.mem_map.1 (List.mem_of_getLast? hlast)
  obtain ⟨hmem, hkey⟩ := List.mem_filter.1 ho
  exact ⟨o, hmem, by simpa using hkey⟩

/-- Without limits that pass their checks there is no report to make. -/
theorem printsUsage_of_limit {text : String}
    (h : lastValue? "--max-instructions" arguments = some text ∧
        ¬ (Binary64.ofText text).IsPositiveInteger ∨
      lastValue? "--timeout" arguments = some text ∧ ¬ (Binary64.ofText text).IsPositiveFinite) :
    PrintsUsage arguments := by
  refine printsUsage_of_parse (fun path format max? timeout? hparse => ?_) ?_
  · obtain ⟨⟨hmax, hcount⟩, htimeout, hlimit⟩ := limits_of_parse hparse
    rcases h with ⟨hlast, hinvalid⟩ | ⟨hlast, hinvalid⟩
    · rw [hlast] at hmax
      exact hinvalid (hcount _ (by rw [hmax]; rfl))
    · rw [hlast] at htimeout
      exact hinvalid (hlimit _ (by rw [htimeout]; rfl))
  · rcases h with ⟨hlast, -⟩ | ⟨hlast, -⟩
    · obtain ⟨o, ho, heq⟩ := mem_optionTokens_of_lastValue? hlast
      exact ⟨o, ho, by rw [heq]; decide⟩
    · obtain ⟨o, ho, heq⟩ := mem_optionTokens_of_lastValue? hlast
      exact ⟨o, ho, by rw [heq]; decide⟩

/-! ## The environment -/

/-- The report of an environment that cannot be used, which says what is wrong with it. -/
def unusableReport (reason : String) : Report :=
  .failed ⟨"Invalid environment variable " ++ reason,
    "ConfigError: Invalid environment variable " ++ reason, ErrorReport.unknownProgram⟩

theorem failed_invalid (i : Issue) :
    Report.failed (.ofFailure (Config.invalid i) (.ok "")) =
      unusableReport (PathStep.pathText i.path ++ ": " ++ i.message) := by
  have hmessage : ("Invalid environment variable " ++ PathStep.pathText i.path ++ ": " ++ i.message) =
      "Invalid environment variable " ++ (PathStep.pathText i.path ++ ": " ++ i.message) := by
    rw [String.append_assoc, String.append_assoc, String.append_assoc]
  have hnonempty (text : String) : ("Invalid environment variable " ++ text).isEmpty = false := by
    rw [← Bool.not_eq_true, String.isEmpty_iff]
    intro hempty
    have hlength := congrArg String.length hempty
    rw [String.length_append] at hlength
    have hpositive : 0 < "Invalid environment variable ".length := by decide +kernel
    simp at hlength
  have hsummary : (Config.invalid i).summary =
      "Invalid environment variable " ++ (PathStep.pathText i.path ++ ": " ++ i.message) := by
    rw [Config.invalid, hmessage, Failure.summary]
    exact if_neg (by rw [Failure.ofKind]; exact Bool.eq_false_iff.1 (hnonempty _))
  have htrace : (Config.invalid i).trace =
      "ConfigError: Invalid environment variable " ++
        (PathStep.pathText i.path ++ ": " ++ i.message) := by
    rw [Config.invalid, hmessage]
    simp only [Failure.trace, Failure.ofKind, hnonempty, Bool.and_false, Failure.name]
    rfl
  rw [ErrorReport.ofFailure, hsummary, htrace]
  rfl

/-- Settings that cannot be read make the report of every run, whatever the file is. -/
theorem run_of_unusable {env : Environment} {i : Issue} (h : Config.load env = .error (Config.invalid i))
    (s : Services) (rt : Runtime) (read : FileReader) {path : String} {format : ReportFormat}
    {max? timeout? : Option Binary64} (hparse : parse arguments = .analyze path format max? timeout?) :
    ∃ text, (unusableReport (PathStep.pathText i.path ++ ": " ++ i.message)).printed rt format =
        .ok text ∧
      @runArguments s rt read env arguments = ⟨.ok 0, [text],
        [reportLine (unusableReport (PathStep.pathText i.path ++ ": " ++ i.message))]⟩ := by
  have hreport : @reportOf s read env path max? timeout? =
      .ok (unusableReport (PathStep.pathText i.path ++ ": " ++ i.message)) := by
    rw [reportOf, prepare, h, ← failed_invalid]
    rfl
  refine ⟨_, rfl, ?_⟩
  rw [runArguments, hparse, run, hreport]
  rfl

theorem load_eq_error_of_limit {env : Environment} {text : String}
    (h : env.lookup "BINREPORT_MAX_INSTRUCTIONS" = some text ∧
        ¬ (Binary64.ofText text).IsPositiveInteger ∨
      env.lookup "BINREPORT_DECOMPILE_TIMEOUT" = some text ∧
        ¬ (Binary64.ofText text).IsPositiveFinite) :
    ∃ i, Config.load env = .error (Config.invalid i) := by
  cases hload : Config.load env with
  | error f =>
    obtain ⟨i, rfl⟩ := Config.load_eq_error hload
    exact ⟨i, rfl⟩
  | ok config =>
    have hlimits := Config.limits_of_load hload
    exfalso
    rcases h with ⟨hset, hinvalid⟩ | ⟨hset, hinvalid⟩
    · have hcount := hlimits.isPositiveInteger
      rw [hlimits.maxInstructions, hset] at hcount
      exact hinvalid hcount
    · have hlimit := hlimits.isPositiveFinite
      rw [hlimits.timeoutSeconds, hset] at hlimit
      exact hinvalid hlimit

end Command

/-! ## Tools -/

theorem Tool.run_of_limit {t : Tool} {arguments v : Json}
    (h : t.givenCount? arguments = some v ∧ ¬ (∃ n, v = .number n ∧ IsCount n) ∨
      t.givenTimeout? arguments = some v ∧ ¬ ∃ n, v = .number n ∧ n.IsPositiveFinite)
    (defaults : Limits) :
    ∃ first others, ∀ (s : Services) e,
      @Tool.run s e defaults t arguments = (e, ⟨.ok (.refused (first :: others)), []⟩) := by
  cases hread : t.read defaults arguments with
  | accepted call =>
    have hlimits := limits_of_read hread
    exfalso
    rcases h with ⟨hgiven, hinvalid⟩ | ⟨hgiven, hinvalid⟩
    · exact hinvalid (hlimits.count v hgiven)
    · exact hinvalid (hlimits.timeout v hgiven)
  | refused first others =>
    exact ⟨first, others, fun s e => @run_of_refused s e _ _ _ _ _ hread⟩

/-! ## Runs -/

namespace Services

variable {s : Services}

theorem runCommand_eq (hs : s.ServesUnder IsPositiveInteger IsPositiveFinite) (rt : Runtime)
    (read : FileReader) (env : Environment) (arguments : List String) :
    @Command.runArguments s rt read env arguments =
      @Command.runArguments .own rt read env arguments := by
  refine Command.runArguments_eq fun path format max? timeout? hparse =>
    Command.reportOf_eq hs fun config hload => ?_
  obtain ⟨⟨-, hmax⟩, -, htimeout⟩ := Command.limits_of_parse hparse
  have hlimits := Config.limits_of_load hload
  constructor
  · cases max? with
    | none => exact hlimits.isPositiveInteger
    | some n => exact hmax n rfl
  · cases timeout? with
    | none => exact hlimits.isPositiveFinite
    | some t => exact htimeout t rfl

theorem runTool_eq {config : Config} {env : Environment} (hload : Config.load env = .ok config)
    {t : Tool} {arguments : Json}
    (hs : s.ServesUnder
      (fun n => n.IsPositiveInteger ∧ (t.givenCount? arguments ≠ none → n ≤ .ofNat 10000))
      IsPositiveFinite) (e : Engine) :
    @Tool.run s e ⟨config.maxInstructions, config.timeoutSeconds⟩ t arguments =
      @Tool.run .own e ⟨config.maxInstructions, config.timeoutSeconds⟩ t arguments := by
  have hlimits := Config.limits_of_load hload
  refine Tool.run_eq hs (fun call hread => ?_) e
  refine (Tool.limits_of_read hread).isUnder.imp ?_ ?_
  · rintro n (⟨-, hcount⟩ | ⟨hnone, rfl⟩)
    · exact ⟨hcount.1, fun _ => hcount.2⟩
    · exact ⟨hlimits.isPositiveInteger, fun hgiven => absurd hnone hgiven⟩
  · rintro limit (⟨-, hlimit⟩ | ⟨-, rfl⟩)
    · exact hlimit
    · exact hlimits.isPositiveFinite

/-- An engine is asked under limits that have passed their checks, by every run of the command line and
by every run of a tool whose defaults are settings: services that differ from those of the engine under
other limits only are never told apart from them. What denotes another number is refused before there is
an engine to ask, whatever the services are. -/
theorem asked_under_valid_limits :
    (∀ s : Services, s.ServesUnder IsPositiveInteger IsPositiveFinite → ∀ rt read env arguments,
      @Command.runArguments s rt read env arguments =
        @Command.runArguments .own rt read env arguments) ∧
    (∀ env config, Config.load env = .ok config → ∀ (t : Tool) arguments (s : Services),
      s.ServesUnder
          (fun n => n.IsPositiveInteger ∧ (t.givenCount? arguments ≠ none → n ≤ .ofNat 10000))
          IsPositiveFinite →
        ∀ e, @Tool.run s e ⟨config.maxInstructions, config.timeoutSeconds⟩ t arguments =
          @Tool.run .own e ⟨config.maxInstructions, config.timeoutSeconds⟩ t arguments) ∧
    (∀ arguments text,
      (Command.lastValue? "--max-instructions" arguments = some text ∧
          ¬ (Binary64.ofText text).IsPositiveInteger ∨
        Command.lastValue? "--timeout" arguments = some text ∧
          ¬ (Binary64.ofText text).IsPositiveFinite) →
      Command.PrintsUsage arguments) ∧
    (∀ env text,
      (env.lookup "BINREPORT_MAX_INSTRUCTIONS" = some text ∧
          ¬ (Binary64.ofText text).IsPositiveInteger ∨
        env.lookup "BINREPORT_DECOMPILE_TIMEOUT" = some text ∧
          ¬ (Binary64.ofText text).IsPositiveFinite) →
      ∃ reason, ∀ (s : Services) rt read arguments path format max? timeout?,
        Command.parse arguments = .analyze path format max? timeout? →
          ∃ printed, (Command.unusableReport reason).printed rt format = .ok printed ∧
            @Command.runArguments s rt read env arguments =
              ⟨.ok 0, [printed], [Command.reportLine (Command.unusableReport reason)]⟩) ∧
    ∀ (t : Tool) arguments v,
      (t.givenCount? arguments = some v ∧
          ¬ (∃ n, v = .number n ∧ n.IsPositiveInteger ∧ n ≤ .ofNat 10000) ∨
        t.givenTimeout? arguments = some v ∧ ¬ ∃ n, v = .number n ∧ n.IsPositiveFinite) →
      ∀ defaults, ∃ first others, ∀ (s : Services) e,
        @Tool.run s e defaults t arguments = (e, ⟨.ok (.refused (first :: others)), []⟩) := by
  refine ⟨fun s hs => runCommand_eq hs, ?_, fun arguments text => Command.printsUsage_of_limit,
    ?_, fun t arguments v => Tool.run_of_limit⟩
  · intro env config hload t arguments s hs e
    exact runTool_eq hload hs e
  · intro env text hinvalid
    obtain ⟨i, hload⟩ := Command.load_eq_error_of_limit hinvalid
    exact ⟨_, fun s rt read arguments path format max? timeout? hparse =>
      Command.run_of_unusable hload s rt read hparse⟩

/-- The services of the engine for those who ask under limits that pass their checks; asking under
others raises something. -/
@[reducible]
def strict : Services where
  disassemble e start bound :=
    if Config.countRules.all (·.holds bound) then e.disassemble start bound
    else .error (.ofKind .range "bound")
  decompiler e f limit aborted :=
    if Config.timeoutRules.all (·.holds limit) then e.decompiler f limit aborted
    else .error (.ofKind .range "limit")

theorem strict_servesUnder : strict.ServesUnder IsPositiveInteger IsPositiveFinite where
  disassemble _ _ _ h := if_pos (List.all_eq_true.2 (Binary64.isPositiveInteger_iff.1 h))
  decompiler _ _ _ _ h := if_pos (List.all_eq_true.2 (Binary64.isPositiveFinite_iff.1 h))

/-- Nobody notices that the engine is strict; numbers in other bases, exponents and large numbers are
seen for what they are. -/
theorem asked_under_valid_limits_strict :
    (∀ rt read env arguments, @Command.runArguments strict rt read env arguments =
      @Command.runArguments .own rt read env arguments) ∧
    (∀ e, @Tool.run strict e .standard .report (Tool.reportArguments ⟨.ofNat 7, .ofNat 2⟩) =
      @Tool.run .own e .standard .report (Tool.reportArguments ⟨.ofNat 7, .ofNat 2⟩)) ∧
    Command.PrintsUsage ["analyze", "p.json", "--max-instructions", "0x0"] ∧
    (∃ reason printed, (Command.unusableReport reason).printed .standard .json = .ok printed ∧
      Command.runArguments .standard (fun _ => .error .missing)
        [("BINREPORT_DECOMPILE_TIMEOUT", "1e999")] ["analyze", "p.json"] =
      ⟨.ok 0, [printed], [Command.reportLine (Command.unusableReport reason)]⟩) ∧
    ∃ first others, ∀ e, Tool.disassemble.run e .standard
        (.object [("address", .string "0"), ("count", .number (.ofNat 10001))]) =
      (e, ⟨.ok (.refused (first :: others)), []⟩) := by
  obtain ⟨hcommands, htools, hflags, hvariables, harguments⟩ := asked_under_valid_limits
  have hzero : ¬ (Binary64.ofText "0x0").IsPositiveInteger := by
    rw [Binary64.isPositiveInteger_iff]
    decide +kernel
  have hinfinite : ¬ (Binary64.ofText "1e999").IsPositiveFinite := by
    rw [Binary64.isPositiveFinite_iff]
    decide +kernel
  have hmany : ¬ ∃ n, Json.number (.ofNat 10001) = .number n ∧ n.IsPositiveInteger ∧
      n ≤ .ofNat 10000 := by
    rintro ⟨n, hn, -, hle⟩
    obtain rfl := Json.number.inj hn
    exact absurd hle (by decide +kernel)
  have hload : Config.load [] = .ok ⟨.ofNat 8787, none, .ofNat 30, .ofNat 100⟩ := by rfl
  refine ⟨hcommands strict strict_servesUnder, ?_, ?_, ?_, ?_⟩
  · refine htools [] _ hload .report _ strict
      ⟨fun e start bound hbound => ?_, fun e f limit aborted hlimit => ?_⟩
    · exact strict_servesUnder.disassemble e start bound hbound.1
    · exact strict_servesUnder.decompiler e f limit aborted hlimit
  · exact hflags _ "0x0" (Or.inl ⟨by decide +kernel, hzero⟩)
  · obtain ⟨reason, hrun⟩ := hvariables [("BINREPORT_DECOMPILE_TIMEOUT", "1e999")] "1e999"
      (Or.inr ⟨rfl, hinfinite⟩)
    exact ⟨reason, hrun .own .standard _ ["analyze", "p.json"] "p.json" .json none none
      (by decide +kernel)⟩
  · obtain ⟨first, others, hrun⟩ := harguments .disassemble
      (.object [("address", .string "0"), ("count", .number (.ofNat 10001))])
      (.number (.ofNat 10001)) (Or.inl ⟨rfl, hmany⟩) .standard
    exact ⟨first, others, hrun .own⟩

end Services

end BinaryReport
