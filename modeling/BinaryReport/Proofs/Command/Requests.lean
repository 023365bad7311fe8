import BinaryReport.Proofs.Check.Acceptance
import BinaryReport.Proofs.Limits.Checks

/-!
# Requests that are accepted

A request for the report of a file is taken as it is meant if its options are options of a report and
the texts of its limits denote such (`Command.RequestsReport.parse_eq`). An environment is taken if each
of its variables that is looked at denotes what it has to (`Config.exists_load`).
-/

namespace BinaryReport

open Binary64 (IsPositiveInteger IsPositiveFinite)

/-! ## Members that are texts -/

namespace Check

variable {α : Type} {c : Check α} {ms : Members} {key : String} {text? : Option String}

theorem optional_of_text {c : Check Binary64} (hlookup : Json.lookup key ms = text?.map Json.string)
    (h : ∀ text ∈ text?, c.run (.string text) = .accepted (.ofText text)) :
    optional key c ms = .accepted (text?.map Binary64.ofText) := by
  cases text? with
  | none => exact optional_of_missing hlookup
  | some text => exact optional_of_lookup hlookup (h text rfl)

theorem exists_withDefault_of_text (default : α) (hlookup : Json.lookup key ms = text?.map Json.string)
    (h : ∀ text ∈ text?, ∃ a, c.run (.string text) = .accepted a) :
    ∃ a, withDefault key default c ms = .accepted a := by
  cases text? with
  | none => exact ⟨default, withDefault_of_missing hlookup⟩
  | some text =>
    obtain ⟨a, ha⟩ := h text rfl
    exact ⟨a, withDefault_of_lookup hlookup ha⟩

end Check

/-! ## The command line -/

namespace Command

open Json (valuesOf)

variable {arguments : List String} {path : String} {format : ReportFormat}
  {max? timeout? : Option String}

/-- The arguments ask for the report of a file: there are the command and the file, and any options of
a report between them. The last text of each option is the one that counts. -/
structure RequestsReport (arguments : List String) (path : String) (format : ReportFormat)
    (max? timeout? : Option String) : Prop where
  parts : ∃ parts : List Part, (∀ p ∈ parts, p.Proper) ∧ arguments = tokensOf parts ∧
    positionalsOf parts = ["analyze", path]
  known : ∀ o ∈ optionTokens arguments, o.1 ∈ reportOptionTokens
  max : lastValue? "--max-instructions" arguments = max?
  timeout : lastValue? "--timeout" arguments = timeout?
  format : (lastValue? "--format" arguments).getD "json" = format.name

theorem withDefault_format {key : String} {ms : Check.Members} {text? : Option String}
    (hlookup : Json.lookup key ms = text?.map Json.string)
    (h : text?.getD "json" = format.name) :
    Check.withDefault key .json (Check.choice ReportFormat.options) ms = .accepted format := by
  cases text? with
  | none =>
    have hjson : ReportFormat.ofName? "json" = some format :=
      ReportFormat.ofName?_eq_some_iff.2 h
    obtain rfl := Option.some.inj hjson
    exact Check.withDefault_of_missing hlookup
  | some text =>
    have hname : ReportFormat.options.lookup text = some format :=
      ReportFormat.ofName?_eq_some_iff.2 h
    refine Check.withDefault_of_lookup hlookup ?_
    unfold Check.choice
    dsimp only
    rw [hname]

theorem mem_reportOptionNames {name : String} (h : optionToken name ∈ reportOptionTokens) :
    name ∈ reportOptionNames := by
  have htokens : reportOptionTokens = reportOptionNames.map optionToken := by decide
  rw [htokens] at h
  obtain ⟨name', hname', heq⟩ := List.mem_map.1 h
  exact optionToken_injective heq ▸ hname'

/-- Options of a report are accepted if their last texts denote limits and a format. -/
theorem reportOptions_accepts {options : List (String × String)}
    (hknown : ∀ o ∈ options, o.1 ∈ reportOptionNames)
    (hmax : ∀ text ∈ (valuesOf "max-instructions" options).getLast?,
      (Binary64.ofText text).IsPositiveInteger)
    (htimeout : ∀ text ∈ (valuesOf "timeout" options).getLast?,
      (Binary64.ofText text).IsPositiveFinite)
    (hformat : (valuesOf "format" options).getLast?.getD "json" = format.name) :
    reportOptions.run (optionObject options) =
      .accepted ⟨(valuesOf "max-instructions" options).getLast?.map Binary64.ofText,
        (valuesOf "timeout" options).getLast?.map Binary64.ofText, format⟩ := by
  have hlookup (name : String) (hname : name ≠ unsettable) := lookup_optionMembers hname options
  have hmaxOption := Check.optional_of_text (c := .numeral Config.countRules)
    (hlookup "max-instructions" (by decide))
    fun text htext => Check.countText_eq_accepted_iff.2 ⟨rfl, hmax text htext⟩
  have htimeoutOption := Check.optional_of_text (c := .numeral Config.timeoutRules)
    (hlookup "timeout" (by decide))
    fun text htext => Check.timeoutText_eq_accepted_iff.2 ⟨rfl, htimeout text htext⟩
  have hformatOption := withDefault_format (hlookup "format" (by decide)) hformat
  rw [optionObject_eq]
  refine Check.strictRecord_eq_accepted_iff.2 ⟨?_, ?_⟩
  · show ReportOptions.mk <$> Check.optional "max-instructions" (.numeral Config.countRules) _
      <*> Check.optional "timeout" (.numeral Config.timeoutRules) _ <*> _ = _
    rw [hmaxOption, htimeoutOption, hformatOption]
    rfl
  · exact unknownKeys_optionMembers_iff.2 fun o ho => Or.inr (hknown o ho)

/-- Such a request is taken as it is meant if the texts of the limits denote limits. -/
theorem RequestsReport.parse_eq (h : RequestsReport arguments path format max? timeout?)
    (hmax : ∀ text ∈ max?, (Binary64.ofText text).IsPositiveInteger)
    (htimeout : ∀ text ∈ timeout?, (Binary64.ofText text).IsPositiveFinite) :
    parse arguments =
      .analyze path format (max?.map Binary64.ofText) (timeout?.map Binary64.ofText) := by
  obtain ⟨⟨parts, hproper, rfl, hpositionals⟩, hknown, rfl, rfl, hformat⟩ := h
  have hlast (name : String) : lastValue? (optionToken name) (tokensOf parts) =
      (valuesOf name (optionsOf parts)).getLast? := lastValue?_tokensOf hproper name
  have hmaxLast := hlast "max-instructions"
  have htimeoutLast := hlast "timeout"
  have hformatLast := hlast "format"
  have hnames : ∀ o ∈ optionsOf parts, o.1 ∈ reportOptionNames := by
    intro o ho
    refine mem_reportOptionNames (hknown (optionToken o.1, some o.2) ?_)
    rw [optionTokens_tokensOf hproper]
    exact List.mem_map_of_mem ho
  have hread := reportOptions_accepts hnames (hmaxLast ▸ hmax) (htimeoutLast ▸ htimeout)
    (hformatLast ▸ hformat)
  have hparse := (Asks.analyze hpositionals hread).parse_eq hproper
  rw [← hmaxLast, ← htimeoutLast] at hparse
  exact hparse

end Command

/-! ## The environment -/

namespace Config

/-- The variables that are set denote what they have to. -/
structure IsUsable (env : Environment) : Prop where
  port : ∀ text ∈ env.lookup "PORT", (Binary64.ofText text).IsPositiveInteger
  snapshotPath : env.lookup "BINREPORT_SNAPSHOT" ≠ some ""
  timeoutSeconds : ∀ text ∈ env.lookup "BINREPORT_DECOMPILE_TIMEOUT",
    (Binary64.ofText text).IsPositiveFinite
  maxInstructions : ∀ text ∈ env.lookup "BINREPORT_MAX_INSTRUCTIONS",
    (Binary64.ofText text).IsPositiveInteger

theorem exists_optional_nonemptyText {key : String} {ms : Check.Members} {text? : Option String}
    (hlookup : Json.lookup key ms = text?.map Json.string) (h : text? ≠ some "") :
    ∃ a, Check.optional key .nonemptyText ms = .accepted a := by
  cases text? with
  | none => exact ⟨none, Check.optional_of_missing hlookup⟩
  | some text =>
    have hnonempty : ¬ text.isEmpty = true := fun hempty => h (by rw [String.isEmpty_iff.1 hempty])
    exact ⟨some text, Check.optional_of_lookup hlookup (if_neg hnonempty)⟩

theorem IsUsable.exists_load {env : Environment} (h : IsUsable env) :
    ∃ config, load env = .ok config := by
  have hlookup (key : String) := Check.lookup_texts key env
  have hcount (text : String) (htext : (Binary64.ofText text).IsPositiveInteger) :
      ∃ a, (Check.numeral countRules).run (.string text) = .accepted a :=
    ⟨_, Check.countText_eq_accepted_iff.2 ⟨rfl, htext⟩⟩
  have hlimit (text : String) (htext : (Binary64.ofText text).IsPositiveFinite) :
      ∃ a, (Check.numeral timeoutRules).run (.string text) = .accepted a :=
    ⟨_, Check.timeoutText_eq_accepted_iff.2 ⟨rfl, htext⟩⟩
  obtain ⟨port, hport⟩ := Check.exists_withDefault_of_text defaultPort (hlookup "PORT") fun text htext => hcount text (h.port text htext)
  obtain ⟨path?, hpath⟩ := exists_optional_nonemptyText (hlookup "BINREPORT_SNAPSHOT") h.snapshotPath
  obtain ⟨timeout, htimeout⟩ := Check.exists_withDefault_of_text
    Limits.standard.timeoutSeconds (hlookup "BINREPORT_DECOMPILE_TIMEOUT")
    fun text htext => hlimit text (h.timeoutSeconds text htext)
  obtain ⟨max, hmax⟩ := Check.exists_withDefault_of_text
    Limits.standard.maxInstructions (hlookup "BINREPORT_MAX_INSTRUCTIONS")
    fun text htext => hcount text (h.maxInstructions text htext)
  have hread : check.run (.object (env.map fun v => (v.1, .string v.2))) =
      .accepted ⟨port, path?, timeout, max⟩ := by
    unfold check Check.record
    dsimp only
    rw [hport, hpath, htimeout, hmax]
    rfl
  refine ⟨⟨port, path?, timeout, max⟩, ?_⟩
  rw [load, hread]

end Config

end BinaryReport
