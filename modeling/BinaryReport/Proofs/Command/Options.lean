import BinaryReport.Proofs.Check.Places
import BinaryReport.Proofs.Command.Arguments
import BinaryReport.Proofs.Json.Members
import BinaryReport.Proofs.Service.Formats

/-!
# Options that are given

The option tokens of some arguments are read off by a definition of their own (`optionTokens`), which
knows nothing of names. A report is asked for with the options of a report only, and the value that
stands last counts for each; a change is asked for without options; and any other option is refused,
except for one: an option of the name `unsettable` is left out without a word (`parse_honours_options`).
-/

namespace BinaryReport.Command

open Json (valuesOf)

variable {token name value : String} {parts : List Part} {options : List (String × String)}

/-! ## Option tokens -/

/-- The tokens that begin with two dashes, without those that are the values of options before them.
With each stands the token that it takes as its value, if there is one. -/
def optionTokens : List String → List (String × Option String)
  | [] => []
  | [token] => if IsOption token then [(token, none)] else []
  | token :: value :: rest =>
    if IsOption token then (token, some value) :: optionTokens rest else optionTokens (value :: rest)

/-- The value of the last option with a token. -/
def lastValue? (token : String) (arguments : List String) : Option String :=
  (valuesOf token (optionTokens arguments)).getLast?.join

theorem optionTokens_positional (h : ¬IsOption token) (rest : List String) :
    optionTokens (token :: rest) = optionTokens rest := by
  cases rest with
  | nil => simp [optionTokens, h]
  | cons value rest => simp [optionTokens, h]

theorem optionTokens_option (name value : String) (rest : List String) :
    optionTokens (optionToken name :: value :: rest) =
      (optionToken name, some value) :: optionTokens rest := by
  rw [optionTokens, if_pos (isOption_optionToken name)]

theorem optionTokens_tokensOf (h : ∀ p ∈ parts, p.Proper) :
    optionTokens (tokensOf parts) =
      (optionsOf parts).map fun o => (optionToken o.1, some o.2) := by
  induction parts with
  | nil => rfl
  | cons p parts ih =>
    obtain ⟨hp, hparts⟩ := List.forall_mem_cons.1 h
    have hrest := ih hparts
    cases p with
    | positional token => exact (optionTokens_positional hp.1 _).trans hrest
    | option name value =>
      exact (optionTokens_option name value _).trans (congrArg (List.cons _) hrest)

theorem valuesOf_optionToken (name : String) (options : List (String × String)) :
    valuesOf (optionToken name) (options.map fun o => (optionToken o.1, some o.2)) =
      (valuesOf name options).map some := by
  induction options with
  | nil => rfl
  | cons o options ih =>
    rw [List.map_cons, Json.valuesOf_cons, Json.valuesOf_cons, ih]
    simp only [optionToken_injective.eq_iff]
    split_ifs
    · rfl
    · rfl

theorem lastValue?_tokensOf (h : ∀ p ∈ parts, p.Proper) (name : String) :
    lastValue? (optionToken name) (tokensOf parts) = (valuesOf name (optionsOf parts)).getLast? := by
  rw [lastValue?, optionTokens_tokensOf h, valuesOf_optionToken, List.getLast?_map]
  cases (valuesOf name (optionsOf parts)).getLast? with
  | none => rfl
  | some value => rfl

theorem mem_optionTokens_tokensOf (h : ∀ p ∈ parts, p.Proper) {o : String × Option String} :
    o ∈ optionTokens (tokensOf parts) →
      ∃ p ∈ optionsOf parts, o.1 = optionToken p.1 := by
  rw [optionTokens_tokensOf h, List.mem_map]
  rintro ⟨p, hp, rfl⟩
  exact ⟨p, hp, rfl⟩

/-! ## The object of the options -/

/-- The members of the object of some options. -/
def optionMembers (options : List (String × String)) : Check.Members :=
  Json.indicesFirst (Json.assignAll
    ((options.filter fun o => o.1 ≠ unsettable).map fun o => (o.1, .string o.2)) [])

theorem optionObject_eq (options : List (String × String)) :
    optionObject options = .object (optionMembers options) := rfl

theorem valuesOf_filter (h : name ≠ unsettable) (options : List (String × String)) :
    valuesOf name (options.filter fun o => o.1 ≠ unsettable) = valuesOf name options := by
  rw [valuesOf, List.filter_filter, valuesOf]
  congr 1
  refine List.filter_congr fun o _ => ?_
  by_cases ho : o.1 = name
  · simp [ho, h]
  · simp [ho]

theorem lookup_optionMembers (h : name ≠ unsettable) (options : List (String × String)) :
    Json.lookup name (optionMembers options) =
      (valuesOf name options).getLast?.map Json.string := by
  rw [optionMembers, Json.lookup_ofMembers, Json.valuesOf_map, valuesOf_filter h, List.getLast?_map]

theorem mem_keys_optionMembers (name : String) (options : List (String × String)) :
    name ∈ (optionMembers options).map Prod.fst ↔
      name ∈ options.map Prod.fst ∧ name ≠ unsettable := by
  rw [optionMembers, Json.mem_keys_ofMembers, List.map_map]
  simp only [List.mem_map, List.mem_filter, decide_eq_true_eq, Function.comp_apply]
  constructor
  · rintro ⟨o, ⟨ho, hne⟩, rfl⟩
    exact ⟨⟨o, ho, rfl⟩, hne⟩
  · rintro ⟨⟨o, ho, rfl⟩, hne⟩
    exact ⟨o, ⟨ho, hne⟩, rfl⟩

theorem unknownKeys_optionMembers_iff {known : List String} :
    Check.unknownKeys known (optionMembers options) = [] ↔
      ∀ o ∈ options, o.1 = unsettable ∨ o.1 ∈ known := by
  rw [Check.unknownKeys, List.filter_eq_nil_iff]
  simp only [mem_keys_optionMembers, Bool.not_eq_true', Bool.not_eq_false, List.contains_iff_mem]
  constructor
  · intro h o ho
    by_cases hname : o.1 = unsettable
    · exact Or.inl hname
    · exact Or.inr (h o.1 ⟨List.mem_map_of_mem ho, hname⟩)
  · rintro h name ⟨hmem, hname⟩
    obtain ⟨o, ho, rfl⟩ := List.mem_map.1 hmem
    exact (h o ho).resolve_left hname

/-! ## Accepted options -/

theorem optional_text {key : String} {rules : List Check.NumberRule} {ms : Check.Members}
    {text? : Option String} {x? : Option Binary64}
    (hlookup : Json.lookup key ms = text?.map Json.string)
    (h : Check.optional key (Check.numeral rules) ms = .accepted x?) :
    x? = text?.map Binary64.ofText := by
  unfold Check.optional at h
  rw [hlookup] at h
  cases text? with
  | none => exact (Verdict.accepted.inj h).symm
  | some text =>
    obtain ⟨x, hx, rfl⟩ := Verdict.map_eq_accepted h
    obtain ⟨hnumber, -⟩ := Check.number_eq_accepted (Verdict.under_eq_accepted hx)
    rw [Option.map_some, Json.number.inj hnumber]

theorem choice_text {α : Type} {choices : List (String × α)} {text : String} {a : α}
    (h : (Check.choice choices).run (.string text) = .accepted a) :
    choices.lookup text = some a := by
  unfold Check.choice at h
  dsimp only at h
  split at h
  · next b hb =>
    obtain rfl := Verdict.accepted.inj h
    exact hb
  · cases h

theorem format_text {key : String} {ms : Check.Members} {text? : Option String}
    {format : ReportFormat} (hlookup : Json.lookup key ms = text?.map Json.string)
    (h : Check.withDefault key .json (Check.choice ReportFormat.options) ms = .accepted format) :
    format.name = text?.getD "json" := by
  unfold Check.withDefault at h
  rw [hlookup] at h
  cases text? with
  | none =>
    obtain rfl := Verdict.accepted.inj h
    rfl
  | some text =>
    exact (ReportFormat.ofName?_eq_some_iff.1 (choice_text (Verdict.under_eq_accepted h))).symm

/-- The names of the options of a report. -/
def reportOptionNames : List String := ["max-instructions", "timeout", "format"]

/-- Accepted options have the names of options of a report, and the last value of each counts. -/
theorem reportOptions_eq_accepted {o : ReportOptions}
    (h : reportOptions.run (optionObject options) = .accepted o) :
    (∀ p ∈ options, p.1 = unsettable ∨ p.1 ∈ reportOptionNames) ∧
      o.maxInstructions? = (valuesOf "max-instructions" options).getLast?.map Binary64.ofText ∧
      o.timeoutSeconds? = (valuesOf "timeout" options).getLast?.map Binary64.ofText ∧
      o.format.name = (valuesOf "format" options).getLast?.getD "json" := by
  obtain ⟨hread, hunknown⟩ := Check.strictRecord_eq_accepted_iff.1 h
  obtain ⟨f, format, hf, hformat, rfl⟩ := Verdict.seq_eq_accepted hread
  obtain ⟨g, timeout?, hg, htimeout, rfl⟩ := Verdict.seq_eq_accepted hf
  obtain ⟨max?, hmax, rfl⟩ := Verdict.map_eq_accepted hg
  have hlookup (name : String) (hname : name ≠ unsettable) := lookup_optionMembers hname options
  exact ⟨unknownKeys_optionMembers_iff.1 hunknown,
    optional_text (hlookup "max-instructions" (by decide)) hmax,
    optional_text (hlookup "timeout" (by decide)) htimeout,
    format_text (hlookup "format" (by decide)) hformat⟩

theorem hasNoOptions_iff : hasNoOptions options = true ↔ ∀ o ∈ options, o.1 = unsettable := by
  simp [hasNoOptions]

/-! ## The option that is left out -/

theorem ofSplit_parts_congr (positionals : List String) {options options' : List (String × String)}
    (hobject : optionObject options = optionObject options')
    (hnone : hasNoOptions options = hasNoOptions options') :
    ofSplit (.parts positionals options) = ofSplit (.parts positionals options') := by
  cases positionals with
  | nil => rfl
  | cons command positionals =>
    simp only [ofSplit, readAnalyze, readChange, hobject, hnone]

theorem ofSplit_unsettable (positionals : List String) (front back : List (String × String))
    (value : String) :
    ofSplit (.parts positionals (front ++ (unsettable, value) :: back)) =
      ofSplit (.parts positionals (front ++ back)) := by
  refine ofSplit_parts_congr positionals ?_ ?_
  · simp [optionObject]
  · simp [hasNoOptions]

/-- An option of the one name that cannot be set changes nothing. -/
theorem parse_unsettable (h : ∀ p ∈ parts, p.Proper) (value : String) (rest : List String) :
    parse (tokensOf parts ++ optionToken unsettable :: value :: rest) =
      parse (tokensOf parts ++ rest) := by
  rw [parse, parse, split_tokensOf_append h, split_tokensOf_append h,
    split_option (by decide) value rest]
  cases split rest with
  | help => rfl
  | missingValue token => rfl
  | parts positionals options =>
    rw [Split.addOption, foldr_addTo_parts, foldr_addTo_parts]
    exact ofSplit_unsettable _ (optionsOf parts) options value

/-! ## Options of a command -/

/-- The options of a report, as tokens. -/
def reportOptionTokens : List String := ["--max-instructions", "--timeout", "--format"]

theorem mem_reportOptionTokens {name : String} (h : name ∈ reportOptionNames) :
    optionToken name ∈ reportOptionTokens :=
  List.mem_map_of_mem (f := optionToken) h

theorem Asks.analyze_options {snapshot : String} {format : ReportFormat}
    {max? timeout? : Option Binary64} (h : ∀ p ∈ parts, p.Proper)
    (hasks : Asks parts (.analyze snapshot format max? timeout?)) :
    (∀ o ∈ optionTokens (tokensOf parts), o.1 = "--__proto__" ∨ o.1 ∈ reportOptionTokens) ∧
      max? = (lastValue? "--max-instructions" (tokensOf parts)).map Binary64.ofText ∧
      timeout? = (lastValue? "--timeout" (tokensOf parts)).map Binary64.ofText ∧
      format.name = (lastValue? "--format" (tokensOf parts)).getD "json" := by
  cases hasks with
  | @analyze _ o _ ho =>
    obtain ⟨hnames, hmax, htimeout, hformat⟩ := reportOptions_eq_accepted ho
    refine ⟨fun token htoken => ?_, ?_, ?_, ?_⟩
    · obtain ⟨p, hp, heq⟩ := mem_optionTokens_tokensOf h htoken
      rw [heq]
      rcases hnames p hp with hname | hname
      · exact Or.inl (congrArg optionToken hname)
      · exact Or.inr (mem_reportOptionTokens hname)
    · exact hmax.trans (congrArg _ (lastValue?_tokensOf h "max-instructions").symm)
    · exact htimeout.trans (congrArg _ (lastValue?_tokensOf h "timeout").symm)
    · exact hformat.trans (congrArg (·.getD "json") (lastValue?_tokensOf h "format").symm)

theorem Asks.change_options {c : Command} (h : ∀ p ∈ parts, p.Proper) (hasks : Asks parts c)
    (hc : ∀ snapshot format max? timeout?, c ≠ .analyze snapshot format max? timeout?) :
    ∀ o ∈ optionTokens (tokensOf parts), o.1 = "--__proto__" := by
  have hnone : hasNoOptions (optionsOf parts) = true := by
    cases hasks with
    | analyze _ _ => exact absurd rfl (hc _ _ _ _)
    | rename _ hnone => exact hnone
    | retype _ hnone => exact hnone
  intro o ho
  obtain ⟨p, hp, heq⟩ := mem_optionTokens_tokensOf h ho
  rw [heq, hasNoOptions_iff.1 hnone p hp]
  rfl

/-- A report is asked for with options of a report, and the last value of each is the one that it is
asked for with; a change is asked for without options; any other option makes the usage be printed. An
option `--__proto__` counts for nothing: wherever a token is not the value of another option, it and its
value can be put in front of that token. -/
theorem parse_honours_options (arguments : List String) :
    (∀ snapshot format max? timeout?, parse arguments = .analyze snapshot format max? timeout? →
      (∀ o ∈ optionTokens arguments, o.1 = "--__proto__" ∨ o.1 ∈ reportOptionTokens) ∧
        max? = (lastValue? "--max-instructions" arguments).map Binary64.ofText ∧
        timeout? = (lastValue? "--timeout" arguments).map Binary64.ofText ∧
        format.name = (lastValue? "--format" arguments).getD "json") ∧
      (∀ snapshot address value, parse arguments = .rename snapshot address value ∨
          parse arguments = .retype snapshot address value →
        ∀ o ∈ optionTokens arguments, o.1 = "--__proto__") ∧
      ((∃ o ∈ optionTokens arguments, o.1 ≠ "--__proto__" ∧ o.1 ∉ reportOptionTokens) →
        parse arguments = .help ∨ ∃ message, parse arguments = .usage message) ∧
      ∀ parts : List Part, (∀ p ∈ parts, p.Proper) → ∀ value rest,
        parse (tokensOf parts ++ "--__proto__" :: value :: rest) = parse (tokensOf parts ++ rest) := by
  refine ⟨?_, ?_, ?_, fun parts hproper value rest => parse_unsettable hproper value rest⟩
  · intro snapshot format max? timeout? heq
    obtain ⟨parts, hproper, rfl, hasks⟩ := exists_asks heq nofun nofun
    exact hasks.analyze_options hproper
  · rintro snapshot address value (heq | heq)
    · obtain ⟨parts, hproper, rfl, hasks⟩ := exists_asks heq nofun nofun
      exact hasks.change_options hproper nofun
    · obtain ⟨parts, hproper, rfl, hasks⟩ := exists_asks heq nofun nofun
      exact hasks.change_options hproper nofun
  · rintro ⟨o, ho, hproto, hreport⟩
    cases hc : parse arguments with
    | help => exact Or.inl rfl
    | usage message => exact Or.inr ⟨message, rfl⟩
    | analyze snapshot format max? timeout? =>
      obtain ⟨parts, hproper, rfl, hasks⟩ := exists_asks hc nofun nofun
      exact absurd ((hasks.analyze_options hproper).1 o ho) (not_or.2 ⟨hproto, hreport⟩)
    | rename snapshot address name =>
      obtain ⟨parts, hproper, rfl, hasks⟩ := exists_asks hc nofun nofun
      exact absurd (hasks.change_options hproper nofun o ho) hproto
    | retype snapshot address type =>
      obtain ⟨parts, hproper, rfl, hasks⟩ := exists_asks hc nofun nofun
      exact absurd (hasks.change_options hproper nofun o ho) hproto

/-- Of two formats the second one counts. -/
theorem parse_honours_options_repeated :
    parse ["--format", "c", "analyze", "--format", "listing", "p.json"] =
        .analyze "p.json" .listing none none ∧
      lastValue? "--format" ["--format", "c", "analyze", "--format", "listing", "p.json"] =
        some "listing" := by
  have heq : parse ["--format", "c", "analyze", "--format", "listing", "p.json"] =
      .analyze "p.json" .listing none none := by decide +kernel
  obtain ⟨hanalyze, -⟩ :=
    parse_honours_options ["--format", "c", "analyze", "--format", "listing", "p.json"]
  obtain ⟨-, -, -, hformat⟩ := hanalyze _ _ _ _ heq
  refine ⟨heq, ?_⟩
  cases hlast : lastValue? "--format" ["--format", "c", "analyze", "--format", "listing", "p.json"] with
  | none => rw [hlast] at hformat; exact absurd hformat (by decide)
  | some value => rw [hlast] at hformat; exact congrArg some hformat.symm

/-- A change is asked for in spite of an option, which is left out. -/
theorem parse_leaves_out_option :
    parse ["rename", "p.json", "0x10", "main", "--__proto__", "x"] =
        .rename "p.json" "0x10" "main" ∧
      ("--__proto__", some "x") ∈
        optionTokens ["rename", "p.json", "0x10", "main", "--__proto__", "x"] ∧
      "--__proto__" ∉ reportOptionTokens := by
  decide +kernel

end BinaryReport.Command
