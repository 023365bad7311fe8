import BinaryReport.Proofs.Command.Options

/-!
# Where options stand

What is asked for depends on the order of the positionals and on the last value of each option
(`SameLast`), and on nothing else about where the options stand. So the parts of a request for a report
can be put in any order that keeps that of the positionals and that of the options of each name
(`SameOrder`), and an option can be put in front of another one of its name. A change is refused with an
option of a report, wherever that stands (`parse_ignores_placement`).
-/

namespace BinaryReport.Command

open Json (valuesOf)

variable {name value : String} {parts parts' : List Part} {options options' : List (String × String)}

/-! ## Rows of parts -/

/-- The positionals are in one order, and so are the values of each option. -/
structure SameOrder (parts parts' : List Part) : Prop where
  positionals : positionalsOf parts = positionalsOf parts'
  values : ∀ name, valuesOf name (optionsOf parts) = valuesOf name (optionsOf parts')

/-- The positionals are in one order, and the last value of each option is the same. -/
structure SameLast (parts parts' : List Part) : Prop where
  positionals : positionalsOf parts = positionalsOf parts'
  last : ∀ name, (valuesOf name (optionsOf parts)).getLast? =
    (valuesOf name (optionsOf parts')).getLast?

theorem SameOrder.symm (h : SameOrder parts parts') : SameOrder parts' parts :=
  ⟨h.positionals.symm, fun name => (h.values name).symm⟩

theorem SameOrder.sameLast (h : SameOrder parts parts') : SameLast parts parts' :=
  ⟨h.positionals, fun name => congrArg List.getLast? (h.values name)⟩

theorem positionalsOf_append (parts parts' : List Part) :
    positionalsOf (parts ++ parts') = positionalsOf parts ++ positionalsOf parts' :=
  List.filterMap_append

theorem optionsOf_append (parts parts' : List Part) :
    optionsOf (parts ++ parts') = optionsOf parts ++ optionsOf parts' :=
  List.filterMap_append

theorem positionalsOf_option (name value : String) (parts : List Part) :
    positionalsOf (.option name value :: parts) = positionalsOf parts := rfl

theorem optionsOf_option (name value : String) (parts : List Part) :
    optionsOf (.option name value :: parts) = (name, value) :: optionsOf parts := rfl

theorem positionalsOf_map_positional (tokens : List String) :
    positionalsOf (tokens.map .positional) = tokens := by
  rw [positionalsOf, List.filterMap_map]
  exact List.filterMap_some

theorem optionsOf_map_positional (tokens : List String) :
    optionsOf (tokens.map .positional) = [] := by
  rw [optionsOf, List.filterMap_map]
  exact List.filterMap_eq_nil_iff.2 fun _ _ => rfl

theorem valuesOf_optionsOf_eq_nil (h : ∀ p ∈ parts, ∀ value, p ≠ .option name value) :
    valuesOf name (optionsOf parts) = [] := by
  rw [Json.valuesOf_eq_nil_iff]
  intro hmem
  obtain ⟨⟨_, value⟩, ho, rfl⟩ := List.mem_map.1 hmem
  obtain ⟨p, hp, hoption⟩ := List.mem_filterMap.1 ho
  cases p with
  | positional token => cases hoption
  | option name' value' =>
    obtain ⟨rfl, rfl⟩ := Prod.mk.inj (Option.some.inj hoption)
    exact h _ hp _ rfl

/-- An option can be moved past parts among which there is none of its name. -/
theorem sameOrder_move (before after : List Part) {between : List Part}
    (h : ∀ p ∈ between, ∀ other, p ≠ .option name other) (value : String) :
    SameOrder (before ++ .option name value :: (between ++ after))
      (before ++ (between ++ .option name value :: after)) := by
  constructor
  case positionals =>
    simp only [positionalsOf_append, positionalsOf_option]
  case values =>
    intro name'
    simp only [optionsOf_append, optionsOf_option, Json.valuesOf_append, Json.valuesOf_cons]
    split_ifs with hname
    · subst hname
      rw [valuesOf_optionsOf_eq_nil h, List.nil_append, List.nil_append]
    · rfl

/-- An option can be put in front of one of its name. -/
theorem sameLast_insert (before : List Part) {after : List Part}
    (h : name ∈ (optionsOf after).map Prod.fst) (value : String) :
    SameLast (before ++ after) (before ++ .option name value :: after) := by
  constructor
  case positionals =>
    simp only [positionalsOf_append, positionalsOf_option]
  case last =>
    intro name'
    simp only [optionsOf_append, optionsOf_option, Json.valuesOf_append, Json.valuesOf_cons,
      List.getLast?_append]
    split_ifs with hname
    · subst hname
      have hne : valuesOf name (optionsOf after) ≠ [] := mt Json.valuesOf_eq_nil_iff.1 (not_not.2 h)
      obtain ⟨last, hlast⟩ := Option.ne_none_iff_exists'.1 (mt List.getLast?_eq_none_iff.1 hne)
      rw [List.getLast?_cons, hlast]
      rfl
    · rfl

/-! ## Proper parts -/

theorem forall_proper_iff : (∀ p ∈ parts, p.Proper) ↔
    (∀ token ∈ positionalsOf parts, (Part.positional token).Proper) ∧
      ∀ name ∈ (optionsOf parts).map Prod.fst, name ≠ "help" := by
  induction parts with
  | nil => exact ⟨fun _ => ⟨nofun, nofun⟩, fun _ => nofun⟩
  | cons p parts ih =>
    rw [List.forall_mem_cons, ih]
    cases p with
    | positional token =>
      rw [show positionalsOf (.positional token :: parts) = token :: positionalsOf parts from rfl,
        show optionsOf (.positional token :: parts) = optionsOf parts from rfl, List.forall_mem_cons,
        and_assoc]
    | option name value =>
      rw [positionalsOf_option, optionsOf_option, List.map_cons, List.forall_mem_cons]
      exact and_left_comm

theorem mem_names_iff : name ∈ options.map Prod.fst ↔ (valuesOf name options).getLast? ≠ none := by
  rw [ne_eq, List.getLast?_eq_none_iff, Json.valuesOf_eq_nil_iff, not_not]

theorem mem_names_congr
    (h : ∀ name, (valuesOf name options).getLast? = (valuesOf name options').getLast?) :
    name ∈ options.map Prod.fst ↔ name ∈ options'.map Prod.fst := by
  rw [mem_names_iff, mem_names_iff, h]

theorem SameLast.proper (h : SameLast parts parts') (hproper : ∀ p ∈ parts, p.Proper) :
    ∀ p ∈ parts', p.Proper := by
  obtain ⟨hpositionals, hnames⟩ := forall_proper_iff.1 hproper
  refine forall_proper_iff.2 ⟨?_, fun name hname => hnames name ((mem_names_congr h.last).2 hname)⟩
  rw [← h.positionals]
  exact hpositionals

/-! ## Reports -/

theorem optional_congr {α : Type} {key : String} {c : Check α} {ms ms' : Check.Members}
    (h : Json.lookup key ms = Json.lookup key ms') :
    Check.optional key c ms = Check.optional key c ms' := by
  rw [Check.optional, h, Check.optional]

theorem withDefault_congr {α : Type} {key : String} {default : α} {c : Check α}
    {ms ms' : Check.Members} (h : Json.lookup key ms = Json.lookup key ms') :
    Check.withDefault key default c ms = Check.withDefault key default c ms' := by
  rw [Check.withDefault, h, Check.withDefault]

theorem reportOptions_congr {o : ReportOptions}
    (h : ∀ name, (valuesOf name options).getLast? = (valuesOf name options').getLast?)
    (ho : reportOptions.run (optionObject options) = .accepted o) :
    reportOptions.run (optionObject options') = .accepted o := by
  have hlookup (name : String) (hname : name ≠ unsettable) :
      Json.lookup name (optionMembers options') = Json.lookup name (optionMembers options) := by
    rw [lookup_optionMembers hname, lookup_optionMembers hname, h]
  rw [optionObject_eq] at ho ⊢
  obtain ⟨hread, hunknown⟩ := Check.strictRecord_eq_accepted_iff.1 ho
  refine Check.strictRecord_eq_accepted_iff.2 ⟨?_, unknownKeys_optionMembers_iff.2 fun p hp => ?_⟩
  · rw [optional_congr (hlookup "max-instructions" (by decide)),
      optional_congr (hlookup "timeout" (by decide)), withDefault_congr (hlookup "format" (by decide))]
    exact hread
  · obtain ⟨q, hq, hname⟩ := List.mem_map.1 ((mem_names_congr h).2 (List.mem_map_of_mem hp))
    rw [← hname]
    exact unknownKeys_optionMembers_iff.1 hunknown q hq

/-- The parts of a request for a report count by their order and by the last values. -/
theorem SameLast.parse_eq (h : SameLast parts parts') (hproper : ∀ p ∈ parts, p.Proper)
    {snapshot : String} {format : ReportFormat} {max? timeout? : Option Binary64}
    (heq : parse (tokensOf parts) = .analyze snapshot format max? timeout?) :
    parse (tokensOf parts') = .analyze snapshot format max? timeout? := by
  obtain ⟨others, hothers, htokens, hasks⟩ := exists_asks heq nofun nofun
  obtain rfl := tokensOf_injective hproper hothers htokens
  cases hasks with
  | analyze hpositionals hoptions =>
    have hasks' : Asks parts' _ :=
      .analyze (h.positionals.symm.trans hpositionals) (reportOptions_congr h.last hoptions)
    exact hasks'.parse_eq (h.proper hproper)

/-! ## Changes -/

variable {snapshot address changed : String}

theorem forall_proper_positionals {tokens : List String}
    (h : ∀ token ∈ tokens, ¬IsOption token ∧ token ≠ "-h") :
    ∀ p ∈ tokens.map Part.positional, p.Proper := by
  rw [List.forall_mem_map]
  exact h

/-- The four texts of a change are taken as they are. -/
theorem parse_change (h : ∀ token ∈ [snapshot, address, changed], ¬IsOption token ∧ token ≠ "-h") :
    parse ["rename", snapshot, address, changed] = .rename snapshot address changed ∧
      parse ["retype", snapshot, address, changed] = .retype snapshot address changed := by
  have hproper (command : String) (hcommand : ¬IsOption command ∧ command ≠ "-h") :
      ∀ p ∈ [command, snapshot, address, changed].map Part.positional, p.Proper :=
    forall_proper_positionals (List.forall_mem_cons.2 ⟨hcommand, h⟩)
  have hrename : Asks (["rename", snapshot, address, changed].map .positional)
      (.rename snapshot address changed) := .rename rfl rfl
  have hretype : Asks (["retype", snapshot, address, changed].map .positional)
      (.retype snapshot address changed) := .retype rfl rfl
  exact ⟨hrename.parse_eq (hproper "rename" (by decide)),
    hretype.parse_eq (hproper "retype" (by decide))⟩

/-- An option among positionals. -/
def optionAmong (front back : List String) (name value : String) : List Part :=
  front.map .positional ++ .option name value :: back.map .positional

theorem tokensOf_optionAmong (front back : List String) (name value : String) :
    tokensOf (optionAmong front back name value) = front ++ optionToken name :: value :: back := by
  rw [optionAmong, tokensOf_append, tokensOf_cons, tokensOf_map_positional, tokensOf_map_positional]
  rfl

theorem split_optionAmong (h : name ≠ "help") {front back : List String}
    (hproper : ∀ token ∈ front ++ back, ¬IsOption token ∧ token ≠ "-h") (value : String) :
    split (front ++ optionToken name :: value :: back) = .parts (front ++ back) [(name, value)] := by
  obtain ⟨hfront, hback⟩ := List.forall_mem_append.1 hproper
  have hparts : ∀ p ∈ optionAmong front back name value, p.Proper := by
    rw [optionAmong, List.forall_mem_append, List.forall_mem_cons]
    exact ⟨forall_proper_positionals hfront, h, forall_proper_positionals hback⟩
  rw [← tokensOf_optionAmong, split_tokensOf hparts, optionAmong, positionalsOf_append,
    positionalsOf_option, optionsOf_append, optionsOf_option]
  simp only [positionalsOf_map_positional, optionsOf_map_positional, List.nil_append]

/-- A change is refused with an option, wherever it stands. -/
theorem parse_change_option (hname : name ≠ "help" ∧ name ≠ unsettable) {command : String}
    (hcommand : command ∈ ["rename", "retype"])
    (h : ∀ token ∈ [snapshot, address, changed], ¬IsOption token ∧ token ≠ "-h")
    {front back : List String} (hsplit : front ++ back = [command, snapshot, address, changed])
    (value : String) :
    parse (front ++ optionToken name :: value :: back) =
      .usage (command ++ " takes no options") := by
  have hall : ∀ token ∈ front ++ back, ¬IsOption token ∧ token ≠ "-h" := by
    rw [hsplit, List.forall_mem_cons]
    refine ⟨?_, h⟩
    rcases List.mem_pair.1 hcommand with rfl | rfl <;> decide
  have hoptions : hasNoOptions [(name, value)] = false := by
    simp [hasNoOptions, hname.2]
  rw [parse, split_optionAmong hname.1 hall, hsplit]
  rcases List.mem_pair.1 hcommand with rfl | rfl
  · simp [ofSplit, readChange, hoptions]
  · simp [ofSplit, readChange, hoptions]

/-! ## Placement -/

/-- The arguments of a request for a report are a row of parts in one way only, and they ask for the same
in every row that keeps the order of the positionals and that of the options of each name, as it is kept
when an option moves past parts of which none is an option of its name. Another option in front of one
of its name changes nothing. A change is asked for by its four texts, and with an option of a report
among them the usage is printed. -/
theorem parse_ignores_placement :
    (∀ arguments snapshot format max? timeout?,
      parse arguments = .analyze snapshot format max? timeout? →
        ∃ parts : List Part, (∀ p ∈ parts, p.Proper) ∧ arguments = tokensOf parts ∧
          (∀ others : List Part, (∀ p ∈ others, p.Proper) → arguments = tokensOf others →
            others = parts) ∧
          (∀ parts', SameOrder parts parts' →
            parse (tokensOf parts') = .analyze snapshot format max? timeout?) ∧
          ∀ before after name value, parts = before ++ after →
            name ∈ (optionsOf after).map Prod.fst →
            parse (tokensOf (before ++ .option name value :: after)) =
              .analyze snapshot format max? timeout?) ∧
      (∀ before between after : List Part, ∀ name value,
        (∀ p ∈ between, ∀ other, p ≠ .option name other) →
        SameOrder (before ++ .option name value :: (between ++ after))
            (before ++ (between ++ .option name value :: after)) ∧
          SameOrder (before ++ (between ++ .option name value :: after))
            (before ++ .option name value :: (between ++ after))) ∧
      ∀ snapshot address changed,
        (∀ token ∈ [snapshot, address, changed], ¬IsOption token ∧ token ≠ "-h") →
        parse ["rename", snapshot, address, changed] = .rename snapshot address changed ∧
          parse ["retype", snapshot, address, changed] = .retype snapshot address changed ∧
          ∀ command ∈ ["rename", "retype"], ∀ front back,
            front ++ back = [command, snapshot, address, changed] →
            ∀ option ∈ reportOptionTokens, ∀ value,
              parse (front ++ option :: value :: back) = .usage (command ++ " takes no options") := by
  refine ⟨fun arguments snapshot format max? timeout? heq => ?_, fun before between after name value h =>
    ?_, fun snapshot address changed h => ?_⟩
  · obtain ⟨parts, hproper, rfl, -⟩ := exists_asks heq nofun nofun
    refine ⟨parts, hproper, rfl, fun others hothers htokens => ?_, fun parts' hsame => ?_, ?_⟩
    · exact tokensOf_injective hothers hproper htokens.symm
    · exact hsame.sameLast.parse_eq hproper heq
    · rintro before after name value rfl hname
      exact (sameLast_insert before hname value).parse_eq hproper heq
  · have hmove := sameOrder_move before after h value
    exact ⟨hmove, hmove.symm⟩
  · obtain ⟨hrename, hretype⟩ := parse_change h
    refine ⟨hrename, hretype, fun command hcommand front back hsplit option hoption value => ?_⟩
    have hnames : ∀ name ∈ reportOptionNames, name ≠ "help" ∧ name ≠ unsettable := by decide
    obtain ⟨name, hname, rfl⟩ := List.mem_map.1 (show option ∈ reportOptionNames.map optionToken from hoption)
    exact parse_change_option (hnames name hname) hcommand h hsplit value

/-- A format that is given last can be given first, and behind another format. -/
theorem parse_ignores_placement_first :
    parse ["analyze", "p.json", "--format", "c"] = .analyze "p.json" .code none none ∧
      parse ["--format", "c", "analyze", "p.json"] = .analyze "p.json" .code none none ∧
      parse ["analyze", "--format", "json", "p.json", "--format", "c"] =
        .analyze "p.json" .code none none := by
  have heq : parse ["analyze", "p.json", "--format", "c"] = .analyze "p.json" .code none none := by
    decide +kernel
  obtain ⟨hanalyze, hmove, -⟩ := parse_ignores_placement
  obtain ⟨parts, -, -, hunique, horder, hfront⟩ := hanalyze _ _ _ _ _ heq
  have hparts := hunique [.positional "analyze", .positional "p.json", .option "format" "c"]
    (by decide) rfl
  obtain ⟨-, hfirst⟩ := hmove [] [.positional "analyze", .positional "p.json"] [] "format" "c" (by simp)
  rw [← hparts] at horder hfront
  exact ⟨heq, horder _ hfirst,
    hfront [.positional "analyze"] [.positional "p.json", .option "format" "c"] "format" "json" rfl
      (by decide)⟩

end BinaryReport.Command
