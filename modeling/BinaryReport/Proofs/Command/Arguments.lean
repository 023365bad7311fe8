import BinaryReport.Command.Arguments
import BinaryReport.Proofs.Text.Search

/-!
# Parts of a command line

Arguments that are not refused while they are split are a row of parts: positionals, and options with
their values (`split_eq_parts_iff`). There is one way only to see them so (`tokensOf_injective`). What
they ask for depends on the positionals and on the options, each in their order (`parse_cases`).
-/

namespace BinaryReport.Command

/-! ## Options -/

/-- A token that begins with two dashes. -/
def IsOption (token : String) : Prop := ['-', '-'] <+: token.toList

instance (token : String) : Decidable (IsOption token) :=
  inferInstanceAs (Decidable (['-', '-'] <+: token.toList))

/-- The option of a name. -/
def optionToken (name : String) : String := "--" ++ name

variable {token name value : String} {rest : List String}

theorem toList_optionToken (name : String) :
    (optionToken name).toList = ['-', '-'] ++ name.toList :=
  String.toList_append

theorem isOption_optionToken (name : String) : IsOption (optionToken name) :=
  ⟨name.toList, (toList_optionToken name).symm⟩

theorem optionToken_injective : Function.Injective optionToken := by
  intro name name' h
  have hchars := congrArg String.toList h
  rw [toList_optionToken, toList_optionToken] at hchars
  exact String.toList_injective (List.append_cancel_left hchars)

theorem optionName?_eq_some_iff : optionName? token = some name ↔ token = optionToken name := by
  rw [optionName?, Option.map_eq_some_iff, ← String.toList_inj, toList_optionToken]
  constructor
  · rintro ⟨cs, hcs, rfl⟩
    rw [String.toList_ofList]
    exact Text.dropBeginning?_eq_some_iff.1 hcs
  · intro h
    exact ⟨name.toList, Text.dropBeginning?_eq_some_iff.2 h, String.ofList_toList⟩

theorem optionName?_eq_none_iff : optionName? token = none ↔ ¬IsOption token := by
  constructor
  · rintro h ⟨cs, hcs⟩
    have hsome : optionName? token = some (String.ofList cs) := by
      rw [optionName?, Text.dropBeginning?_eq_some_iff.2 hcs.symm]
      rfl
    rw [h] at hsome
    cases hsome
  · intro h
    rw [← Option.not_isSome_iff_eq_none, Option.isSome_iff_exists]
    rintro ⟨name, hname⟩
    rw [optionName?_eq_some_iff.1 hname] at h
    exact h (isOption_optionToken name)

theorem isHelp_optionToken : isHelp (optionToken name) = true ↔ name = "help" := by
  have hlong : optionToken name = "--help" ↔ name = "help" := optionToken_injective.eq_iff (b := "help")
  have hshort : optionToken name ≠ "-h" := by
    intro h
    have hoption := isOption_optionToken name
    rw [h] at hoption
    exact absurd hoption (by decide)
  rw [isHelp, Bool.or_eq_true, beq_iff_eq, beq_iff_eq, hlong, or_iff_left hshort]

theorem isHelp_of_not_isOption (h : ¬IsOption token) : isHelp token = true ↔ token = "-h" := by
  have hlong : token ≠ "--help" := by
    rintro rfl
    exact h (by decide)
  rw [isHelp, Bool.or_eq_true, beq_iff_eq, beq_iff_eq, or_iff_right hlong]

/-! ## Parts -/

/-- A part of the arguments. -/
inductive Part where
  /-- A token that is no option. -/
  | positional (token : String)
  /-- An option and the token that is its value. -/
  | option (name value : String)
deriving DecidableEq

namespace Part

/-- The tokens of a part. -/
def tokens : Part → List String
  | positional token => [token]
  | option name value => [optionToken name, value]

/-- The part is neither of another kind nor a request for help. -/
def Proper : Part → Prop
  | positional token => ¬IsOption token ∧ token ≠ "-h"
  | option name _ => name ≠ "help"

instance : (p : Part) → Decidable p.Proper
  | positional token => inferInstanceAs (Decidable (¬IsOption token ∧ token ≠ "-h"))
  | option name _ => inferInstanceAs (Decidable (name ≠ "help"))

/-- The token of a positional. -/
def positional? : Part → Option String
  | positional token => some token
  | option _ _ => none

/-- The name and the value of an option. -/
def option? : Part → Option (String × String)
  | positional _ => none
  | option name value => some (name, value)

/-- Adds a part in front of what is split. -/
def addTo : Part → Split → Split
  | positional token => Split.addPositional token
  | option name value => Split.addOption name value

end Part

/-- The tokens of some parts. -/
def tokensOf (parts : List Part) : List String := parts.flatMap Part.tokens

/-- The positionals among some parts. -/
def positionalsOf (parts : List Part) : List String := parts.filterMap Part.positional?

/-- The options among some parts, with their values. -/
def optionsOf (parts : List Part) : List (String × String) := parts.filterMap Part.option?

variable {parts parts' : List Part}

theorem tokensOf_cons (p : Part) (parts : List Part) :
    tokensOf (p :: parts) = p.tokens ++ tokensOf parts := rfl

theorem tokensOf_append (parts parts' : List Part) :
    tokensOf (parts ++ parts') = tokensOf parts ++ tokensOf parts' :=
  List.flatMap_append

theorem tokensOf_map_positional (tokens : List String) :
    tokensOf (tokens.map .positional) = tokens := by
  rw [tokensOf, List.flatMap_map]
  exact List.flatMap_singleton' tokens

/-! ## Splitting -/

theorem split_of_isHelp (h : isHelp token = true) (rest : List String) :
    split (token :: rest) = .help := by
  unfold split
  exact if_pos h

theorem split_of_none (h : isHelp token = false) (hname : optionName? token = none)
    (rest : List String) : split (token :: rest) = (split rest).addPositional token := by
  cases rest <;> simp [split, h, hname]

theorem split_singleton (h : isHelp token = false) (hname : optionName? token = some name) :
    split [token] = .missingValue token := by
  simp [split, h, hname]

theorem split_of_some (h : isHelp token = false) (hname : optionName? token = some name)
    (value : String) (rest : List String) :
    split (token :: value :: rest) = (split rest).addOption name value := by
  simp [split, h, hname]

theorem split_positional (h : (Part.positional token).Proper) (rest : List String) :
    split (token :: rest) = (split rest).addPositional token := by
  obtain ⟨hoption, hhelp⟩ := h
  refine split_of_none ?_ (optionName?_eq_none_iff.2 hoption) rest
  exact eq_false_of_ne_true (mt (isHelp_of_not_isOption hoption).1 hhelp)

theorem split_option (h : name ≠ "help") (value : String) (rest : List String) :
    split (optionToken name :: value :: rest) = (split rest).addOption name value := by
  refine split_of_some ?_ (optionName?_eq_some_iff.2 rfl) value rest
  exact eq_false_of_ne_true (mt isHelp_optionToken.1 h)

theorem split_part {p : Part} (h : p.Proper) (rest : List String) :
    split (p.tokens ++ rest) = p.addTo (split rest) := by
  cases p with
  | positional token => exact split_positional h rest
  | option name value => exact split_option h value rest

theorem split_tokensOf_append (h : ∀ p ∈ parts, p.Proper) (rest : List String) :
    split (tokensOf parts ++ rest) = parts.foldr Part.addTo (split rest) := by
  induction parts with
  | nil => rfl
  | cons p parts ih =>
    obtain ⟨hp, hparts⟩ := List.forall_mem_cons.1 h
    rw [tokensOf_cons, List.append_assoc, split_part hp, ih hparts, List.foldr_cons]

theorem foldr_addTo_parts (parts : List Part) (positionals : List String)
    (options : List (String × String)) :
    parts.foldr Part.addTo (.parts positionals options) =
      .parts (positionalsOf parts ++ positionals) (optionsOf parts ++ options) := by
  induction parts with
  | nil => rfl
  | cons p parts ih =>
    rw [List.foldr_cons, ih]
    cases p with
    | positional token => rfl
    | option name value => rfl

theorem split_tokensOf (h : ∀ p ∈ parts, p.Proper) :
    split (tokensOf parts) = .parts (positionalsOf parts) (optionsOf parts) := by
  have hsplit := split_tokensOf_append h []
  rw [List.append_nil, split, foldr_addTo_parts, List.append_nil, List.append_nil] at hsplit
  exact hsplit

theorem addPositional_eq_parts {x : Split} {positionals : List String}
    {options : List (String × String)} (h : x.addPositional token = .parts positionals options) :
    ∃ others, x = .parts others options ∧ positionals = token :: others := by
  cases x with
  | help => cases h
  | missingValue token => cases h
  | parts others options =>
    obtain ⟨rfl, rfl⟩ := Split.parts.inj h
    exact ⟨others, rfl, rfl⟩

theorem addOption_eq_parts {x : Split} {positionals : List String}
    {options : List (String × String)} (h : x.addOption name value = .parts positionals options) :
    ∃ others, x = .parts positionals others ∧ options = (name, value) :: others := by
  cases x with
  | help => cases h
  | missingValue token => cases h
  | parts positionals others =>
    obtain ⟨rfl, rfl⟩ := Split.parts.inj h
    exact ⟨others, rfl, rfl⟩

/-- Arguments are split into parts exactly if they are the tokens of proper parts. -/
theorem split_eq_parts_iff {arguments positionals : List String}
    {options : List (String × String)} :
    split arguments = .parts positionals options ↔
      ∃ parts : List Part, (∀ p ∈ parts, p.Proper) ∧ arguments = tokensOf parts ∧
        positionals = positionalsOf parts ∧ options = optionsOf parts := by
  constructor
  · intro h
    induction arguments using split.induct generalizing positionals options with
    | case1 =>
      obtain ⟨rfl, rfl⟩ := Split.parts.inj h
      exact ⟨[], nofun, rfl, rfl, rfl⟩
    | case2 token rest hhelp =>
      rw [split_of_isHelp hhelp] at h
      cases h
    | case3 token hhelp rest hname ih =>
      rw [split_of_none (eq_false_of_ne_true hhelp) hname] at h
      obtain ⟨others, hrest, rfl⟩ := addPositional_eq_parts h
      obtain ⟨parts, hparts, rfl, rfl, rfl⟩ := ih hrest
      have hoption := optionName?_eq_none_iff.1 hname
      have hproper : (Part.positional token).Proper :=
        ⟨hoption, mt (isHelp_of_not_isOption hoption).2 hhelp⟩
      exact ⟨.positional token :: parts, List.forall_mem_cons.2 ⟨hproper, hparts⟩, rfl, rfl, rfl⟩
    | case4 token hhelp name hname =>
      rw [split_singleton (eq_false_of_ne_true hhelp) hname] at h
      cases h
    | case5 token hhelp name value rest hname ih =>
      rw [split_of_some (eq_false_of_ne_true hhelp) hname] at h
      obtain ⟨others, hrest, rfl⟩ := addOption_eq_parts h
      obtain ⟨parts, hparts, rfl, rfl, rfl⟩ := ih hrest
      obtain rfl := optionName?_eq_some_iff.1 hname
      have hproper : (Part.option name value).Proper := mt isHelp_optionToken.2 hhelp
      exact ⟨.option name value :: parts, List.forall_mem_cons.2 ⟨hproper, hparts⟩, rfl, rfl, rfl⟩
  · rintro ⟨parts, hproper, rfl, rfl, rfl⟩
    exact split_tokensOf hproper

/-- The parts are determined by their tokens. -/
theorem tokensOf_injective (h : ∀ p ∈ parts, p.Proper) (h' : ∀ p ∈ parts', p.Proper)
    (heq : tokensOf parts = tokensOf parts') : parts = parts' := by
  induction parts generalizing parts' with
  | nil =>
    cases parts' with
    | nil => rfl
    | cons p parts' => cases p <;> cases heq
  | cons p parts ih =>
    obtain ⟨hp, hparts⟩ := List.forall_mem_cons.1 h
    cases parts' with
    | nil => cases p <;> cases heq
    | cons q parts' =>
      obtain ⟨hq, hparts'⟩ := List.forall_mem_cons.1 h'
      rw [tokensOf_cons, tokensOf_cons] at heq
      cases p with
      | positional token =>
        cases q with
        | positional token' =>
          obtain ⟨rfl, hrest⟩ := List.cons.inj heq
          rw [ih hparts hparts' hrest]
        | option name value =>
          obtain ⟨rfl, -⟩ := List.cons.inj heq
          exact absurd (isOption_optionToken name) hp.1
      | option name value =>
        cases q with
        | positional token =>
          obtain ⟨rfl, -⟩ := List.cons.inj heq
          exact absurd (isOption_optionToken name) hq.1
        | option name' value' =>
          obtain ⟨hname, hrest⟩ := List.cons.inj heq
          obtain rfl := optionToken_injective hname
          obtain ⟨rfl, htail⟩ := List.cons.inj hrest
          rw [ih hparts hparts' htail]

/-! ## Commands -/

/-- What some parts ask for, unless it is help. -/
inductive Asks (parts : List Part) : Command → Prop where
  | analyze {snapshot : String} {o : ReportOptions}
    (hpositionals : positionalsOf parts = ["analyze", snapshot])
    (hoptions : reportOptions.run (optionObject (optionsOf parts)) = .accepted o) :
    Asks parts (.analyze snapshot o.format o.maxInstructions? o.timeoutSeconds?)
  | rename {snapshot address name : String}
    (hpositionals : positionalsOf parts = ["rename", snapshot, address, name])
    (hoptions : hasNoOptions (optionsOf parts) = true) : Asks parts (.rename snapshot address name)
  | retype {snapshot address type : String}
    (hpositionals : positionalsOf parts = ["retype", snapshot, address, type])
    (hoptions : hasNoOptions (optionsOf parts) = true) : Asks parts (.retype snapshot address type)

theorem Asks.parse_eq {c : Command} (h : Asks parts c) (hproper : ∀ p ∈ parts, p.Proper) :
    parse (tokensOf parts) = c := by
  rw [parse, split_tokensOf hproper]
  cases h with
  | analyze hpositionals hoptions => simp [hpositionals, ofSplit, readAnalyze, hoptions]
  | rename hpositionals hoptions => simp [hpositionals, ofSplit, readChange, hoptions]
  | retype hpositionals hoptions => simp [hpositionals, ofSplit, readChange, hoptions]

theorem readAnalyze_cases (positionals : List String) (options : List (String × String)) :
    (∃ message, readAnalyze positionals options = .usage message) ∨
      ∃ snapshot o, positionals = [snapshot] ∧ reportOptions.run (optionObject options) = .accepted o ∧
        readAnalyze positionals options =
          .analyze snapshot o.format o.maxInstructions? o.timeoutSeconds? := by
  unfold readAnalyze
  split
  · next snapshot =>
    cases hrun : reportOptions.run (optionObject options) with
    | accepted o => exact Or.inr ⟨snapshot, o, rfl, rfl, rfl⟩
    | refused first others => exact Or.inl ⟨_, rfl⟩
  · exact Or.inl ⟨_, rfl⟩

theorem readChange_cases (command : String) (make : String → String → String → Command)
    (positionals : List String) (options : List (String × String)) :
    (∃ message, readChange command make positionals options = .usage message) ∨
      ∃ snapshot address value, positionals = [snapshot, address, value] ∧
        hasNoOptions options = true ∧
        readChange command make positionals options = make snapshot address value := by
  unfold readChange
  split_ifs with hnone
  · split
    · next snapshot address value => exact Or.inr ⟨snapshot, address, value, rfl, hnone, rfl⟩
    · exact Or.inl ⟨_, rfl⟩
  · exact Or.inl ⟨_, rfl⟩

/-- The usage is printed, with or without a reason, or the arguments are parts that ask for something. -/
theorem parse_cases (arguments : List String) :
    parse arguments = .help ∨ (∃ message, parse arguments = .usage message) ∨
      ∃ parts : List Part, (∀ p ∈ parts, p.Proper) ∧ arguments = tokensOf parts ∧
        Asks parts (parse arguments) := by
  cases hsplit : split arguments with
  | help => exact Or.inl (by rw [parse, hsplit]; rfl)
  | missingValue token => exact Or.inr (Or.inl ⟨_, by rw [parse, hsplit]; rfl⟩)
  | parts positionals options =>
    refine Or.inr ?_
    obtain ⟨parts, hproper, harguments, hpositionals, rfl⟩ := split_eq_parts_iff.1 hsplit
    rw [parse, hsplit]
    cases positionals with
    | nil => exact Or.inl ⟨_, rfl⟩
    | cons command positionals =>
      rw [ofSplit]
      split_ifs with hanalyze hrename hretype
      · subst hanalyze
        rcases readAnalyze_cases positionals (optionsOf parts) with husage | ⟨snapshot, o, rfl, ho, heq⟩
        · exact Or.inl husage
        · rw [heq]
          exact Or.inr ⟨parts, hproper, harguments, .analyze hpositionals.symm ho⟩
      · subst hrename
        rcases readChange_cases "rename" .rename positionals (optionsOf parts) with
          husage | ⟨snapshot, address, name, rfl, hnone, heq⟩
        · exact Or.inl husage
        · rw [heq]
          exact Or.inr ⟨parts, hproper, harguments, .rename hpositionals.symm hnone⟩
      · subst hretype
        rcases readChange_cases "retype" .retype positionals (optionsOf parts) with
          husage | ⟨snapshot, address, type, rfl, hnone, heq⟩
        · exact Or.inl husage
        · rw [heq]
          exact Or.inr ⟨parts, hproper, harguments, .retype hpositionals.symm hnone⟩
      · exact Or.inl ⟨_, rfl⟩

theorem exists_asks {arguments : List String} {c : Command} (h : parse arguments = c)
    (hhelp : c ≠ .help) (husage : ∀ message, c ≠ .usage message) :
    ∃ parts : List Part, (∀ p ∈ parts, p.Proper) ∧ arguments = tokensOf parts ∧ Asks parts c := by
  subst h
  rcases parse_cases arguments with heq | ⟨message, heq⟩ | hasks
  · exact absurd heq hhelp
  · exact absurd heq (husage message)
  · exact hasks

end BinaryReport.Command
