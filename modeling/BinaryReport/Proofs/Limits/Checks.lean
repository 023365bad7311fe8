import BinaryReport.Config
import BinaryReport.Proofs.Command.Options
import BinaryReport.Proofs.Tool.Agreement

/-!
# Limits that pass their checks

A bound on instructions has to be a positive whole number and a time limit a positive number that is
finite. The command line and the environment give both as text, the clients of tools as JSON numbers,
and each has a check of its own. The checks accept the same numbers, except that clients may not ask for
more than ten thousand instructions (`Check.count_eq_accepted_iff`, `Check.timeout_eq_accepted_iff`,
`Tool.countCheck_eq_accepted_iff`). So what is accepted anywhere gives such limits
(`Command.Asks.limits`, `Config.limits_of_load`, `Tool.limits_of_read`), and what gives another number
is not accepted.
-/

namespace BinaryReport

namespace Binary64

/-- The number is whole and greater than zero. -/
def IsPositiveInteger (x : Binary64) : Prop := ∃ n : Nat, 0 < n ∧ x = .finite n

/-- The number is finite and greater than zero. -/
def IsPositiveFinite (x : Binary64) : Prop := ∃ q : Rat, 0 < q ∧ x = .finite q

theorem IsPositiveInteger.isPositiveFinite {x : Binary64} (h : x.IsPositiveInteger) :
    x.IsPositiveFinite := by
  obtain ⟨n, hn, rfl⟩ := h
  exact ⟨n, by exact_mod_cast hn, rfl⟩

theorem holds_positive_finite_iff {q : Rat} :
    Check.NumberRule.positive.holds (.finite q) = true ↔ 0 < q := by
  simp [Check.NumberRule.holds, lt]

theorem isPositiveInteger_iff {x : Binary64} :
    x.IsPositiveInteger ↔ ∀ rule ∈ Config.countRules, rule.holds x = true := by
  simp only [Config.countRules, List.mem_cons, List.not_mem_nil, or_false, forall_eq_or_imp, forall_eq]
  constructor
  · rintro ⟨n, hn, rfl⟩
    have hint : toInt? (.finite n) = some (n : Int) := toInt?_finite n
    refine ⟨by simp [Check.NumberRule.holds, hint], holds_positive_finite_iff.2 ?_⟩
    exact_mod_cast hn
  · rintro ⟨hinteger, hpositive⟩
    cases x with
    | nan => cases hpositive
    | infinite negative => cases hinteger
    | finite q =>
      have hq : 0 < q := holds_positive_finite_iff.1 hpositive
      have hden : q.den = 1 := by
        by_contra hne
        simp [Check.NumberRule.holds, toInt?, hne] at hinteger
      have hnum : 0 < q.num := Rat.num_pos.2 hq
      have hcast : ((q.num.toNat : Int) : Rat) = q := by
        rw [Int.toNat_of_nonneg hnum.le]
        exact Rat.coe_int_num_of_den_eq_one hden
      refine ⟨q.num.toNat, by omega, ?_⟩
      rw [← hcast]
      rfl

theorem isPositiveFinite_iff {x : Binary64} :
    x.IsPositiveFinite ↔ ∀ rule ∈ Config.timeoutRules, rule.holds x = true := by
  simp only [Config.timeoutRules, List.mem_cons, List.not_mem_nil, or_false, forall_eq_or_imp,
    forall_eq]
  constructor
  · rintro ⟨q, hq, rfl⟩
    exact ⟨holds_positive_finite_iff.2 hq, rfl⟩
  · rintro ⟨hpositive, hfinite⟩
    cases x with
    | nan => cases hpositive
    | infinite negative => cases hfinite
    | finite q => exact ⟨q, holds_positive_finite_iff.1 hpositive, rfl⟩

end Binary64

open Binary64 (IsPositiveInteger IsPositiveFinite isPositiveInteger_iff isPositiveFinite_iff)

/-! ## Checks of numbers -/

namespace Check

variable {v : Json} {x : Binary64} {text : String}

/-- Rules that admit finite numbers only decide what a check of numbers accepts. -/
theorem number_eq_accepted_iff {rules : List NumberRule}
    (hfinite : (∀ rule ∈ rules, rule.holds x = true) → x.IsPositiveFinite) :
    (number rules).run v = .accepted x ↔ v = .number x ∧ ∀ rule ∈ rules, rule.holds x = true := by
  constructor
  · exact number_eq_accepted
  · rintro ⟨rfl, hrules⟩
    obtain ⟨q, -, rfl⟩ := hfinite hrules
    exact number_accepts hrules

theorem count_eq_accepted_iff :
    (number Config.countRules).run v = .accepted x ↔ v = .number x ∧ x.IsPositiveInteger := by
  rw [number_eq_accepted_iff fun h => (isPositiveInteger_iff.2 h).isPositiveFinite,
    isPositiveInteger_iff]

theorem timeout_eq_accepted_iff :
    (number Config.timeoutRules).run v = .accepted x ↔ v = .number x ∧ x.IsPositiveFinite := by
  rw [number_eq_accepted_iff isPositiveFinite_iff.2, isPositiveFinite_iff]

theorem countText_eq_accepted_iff :
    (numeral Config.countRules).run (.string text) = .accepted x ↔
      x = .ofText text ∧ x.IsPositiveInteger := by
  show (number Config.countRules).run (.number (.ofText text)) = .accepted x ↔ _
  rw [count_eq_accepted_iff, Json.number.injEq, eq_comm]

theorem timeoutText_eq_accepted_iff :
    (numeral Config.timeoutRules).run (.string text) = .accepted x ↔
      x = .ofText text ∧ x.IsPositiveFinite := by
  show (number Config.timeoutRules).run (.number (.ofText text)) = .accepted x ↔ _
  rw [timeout_eq_accepted_iff, Json.number.injEq, eq_comm]

/-! ## Members -/

variable {α : Type} {c : Check α} {ms : Members} {key : String}

theorem optional_eq_accepted {a? : Option α} (h : optional key c ms = .accepted a?) :
    (∃ w a, Json.lookup key ms = some w ∧ c.run w = .accepted a ∧ a? = some a) ∨
      Json.lookup key ms = none ∧ a? = none := by
  unfold optional at h
  split at h
  · next w hw =>
    obtain ⟨a, ha, rfl⟩ := Verdict.map_eq_accepted h
    exact Or.inl ⟨w, a, hw, Verdict.under_eq_accepted ha, rfl⟩
  · next hmissing => exact Or.inr ⟨hmissing, (Verdict.accepted.inj h).symm⟩

theorem lookup_texts (key : String) (texts : List (String × String)) :
    Json.lookup key (texts.map fun t => (t.1, .string t.2)) =
      (texts.lookup key).map Json.string := by
  induction texts with
  | nil => rfl
  | cons t texts ih =>
    rw [List.map_cons, Json.lookup_cons, List.lookup_cons, ih]
    by_cases hkey : t.1 = key
    · simp [hkey]
    · have hne : (key == t.1) = false := by simpa using Ne.symm hkey
      simp [hkey, hne]

end Check

/-! ## The command line -/

namespace Command

open Json (valuesOf)

variable {parts : List Part}

theorem limit_of_optional {key : String} {rules : List Check.NumberRule} {ms : Check.Members}
    {text? : Option String} {x? : Option Binary64} {P : Binary64 → Prop}
    (hrules : ∀ text x, (Check.numeral rules).run (.string text) = .accepted x → P x)
    (hlookup : Json.lookup key ms = text?.map Json.string)
    (h : Check.optional key (Check.numeral rules) ms = .accepted x?) : ∀ x ∈ x?, P x := by
  intro x hx
  rcases Check.optional_eq_accepted h with ⟨w, y, hw, hy, rfl⟩ | ⟨-, rfl⟩
  · obtain rfl := Option.mem_some_iff.1 hx
    rw [hlookup] at hw
    obtain ⟨text, -, rfl⟩ := Option.map_eq_some_iff.1 hw
    exact hrules text y hy
  · cases hx

/-- The limits that are given with a request for a report have passed their checks. -/
theorem Asks.limits {snapshot : String} {format : ReportFormat} {max? timeout? : Option Binary64}
    (hasks : Asks parts (.analyze snapshot format max? timeout?)) :
    (∀ n ∈ max?, n.IsPositiveInteger) ∧ ∀ t ∈ timeout?, t.IsPositiveFinite := by
  cases hasks with
  | @analyze _ o _ ho =>
    obtain ⟨hread, -⟩ := Check.strictRecord_eq_accepted_iff.1 ho
    obtain ⟨f, format, hf, -, rfl⟩ := Verdict.seq_eq_accepted hread
    obtain ⟨g, timeout?, hg, htimeout, rfl⟩ := Verdict.seq_eq_accepted hf
    obtain ⟨max?, hmax, rfl⟩ := Verdict.map_eq_accepted hg
    have hlookup (name : String) (hname : name ≠ unsettable) :=
      lookup_optionMembers hname (optionsOf parts)
    constructor
    · exact limit_of_optional (fun _ _ h => (Check.countText_eq_accepted_iff.1 h).2)
        (hlookup "max-instructions" (by decide)) hmax
    · exact limit_of_optional (fun _ _ h => (Check.timeoutText_eq_accepted_iff.1 h).2)
        (hlookup "timeout" (by decide)) htimeout

/-- The limits of a request for a report, read off its arguments. -/
theorem limits_of_parse {arguments : List String} {snapshot : String} {format : ReportFormat}
    {max? timeout? : Option Binary64}
    (h : parse arguments = .analyze snapshot format max? timeout?) :
    (max? = (lastValue? "--max-instructions" arguments).map Binary64.ofText ∧
        ∀ n ∈ max?, n.IsPositiveInteger) ∧
      timeout? = (lastValue? "--timeout" arguments).map Binary64.ofText ∧
        ∀ t ∈ timeout?, t.IsPositiveFinite := by
  obtain ⟨parts, hproper, rfl, hasks⟩ := exists_asks h nofun nofun
  obtain ⟨-, hmax, htimeout, -⟩ := hasks.analyze_options hproper
  obtain ⟨hcount, hlimit⟩ := hasks.limits
  exact ⟨⟨hmax, hcount⟩, htimeout, hlimit⟩

end Command

/-! ## The environment -/

namespace Config

/-- The limits that an environment sets: each is the number that its variable denotes, or the standard
one, and has passed its check. -/
structure HasLimitsOf (env : Environment) (config : Config) : Prop where
  maxInstructions : config.maxInstructions =
    ((env.lookup "BINREPORT_MAX_INSTRUCTIONS").map Binary64.ofText).getD
      Limits.standard.maxInstructions
  timeoutSeconds : config.timeoutSeconds =
    ((env.lookup "BINREPORT_DECOMPILE_TIMEOUT").map Binary64.ofText).getD
      Limits.standard.timeoutSeconds
  isPositiveInteger : config.maxInstructions.IsPositiveInteger
  isPositiveFinite : config.timeoutSeconds.IsPositiveFinite

/-- What is read of a variable that has a standard value. -/
theorem variable_eq_accepted {key : String} {rules : List Check.NumberRule} {standard x : Binary64}
    {P : Binary64 → Prop} {env : Environment}
    (hrules : ∀ text x, (Check.numeral rules).run (.string text) = .accepted x →
      x = .ofText text ∧ P x)
    (hstandard : P standard)
    (h : Check.withDefault key standard (Check.numeral rules)
      (env.map fun v => (v.1, .string v.2)) = .accepted x) :
    x = ((env.lookup key).map Binary64.ofText).getD standard ∧ P x := by
  unfold Check.withDefault at h
  rw [Check.lookup_texts] at h
  cases henv : env.lookup key with
  | none =>
    rw [henv] at h
    obtain rfl := Verdict.accepted.inj h
    exact ⟨rfl, hstandard⟩
  | some text =>
    rw [henv] at h
    exact hrules text x (Verdict.under_eq_accepted h)

theorem standard_isPositiveInteger : Limits.standard.maxInstructions.IsPositiveInteger :=
  ⟨100, by decide, Binary64.ofNat_eq (n := 100) (by decide)⟩

theorem standard_isPositiveFinite : Limits.standard.timeoutSeconds.IsPositiveFinite :=
  ⟨(30 : Nat), by decide +kernel, Binary64.ofNat_eq (n := 30) (by decide)⟩

theorem limits_of_load {env : Environment} {config : Config} (h : load env = .ok config) :
    HasLimitsOf env config := by
  unfold load at h
  split at h
  · next c hc =>
    obtain rfl := Except.ok.inj h
    obtain ⟨ms, hms, hread⟩ := Check.record_eq_accepted hc
    obtain rfl := Json.object.inj hms
    obtain ⟨f, max, hf, hmax, rfl⟩ := Verdict.seq_eq_accepted hread
    obtain ⟨g, timeout, hg, htimeout, rfl⟩ := Verdict.seq_eq_accepted hf
    obtain ⟨g', snapshot?, hg', -, rfl⟩ := Verdict.seq_eq_accepted hg
    obtain ⟨port, -, rfl⟩ := Verdict.map_eq_accepted hg'
    obtain ⟨hmax, hcount⟩ := variable_eq_accepted
      (fun _ _ h => Check.countText_eq_accepted_iff.1 h) standard_isPositiveInteger hmax
    obtain ⟨htimeout, hlimit⟩ := variable_eq_accepted
      (fun _ _ h => Check.timeoutText_eq_accepted_iff.1 h) standard_isPositiveFinite htimeout
    exact ⟨hmax, htimeout, hcount, hlimit⟩
  · cases h

/-- Settings that are not read name a variable. -/
theorem load_eq_error {env : Environment} {f : Failure} (h : load env = .error f) :
    ∃ i, f = invalid i := by
  unfold load at h
  split at h
  · cases h
  · next first others _ => exact ⟨first, (Except.error.inj h).symm⟩

end Config

/-! ## Tools -/

/-- The limits of a call are of some kinds. -/
def ToolCall.IsUnder (bounded limited : Binary64 → Prop) : ToolCall → Prop
  | .report limits => bounded limits.maxInstructions ∧ limited limits.timeoutSeconds
  | .disassemble _ count => bounded count
  | .decompile _ limit => limited limit
  | .rename _ _ => True
  | .retype _ _ => True

theorem ToolCall.IsUnder.imp {bounded limited bounded' limited' : Binary64 → Prop} {call : ToolCall}
    (h : call.IsUnder bounded limited) (hbounded : ∀ n, bounded n → bounded' n)
    (hlimited : ∀ t, limited t → limited' t) : call.IsUnder bounded' limited' := by
  cases call with
  | report limits => exact ⟨hbounded _ h.1, hlimited _ h.2⟩
  | disassemble address count => exact hbounded _ h
  | decompile address limit => exact hlimited _ h
  | rename address name => trivial
  | retype address type => trivial

namespace Tool

/-- The member of some arguments, where nothing stands for no members. -/
def givenMember? (key : String) (arguments : Json) : Option Json := (orEmpty arguments).get? key

/-- The number of instructions that the arguments of a tool give. -/
def givenCount? (arguments : Json) : Tool → Option Json
  | .report => givenMember? "maxInstructions" arguments
  | .disassemble => givenMember? "count" arguments
  | _ => none

/-- The time limit that the arguments of a tool give. -/
def givenTimeout? (arguments : Json) : Tool → Option Json
  | .report => givenMember? "timeoutSeconds" arguments
  | .decompile => givenMember? "timeoutSeconds" arguments
  | _ => none

variable {v : Json} {x : Binary64}

theorem countCheck_eq_accepted_iff :
    countCheck.run v = .accepted x ↔ v = .number x ∧ x.IsPositiveInteger ∧ x ≤ .ofNat maxCount := by
  have hrules : (∀ rule ∈ [Check.NumberRule.integer, .positive, .atMost maxCount], rule.holds x = true) ↔
      x.IsPositiveInteger ∧ x ≤ .ofNat maxCount := by
    rw [isPositiveInteger_iff]
    simp only [Config.countRules, List.mem_cons, List.not_mem_nil, or_false, forall_eq_or_imp,
      forall_eq, and_assoc]
    rfl
  show (Check.number _).run v = _ ↔ _
  rw [Check.number_eq_accepted_iff fun h => (hrules.1 h).1.isPositiveFinite, hrules]

/-- A limit of a call: what the arguments give, if it passes the check, or else a default. -/
def IsLimit (P : Binary64 → Prop) (given? : Option Json) (default x : Binary64) : Prop :=
  (given? = some (.number x) ∧ P x) ∨ (given? = none ∧ x = default)

theorem isLimit_getD {key : String} {c : Check Binary64} {ms : Check.Members}
    {x? : Option Binary64} {P : Binary64 → Prop}
    (hc : ∀ v x, c.run v = .accepted x → v = .number x ∧ P x) (default : Binary64)
    (h : Check.optional key c ms = .accepted x?) :
    IsLimit P (Json.lookup key ms) default (x?.getD default) := by
  rcases Check.optional_eq_accepted h with ⟨w, a, hw, ha, rfl⟩ | ⟨hmissing, rfl⟩
  · obtain ⟨rfl, hP⟩ := hc w a ha
    exact Or.inl ⟨hw, hP⟩
  · exact Or.inr ⟨hmissing, rfl⟩

theorem IsLimit.exists_of_given {P : Binary64 → Prop} {given? : Option Json} {default : Binary64}
    (h : IsLimit P given? default x) : ∀ v, given? = some v → ∃ n, v = .number n ∧ P n := by
  rintro v rfl
  rcases h with ⟨hgiven, hP⟩ | ⟨hnone, -⟩
  · exact ⟨x, Option.some.inj hgiven, hP⟩
  · cases hnone

/-- A number of instructions that clients may ask for. -/
def IsCount (n : Binary64) : Prop := n.IsPositiveInteger ∧ n ≤ .ofNat maxCount

/-- The limits that some arguments give are such as clients may give, and a call has those limits or
the default ones. -/
structure HasLimits (defaults : Limits) (t : Tool) (arguments : Json) (call : ToolCall) : Prop where
  count : ∀ v, t.givenCount? arguments = some v → ∃ n, v = .number n ∧ IsCount n
  timeout : ∀ v, t.givenTimeout? arguments = some v → ∃ n, v = .number n ∧ n.IsPositiveFinite
  isUnder : call.IsUnder (IsLimit IsCount (t.givenCount? arguments) defaults.maxInstructions)
    (IsLimit IsPositiveFinite (t.givenTimeout? arguments) defaults.timeoutSeconds)

/-- What a tool reads of its arguments has limits that have passed their checks. -/
theorem limits_of_read {defaults : Limits} {t : Tool} {arguments : Json} {call : ToolCall}
    (h : t.read defaults arguments = .accepted call) : HasLimits defaults t arguments call := by
  have hcount (v : Json) (x : Binary64) (hx : countCheck.run v = .accepted x) :=
    countCheck_eq_accepted_iff.1 hx
  have htimeout (v : Json) (x : Binary64) (hx : timeoutCheck.run v = .accepted x) :=
    Check.timeout_eq_accepted_iff.1 hx
  have hmember {key : String} {ms : Check.Members} (hms : orEmpty arguments = .object ms) :
      givenMember? key arguments = Json.lookup key ms := by
    rw [givenMember?, hms]
    rfl
  cases t with
  | report =>
    obtain ⟨ms, hms, hread⟩ := Check.record_eq_accepted h
    obtain ⟨f, timeout?, hf, htimeout?, rfl⟩ := Verdict.seq_eq_accepted hread
    obtain ⟨count?, hcount?, rfl⟩ := Verdict.map_eq_accepted hf
    have hmax := isLimit_getD hcount defaults.maxInstructions hcount?
    have hlimit := isLimit_getD htimeout defaults.timeoutSeconds htimeout?
    rw [← hmember hms] at hmax hlimit
    exact ⟨hmax.exists_of_given, hlimit.exists_of_given, hmax, hlimit⟩
  | disassemble =>
    obtain ⟨ms, hms, hread⟩ := Check.record_eq_accepted h
    obtain ⟨f, count?, hf, hcount?, rfl⟩ := Verdict.seq_eq_accepted hread
    obtain ⟨address, -, rfl⟩ := Verdict.map_eq_accepted hf
    have hmax := isLimit_getD hcount defaults.maxInstructions hcount?
    rw [← hmember hms] at hmax
    exact ⟨hmax.exists_of_given, nofun, hmax⟩
  | decompile =>
    obtain ⟨ms, hms, hread⟩ := Check.record_eq_accepted h
    obtain ⟨f, timeout?, hf, htimeout?, rfl⟩ := Verdict.seq_eq_accepted hread
    obtain ⟨address, -, rfl⟩ := Verdict.map_eq_accepted hf
    have hlimit := isLimit_getD htimeout defaults.timeoutSeconds htimeout?
    rw [← hmember hms] at hlimit
    exact ⟨nofun, hlimit.exists_of_given, hlimit⟩
  | rename =>
    obtain ⟨ms, -, hread⟩ := Check.record_eq_accepted h
    obtain ⟨f, name, hf, -, rfl⟩ := Verdict.seq_eq_accepted hread
    obtain ⟨address, -, rfl⟩ := Verdict.map_eq_accepted hf
    exact ⟨nofun, nofun, trivial⟩
  | retype =>
    obtain ⟨ms, -, hread⟩ := Check.record_eq_accepted h
    obtain ⟨f, name, hf, -, rfl⟩ := Verdict.seq_eq_accepted hread
    obtain ⟨address, -, rfl⟩ := Verdict.map_eq_accepted hf
    exact ⟨nofun, nofun, trivial⟩

end Tool

end BinaryReport
