import BinaryReport.Proofs.Json.Pretty

/-!
# Words in pretty text

A word of capital letters and underscores occurs in the pretty text of a value exactly if a string
of the value has it (`Legible.isInfix_prettyChars_iff`): the layout around the strings has no such
characters, so no occurrence reaches from one string into another, and escaping neither makes nor
hides one.
-/

namespace BinaryReport.Json

open Text

variable {word : List Char}

/-- A string or a key of the value has the word. -/
inductive Mentions (word : List Char) : Json → Prop where
  /-- The value is a string that has the word. -/
  | string {s : String} (h : word <:+: s.toList) : Mentions word (.string s)
  /-- An item mentions the word. -/
  | item {items : List Json} {v : Json} (hmem : v ∈ items) (h : Mentions word v) :
    Mentions word (.array items)
  /-- A key has the word. -/
  | key {members : List (String × Json)} {m : String × Json} (hmem : m ∈ members)
    (h : word <:+: m.1.toList) : Mentions word (.object members)
  /-- The value of a member mentions the word. -/
  | value {members : List (String × Json)} {m : String × Json} (hmem : m ∈ members)
    (h : Mentions word m.2) : Mentions word (.object members)

theorem mentions_string_iff {s : String} : Mentions word (.string s) ↔ word <:+: s.toList :=
  ⟨fun h => by cases h; assumption, .string⟩

theorem mentions_array_iff {items : List Json} :
    Mentions word (.array items) ↔ ∃ v ∈ items, Mentions word v := by
  constructor
  · intro h
    cases h with
    | item hmem h => exact ⟨_, hmem, h⟩
  · rintro ⟨v, hmem, h⟩
    exact .item hmem h

theorem mentions_object_iff {members : List (String × Json)} :
    Mentions word (.object members) ↔
      ∃ m ∈ members, word <:+: m.1.toList ∨ Mentions word m.2 := by
  constructor
  · intro h
    cases h with
    | key hmem h => exact ⟨_, hmem, Or.inl h⟩
    | value hmem h => exact ⟨_, hmem, Or.inr h⟩
  · rintro ⟨m, hmem, h | h⟩
    · exact .key hmem h
    · exact .value hmem h

theorem not_mentions_null : ¬ Mentions word .null := nofun

theorem not_mentions_bool (b : Bool) : ¬ Mentions word (.bool b) := nofun

/-! ## The pieces of a pretty text -/

theorem isCapital_of_isSeparator {c : Char} (h : isSeparator c = true) : isCapital c = false := by
  simp only [isSeparator, Bool.or_eq_true, decide_eq_true_eq] at h
  rcases h with ((rfl | rfl) | rfl) | rfl <;> rfl

theorem isCapital_of_mem_lineBreak {level : Nat} {c : Char} (h : c ∈ lineBreak level) :
    isCapital c = false :=
  isCapital_of_isSeparator (isSeparator_of_mem_lineBreak h)

/-- The word is in one of two pieces, if the second begins with no capital character. -/
theorem IsCapitalWord.isInfix_append_iff_or (h : IsCapitalWord word) {c : Char}
    (hc : isCapital c = false) (a b : List Char) :
    word <:+: a ++ c :: b ↔ word <:+: a ∨ word <:+: c :: b := by
  have hone : ∀ d ∈ [c], isCapital d = false := by
    intro d hd
    rw [List.mem_singleton.1 hd]
    exact hc
  have htail := h.isInfix_append_iff hone b
  rw [List.singleton_append] at htail
  rw [isInfix_append_cons_iff (h.notMem hc), htail]

theorem IsCapitalWord.isInfix_cons_iff (h : IsCapitalWord word) {c : Char}
    (hc : isCapital c = false) (b : List Char) : word <:+: c :: b ↔ word <:+: b := by
  have hcons := h.isInfix_append_iff_or hc [] b
  have hone := isInfix_append_cons_iff (h.notMem hc) [] b
  rw [List.nil_append] at hcons hone
  rw [hone]
  exact or_iff_right fun hnil => h.ne_nil (List.infix_nil.1 hnil)

theorem IsCapitalWord.isInfix_lineBreak_append_iff (h : IsCapitalWord word) (level : Nat)
    (b : List Char) : word <:+: lineBreak level ++ b ↔ word <:+: b :=
  h.isInfix_append_iff (fun _ hc => isCapital_of_mem_lineBreak hc) b

theorem IsCapitalWord.isInfix_quoted_iff (h : IsCapitalWord word) (s : String) :
    word <:+: quoted s ↔ word <:+: s.toList := by
  have hlast : ¬ word <:+: ['"'] := h.not_isInfix (by decide)
  rw [quoted, List.cons_append, h.isInfix_cons_iff rfl, h.isInfix_append_iff_or rfl,
    or_iff_left hlast, isInfix_flatMap_escaped_iff h]

theorem exists_prettyItems (level : Nat) (items : List Json) :
    ∃ c cs, prettyItems level items = c :: cs ∧ isCapital c = false := by
  cases items with
  | nil => exact ⟨'\n', _, rfl, rfl⟩
  | cons item items => exact ⟨',', _, rfl, rfl⟩

theorem exists_prettyMembers (level : Nat) (members : List (String × Json)) :
    ∃ c cs, prettyMembers level members = c :: cs ∧ isCapital c = false := by
  cases members with
  | nil => exact ⟨'\n', _, rfl, rfl⟩
  | cons m members => exact ⟨',', _, rfl, rfl⟩

/-! ## Pretty text -/

/-- The pretty text of the value shows the word exactly if the value mentions it. -/
def Shows (word : List Char) (v : Json) : Prop :=
  ∀ level, word <:+: prettyChars level v ↔ Mentions word v

/-- An item before the rest of its array. -/
theorem isInfix_append_prettyItems_iff (hword : IsCapitalWord word) (level : Nat) (a : List Char)
    (items : List Json) : word <:+: a ++ prettyItems level items ↔
      word <:+: a ∨ word <:+: prettyItems level items := by
  obtain ⟨c, cs, hcs, hc⟩ := exists_prettyItems level items
  rw [hcs]
  exact hword.isInfix_append_iff_or hc a cs

theorem isInfix_prettyItems_iff (hword : IsCapitalWord word) (level : Nat) {items : List Json}
    (h : ∀ v ∈ items, Shows word v) :
    word <:+: prettyItems level items ↔ ∃ v ∈ items, Mentions word v := by
  induction items with
  | nil =>
    have hclose : ¬ word <:+: [']'] := hword.not_isInfix (by decide)
    rw [prettyItems, hword.isInfix_lineBreak_append_iff]
    simpa using hclose
  | cons item items ih =>
    have hrest := ih fun v hv => h v (List.mem_cons_of_mem item hv)
    have hitem := h item List.mem_cons_self (level + 1)
    rw [prettyItems, List.cons_append, List.cons_append, hword.isInfix_cons_iff rfl,
      List.append_assoc, hword.isInfix_lineBreak_append_iff,
      isInfix_append_prettyItems_iff hword, hitem, hrest]
    simp only [List.mem_cons, exists_eq_or_imp]

theorem shows_array (hword : IsCapitalWord word) {items : List Json}
    (h : ∀ v ∈ items, Shows word v) : Shows word (.array items) := by
  intro level
  rw [mentions_array_iff, ← isInfix_prettyItems_iff hword level h]
  cases items with
  | nil =>
    have hopen : ¬ word <:+: ['[', ']'] := hword.not_isInfix (by decide)
    have hclose : ¬ word <:+: [']'] := hword.not_isInfix (by decide)
    rw [prettyItems, hword.isInfix_lineBreak_append_iff]
    exact iff_of_false hopen hclose
  | cons item items =>
    rw [prettyChars, prettyItems, List.cons_append, List.cons_append, List.cons_append,
      List.cons_append, hword.isInfix_cons_iff rfl, hword.isInfix_cons_iff rfl]

/-- The value of a member before the rest of its object. -/
theorem isInfix_append_prettyMembers_iff (hword : IsCapitalWord word) (level : Nat)
    (a : List Char) (members : List (String × Json)) :
    word <:+: a ++ prettyMembers level members ↔
      word <:+: a ∨ word <:+: prettyMembers level members := by
  obtain ⟨c, cs, hcs, hc⟩ := exists_prettyMembers level members
  rw [hcs]
  exact hword.isInfix_append_iff_or hc a cs

theorem isInfix_prettyMembers_iff (hword : IsCapitalWord word) (level : Nat)
    {members : List (String × Json)} (h : ∀ m ∈ members, Shows word m.2) :
    word <:+: prettyMembers level members ↔
      ∃ m ∈ members, word <:+: m.1.toList ∨ Mentions word m.2 := by
  induction members with
  | nil =>
    have hclose : ¬ word <:+: ['\x7d'] := hword.not_isInfix (by decide)
    rw [prettyMembers, hword.isInfix_lineBreak_append_iff]
    simpa using hclose
  | cons m members ih =>
    have hrest := ih fun n hn => h n (List.mem_cons_of_mem m hn)
    have hvalue := h m List.mem_cons_self (level + 1)
    have hmember : prettyMembers level (m :: members) = ',' :: (lineBreak (level + 1) ++
        (quoted m.1 ++ ':' :: ' ' :: (prettyChars (level + 1) m.2 ++
          prettyMembers level members))) := by
      simp only [prettyMembers, List.cons_append, List.append_assoc]
    rw [hmember, hword.isInfix_cons_iff rfl, hword.isInfix_lineBreak_append_iff,
      hword.isInfix_append_iff_or rfl, hword.isInfix_quoted_iff, hword.isInfix_cons_iff rfl,
      hword.isInfix_cons_iff rfl, isInfix_append_prettyMembers_iff hword, hvalue, hrest]
    simp only [List.mem_cons, exists_eq_or_imp, or_assoc]

theorem shows_object (hword : IsCapitalWord word) {members : List (String × Json)}
    (h : ∀ m ∈ members, Shows word m.2) : Shows word (.object members) := by
  intro level
  rw [mentions_object_iff, ← isInfix_prettyMembers_iff hword level h]
  cases members with
  | nil =>
    have hopen : ¬ word <:+: ['\x7b', '\x7d'] := hword.not_isInfix (by decide)
    have hclose : ¬ word <:+: ['\x7d'] := hword.not_isInfix (by decide)
    rw [prettyMembers, hword.isInfix_lineBreak_append_iff]
    exact iff_of_false hopen hclose
  | cons m members =>
    simp only [prettyChars, prettyMembers, List.cons_append]
    rw [hword.isInfix_cons_iff rfl, hword.isInfix_cons_iff rfl]

/-- The pretty text of a legible value shows the word exactly if the value mentions it. -/
theorem Legible.isInfix_prettyChars_iff (hword : IsCapitalWord word) {v : Json} (h : Legible v)
    (level : Nat) : word <:+: prettyChars level v ↔ Mentions word v := by
  suffices hshows : Shows word v from hshows level
  induction h with
  | null =>
    have hnull : ¬ word <:+: "null".toList := hword.not_isInfix (by decide)
    exact fun _ => iff_of_false hnull not_mentions_null
  | bool b =>
    intro level
    have hbool : ¬ word <:+: atom (.bool b) := by
      cases b with
      | false => exact hword.not_isInfix (by decide)
      | true => exact hword.not_isInfix (by decide)
    exact iff_of_false hbool (not_mentions_bool b)
  | string s =>
    intro level
    rw [mentions_string_iff, ← hword.isInfix_quoted_iff]
    rfl
  | array _ ih => exact shows_array hword ih
  | object _ _ ih => exact shows_object hword ih

end BinaryReport.Json
