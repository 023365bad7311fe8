import BinaryReport.Proofs.Text.Numerals
import BinaryReport.Proofs.Text.Search
import BinaryReport.Proofs.Text.Words

/-!
# The grammar of addresses

A text of an address is a numeral in base sixteen with blanks around it. In front of the digits there
may be a mark of the base, and in front of that the name of a space and a colon
(`AddressSpace.Denotes`). Reading accepts exactly these texts (`AddressSpace.readParts?_eq_some_iff`).
A zero in front can be a digit or belong to a mark, but no digit is the second half of a mark
(`AddressSpace.dropBaseMark_append`). Letters in front can be digits or a name, and a colon, which is
neither, tells which.
-/

namespace BinaryReport

open Text

/-! ## Identifiers -/

namespace Text

theorem toNat_of_isWordChar {c : Char} (h : isWordChar c = true) :
    48 ≤ c.toNat ∧ c.toNat ≤ 57 ∨ 65 ≤ c.toNat ∧ c.toNat ≤ 90 ∨ c.toNat = 95 ∨
      97 ≤ c.toNat ∧ c.toNat ≤ 122 := by
  unfold isWordChar Char.isAlphanum Char.isAlpha Char.isUpper Char.isLower Char.isDigit at h
  simp only [Bool.or_eq_true, Bool.and_eq_true, decide_eq_true_eq, UInt32.le_iff_toNat_le,
    ge_iff_le] at h
  rcases h with ((⟨hle, hle'⟩ | ⟨hle, hle'⟩) | ⟨hle, hle'⟩) | rfl
  · exact Or.inr (Or.inl ⟨hle, hle'⟩)
  · exact Or.inr (Or.inr (Or.inr ⟨hle, hle'⟩))
  · exact Or.inl ⟨hle, hle'⟩
  · exact Or.inr (Or.inr (Or.inl rfl))

theorem isBlank_of_isWordChar {c : Char} (h : isWordChar c = true) : isBlank c = false := by
  have hrange := toNat_of_isWordChar h
  simp only [isBlank, blankRanges, List.any_cons, List.any_nil, Bool.or_false, Bool.or_eq_false_iff,
    Bool.and_eq_false_iff, decide_eq_false_iff_not]
  omega

end Text

namespace AddressSpace

theorem isWordChar_of_mem_identifier {word : List Char} (h : isIdentifier word = true) {c : Char}
    (hc : c ∈ word) : isWordChar c = true := by
  cases word with
  | nil => cases hc
  | cons first rest =>
    simp only [isIdentifier, Bool.and_eq_true, List.all_eq_true] at h
    obtain ⟨hfirst, hrest⟩ := h
    rcases List.mem_cons.1 hc with rfl | hc
    · unfold isWordStart at hfirst
      unfold isWordChar Char.isAlphanum
      rcases Bool.or_eq_true_iff.1 hfirst with h | h
      · simp [h]
      · simp [h]
    · exact hrest c hc

/-! ## Grammar -/

/-- What may stand in front of digits to mark them as digits in base sixteen. -/
def marks : List (List Char) := [[], ['0', 'x'], ['0', 'X']]

/-- What stands in front of an offset: the name of a space and a colon, if a space is named. -/
def front : Option String → List Char
  | none => []
  | some space => space.toList ++ [':']

/-- A text consists of the name of a space, if one is named, and of a numeral for an offset. -/
def Denotes (cs : List Char) (space? : Option String) (offset : Nat) : Prop :=
  ∃ before mark digits after, cs = before ++ (front space? ++ (mark ++ digits)) ++ after ∧
    AreBlank before ∧ (∀ space ∈ space?, isIdentifier space.toList = true) ∧ mark ∈ marks ∧
    IsNumeral 16 digits offset ∧ AreBlank after

/-! ## Marks and names -/

variable {cs mark digits rest : List Char} {n : Nat}

theorem exists_mark (cs : List Char) : ∃ mark ∈ marks, cs = mark ++ dropBaseMark cs := by
  unfold dropBaseMark
  split
  · exact ⟨['0', 'x'], by decide, rfl⟩
  · exact ⟨['0', 'X'], by decide, rfl⟩
  · exact ⟨[], by decide, rfl⟩

theorem plain_of_isNumeral (h : IsNumeral 16 digits n) {c : Char} (hc : c ∈ digits) :
    c ≠ ':' ∧ c ≠ 'x' ∧ c ≠ 'X' := by
  have hall : ∀ d < 16,
      (Nat.digitChar d ≠ ':' ∧ Nat.digitChar d ≠ 'x' ∧ Nat.digitChar d ≠ 'X') ∧
      ((Nat.digitChar d).toUpper ≠ ':' ∧ (Nat.digitChar d).toUpper ≠ 'x' ∧
        (Nat.digitChar d).toUpper ≠ 'X') := by
    decide
  exact h.forall_mem (P := fun c => c ≠ ':' ∧ c ≠ 'x' ∧ c ≠ 'X') hall c hc

theorem plain_of_mem_marks (h : mark ∈ marks) {c : Char} (hc : c ∈ mark) :
    isBlank c = false ∧ c ≠ ':' := by
  have hall : (marks.all fun mark => mark.all fun c => !isBlank c && decide (c ≠ ':')) = true := by
    decide
  have hmark := List.all_eq_true.1 (List.all_eq_true.1 hall mark h) c hc
  simpa using hmark

/-- The mark of a numeral is dropped, and no digits are. -/
theorem dropBaseMark_append (hmark : mark ∈ marks) (hdigits : IsNumeral 16 digits n) :
    dropBaseMark (mark ++ digits) = digits := by
  simp only [marks, List.mem_cons, List.not_mem_nil, or_false] at hmark
  rcases hmark with rfl | rfl | rfl
  -- Without a mark nothing is taken for one, since the second character is a digit, too.
  · rw [List.nil_append]
    unfold dropBaseMark
    split
    · exact absurd rfl (plain_of_isNumeral hdigits (by simp)).2.1
    · exact absurd rfl (plain_of_isNumeral hdigits (by simp)).2.2
    · rfl
  · rfl
  · rfl

theorem splitSpace_of_notMem (h : ':' ∉ cs) : splitSpace cs = (none, cs) := by
  have hnone : cs.dropWhile (· ≠ ':') = [] := by
    rw [List.dropWhile_eq_nil_iff]
    intro c hc
    exact decide_eq_true fun heq => h (heq ▸ hc)
  rw [splitSpace, hnone]

theorem splitSpace_append {name : List Char} (h : ':' ∉ name) (rest : List Char) :
    splitSpace (name ++ ':' :: rest) = (some name, rest) := by
  have hname : ∀ c ∈ name, decide (c ≠ ':') = true := fun c hc =>
    decide_eq_true fun heq => h (heq ▸ hc)
  have hrest : ∀ c ∈ (':' :: rest).head?, decide (c ≠ ':') = false := by simp
  obtain ⟨htake, hdrop⟩ := span_append hname hrest
  rw [splitSpace, htake, hdrop]

theorem exists_front (cs : List Char) :
    ∃ space? rest, cs = front space? ++ rest ∧ splitSpace cs = (space?.map String.toList, rest) := by
  by_cases hmem : ':' ∈ cs
  · obtain ⟨name, rest, rfl, hname⟩ := List.eq_append_cons_of_mem hmem
    refine ⟨some (String.ofList name), rest, ?_, ?_⟩
    · rw [front, String.toList_ofList, List.append_assoc, List.singleton_append]
    · rw [splitSpace_append hname, Option.map_some, String.toList_ofList]
  · exact ⟨none, cs, rfl, splitSpace_of_notMem hmem⟩

section Front

variable {space? : Option String} (hspace : ∀ space ∈ space?, isIdentifier space.toList = true)

include hspace

theorem splitSpace_front (hrest : ':' ∉ rest) :
    splitSpace (front space? ++ rest) = (space?.map String.toList, rest) := by
  cases space? with
  | none => exact splitSpace_of_notMem hrest
  | some space =>
    have hcolon : ':' ∉ space.toList := by
      intro hmem
      exact absurd (isWordChar_of_mem_identifier (hspace space rfl) hmem) (by decide)
    rw [front, List.append_assoc, List.singleton_append]
    exact splitSpace_append hcolon rest

theorem notBlank_front : ∀ c ∈ front space?, isBlank c = false := by
  cases space? with
  | none => exact nofun
  | some space =>
    intro c hc
    rcases List.mem_append.1 hc with hc | hc
    · exact isBlank_of_isWordChar (isWordChar_of_mem_identifier (hspace space rfl) hc)
    · obtain rfl := List.mem_singleton.1 hc
      decide

end Front

/-! ## Reading -/

variable {text : String} {space? : Option String}

/-- The name of a space must be an identifier, and the rest digits, apart from a mark. -/
theorem readParts?_of_splitSpace {named? : Option String}
    (hsplit : splitSpace (trimChars text.toList) = (named?.map String.toList, rest)) :
    readParts? text = some (space?, n) ↔ named? = space? ∧
      (∀ space ∈ named?, isIdentifier space.toList = true) ∧ IsNumeral 16 (dropBaseMark rest) n := by
  have hall : (named?.map String.toList).all isIdentifier = true ↔
      ∀ space ∈ named?, isIdentifier space.toList = true := by
    cases named? with
    | none => simp
    | some named => simp
  have hname : (named?.map String.toList).map String.ofList = named? := by
    simp [Function.comp_def]
  unfold readParts?
  rw [hsplit]
  dsimp only
  rw [hname, ← readDigits?_eq_some_iff (by decide : 16 ≤ 16)]
  constructor
  · intro h
    split at h
    · next hidentifier =>
      obtain ⟨offset, hdigits, hparts⟩ := Option.map_eq_some_iff.1 h
      obtain ⟨rfl, rfl⟩ := Prod.mk.inj hparts
      exact ⟨rfl, hall.1 hidentifier, hdigits⟩
    · cases h
  · rintro ⟨rfl, hidentifier, hdigits⟩
    rw [if_pos (hall.2 hidentifier), hdigits]
    rfl

/-- A text is read exactly if it follows the grammar, and then as the parts it consists of. -/
theorem readParts?_eq_some_iff :
    readParts? text = some (space?, n) ↔ Denotes text.toList space? n := by
  constructor
  · intro h
    obtain ⟨before, after, hbefore, hafter, htext⟩ := exists_trimChars text.toList
    obtain ⟨named?, rest, htrim, hsplit⟩ := exists_front (trimChars text.toList)
    obtain ⟨rfl, hspace, hdigits⟩ := (readParts?_of_splitSpace hsplit).1 h
    obtain ⟨mark, hmark, hrest⟩ := exists_mark rest
    refine ⟨before, mark, _, after, ?_, hbefore, hspace, hmark, hdigits, hafter⟩
    rw [← hrest, ← htrim]
    exact htext
  · rintro ⟨before, mark, digits, after, htext, hbefore, hspace, hmark, hdigits, hafter⟩
    have hnumeral : ∀ c ∈ mark ++ digits, isBlank c = false ∧ c ≠ ':' := by
      intro c hc
      rcases List.mem_append.1 hc with hc | hc
      · exact plain_of_mem_marks hmark hc
      · exact ⟨hdigits.notBlank (Nat.le_refl 16) c hc, (plain_of_isNumeral hdigits hc).1⟩
    have hblank : ∀ c ∈ front space? ++ (mark ++ digits), isBlank c = false := by
      intro c hc
      rcases List.mem_append.1 hc with hc | hc
      · exact notBlank_front hspace c hc
      · exact (hnumeral c hc).1
    have hcolon : ':' ∉ mark ++ digits := fun hmem => (hnumeral _ hmem).2 rfl
    -- There are no blanks but those around, and there is no colon but the one behind the name.
    have htrim : trimChars text.toList = front space? ++ (mark ++ digits) := by
      rw [htext, trimChars_surrounded hbefore hafter hblank]
    have hsplit := splitSpace_front hspace hcolon
    rw [← htrim] at hsplit
    refine (readParts?_of_splitSpace hsplit).2 ⟨rfl, hspace, ?_⟩
    rw [dropBaseMark_append hmark hdigits]
    exact hdigits

/-- A text has one reading only. -/
theorem Denotes.unique {space'? : Option String} {m : Nat}
    (h : Denotes text.toList space? n) (h' : Denotes text.toList space'? m) :
    space? = space'? ∧ n = m := by
  have hsame := (readParts?_eq_some_iff.2 h).symm.trans (readParts?_eq_some_iff.2 h')
  exact Prod.mk.inj (Option.some.inj hsame)

end AddressSpace

end BinaryReport
