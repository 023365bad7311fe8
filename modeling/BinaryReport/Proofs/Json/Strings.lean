import BinaryReport.Json.Printer
import BinaryReport.Json.Reader
import BinaryReport.Proofs.Text.Search
import Mathlib.Tactic.SplitIfs

/-!
# Strings in JSON

A written string is read back as it was (`readString_flatMap_escaped`), and a word of characters that
need no escape and are no part of one occurs in a written string exactly where it occurs in the
string itself (`isInfix_flatMap_escaped_iff`).

Both facts go through `escaped_cases`, the three ways of writing a character.
-/

namespace BinaryReport.Json

open Text

/-! ## Written characters -/

/-- The characters that follow the backslash of a short escape. -/
def shortMarks : List Char := ['"', '\\', 'b', 'f', 'n', 'r', 't']

/-- A character is written by a short escape, by its number, or as itself. -/
theorem escaped_cases (c : Char) :
    (∃ e ∈ shortMarks, escaped c = ['\\', e] ∧ shortEscape? e = some c) ∨
      (c.toNat < 0x20 ∧ escaped c = '\\' :: 'u' :: '0' :: '0' :: hexPair c.toNat) ∨
      (c ≠ '"' ∧ c ≠ '\\' ∧ ¬ c.toNat < 0x20 ∧ escaped c = [c]) := by
  unfold escaped
  split_ifs with h1 h2 h3 h4 h5 h6 h7 h8
  · exact Or.inl ⟨'"', by decide, rfl, by rw [h1]; rfl⟩
  · exact Or.inl ⟨'\\', by decide, rfl, by rw [h2]; rfl⟩
  · exact Or.inl ⟨'b', by decide, rfl, by rw [h3]; rfl⟩
  · exact Or.inl ⟨'f', by decide, rfl, by rw [h4]; rfl⟩
  · exact Or.inl ⟨'n', by decide, rfl, by rw [h5]; rfl⟩
  · exact Or.inl ⟨'r', by decide, rfl, by rw [h6]; rfl⟩
  · exact Or.inl ⟨'t', by decide, rfl, by rw [h7]; rfl⟩
  · exact Or.inr (Or.inl ⟨h8, rfl⟩)
  · exact Or.inr (Or.inr ⟨h1, h2, h8, rfl⟩)

/-! ## Reading back -/

theorem readString_short {e c : Char} (h : shortEscape? e = some c) (done rest : List Char) :
    readString none done ('\\' :: e :: rest) = readString none (c :: done) rest := by
  rw [readString.eq_def]
  split
  · next heq => exact absurd (List.cons.inj heq).1 (by decide)
  · next heq =>
    -- The long escape has no short form.
    obtain ⟨rfl, -⟩ := List.cons.inj (List.cons.inj heq).2
    cases h
  · next heq =>
    obtain ⟨rfl, rfl⟩ := List.cons.inj (List.cons.inj heq).2
    rw [h]
    rfl
  · next hshort heq =>
    obtain ⟨rfl, rfl⟩ := List.cons.inj heq
    exact absurd rfl (hshort e rest rfl)
  · next heq => cases heq

theorem hexUnit?_hexPair : ∀ n < 0x20,
    hexUnit? '0' '0' (Nat.digitChar (n / 16 % 16)) (Nat.digitChar (n % 16)) = some n := by
  decide

theorem readString_numbered {c : Char} (h : c.toNat < 0x20) (done rest : List Char) :
    readString none done ('\\' :: 'u' :: '0' :: '0' :: (hexPair c.toNat ++ rest)) =
      readString none (c :: done) rest := by
  have hlow : Utf16.isLow c.toNat = false := by simp [Utf16.isLow]; omega
  have hhigh : Utf16.isHigh c.toNat = false := by simp [Utf16.isHigh]; omega
  have hunit : Utf16.readUnit none done c.toNat = (none, c :: done) := by
    simp [Utf16.readUnit, hlow, hhigh]
  simp only [hexPair, List.cons_append, List.nil_append, readString, hexUnit?_hexPair c.toNat h,
    hunit]

theorem readString_plain {c : Char} (h1 : c ≠ '"') (h2 : c ≠ '\\') (h3 : ¬ c.toNat < 0x20)
    (done rest : List Char) :
    readString none done (c :: rest) = readString none (c :: done) rest := by
  rw [readString.eq_def]
  split
  · next h => exact absurd (List.cons.inj h).1 h1
  · next h => exact absurd (List.cons.inj h).1 h2
  · next h => exact absurd (List.cons.inj h).1 h2
  · next h =>
    obtain ⟨rfl, rfl⟩ := List.cons.inj h
    rw [if_neg h3]
    rfl
  · next h => cases h

theorem readString_escaped_append (c : Char) (done rest : List Char) :
    readString none done (escaped c ++ rest) = readString none (c :: done) rest := by
  rcases escaped_cases c with ⟨e, -, he, hc⟩ | ⟨hlt, he⟩ | ⟨h1, h2, h3, he⟩
  · rw [he]
    exact readString_short hc done rest
  · rw [he]
    exact readString_numbered hlt done rest
  · rw [he]
    exact readString_plain h1 h2 h3 done rest

/-- A written string is read back. -/
theorem readString_flatMap_escaped (s done rest : List Char) :
    readString none done (s.flatMap escaped ++ '"' :: rest) =
      some (String.ofList (done.reverse ++ s), rest) := by
  induction s generalizing done with
  | nil => simp [readString, Utf16.settle]
  | cons c s ih =>
    rw [List.flatMap_cons, List.append_assoc, readString_escaped_append, ih]
    simp

/-! ## Words in written strings -/

/-- A capital letter or an underscore. -/
def isCapital (c : Char) : Bool := c.isUpper || c = '_'

/-- A word of capital letters and underscores. No escape has any of them, so written strings show
the word as it is. -/
structure IsCapitalWord (word : List Char) : Prop where
  /-- The word is not empty. -/
  ne_nil : word ≠ []
  /-- Its characters are capital. -/
  capital : ∀ c ∈ word, isCapital c = true

section CapitalWord

variable {word : List Char}

theorem IsCapitalWord.notMem (h : IsCapitalWord word) {c : Char} (hc : isCapital c = false) :
    c ∉ word := by
  intro hmem
  rw [h.capital c hmem] at hc
  cases hc

/-- The word does not reach into a piece without capital characters. -/
theorem IsCapitalWord.isInfix_append_iff (h : IsCapitalWord word) {a : List Char}
    (ha : ∀ c ∈ a, isCapital c = false) (b : List Char) : word <:+: a ++ b ↔ word <:+: b :=
  isInfix_append_iff_of_disjoint h.ne_nil (fun c hc => h.notMem (ha c hc)) b

theorem IsCapitalWord.not_isInfix (h : IsCapitalWord word) {a : List Char}
    (ha : a.any isCapital = false) : ¬ word <:+: a := by
  intro hin
  rw [← List.append_nil a, h.isInfix_append_iff (Text.eq_false_of_any ha)] at hin
  exact h.ne_nil (List.infix_nil.1 hin)

theorem isCapital_digitChar : ∀ n < 16, isCapital (Nat.digitChar n) = false := by decide

theorem isCapital_of_control {c : Char} (h : c.toNat < 0x20) : isCapital c = false := by
  have hupper : ¬ 65 ≤ c.val := fun hle => by
    have : 65 ≤ c.toNat := UInt32.le_iff_toNat_le.1 hle
    omega
  have hline : c ≠ '_' := by
    rintro rfl
    exact absurd h (by decide)
  have hsmall : c.isUpper = false := decide_eq_false fun hbetween => hupper hbetween.1
  rw [isCapital, hsmall, Bool.false_or]
  exact decide_eq_false hline

/-- A capital character is written as itself, and an escape has no capital characters. -/
theorem escaped_cases_capital (c : Char) :
    (isCapital c = false ∧ escaped c ≠ [] ∧ ∀ d ∈ escaped c, isCapital d = false) ∨
      escaped c = [c] := by
  rcases escaped_cases c with ⟨e, hmem, he, hc⟩ | ⟨hlt, he⟩ | ⟨-, -, -, he⟩
  · left
    have hmark : isCapital e = false :=
      Text.eq_false_of_any (by decide : shortMarks.any isCapital = false) e hmem
    have hall : shortMarks.all (fun e => (shortEscape? e).all (isCapital · = false)) = true := by
      decide
    have hshort := List.all_eq_true.1 hall e hmem
    rw [hc] at hshort
    refine ⟨of_decide_eq_true hshort, by simp [he], fun d hd => ?_⟩
    rw [he] at hd
    rcases List.mem_cons.1 hd with rfl | hd
    · rfl
    · rw [List.mem_singleton.1 hd]
      exact hmark
  · left
    refine ⟨isCapital_of_control hlt, by simp [he], fun d hd => ?_⟩
    rw [he, hexPair] at hd
    simp only [List.mem_cons, List.not_mem_nil, or_false] at hd
    rcases hd with rfl | rfl | rfl | rfl | rfl | rfl
    · rfl
    · rfl
    · rfl
    · rfl
    · exact isCapital_digitChar _ (Nat.mod_lt _ (by decide))
    · exact isCapital_digitChar _ (Nat.mod_lt _ (by decide))
  · exact Or.inr he

/-- A written string begins with the word exactly if the string does. -/
theorem isPrefix_flatMap_escaped_iff {word : List Char} (h : ∀ c ∈ word, isCapital c = true)
    (s : List Char) : word <+: s.flatMap escaped ↔ word <+: s := by
  induction s generalizing word with
  | nil => simp
  | cons c s ih =>
    cases word with
    | nil => simp
    | cons w word =>
      have hw : isCapital w = true := h w List.mem_cons_self
      have htail := ih fun d hd => h d (List.mem_cons_of_mem w hd)
      rw [List.flatMap_cons]
      rcases escaped_cases_capital c with hc | hc
      · obtain ⟨hplain, hne, hall⟩ := hc
        obtain ⟨d, ds, hd⟩ := List.exists_cons_of_ne_nil hne
        have hdw : isCapital d = false := hall d (by rw [hd]; exact List.mem_cons_self)
        rw [hd, List.cons_append, List.cons_prefix_cons, List.cons_prefix_cons]
        constructor
        · rintro ⟨rfl, -⟩
          rw [hdw] at hw
          cases hw
        · rintro ⟨rfl, -⟩
          rw [hplain] at hw
          cases hw
      · rw [hc, List.singleton_append, List.cons_prefix_cons, List.cons_prefix_cons, htail]

/-- The word occurs in a written string exactly if it occurs in the string. -/
theorem isInfix_flatMap_escaped_iff (h : IsCapitalWord word) (s : List Char) :
    word <:+: s.flatMap escaped ↔ word <:+: s := by
  induction s with
  | nil => simp
  | cons c s ih =>
    rw [List.flatMap_cons]
    rcases escaped_cases_capital c with ⟨hplain, -, hall⟩ | hc
    · have hone : ∀ d ∈ [c], isCapital d = false := by
        intro d hd
        rw [List.mem_singleton.1 hd]
        exact hplain
      rw [h.isInfix_append_iff hall, ih, ← List.singleton_append, h.isInfix_append_iff hone]
    · have hprefix := isPrefix_flatMap_escaped_iff h.capital (c :: s)
      rw [List.flatMap_cons, hc] at hprefix
      rw [hc, List.singleton_append, List.infix_cons_iff, List.infix_cons_iff, ih,
        ← List.singleton_append, hprefix]

end CapitalWord

end BinaryReport.Json
