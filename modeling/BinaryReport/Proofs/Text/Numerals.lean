import BinaryReport.Proofs.Matching
import BinaryReport.Proofs.Text.Digits
import Mathlib.Data.Nat.Digits.Defs
import Mathlib.Tactic.Ring

/-!
# Numerals

A numeral is a text of one or more digits, letters in either case and any number of zeros in front
(`Text.IsNumeral`). It is specified by the values of its digits alone, and it is what reading digits
accepts, with the number that it denotes (`Text.readDigits?_eq_some_iff`).
-/

namespace BinaryReport.Text

/-- A character is the digit of a value in a base, in either case. -/
def IsDigit (base : Nat) (c : Char) (d : Nat) : Prop :=
  d < base ∧ (c = Nat.digitChar d ∨ c = (Nat.digitChar d).toUpper)

/-- A text is a numeral of a number: one or more digits, the last one counting once. -/
def IsNumeral (base : Nat) (cs : List Char) (n : Nat) : Prop :=
  cs ≠ [] ∧ ∃ ds, List.Forall₂ (IsDigit base) cs ds ∧ Nat.ofDigits base ds.reverse = n

theorem eq_ofNat_add {c : Char} {k d : Nat} (hk : k ≤ c.toNat) (hd : c.toNat - k = d) :
    c = Char.ofNat (k + d) := by
  have hsum : k + d = c.toNat := by omega
  rw [hsum, Char.ofNat_toNat]

theorem eq_digitChar_of_digitValue? {c : Char} {d : Nat} (hd : d < 16)
    (h : digitValue? c = some d) : c = Nat.digitChar d ∨ c = (Nat.digitChar d).toUpper := by
  have hdecimal : ∀ d < 10, Char.ofNat (48 + d) = Nat.digitChar d := by decide
  have hlower : ∀ d < 6, Char.ofNat (97 + d) = Nat.digitChar (d + 10) := by decide
  have hupper : ∀ d < 6, Char.ofNat (65 + d) = (Nat.digitChar (d + 10)).toUpper := by decide
  unfold digitValue? at h
  split_ifs at h with hdigit hlow hup
  · have hvalue : c.toNat - 48 = d := Option.some.inj h
    have hle : 48 ≤ c.toNat := hdigit.1
    have hle' : c.toNat ≤ 57 := hdigit.2
    left
    rw [eq_ofNat_add hle hvalue, hdecimal d (by omega)]
  · have hvalue : c.toNat - 97 + 10 = d := Option.some.inj h
    have hle : 97 ≤ c.toNat := hlow.1
    obtain ⟨k, rfl⟩ : ∃ k, d = k + 10 := ⟨c.toNat - 97, hvalue.symm⟩
    left
    rw [eq_ofNat_add hle (Nat.add_right_cancel hvalue), hlower k (by omega)]
  · have hvalue : c.toNat - 65 + 10 = d := Option.some.inj h
    have hle : 65 ≤ c.toNat := hup.1
    obtain ⟨k, rfl⟩ : ∃ k, d = k + 10 := ⟨c.toNat - 65, hvalue.symm⟩
    right
    rw [eq_ofNat_add hle (Nat.add_right_cancel hvalue), hupper k (by omega)]

section Base

variable {base : Nat} {cs : List Char} {ds : List Nat}

theorem isDigit_iff (hsmall : base ≤ 16) {c : Char} {d : Nat} :
    IsDigit base c d ↔ d < base ∧ digitValue? c = some d := by
  have hupper : ∀ d < 16, digitValue? (Nat.digitChar d).toUpper = some d := by decide
  constructor
  · rintro ⟨hd, rfl | rfl⟩
    · exact ⟨hd, digitValue?_digitChar (by omega)⟩
    · exact ⟨hd, hupper d (by omega)⟩
  · rintro ⟨hd, hvalue⟩
    exact ⟨hd, eq_digitChar_of_digitValue? (by omega) hvalue⟩

theorem isDigitOf_iff (hsmall : base ≤ 16) {c : Char} :
    isDigitOf base c = true ↔ ∃ d, IsDigit base c d := by
  simp only [isDigit_iff hsmall, isDigitOf]
  cases digitValue? c with
  | none => simp
  | some d => simp

theorem foldl_digits (hsmall : base ≤ 16) (h : List.Forall₂ (IsDigit base) cs ds) (start : Nat) :
    cs.foldl (fun n c => n * base + (digitValue? c).getD 0) start =
      start * base ^ ds.length + Nat.ofDigits base ds.reverse := by
  -- Each digit moves what was read before it up by one place.
  induction h generalizing start with
  | nil => simp
  | @cons c d cs ds hdigit _ ih =>
    obtain ⟨-, hvalue⟩ := (isDigit_iff hsmall).1 hdigit
    rw [List.foldl_cons, hvalue, Option.getD_some, ih, List.reverse_cons, Nat.ofDigits_append,
      Nat.ofDigits_singleton, List.length_cons, List.length_reverse]
    ring

theorem ofDigits_eq_of_digits (hsmall : base ≤ 16) (h : List.Forall₂ (IsDigit base) cs ds) :
    ofDigits base cs = Nat.ofDigits base ds.reverse := by
  have hfold := foldl_digits hsmall h 0
  rwa [Nat.zero_mul, Nat.zero_add] at hfold

/-- What is read as digits is exactly the numerals. -/
theorem readDigits?_eq_some_iff (hsmall : base ≤ 16) {n : Nat} :
    readDigits? base cs = some n ↔ IsNumeral base cs n := by
  have hread : readDigits? base cs = some n ↔
      cs ≠ [] ∧ (∀ c ∈ cs, ∃ d, IsDigit base c d) ∧ ofDigits base cs = n := by
    simp only [← isDigitOf_iff hsmall]
    unfold readDigits?
    by_cases hempty : cs = []
    · simp [hempty]
    · simp [hempty]
  rw [hread]
  constructor
  · rintro ⟨hne, hall, hn⟩
    obtain ⟨ds, hdigits⟩ := Matching.exists_forall₂ hall
    exact ⟨hne, ds, hdigits, (ofDigits_eq_of_digits hsmall hdigits).symm.trans hn⟩
  · rintro ⟨hne, ds, hdigits, hn⟩
    refine ⟨hne, fun c hc => ?_, (ofDigits_eq_of_digits hsmall hdigits).trans hn⟩
    obtain ⟨d, -, hdigit⟩ := Matching.exists_of_mem_left hdigits hc
    exact ⟨d, hdigit⟩

theorem isNumeral_toDigits (hbase : 1 < base) (hsmall : base ≤ 16) (n : Nat) :
    IsNumeral base (Nat.toDigits base n) n :=
  (readDigits?_eq_some_iff hsmall).1 (readDigits?_toDigits hbase hsmall n)

/-- Zeros in front of a numeral do not change the number. -/
theorem IsNumeral.replicate_zero {n : Nat} (h : IsNumeral base cs n) (hbase : 0 < base) (k : Nat) :
    IsNumeral base (List.replicate k '0' ++ cs) n := by
  induction k with
  | zero => exact h
  | succ k ih =>
    obtain ⟨-, ds, hdigits, hn⟩ := ih
    refine ⟨List.cons_ne_nil '0' _, 0 :: ds, .cons ⟨hbase, Or.inl rfl⟩ hdigits, ?_⟩
    rw [List.reverse_cons, Nat.ofDigits_append, Nat.ofDigits_singleton, Nat.mul_zero, Nat.add_zero, hn]

/-- A property of the digits of a base holds throughout a numeral. -/
theorem IsNumeral.forall_mem {n : Nat} (h : IsNumeral base cs n) {P : Char → Prop}
    (hdigits : ∀ d < base, P (Nat.digitChar d) ∧ P (Nat.digitChar d).toUpper) : ∀ c ∈ cs, P c := by
  obtain ⟨-, ds, hmatch, -⟩ := h
  intro c hc
  obtain ⟨d, -, hd, rfl | rfl⟩ := Matching.exists_of_mem_left hmatch hc
  · exact (hdigits d hd).1
  · exact (hdigits d hd).2

theorem IsNumeral.notBlank {n : Nat} (h : IsNumeral base cs n) (hsmall : base ≤ 16) :
    ∀ c ∈ cs, isBlank c = false := by
  have hall : ∀ d < 16, isBlank (Nat.digitChar d) = false ∧
      isBlank (Nat.digitChar d).toUpper = false := by decide
  exact h.forall_mem fun d hd => hall d (by omega)

end Base

end BinaryReport.Text
