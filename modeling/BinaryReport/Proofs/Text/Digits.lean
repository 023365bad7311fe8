import BinaryReport.Address.Basic

/-!
# Written digits

The digits of a number are read back as the number that was written, in any base up to sixteen
(`Text.readDigits?_toDigits`), so different addresses are written differently.
-/

namespace BinaryReport

namespace Text

theorem digitValue?_digitChar {d : Nat} (h : d < 16) : digitValue? (Nat.digitChar d) = some d := by
  have hall : ∀ d < 16, digitValue? (Nat.digitChar d) = some d := by decide
  exact hall d h

theorem ofDigits_concat (base : Nat) (cs : List Char) (c : Char) :
    ofDigits base (cs ++ [c]) = ofDigits base cs * base + (digitValue? c).getD 0 := by
  unfold ofDigits
  rw [List.foldl_append]
  rfl

section Base

variable {base : Nat}

/-- Digits that are written are read back. -/
theorem ofDigits_toDigits (hbase : 1 < base) (hsmall : base ≤ 16) (n : Nat) :
    ofDigits base (Nat.toDigits base n) = n := by
  induction n using Nat.strongRecOn with
  | ind n ih =>
    by_cases hlt : n < base
    · have hdigit := digitValue?_digitChar (Nat.lt_of_lt_of_le hlt hsmall)
      have hone := ofDigits_concat base [] (Nat.digitChar n)
      rw [hdigit] at hone
      rw [Nat.toDigits_of_lt_base hlt]
      simpa [ofDigits] using hone
    · have hge : base ≤ n := Nat.le_of_not_lt hlt
      have hrem : n % base < base := Nat.mod_lt n (by omega)
      have hdigit := digitValue?_digitChar (Nat.lt_of_lt_of_le hrem hsmall)
      have hrest := ih (n / base) (Nat.div_lt_self (by omega) hbase)
      rw [Nat.toDigits_of_base_le hbase hge, ofDigits_concat, hrest, hdigit]
      exact Nat.div_add_mod' n base

theorem toDigits_ne_nil (hbase : 1 < base) (n : Nat) : Nat.toDigits base n ≠ [] := by
  by_cases hlt : n < base
  · simp [Nat.toDigits_of_lt_base hlt]
  · simp [Nat.toDigits_of_base_le hbase (Nat.le_of_not_lt hlt)]

theorem exists_digitChar_of_mem_toDigits (hbase : 1 < base) {n : Nat} {c : Char}
    (h : c ∈ Nat.toDigits base n) : ∃ d < base, c = Nat.digitChar d := by
  induction n using Nat.strongRecOn with
  | ind n ih =>
    by_cases hlt : n < base
    · rw [Nat.toDigits_of_lt_base hlt] at h
      exact ⟨n, hlt, List.mem_singleton.1 h⟩
    · have hge : base ≤ n := Nat.le_of_not_lt hlt
      rw [Nat.toDigits_of_base_le hbase hge] at h
      rcases List.mem_append.1 h with hrest | hlast
      · exact ih (n / base) (Nat.div_lt_self (by omega) hbase) hrest
      · exact ⟨n % base, Nat.mod_lt n (by omega), List.mem_singleton.1 hlast⟩

/-- Written digits are digits, so the whole text is read. -/
theorem readDigits?_toDigits (hbase : 1 < base) (hsmall : base ≤ 16) (n : Nat) :
    readDigits? base (Nat.toDigits base n) = some n := by
  have hdigits : (Nat.toDigits base n).all (isDigitOf base) = true := by
    rw [List.all_eq_true]
    intro c hc
    obtain ⟨d, hd, rfl⟩ := exists_digitChar_of_mem_toDigits hbase hc
    simp [isDigitOf, digitValue?_digitChar (Nat.lt_of_lt_of_le hd hsmall), hd]
  have hnonempty : (Nat.toDigits base n).isEmpty = false := by simp [toDigits_ne_nil hbase n]
  simp [readDigits?, hdigits, hnonempty, ofDigits_toDigits hbase hsmall]

end Base

theorem ofDigits_hexDigits (n : Nat) : ofDigits 16 (hexDigits n) = n :=
  ofDigits_toDigits (by decide) (by decide) n

theorem exists_digitChar_of_mem_hexDigits {n : Nat} {c : Char} (h : c ∈ hexDigits n) :
    ∃ d < 16, c = Nat.digitChar d :=
  exists_digitChar_of_mem_toDigits (by decide) h

end Text

theorem Address.offset_injective : Function.Injective Address.offset :=
  fun _ _ => congrArg Address.mk

theorem Address.canonical_inj {a b : Address} : a.canonical = b.canonical ↔ a = b := by
  refine ⟨fun h => ?_, fun h => by rw [h]⟩
  have hchars := congrArg String.toList h
  unfold canonical at hchars
  rw [String.toList_ofList, String.toList_ofList] at hchars
  have hdigits : Text.hexDigits a.offset = Text.hexDigits b.offset :=
    (List.cons.inj (List.cons.inj hchars).2).2
  have hoffset := congrArg (Text.ofDigits 16) hdigits
  rw [Text.ofDigits_hexDigits, Text.ofDigits_hexDigits] at hoffset
  exact Address.offset_injective hoffset

end BinaryReport
