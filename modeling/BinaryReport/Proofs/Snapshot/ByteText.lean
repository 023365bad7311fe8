import BinaryReport.Proofs.Text.Numerals
import BinaryReport.Proofs.Text.Words
import BinaryReport.Snapshot.Schema

/-!
# Byte texts

The bytes of a text are pairs of hexadecimal digits with blanks between them (`DenotesBytes`), and they
are read from exactly these texts (`readHexBytes?_eq_some_iff`). A pair in lower case is what the byte is
written as (`IsHexPair.map_toLower`).
-/

namespace BinaryReport

open Text

/-! ## Pairs of digits -/

/-- Two hexadecimal digits, in either case, denote a byte. -/
def IsHexPair (pair : List Char) (n : Nat) : Prop := pair.length = 2 ∧ IsNumeral 16 pair n

variable {pair : List Char} {n : Nat}

theorem readHexPair?_eq_some_iff : readHexPair? pair = some n ↔ IsHexPair pair n := by
  unfold readHexPair? IsHexPair
  split_ifs with hlength
  · rw [readDigits?_eq_some_iff (by decide)]
    exact (and_iff_right hlength).symm
  · exact iff_of_false nofun fun h => hlength h.1

theorem isHexPair_iff : IsHexPair pair n ↔
    ∃ c c' d d', pair = [c, c'] ∧ IsDigit 16 c d ∧ IsDigit 16 c' d' ∧ n = 16 * d + d' := by
  constructor
  · rintro ⟨hlength, -, ds, hdigits, rfl⟩
    obtain ⟨c, c', rfl⟩ := List.length_eq_two.1 hlength
    obtain ⟨d, _, hd, hrest, rfl⟩ := List.forall₂_cons_left_iff.1 hdigits
    obtain ⟨d', _, hd', hnil, rfl⟩ := List.forall₂_cons_left_iff.1 hrest
    obtain rfl := List.forall₂_nil_left_iff.1 hnil
    refine ⟨c, c', d, d', rfl, hd, hd', ?_⟩
    simp [Nat.ofDigits_cons, Nat.add_comm]
  · rintro ⟨c, c', d, d', rfl, hd, hd', rfl⟩
    refine ⟨rfl, List.cons_ne_nil c _, [d, d'], .cons hd (.cons hd' .nil), ?_⟩
    simp [Nat.ofDigits_cons, Nat.add_comm]

theorem isHexPair_hexPair (h : n < 256) : IsHexPair (hexPair n) n := by
  have hdigit (m : Nat) : IsDigit 16 (Nat.digitChar (m % 16)) (m % 16) :=
    ⟨Nat.mod_lt m (by decide), Or.inl rfl⟩
  refine isHexPair_iff.2 ⟨_, _, _, _, rfl, hdigit (n / 16), hdigit n, ?_⟩
  omega

theorem IsHexPair.lt (h : IsHexPair pair n) : n < 256 := by
  obtain ⟨c, c', d, d', -, ⟨hd, -⟩, ⟨hd', -⟩, rfl⟩ := isHexPair_iff.1 h
  omega

/-- A byte is written as its pair of digits in lower case. -/
theorem IsHexPair.map_toLower (h : IsHexPair pair n) : pair.map Char.toLower = hexPair n := by
  have hlower {c : Char} {d : Nat} (hd : IsDigit 16 c d) : c.toLower = Nat.digitChar d := by
    have hall : ∀ d < 16, (Nat.digitChar d).toLower = Nat.digitChar d ∧
        (Nat.digitChar d).toUpper.toLower = Nat.digitChar d := by decide
    obtain ⟨hlt, rfl | rfl⟩ := hd
    · exact (hall d hlt).1
    · exact (hall d hlt).2
  obtain ⟨c, c', d, d', rfl, hd, hd', rfl⟩ := isHexPair_iff.1 h
  have hhigh : (16 * d + d') / 16 % 16 = d := by
    have hlt := hd.1
    have hlt' := hd'.1
    omega
  have hlow : (16 * d + d') % 16 = d' := by
    have hlt' := hd'.1
    omega
  rw [List.map_cons, List.map_cons, List.map_nil, hlower hd, hlower hd', hexPair, hhigh, hlow]

theorem IsHexPair.isWord (h : IsHexPair pair n) : IsWord pair :=
  ⟨h.2.1, h.2.notBlank (Nat.le_refl 16)⟩

/-! ## Texts -/

variable {text : String}

/-- A text consists of one or more pairs of digits, which denote bytes, and of blanks. -/
def DenotesBytes (text : String) (pairs : List (List Char)) (ns : List Nat) : Prop :=
  Spaced text.toList pairs ∧ pairs ≠ [] ∧ List.Forall₂ IsHexPair pairs ns

theorem readHexBytes?_eq_some_iff {ns : List Nat} :
    readHexBytes? text = some ns ↔ ∃ pairs, DenotesBytes text pairs ns := by
  have hread {pairs : List (List Char)} :
      pairs.mapM readHexPair? = some ns ↔ List.Forall₂ IsHexPair pairs ns :=
    Matching.mapM_eq_some_iff fun _ _ => readHexPair?_eq_some_iff
  unfold readHexBytes?
  constructor
  · intro h
    split at h
    · cases h
    · next pairs hpairs => exact ⟨_, spaced_words text.toList, hpairs, hread.1 h⟩
  · rintro ⟨pairs, hspaced, hne, hpairs⟩
    rw [words_of_spaced hspaced]
    split
    · exact absurd rfl hne
    · exact hread.2 hpairs

namespace ByteText

theorem exists_denotesBytes (b : ByteText) : ∃ pairs, DenotesBytes b.text pairs b.bytes :=
  readHexBytes?_eq_some_iff.1 (Option.some_get b.readable).symm

theorem length_bytes_pos (b : ByteText) : 1 ≤ b.bytes.length := by
  obtain ⟨pairs, -, hne, hpairs⟩ := b.exists_denotesBytes
  rw [← hpairs.length_eq]
  exact List.length_pos_of_ne_nil hne

theorem accepts_iff : (∃ b, check.run (.string text) = .accepted b ∧ b.text = text) ↔
    ∃ pairs ns, DenotesBytes text pairs ns := by
  constructor
  · rintro ⟨b, -, rfl⟩
    obtain ⟨pairs, hpairs⟩ := b.exists_denotesBytes
    exact ⟨pairs, _, hpairs⟩
  · rintro ⟨pairs, ns, hpairs⟩
    have hread : (readHexBytes? text).isSome = true := by
      rw [readHexBytes?_eq_some_iff.2 ⟨pairs, hpairs⟩]
      rfl
    exact ⟨⟨text, hread⟩, dif_pos hread, rfl⟩

end ByteText

end BinaryReport
