import BinaryReport.Proofs.Binary64.Rounding
import Mathlib.Algebra.Order.Field.Power
import Mathlib.Order.WithBot
import Mathlib.Tactic.FieldSimp
import Mathlib.Tactic.Positivity

/-!
# The order of rounded numbers

Rounding keeps the order of numbers that are not negative (`round_mono`). Numbers with one binary
exponent are rounded on one grid, and between numbers with different exponents there is a power of two,
which lies on both grids: rounding crosses nothing that lies on the grid (`le_onGrid`, `onGrid_le`).

So natural numbers keep their order (`ofNat_mono`), and small integers bound the same numbers before
and after rounding (`le_round`, `round_le`).
-/

namespace BinaryReport.Binary64

/-! ## Comparison -/

/-- Where a number stands among the rationals and the infinities. -/
def place : Binary64 → WithBot (WithTop Rat)
  | .finite q => ((q : WithTop Rat) : WithBot (WithTop Rat))
  | .infinite true => ⊥
  | .infinite false => ((⊤ : WithTop Rat) : WithBot (WithTop Rat))
  | .nan => ⊥

theorem place_lt_top (q : Rat) : (Binary64.finite q).place < (Binary64.infinite false).place :=
  WithBot.coe_lt_coe.2 (WithTop.coe_lt_top q)

theorem lt_iff_place {a b : Binary64} : a < b ↔ a ≠ .nan ∧ b ≠ .nan ∧ a.place < b.place := by
  show a.lt b = true ↔ _
  rcases a with p | (_ | _) | _ <;> rcases b with q | (_ | _) | _
  case finite.infinite.false => simp [lt, place_lt_top]
  all_goals simp [lt, place]

theorem le_iff_place {a b : Binary64} : a ≤ b ↔ a ≠ .nan ∧ b ≠ .nan ∧ a.place ≤ b.place := by
  show a.le b = true ↔ _
  rcases a with p | (_ | _) | _ <;> rcases b with q | (_ | _) | _ <;> simp [le, place]

protected theorem le_trans {a b c : Binary64} (hab : a ≤ b) (hbc : b ≤ c) : a ≤ c := by
  obtain ⟨ha, -, hab⟩ := le_iff_place.1 hab
  obtain ⟨-, hc, hbc⟩ := le_iff_place.1 hbc
  exact le_iff_place.2 ⟨ha, hc, hab.trans hbc⟩

protected theorem le_refl {a : Binary64} (h : a ≠ .nan) : a ≤ a := le_iff_place.2 ⟨h, h, le_rfl⟩

protected theorem lt_of_le_of_lt {a b c : Binary64} (hab : a ≤ b) (hbc : b < c) : a < c := by
  obtain ⟨ha, -, hab⟩ := le_iff_place.1 hab
  obtain ⟨-, hc, hbc⟩ := lt_iff_place.1 hbc
  exact lt_iff_place.2 ⟨ha, hc, hab.trans_lt hbc⟩

protected theorem lt_of_lt_of_le {a b c : Binary64} (hab : a < b) (hbc : b ≤ c) : a < c := by
  obtain ⟨ha, -, hab⟩ := lt_iff_place.1 hab
  obtain ⟨-, hc, hbc⟩ := le_iff_place.1 hbc
  exact lt_iff_place.2 ⟨ha, hc, hab.trans_le hbc⟩

theorem ne_nan_of_le {a b : Binary64} (h : a ≤ b) : a ≠ .nan ∧ b ≠ .nan :=
  ⟨(le_iff_place.1 h).1, (le_iff_place.1 h).2.1⟩

theorem not_lt_iff_le {a b : Binary64} (ha : a ≠ .nan) (hb : b ≠ .nan) : ¬ a < b ↔ b ≤ a := by
  rw [lt_iff_place, le_iff_place]
  simp [ha, hb]

theorem finite_le_finite_iff {p q : Rat} : Binary64.finite p ≤ .finite q ↔ p ≤ q := decide_eq_true_iff

/-- What lies between finite numbers is finite. -/
theorem exists_finite_between {x : Binary64} {a b : Rat} (ha : .finite a ≤ x) (hb : x ≤ .finite b) :
    ∃ q, x = .finite q ∧ a ≤ q ∧ q ≤ b := by
  cases x with
  | finite q => exact ⟨q, rfl, finite_le_finite_iff.1 ha, finite_le_finite_iff.1 hb⟩
  | infinite negative =>
    cases negative
    · cases hb
    · cases ha
  | nan => cases ha

/-! ## Exponents -/

theorem powerOfTwo_eq_zpow (e : Int) : powerOfTwo e = (2 : Rat) ^ e := by
  unfold powerOfTwo
  split
  · next h =>
    obtain ⟨n, rfl⟩ := Int.eq_ofNat_of_zero_le h
    rw [Int.toNat_natCast, zpow_natCast]
  · next h =>
    obtain ⟨n, hn⟩ := Int.eq_ofNat_of_zero_le (by omega : 0 ≤ -e)
    rw [hn, Int.toNat_natCast, ← neg_neg e, hn, zpow_neg, zpow_natCast, one_div]

theorem exactLimit_eq_zpow : ((exactLimit : Nat) : Rat) = (2 : Rat) ^ (53 : Int) := by
  norm_num [exactLimit]

/-- A positive number by the exponents of its numerator and its denominator. -/
theorem zpow_guess {a d : Nat} (ha : 0 < a) (hd : 0 < d) :
    (2 : Rat) ^ ((a.log2 : Int) - d.log2 - 1) < (a : Rat) / d ∧
      (a : Rat) / d < (2 : Rat) ^ ((a.log2 : Int) - d.log2 + 1) := by
  have hdpos : (0 : Rat) < d := Nat.cast_pos.2 hd
  have halow : ((2 : Rat) ^ a.log2) ≤ a := by
    exact_mod_cast Nat.log2_self_le (Nat.pos_iff_ne_zero.1 ha)
  have hahigh : (a : Rat) < 2 ^ (a.log2 + 1) := by exact_mod_cast Nat.lt_log2_self
  have hdlow : ((2 : Rat) ^ d.log2) ≤ d := by
    exact_mod_cast Nat.log2_self_le (Nat.pos_iff_ne_zero.1 hd)
  have hdhigh : (d : Rat) < 2 ^ (d.log2 + 1) := by exact_mod_cast Nat.lt_log2_self
  have hlow : (2 : Rat) ^ ((a.log2 : Int) - d.log2 - 1) * 2 ^ (d.log2 + 1) = 2 ^ a.log2 := by
    rw [← zpow_natCast, ← zpow_natCast, ← zpow_add₀ two_ne_zero]
    congr 1
    push_cast
    ring
  have hhigh : (2 : Rat) ^ ((a.log2 : Int) - d.log2 + 1) * 2 ^ d.log2 = 2 ^ (a.log2 + 1) := by
    rw [← zpow_natCast, ← zpow_natCast, ← zpow_add₀ two_ne_zero]
    congr 1
    push_cast
    ring
  constructor
  · rw [lt_div_iff₀ hdpos]
    calc (2 : Rat) ^ ((a.log2 : Int) - d.log2 - 1) * d
        < 2 ^ ((a.log2 : Int) - d.log2 - 1) * 2 ^ (d.log2 + 1) :=
          mul_lt_mul_of_pos_left hdhigh (zpow_pos two_pos _)
      _ = 2 ^ a.log2 := hlow
      _ ≤ a := halow
  · rw [div_lt_iff₀ hdpos]
    calc (a : Rat) < 2 ^ (a.log2 + 1) := hahigh
      _ = 2 ^ ((a.log2 : Int) - d.log2 + 1) * 2 ^ d.log2 := hhigh.symm
      _ ≤ 2 ^ ((a.log2 : Int) - d.log2 + 1) * d :=
          mul_le_mul_of_nonneg_left hdlow (le_of_lt (zpow_pos two_pos _))

/-- The binary exponent is that of the greatest power of two up to the number. -/
theorem zpow_binaryExponent {q : Rat} (h : 0 < q) :
    (2 : Rat) ^ binaryExponent q ≤ q ∧ q < (2 : Rat) ^ (binaryExponent q + 1) := by
  have hnum : 0 < q.num.natAbs := Int.natAbs_pos.2 (ne_of_gt (Rat.num_pos.2 h))
  have hq : (q.num.natAbs : Rat) / q.den = q := by
    have hcast : ((q.num.natAbs : Int) : Rat) = q.num := by
      rw [Int.natAbs_of_nonneg (le_of_lt (Rat.num_pos.2 h))]
    rw [← Int.cast_natCast q.num.natAbs, hcast]
    exact Rat.num_div_den q
  obtain ⟨hlow, hhigh⟩ := zpow_guess hnum q.den_pos
  rw [hq] at hlow hhigh
  unfold binaryExponent
  dsimp only
  rw [powerOfTwo_eq_zpow, Rat.abs_of_nonneg (le_of_lt h)]
  split
  · next hle => exact ⟨hle, hhigh⟩
  · next hlt =>
    rw [sub_add_cancel]
    exact ⟨le_of_lt hlow, not_le.1 hlt⟩

theorem binaryExponent_mono {p q : Rat} (hp : 0 < p) (h : p ≤ q) :
    binaryExponent p ≤ binaryExponent q := by
  have hlow := (zpow_binaryExponent hp).1
  have hhigh := (zpow_binaryExponent (hp.trans_le h)).2
  have hlt := (zpow_lt_zpow_iff_right₀ (one_lt_two : (1 : Rat) < 2)).1 ((hlow.trans h).trans_lt hhigh)
  omega

/-! ## Rounding on a grid -/

/-- The exponent of the distance of the representable numbers about `q`. -/
def gridExponent (q : Rat) : Int := max (binaryExponent q - 52) (-1074)

theorem spacing_eq_zpow (q : Rat) : spacing q = (2 : Rat) ^ gridExponent q := powerOfTwo_eq_zpow _

theorem spacing_pos (q : Rat) : 0 < spacing q := by
  rw [spacing_eq_zpow]
  exact zpow_pos two_pos _

/-- A number is on the grid of the representable numbers about `q`. -/
def IsOnGrid (q x : Rat) : Prop := ∃ k : Int, x = k * spacing q

theorem isOnGrid_zpow {q : Rat} {e : Int} (h : gridExponent q ≤ e) : IsOnGrid q (2 ^ e) := by
  obtain ⟨n, hn⟩ := Int.eq_ofNat_of_zero_le (sub_nonneg.2 h)
  refine ⟨2 ^ n, ?_⟩
  rw [spacing_eq_zpow, Int.cast_pow, Int.cast_ofNat, ← zpow_natCast, ← hn, ← zpow_add₀ two_ne_zero,
    sub_add_cancel]

theorem isOnGrid_natCast {q : Rat} (n : Nat) (h : gridExponent q ≤ 0) : IsOnGrid q n := by
  obtain ⟨k, hk⟩ := isOnGrid_zpow h
  rw [zpow_zero] at hk
  refine ⟨n * k, ?_⟩
  rw [Int.cast_mul, Int.cast_natCast, mul_assoc, ← hk, mul_one]

/-- The representable number next to `q`, on the grid of its exponent alone. -/
def onGrid (q : Rat) : Rat := nearestEven (q / spacing q) * spacing q

theorem le_onGrid {q x : Rat} (hx : IsOnGrid q x) (h : x ≤ q) : x ≤ onGrid q := by
  obtain ⟨k, rfl⟩ := hx
  have hquotient : (k : Rat) ≤ q / spacing q := (le_div_iff₀ (spacing_pos q)).2 h
  exact mul_le_mul_of_nonneg_right (Int.cast_le.2 (le_nearestEven hquotient))
    (le_of_lt (spacing_pos q))

theorem onGrid_le {q x : Rat} (hx : IsOnGrid q x) (h : q ≤ x) : onGrid q ≤ x := by
  obtain ⟨k, rfl⟩ := hx
  have hquotient : q / spacing q ≤ k := (div_le_iff₀ (spacing_pos q)).2 h
  exact mul_le_mul_of_nonneg_right (Int.cast_le.2 (nearestEven_le hquotient))
    (le_of_lt (spacing_pos q))

theorem onGrid_nonneg {q : Rat} (h : 0 ≤ q) : 0 ≤ onGrid q :=
  le_onGrid ⟨0, by rw [Int.cast_zero, zero_mul]⟩ h

theorem nearestEven_mono {p q : Rat} (h : p ≤ q) : nearestEven p ≤ nearestEven q := by
  rcases lt_or_eq_of_le (Rat.floor_monotone h) with hlt | heq
  · calc nearestEven p ≤ p.floor + 1 := nearestEven_le (le_of_lt (Rat.lt_floor_add_one p))
      _ ≤ q.floor := hlt
      _ ≤ nearestEven q := floor_le_nearestEven q
  · -- Both numbers have the same neighbours, and the greater one is no nearer to the lower one.
    unfold nearestEven
    dsimp only
    rw [heq]
    split_ifs
    all_goals first | omega | (exfalso; linarith)

theorem onGrid_mono {p q : Rat} (hp : 0 ≤ p) (h : p ≤ q) : onGrid p ≤ onGrid q := by
  rcases eq_or_lt_of_le hp with rfl | hpos
  · have hzero : onGrid 0 ≤ 0 := onGrid_le ⟨0, by rw [Int.cast_zero, zero_mul]⟩ le_rfl
    exact hzero.trans (onGrid_nonneg h)
  have hexp := binaryExponent_mono hpos h
  by_cases hgrid : gridExponent p = gridExponent q
  · have hspacing : spacing p = spacing q := by rw [spacing_eq_zpow, spacing_eq_zpow, hgrid]
    have hquotient : p / spacing p ≤ q / spacing q := by
      rw [hspacing]
      exact div_le_div_of_nonneg_right h (le_of_lt (spacing_pos q))
    unfold onGrid
    rw [hspacing] at hquotient ⊢
    exact mul_le_mul_of_nonneg_right (Int.cast_le.2 (nearestEven_mono hquotient))
      (le_of_lt (spacing_pos q))
  · -- The power of two below `q` lies between the two numbers, on both grids.
    unfold gridExponent at hgrid
    have hlt : binaryExponent p + 1 ≤ binaryExponent q := by omega
    have hbelow : p ≤ (2 : Rat) ^ binaryExponent q :=
      (le_of_lt (zpow_binaryExponent hpos).2).trans (zpow_le_zpow_right₀ one_le_two hlt)
    have habove := (zpow_binaryExponent (hpos.trans_le h)).1
    calc onGrid p ≤ 2 ^ binaryExponent q :=
          onGrid_le (isOnGrid_zpow (by unfold gridExponent; omega)) hbelow
      _ ≤ onGrid q := le_onGrid (isOnGrid_zpow (by unfold gridExponent; omega)) habove

/-- Integers that need no rounding lie on their grid. -/
theorem onGrid_natCast {n : Nat} (h : n ≤ exactLimit) : onGrid n = n := by
  have hself : IsOnGrid n n := by
    by_cases hpos : 0 < n
    · rcases Nat.lt_or_eq_of_le h with hlt | rfl
      · have hlog : n.log2 < 53 := (Nat.log2_lt (Nat.pos_iff_ne_zero.1 hpos)).2 hlt
        refine isOnGrid_natCast n ?_
        rw [gridExponent, binaryExponent_natCast hpos]
        omega
      · have hlog : exactLimit.log2 = 53 := by decide
        have hgrid : gridExponent (exactLimit : Nat) ≤ 53 := by
          rw [gridExponent, binaryExponent_natCast hpos, hlog]
          omega
        have hon := isOnGrid_zpow hgrid
        rwa [← exactLimit_eq_zpow] at hon
    · obtain rfl := Nat.eq_zero_of_not_pos hpos
      exact ⟨0, by simp⟩
  exact le_antisymm (onGrid_le hself le_rfl) (le_onGrid hself le_rfl)

/-! ## Rounding -/

theorem round_of_nonneg {q : Rat} (h : 0 ≤ q) :
    round q = if onGrid q < powerOfTwo 1024 then .finite (onGrid q) else .infinite false := by
  unfold round
  split
  · next hexact =>
    obtain ⟨hden, hnum⟩ := hexact
    have hq : ((q.num.natAbs : Nat) : Rat) = q := by
      have hcast : ((q.num.natAbs : Int) : Rat) = q.num := by
        rw [Int.natAbs_of_nonneg (Rat.num_nonneg.2 h)]
      rw [← Int.cast_natCast, hcast]
      exact Rat.den_eq_one_iff q |>.1 hden
    have hon : onGrid q = q := by
      rw [← hq]
      exact onGrid_natCast hnum
    have hsmall : q < powerOfTwo 1024 := by
      calc q = ((q.num.natAbs : Nat) : Rat) := hq.symm
        _ ≤ (exactLimit : Nat) := Nat.cast_le.2 hnum
        _ < powerOfTwo 1024 := by
          rw [powerOfTwo_eq_zpow, exactLimit_eq_zpow]
          exact zpow_lt_zpow_right₀ one_lt_two (by decide)
    rw [hon, if_pos hsmall]
  · show (if (onGrid q).abs < powerOfTwo 1024 then _ else _) = _
    rw [Rat.abs_of_nonneg (onGrid_nonneg h), decide_eq_false (not_lt.2 h)]
    rfl

theorem round_ne_nan {q : Rat} (h : 0 ≤ q) : round q ≠ .nan := by
  rw [round_of_nonneg h]
  split <;> exact nofun

/-- Rounding keeps the order. -/
theorem round_mono {p q : Rat} (hp : 0 ≤ p) (h : p ≤ q) : round p ≤ round q := by
  have hon := onGrid_mono hp h
  rw [round_of_nonneg hp, round_of_nonneg (hp.trans h)]
  split_ifs with hsmall _ hlarge
  · exact finite_le_finite_iff.2 hon
  · exact rfl
  · exact absurd (hon.trans_lt hlarge) hsmall
  · exact rfl

theorem ofNat_mono {m n : Nat} (h : m ≤ n) : ofNat m ≤ ofNat n :=
  round_mono (Nat.cast_nonneg m) (Nat.cast_le.2 h)

theorem ofNat_ne_nan (n : Nat) : ofNat n ≠ .nan := round_ne_nan (Nat.cast_nonneg n)

/-- A number above a small integer is not rounded below it. -/
theorem le_round {n : Nat} {q : Rat} (hn : n ≤ exactLimit) (h : n ≤ q) : .finite n ≤ round q := by
  rw [← round_natCast_of_le hn]
  exact round_mono (Nat.cast_nonneg n) h

/-- A number below a small integer is not rounded above it. -/
theorem round_le {n : Nat} {q : Rat} (hn : n ≤ exactLimit) (hq : 0 ≤ q) (h : q ≤ n) :
    round q ≤ .finite n := by
  rw [← round_natCast_of_le hn]
  exact round_mono hq h

/-- A number between small integers is rounded to one between them. -/
theorem exists_round_between {m n : Nat} {q : Rat} (hn : n ≤ exactLimit) (hm : m ≤ q) (hq : q ≤ n) :
    ∃ r, round q = .finite r ∧ m ≤ r ∧ r ≤ n := by
  have hmn : m ≤ n := Nat.cast_le.1 (hm.trans hq)
  exact exists_finite_between (le_round (hmn.trans hn) hm)
    (round_le hn ((Nat.cast_nonneg m).trans hm) hq)

end BinaryReport.Binary64
