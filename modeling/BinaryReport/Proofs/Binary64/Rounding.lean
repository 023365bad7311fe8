import BinaryReport.Binary64.Basic
import Mathlib.Data.Rat.Floor
import Mathlib.Tactic.Linarith
import Mathlib.Tactic.NormNum

/-!
# Rounding of counts

A count is a positive whole number or the positive infinity (`IsCount`). Rounding keeps counts: the
representable numbers above `exactLimit` are whole, and rounding does not lead back below it
(`round_natCast_of_lt`). So products of counts are counts (`IsCount.mul`).

Taking one off a count is exact up to `exactLimit` (`sub_one_of_le`), and above it stays there
(`sub_one_of_lt`). It does not lead from a finite count to the infinity (`sub_one_of_isRounded`): what
was rounded once is representable, and smaller numbers are not rounded beyond it. Above the limit the
one that is taken off a representable number is lost, or two are taken off: numbers that lie two apart
there are rounded to the even neighbour (`sub_one_of_isRepresentable`).
-/

namespace BinaryReport.Binary64

/-- A positive whole number, or more than any. -/
inductive IsCount : Binary64 → Prop where
  /-- A positive whole number. -/
  | finite {n : Nat} (h : 0 < n) : IsCount (.finite n)
  /-- More than any number. -/
  | infinite : IsCount (.infinite false)

/-! ## Rounding whole numbers -/

theorem round_natCast_of_le {n : Nat} (h : n ≤ exactLimit) : round n = .finite n :=
  ofNat_eq h

theorem powerOfTwo_natCast (k : Nat) : powerOfTwo k = ((2 ^ k : Nat) : Rat) := by
  have hnonneg : (0 : Int) ≤ k := Int.natCast_nonneg k
  rw [powerOfTwo, if_pos hnonneg, Int.toNat_natCast, Nat.cast_pow, Nat.cast_ofNat]

theorem binaryExponent_natCast {n : Nat} (h : 0 < n) : binaryExponent (n : Rat) = n.log2 := by
  have hguess : ((n : Rat).num.natAbs.log2 : Int) - (n : Rat).den.log2 = n.log2 := by
    rw [Rat.num_natCast, Rat.den_natCast, Int.natAbs_natCast]
    have hone : Nat.log2 1 = 0 := by decide
    rw [hone]
    omega
  have hle : powerOfTwo n.log2 ≤ (n : Rat).abs := by
    have hpow : 2 ^ n.log2 ≤ n := Nat.log2_self_le (Nat.pos_iff_ne_zero.1 h)
    rw [powerOfTwo_natCast, Rat.abs_of_nonneg (Nat.cast_nonneg n)]
    exact Nat.cast_le.2 hpow
  simp only [binaryExponent, hguess]
  rw [if_pos hle]

theorem floor_le_nearestEven (q : Rat) : q.floor ≤ nearestEven q := by
  unfold nearestEven
  dsimp only
  split_ifs
  · exact le_rfl
  · omega
  · exact le_rfl
  · omega

theorem le_nearestEven {q : Rat} {n : Int} (h : (n : Rat) ≤ q) : n ≤ nearestEven q := by
  have hfloor : n ≤ q.floor := Rat.le_floor_iff.2 h
  exact hfloor.trans (floor_le_nearestEven q)

theorem nearestEven_le {q : Rat} {n : Int} (h : q ≤ n) : nearestEven q ≤ n := by
  have hfloor : q.floor ≤ n := by
    have hcast : ((q.floor : Int) : Rat) ≤ n := (Rat.floor_le q).trans h
    exact_mod_cast hcast
  have hnext : (0 : Rat) < q - q.floor → q.floor + 1 ≤ n := by
    intro hrest
    have hlt : ((q.floor : Int) : Rat) < n := by linarith
    exact_mod_cast hlt
  unfold nearestEven
  dsimp only
  split_ifs with hbelow habove heven
  · exact hfloor
  · exact hnext (by linarith)
  · exact hfloor
  · exact hnext (by linarith)

theorem nearestEven_add {low : Int} {rest : Rat} (h0 : 0 ≤ rest) (h1 : rest < 1) :
    nearestEven (low + rest) =
      if rest < 1 / 2 then low else if 1 / 2 < rest then low + 1
        else if low % 2 = 0 then low else low + 1 := by
  have hfloor : ((low : Rat) + rest).floor = low := by
    refine le_antisymm ?_ (Rat.le_floor_iff.2 (by linarith))
    have hcast : ((((low : Rat) + rest).floor : Int) : Rat) < ((low + 1 : Int) : Rat) := by
      have hle := Rat.floor_le ((low : Rat) + rest)
      push_cast
      linarith
    exact Int.lt_add_one_iff.1 (by exact_mod_cast hcast)
  unfold nearestEven
  dsimp only
  rw [hfloor, add_sub_cancel_left]

/-- A whole number with a small part taken off goes back up, unless it is odd and the part is a half. -/
theorem nearestEven_sub_inv {k u : Nat} (hk : 0 < k) (hu : 2 ≤ u) :
    nearestEven ((k : Rat) - 1 / u) = ((if u = 2 ∧ k % 2 = 1 then k - 1 else k : Nat) : Int) := by
  have hpos : (0 : Rat) < u := Nat.cast_pos.2 (by omega)
  have hsmall : (1 : Rat) / u ≤ 1 / 2 := by
    rw [div_le_div_iff₀ hpos (by norm_num)]
    have hcast : ((2 : Nat) : Rat) ≤ u := Nat.cast_le.2 hu
    push_cast at hcast
    linarith
  have hinv : (0 : Rat) < 1 / u := by positivity
  have hsplit : (k : Rat) - 1 / u = ((k - 1 : Nat) : Int) + (1 - 1 / u) := by
    rw [Int.cast_natCast, Nat.cast_pred hk]
    ring
  rw [hsplit, nearestEven_add (by linarith) (by linarith), if_neg (by linarith)]
  by_cases htwo : u = 2
  · subst htwo
    have hhalf : ¬ (1 : Rat) / 2 < 1 - 1 / (2 : Nat) := by norm_num
    rw [if_neg hhalf]
    split_ifs <;> omega
  · have habove : (1 : Rat) / 2 < 1 - 1 / u := by
      have hlt : (1 : Rat) / u < 1 / 2 := by
        rw [div_lt_div_iff₀ hpos (by norm_num)]
        have hcast : ((2 : Nat) : Rat) < u := Nat.cast_lt.2 (by omega)
        push_cast at hcast
        linarith
      linarith
    rw [if_pos habove, if_neg (fun h => htwo h.1)]
    omega

/-- The 53 significant bits of a number above the limit leave it whole. -/
theorem spacing_natCast {n : Nat} (h : exactLimit < n) :
    spacing (n : Rat) = ((2 ^ (n.log2 - 52) : Nat) : Rat) := by
  have hlog : 53 ≤ n.log2 := (Nat.le_log2 (by omega)).2 (le_of_lt h)
  have hmax : max ((n.log2 : Int) - 52) (-1074) = ((n.log2 - 52 : Nat) : Int) := by omega
  rw [spacing, binaryExponent_natCast (by omega), hmax, powerOfTwo_natCast]

/-- The rounding of a whole number above the limit, by its significand. -/
theorem round_eq_of_nearestEven {n k : Nat} (h : exactLimit < n)
    (hk : nearestEven (n / ((2 ^ (n.log2 - 52) : Nat) : Rat)) = k) :
    round n = if k * 2 ^ (n.log2 - 52) < 2 ^ 1024 then .finite (k * 2 ^ (n.log2 - 52) : Nat)
      else .infinite false := by
  have hnot : ¬ ((n : Rat).den = 1 ∧ (n : Rat).num.natAbs ≤ exactLimit) := by
    rw [Rat.num_natCast, Int.natAbs_natCast]
    omega
  have hsign : ¬ (n : Rat) < 0 := not_lt.2 (Nat.cast_nonneg n)
  have hvalue : (nearestEven (n / spacing n) : Rat) * spacing n =
      ((k * 2 ^ (n.log2 - 52) : Nat) : Rat) := by
    rw [spacing_natCast h, hk]
    push_cast
    rfl
  have hlimit : ((k * 2 ^ (n.log2 - 52) : Nat) : Rat).abs < powerOfTwo 1024 ↔
      k * 2 ^ (n.log2 - 52) < 2 ^ 1024 := by
    have hpower : powerOfTwo 1024 = ((2 ^ 1024 : Nat) : Rat) := powerOfTwo_natCast 1024
    rw [hpower, Rat.abs_of_nonneg (Nat.cast_nonneg _), Nat.cast_lt]
  unfold round
  rw [if_neg hnot]
  dsimp only
  rw [hvalue, decide_eq_false hsign]
  exact if_congr hlimit rfl rfl

/-- The rounding of a whole number above the limit: its significand has at least 53 bits, and is not
above any whole number that bounds the unrounded one. -/
theorem round_natCast_eq {n : Nat} (h : exactLimit < n) :
    ∃ k : Nat, 2 ^ 52 ≤ k ∧ (∀ bound : Nat, n ≤ bound * 2 ^ (n.log2 - 52) → k ≤ bound) ∧
      round n = if k * 2 ^ (n.log2 - 52) < 2 ^ 1024 then .finite (k * 2 ^ (n.log2 - 52) : Nat)
        else .infinite false := by
  have hlog : 53 ≤ n.log2 := (Nat.le_log2 (by omega)).2 (le_of_lt h)
  have hpow : 2 ^ n.log2 ≤ n := Nat.log2_self_le (by omega)
  have hsplit : 2 ^ 52 * 2 ^ (n.log2 - 52) = 2 ^ n.log2 := by
    rw [← Nat.pow_add]
    congr 1
    omega
  have hunit : (0 : Rat) < ((2 ^ (n.log2 - 52) : Nat) : Rat) := by positivity
  have hsignificand : ((2 ^ 52 : Int) : Rat) ≤ n / ((2 ^ (n.log2 - 52) : Nat) : Rat) := by
    rw [le_div_iff₀ hunit]
    have hcast : ((2 ^ 52 * 2 ^ (n.log2 - 52) : Nat) : Rat) ≤ n := Nat.cast_le.2 (hsplit ▸ hpow)
    push_cast at hcast ⊢
    exact hcast
  have hnearest := le_nearestEven hsignificand
  obtain ⟨k, hk⟩ := Int.eq_ofNat_of_zero_le (le_trans (by decide) hnearest)
  have hk52 : 2 ^ 52 ≤ k := by
    rw [hk] at hnearest
    exact_mod_cast hnearest
  have hbounds : ∀ bound : Nat, n ≤ bound * 2 ^ (n.log2 - 52) → k ≤ bound := by
    intro bound hbound
    have hquotient : (n : Rat) / ((2 ^ (n.log2 - 52) : Nat) : Rat) ≤ ((bound : Int) : Rat) := by
      rw [div_le_iff₀ hunit]
      have hcast : (n : Rat) ≤ ((bound * 2 ^ (n.log2 - 52) : Nat) : Rat) := Nat.cast_le.2 hbound
      push_cast at hcast ⊢
      exact hcast
    have hle := nearestEven_le hquotient
    rw [hk] at hle
    exact_mod_cast hle
  exact ⟨k, hk52, hbounds, round_eq_of_nearestEven h hk⟩

/-- A whole number above the limit is rounded to one that is not below it, or to the infinity. -/
theorem round_natCast_of_lt {n : Nat} (h : exactLimit < n) :
    round n = .infinite false ∨ ∃ m : Nat, exactLimit ≤ m ∧ round n = .finite m := by
  obtain ⟨k, hk, -, hround⟩ := round_natCast_eq h
  have hlog : 53 ≤ n.log2 := (Nat.le_log2 (by omega)).2 (le_of_lt h)
  have hunit : 2 ≤ 2 ^ (n.log2 - 52) := Nat.le_self_pow (by omega) 2
  have hlarge : exactLimit ≤ k * 2 ^ (n.log2 - 52) := by
    calc exactLimit = 2 ^ 52 * 2 := by decide
      _ ≤ k * 2 ^ (n.log2 - 52) := Nat.mul_le_mul hk hunit
  rw [hround]
  split_ifs
  · exact Or.inr ⟨_, hlarge, rfl⟩
  · exact Or.inl rfl

theorem isCount_round {n : Nat} (h : 0 < n) : IsCount (round n) := by
  by_cases hle : n ≤ exactLimit
  · rw [round_natCast_of_le hle]
    exact .finite h
  · rcases round_natCast_of_lt (not_le.1 hle) with hround | ⟨m, hm, hround⟩
    · rw [hround]
      exact .infinite
    · rw [hround]
      exact .finite (lt_of_lt_of_le (by decide) hm)

/-! ## Representable numbers -/

/-- A whole number that needs no rounding: it has at most 53 significant bits and is not too large. -/
def IsRepresentable (m : Nat) : Prop :=
  m ≤ exactLimit ∨ 2 ^ (m.log2 - 52) ∣ m ∧ m < 2 ^ 1024

theorem isRepresentable_of_round {n m : Nat} (h : round n = .finite m) : IsRepresentable m := by
  by_cases hle : n ≤ exactLimit
  · rw [round_natCast_of_le hle] at h
    have heq : n = m := Nat.cast_inj.1 (Binary64.finite.inj h)
    exact Or.inl (heq ▸ hle)
  · obtain ⟨k, hk, hbounds, hround⟩ := round_natCast_eq (not_le.1 hle)
    rw [hround] at h
    split_ifs at h with hlimit
    have heq : k * 2 ^ (n.log2 - 52) = m := Nat.cast_inj.1 (Binary64.finite.inj h)
    have hlog : 53 ≤ n.log2 := (Nat.le_log2 (by omega)).2 (le_of_lt (not_le.1 hle))
    have hk53 : k ≤ 2 ^ 53 := by
      refine hbounds (2 ^ 53) ?_
      rw [← Nat.pow_add]
      have hlt := @Nat.lt_log2_self n
      have hexp : 53 + (n.log2 - 52) = n.log2 + 1 := by omega
      rw [hexp]
      exact le_of_lt hlt
    right
    refine ⟨?_, heq ▸ hlimit⟩
    rcases Nat.lt_or_eq_of_le hk53 with hlt | htop
    · -- The significand has 53 bits.
      have hm : m < 2 ^ (53 + (n.log2 - 52)) := by
        rw [← heq, Nat.pow_add]
        exact Nat.mul_lt_mul_of_pos_right hlt (by positivity)
      have hmpos : 0 < m := by
        rw [← heq]
        exact Nat.mul_pos (by omega) (by positivity)
      have hmlog : m.log2 < 53 + (n.log2 - 52) := (Nat.log2_lt (Nat.ne_of_gt hmpos)).2 hm
      have hdvd : 2 ^ (m.log2 - 52) ∣ 2 ^ (n.log2 - 52) := Nat.pow_dvd_pow 2 (by omega)
      exact hdvd.trans (Dvd.intro_left k heq)
    · have hm : m = 2 ^ (53 + (n.log2 - 52)) := by rw [← heq, htop, Nat.pow_add]
      rw [hm, Nat.log2_two_pow]
      exact Nat.pow_dvd_pow 2 (by omega)

/-- Numbers up to a representable one are not rounded beyond it. -/
theorem round_of_le {j m : Nat} (hm : IsRepresentable m) (hj : j ≤ m) :
    ∃ k : Nat, round j = .finite k := by
  by_cases hle : j ≤ exactLimit
  · exact ⟨j, round_natCast_of_le hle⟩
  · rcases hm with hsmall | ⟨hdvd, hlimit⟩
    · omega
    · obtain ⟨k, -, hbounds, hround⟩ := round_natCast_eq (not_le.1 hle)
      have hlog : j.log2 ≤ m.log2 :=
        (Nat.le_log2 (by omega)).2 ((Nat.log2_self_le (by omega)).trans hj)
      have hunit : 2 ^ (j.log2 - 52) ∣ m := (Nat.pow_dvd_pow 2 (by omega)).trans hdvd
      obtain ⟨bound, hbound⟩ := hunit
      rw [Nat.mul_comm] at hbound
      have hk : k * 2 ^ (j.log2 - 52) ≤ m := by
        rw [hbound]
        exact Nat.mul_le_mul_right _ (hbounds bound (hbound ▸ hj))
      rw [if_pos (lt_of_le_of_lt hk hlimit)] at hround
      exact ⟨_, hround⟩

/-! ## Counts -/

theorem isCount_ofNat {n : Nat} (h : 0 < n) : IsCount (ofNat n) := isCount_round h

/-- A number that denotes a dimension and is not zero is a count. -/
theorem isCount_ofNat_of_isZero {n : Nat} (h : (ofNat n).isZero = false) : IsCount (ofNat n) := by
  by_cases hn : n = 0
  · subst hn
    rw [ofNat_eq (Nat.zero_le _)] at h
    simp [isZero] at h
  · exact isCount_ofNat (Nat.pos_of_ne_zero hn)

theorem infinite_mul_count {y : Binary64} (h : IsCount y) :
    Binary64.infinite false * y = .infinite false := by
  show mul _ _ = _
  cases h with
  | finite hn =>
    simp [mul, isZero, isNegative, Nat.pos_iff_ne_zero.1 hn]
  | infinite => rfl

theorem count_mul_infinite {x : Binary64} (h : IsCount x) :
    x * Binary64.infinite false = .infinite false := by
  show mul _ _ = _
  cases h with
  | finite hn => simp [mul, isZero, isNegative, Nat.pos_iff_ne_zero.1 hn]
  | infinite => rfl

theorem IsCount.mul {x y : Binary64} (hx : IsCount x) (hy : IsCount y) : IsCount (x * y) := by
  cases hx with
  | @finite n hn =>
    cases hy with
    | @finite m hm =>
      show IsCount (round (n * m))
      rw [← Nat.cast_mul]
      exact isCount_round (Nat.mul_pos hn hm)
    | infinite =>
      rw [count_mul_infinite (.finite hn)]
      exact .infinite
  | infinite =>
    rw [infinite_mul_count hy]
    exact .infinite

theorem IsCount.foldl_mul {x : Binary64} (hx : IsCount x) {ys : List Binary64}
    (hys : ∀ y ∈ ys, IsCount y) : IsCount (ys.foldl (· * ·) x) := by
  induction ys generalizing x with
  | nil => exact hx
  | cons y ys ih =>
    rw [List.foldl_cons]
    exact ih (hx.mul (hys y List.mem_cons_self)) fun z hz => hys z (List.mem_cons_of_mem y hz)

/-- The number is the outcome of rounding a whole number, if it is finite. -/
def IsRounded (x : Binary64) : Prop := ∀ m : Nat, x = .finite m → ∃ n : Nat, round n = .finite m

theorem isRounded_ofNat (n : Nat) : IsRounded (ofNat n) := fun _ h => ⟨n, h⟩

theorem IsCount.isRounded_mul {x y : Binary64} (hx : IsCount x) (hy : IsCount y) :
    IsRounded (x * y) := by
  intro k hk
  cases hx with
  | @finite n hn =>
    cases hy with
    | @finite m hm =>
      refine ⟨n * m, ?_⟩
      rw [Nat.cast_mul]
      exact hk
    | infinite =>
      rw [count_mul_infinite (.finite hn)] at hk
      cases hk
  | infinite =>
    rw [infinite_mul_count hy] at hk
    cases hk

theorem IsCount.isRounded_foldl_mul {x : Binary64} (hx : IsCount x) (hrounded : IsRounded x)
    {ys : List Binary64} (hys : ∀ y ∈ ys, IsCount y) : IsRounded (ys.foldl (· * ·) x) := by
  induction ys generalizing x with
  | nil => exact hrounded
  | cons y ys ih =>
    have hy := hys y List.mem_cons_self
    rw [List.foldl_cons]
    exact ih (hx.mul hy) (hx.isRounded_mul hy) fun z hz => hys z (List.mem_cons_of_mem y hz)

/-! ## One less -/

theorem finite_sub_one (n : Nat) : Binary64.finite n - 1 = round ((n : Rat) - 1) := by
  have hone : (1 : Binary64) = .finite ((1 : Nat) : Rat) := ofNat_eq (by decide)
  rw [hone]
  show round ((n : Rat) + -((1 : Nat) : Rat)) = _
  rw [Nat.cast_one, ← sub_eq_add_neg]

theorem sub_one_of_le {n : Nat} (hpos : 0 < n) (h : n ≤ exactLimit) :
    Binary64.finite n - 1 = .finite ((n - 1 : Nat) : Rat) := by
  rw [finite_sub_one, ← Nat.cast_pred hpos]
  exact round_natCast_of_le (by omega)

/-- One less than a number above the limit is not below the limit. -/
theorem sub_one_of_lt {n : Nat} (h : exactLimit < n) :
    Binary64.finite n - 1 = .infinite false ∨
      ∃ m : Nat, exactLimit ≤ m ∧ Binary64.finite n - 1 = .finite m := by
  rw [finite_sub_one, ← Nat.cast_pred (by omega)]
  by_cases hle : n - 1 ≤ exactLimit
  · exact Or.inr ⟨n - 1, by omega, round_natCast_of_le hle⟩
  · exact round_natCast_of_lt (not_le.1 hle)

/-- One less than a representable number above the limit is rounded back to it, or to the even
neighbour below if that is as near. -/
theorem sub_one_of_isRepresentable {n : Nat} (h : exactLimit < n) (hn : IsRepresentable n) :
    Binary64.finite n - 1 =
      .finite ((if n < 2 ^ 54 ∧ n % 4 = 2 then n - 2 else n : Nat) : Rat) := by
  obtain ⟨hdvd, hbound⟩ : 2 ^ (n.log2 - 52) ∣ n ∧ n < 2 ^ 1024 := hn.resolve_left (by omega)
  have hlimit : exactLimit = 2 ^ 53 := by decide
  have hlog : 53 ≤ n.log2 := (Nat.le_log2 (by omega)).2 (by omega)
  -- A representable number above the limit is even.
  have heven : 2 ∣ n := (Dvd.dvd.trans (Dvd.intro_left (2 ^ (n.log2 - 53)) (by
    rw [← Nat.pow_succ]
    congr 1
    omega)) hdvd)
  have hj : exactLimit < n - 1 := by omega
  have hjlog : 53 ≤ (n - 1).log2 := (Nat.le_log2 (by omega)).2 (by omega)
  have hle : (n - 1).log2 ≤ n.log2 :=
    (Nat.le_log2 (by omega)).2 ((Nat.log2_self_le (by omega)).trans (Nat.sub_le n 1))
  obtain ⟨k, hk⟩ : 2 ^ ((n - 1).log2 - 52) ∣ n := (Nat.pow_dvd_pow 2 (by omega)).trans hdvd
  generalize hu : 2 ^ ((n - 1).log2 - 52) = u at hk
  have hu2 : 2 ≤ u := by
    rw [← hu]
    exact Nat.le_self_pow (by omega) 2
  have htwo : u = 2 ↔ n - 1 < 2 ^ 54 := by
    rw [← hu, ← Nat.log2_lt (by omega)]
    constructor
    · intro hpow
      have hexp : (n - 1).log2 - 52 = 1 := Nat.pow_right_injective (le_refl 2) hpow
      omega
    · intro hlt
      have hexp : (n - 1).log2 - 52 = 1 := by omega
      rw [hexp, Nat.pow_one]
  have hkpos : 0 < k := Nat.pos_of_ne_zero (by rintro rfl; omega)
  have hquotient : ((n - 1 : Nat) : Rat) / (u : Rat) = (k : Rat) - 1 / u := by
    have hne : (u : Rat) ≠ 0 := Nat.cast_ne_zero.2 (by omega)
    rw [Nat.cast_pred (by omega), hk]
    push_cast
    field_simp
  have hnearest := nearestEven_sub_inv hkpos hu2
  rw [← hquotient, ← hu] at hnearest
  have hvalue : (if u = 2 ∧ k % 2 = 1 then k - 1 else k) * u =
      if n < 2 ^ 54 ∧ n % 4 = 2 then n - 2 else n := by
    by_cases husmall : u = 2
    · have hsmall := htwo.1 husmall
      subst husmall
      split_ifs <;> omega
    · have hlarge : ¬ n < 2 ^ 54 := fun hlt => husmall (htwo.2 (by omega))
      rw [if_neg fun hboth => husmall hboth.1, if_neg fun hboth => hlarge hboth.1, hk, Nat.mul_comm]
  have hsmaller : (if n < 2 ^ 54 ∧ n % 4 = 2 then n - 2 else n) < 2 ^ 1024 :=
    lt_of_le_of_lt (by split_ifs <;> omega) hbound
  rw [finite_sub_one, ← Nat.cast_pred (by omega), round_eq_of_nearestEven hj hnearest, hu, hvalue,
    if_pos hsmaller]

/-- A finite count that was rounded stays finite with one taken off. -/
theorem sub_one_of_isRounded {m : Nat} (hpos : 0 < m) (h : IsRounded (.finite m)) :
    ∃ k : Nat, Binary64.finite m - 1 = .finite k := by
  obtain ⟨n, hn⟩ := h m rfl
  rw [finite_sub_one, ← Nat.cast_pred hpos]
  exact round_of_le (isRepresentable_of_round hn) (Nat.pred_le m)

theorem infinite_sub_one : Binary64.infinite false - 1 = .infinite false := by
  have hone : (1 : Binary64) = .finite ((1 : Nat) : Rat) := ofNat_eq (by decide)
  rw [hone]
  rfl

end BinaryReport.Binary64
