/-!
# Binary64 numbers

Numbers that come from JSON, from the command line and from products of array dimensions are IEEE
double precision numbers. They are modelled by their exact values: a finite number is a rational,
and each operation is the exact operation on rationals followed by `round`, which takes a rational
to the nearest representable one (ties to the even significand) or to an infinity.

Both zeros are the one rational `0`, since no answer of the library tells them apart.

The main facts are `round_intCast` and `ofNat_eq`: integers up to `2 ^ 53` are represented exactly.
-/

namespace BinaryReport

/-- An IEEE double precision number, by its exact value. -/
inductive Binary64 where
  /-- A finite number. -/
  | finite (value : Rat)
  /-- An infinity with its sign. -/
  | infinite (negative : Bool)
  /-- The result of an invalid operation, or of text that denotes no number. -/
  | nan
deriving DecidableEq, Inhabited

namespace Binary64

/-! ## Rounding -/

/-- The rational `2 ^ e`. -/
def powerOfTwo (e : Int) : Rat :=
  if 0 ≤ e then 2 ^ e.toNat else 1 / 2 ^ (-e).toNat

/-- The nearest integer; a half goes to the even neighbour. -/
def nearestEven (q : Rat) : Int :=
  let low := q.floor
  let rest := q - low
  if rest < 1 / 2 then low
  else if 1 / 2 < rest then low + 1
  else if low % 2 = 0 then low else low + 1

/-- The exponent `e` with `2 ^ e ≤ |q| < 2 ^ (e + 1)`, for a `q` that is not zero. -/
def binaryExponent (q : Rat) : Int :=
  let guess : Int := (q.num.natAbs.log2 : Int) - q.den.log2
  if powerOfTwo guess ≤ q.abs then guess else guess - 1

/-- The distance of the representable numbers about `q`: 53 significant bits, and never finer than
the subnormal numbers. -/
def spacing (q : Rat) : Rat := powerOfTwo (max (binaryExponent q - 52) (-1074))

/-- The largest magnitude up to which every integer is representable: the 53rd power of two. -/
def exactLimit : Nat := 9007199254740992

/-- The nearest representable number. Integers up to `exactLimit` need no rounding. -/
def round (q : Rat) : Binary64 :=
  if q.den = 1 ∧ q.num.natAbs ≤ exactLimit then .finite q
  else
    let r := nearestEven (q / spacing q) * spacing q
    if r.abs < powerOfTwo 1024 then .finite r else .infinite (q < 0)

/-- The number nearest to a natural number. -/
def ofNat (n : Nat) : Binary64 := round n

/-- The number nearest to an integer. -/
def ofInt (n : Int) : Binary64 := round n

instance (n : Nat) : OfNat Binary64 n := ⟨ofNat n⟩

/-! ## Arithmetic -/

/-- The sign of a number that is not `nan`; an infinity counts as the sign it bears. -/
def isNegative : Binary64 → Bool
  | .finite q => q < 0
  | .infinite negative => negative
  | .nan => false

/-- Whether the number is zero. -/
def isZero : Binary64 → Bool
  | .finite q => q = 0
  | _ => false

/-- The number with the other sign. -/
def neg : Binary64 → Binary64
  | .finite q => .finite (-q)
  | .infinite negative => .infinite !negative
  | .nan => .nan

/-- Rounded addition. -/
def add : Binary64 → Binary64 → Binary64
  | .finite a, .finite b => round (a + b)
  | .infinite a, .infinite b => if a = b then .infinite a else .nan
  | .infinite a, .finite _ => .infinite a
  | .finite _, .infinite b => .infinite b
  | _, _ => .nan

/-- Rounded subtraction. -/
def sub (a b : Binary64) : Binary64 := a.add b.neg

/-- Rounded multiplication. -/
def mul : Binary64 → Binary64 → Binary64
  | .finite a, .finite b => round (a * b)
  | .nan, _ => .nan
  | _, .nan => .nan
  | a, b => if a.isZero || b.isZero then .nan else .infinite (a.isNegative != b.isNegative)

instance : Add Binary64 := ⟨add⟩
instance : Sub Binary64 := ⟨sub⟩
instance : Mul Binary64 := ⟨mul⟩

/-- Strictly less; nothing is comparable with `nan`. -/
def lt : Binary64 → Binary64 → Bool
  | .finite a, .finite b => a < b
  | .infinite a, .infinite b => a && !b
  | .infinite a, .finite _ => a
  | .finite _, .infinite b => !b
  | _, _ => false

/-- Less or equal; nothing is comparable with `nan`. -/
def le : Binary64 → Binary64 → Bool
  | .finite a, .finite b => a ≤ b
  | .infinite a, .infinite b => a || !b
  | .infinite a, .finite _ => a
  | .finite _, .infinite b => !b
  | _, _ => false

instance : LT Binary64 := ⟨fun a b => a.lt b = true⟩
instance : LE Binary64 := ⟨fun a b => a.le b = true⟩
instance (a b : Binary64) : Decidable (a < b) := inferInstanceAs (Decidable (a.lt b = true))
instance (a b : Binary64) : Decidable (a ≤ b) := inferInstanceAs (Decidable (a.le b = true))

/-! ## Integers -/

/-- The integer that the number is, if it is one. -/
def toInt? : Binary64 → Option Int
  | .finite q => if q.den = 1 then some q.num else none
  | _ => none

/-- The integer part; numbers that are not finite have the integer part zero. -/
def truncate : Binary64 → Int
  | .finite q => q.num.tdiv q.den
  | _ => 0

/-- The value of a finite number; zero stands for the others. -/
def value : Binary64 → Rat
  | .finite q => q
  | _ => 0

/-- Whether the number is finite. -/
def isFinite : Binary64 → Bool
  | .finite _ => true
  | _ => false

/-! ## Exactness -/

theorem round_intCast {n : Int} (h : n.natAbs ≤ exactLimit) : round n = .finite n := by
  have hd : ((n : Rat).den = 1) := Rat.den_intCast n
  have hn : ((n : Rat).num = n) := Rat.num_intCast n
  simp [round, hd, hn, h]

theorem ofNat_eq {n : Nat} (h : n ≤ exactLimit) : ofNat n = .finite n := by
  simp [ofNat, round, Rat.den_natCast, Rat.num_natCast, h]

theorem toInt?_finite (n : Int) : toInt? (.finite n) = some n := by
  simp [toInt?]

end Binary64

end BinaryReport
