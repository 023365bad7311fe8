import BinaryReport.Binary64.Basic
import BinaryReport.Text.Digits

/-!
# The text of a number

A finite number is written with the fewest significant digits that read back to it, and of those
digit strings with the nearest one (an exact tie goes to the even digit). The notation is
positional while the decimal exponent is below 21 and at least -6, otherwise it has one digit
before the point and an exponent with its sign. The text has no trailing zeros after the point and
no point without digits behind it.
-/

namespace BinaryReport.Binary64

/-- The rational `10 ^ e`. -/
def powerOfTen (e : Int) : Rat :=
  if 0 ≤ e then 10 ^ e.toNat else 1 / 10 ^ (-e).toNat

/-- The `k` with `10 ^ (k - 1) ≤ q < 10 ^ k`, for a positive `q`: where the point stands behind the
first significant digit. -/
def decimalPoint (q : Rat) : Int :=
  if 1 ≤ q then (Nat.toDigits 10 q.floor.toNat).length
  else
    let inverse := 1 / q
    let places : Int := (Nat.toDigits 10 inverse.floor.toNat).length
    if inverse = powerOfTen (places - 1) then 2 - places else 1 - places

/-! ## Significant digits -/

/-- Of the two neighbours of `q` on the grid of multiples of `unit`, the one that reads back as `q`;
if both do, the nearer one, and the even one if they are equally near. -/
def readableNeighbour? (q unit : Rat) : Option Nat :=
  let low := (q / unit).floor.toNat
  let reads (n : Nat) : Bool := round (n * unit) = .finite q
  match reads low, reads (low + 1) with
  | false, false => none
  | true, false => some low
  | false, true => some (low + 1)
  | true, true => some (nearestEven (q / unit)).toNat

/-- The shortest significant digits of a positive number that read back, tried from `count` digits
up, as an integer with the exponent of its unit. -/
def significand (q : Rat) (point : Int) : (attempts count : Nat) → Nat × Int
  | 0, count => ((q / powerOfTen (point - count)).floor.toNat, point - count)
  | attempts + 1, count =>
    match readableNeighbour? q (powerOfTen (point - count)) with
    | some n => (n, point - count)
    | none => significand q point attempts (count + 1)

/-! ## Layout -/

/-- Zeros, as many as the count says. -/
def zeros (n : Nat) : List Char := List.replicate n '0'

/-- The greatest position of the point at which the notation is positional. -/
def lastPositional : Int := 21

/-- The least position of the point at which the notation is positional. -/
def firstPositional : Int := -5

/-- Lays out significant digits whose point stands behind the `point`-th of them. -/
def layout (digits : List Char) (point : Int) : List Char :=
  let size : Int := digits.length
  if size ≤ point ∧ point ≤ lastPositional then digits ++ zeros (point - size).toNat
  else if 0 < point ∧ point ≤ lastPositional then
    digits.take point.toNat ++ '.' :: digits.drop point.toNat
  else if firstPositional ≤ point ∧ point ≤ 0 then
    '0' :: '.' :: zeros (-point).toNat ++ digits
  else
    let exponent := point - 1
    let mark := (if exponent < 0 then '-' else '+') :: Nat.toDigits 10 exponent.natAbs
    digits.take 1 ++ (if digits.length = 1 then [] else '.' :: digits.drop 1) ++ 'e' :: mark

/-- Drops the zeros at the end. -/
def dropZerosEnd (digits : List Char) : List Char := (digits.reverse.dropWhile (· = '0')).reverse

/-- The text of a positive finite number. -/
def positiveText (q : Rat) : List Char :=
  if q.den = 1 ∧ q.num.natAbs ≤ exactLimit then Nat.toDigits 10 q.num.natAbs
  else
    let (n, unit) := significand q (decimalPoint q) 17 1
    let digits := Nat.toDigits 10 n
    layout (dropZerosEnd digits) (digits.length + unit)

/-- The text of a number. -/
def text : Binary64 → String
  | .finite q =>
    if q = 0 then "0"
    else if q < 0 then String.ofList ('-' :: positiveText (-q))
    else String.ofList (positiveText q)
  | .infinite negative => if negative then "-Infinity" else "Infinity"
  | .nan => "NaN"

end BinaryReport.Binary64
