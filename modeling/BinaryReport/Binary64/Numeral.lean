import BinaryReport.Binary64.Basic
import BinaryReport.Text.Blank
import BinaryReport.Text.Digits

/-!
# Reading numbers

`ofDecimal` gives the number nearest to a decimal numeral, which is how numbers of JSON are read.
`ofText` reads the free form of the command line and of the environment: trimmed decimal numerals
with optional sign, fraction and exponent, signed `Infinity`, unsigned numerals in base 16, 8 and 2,
and zero for blank text; any other text is `nan`.
-/

namespace BinaryReport.Binary64

/-! ## Decimal numerals -/

/-- The number nearest to `digits * 10 ^ exponent`. Exponents that no digits can bring into range
are settled without computing the power. -/
def ofDecimal (negative : Bool) (digits : List Char) (exponent : Int) : Binary64 :=
  let n := Text.ofDigits 10 digits
  if n = 0 then .finite 0
  else if 310 < exponent then .infinite negative
  else if exponent < -400 - digits.length then .finite 0
  else
    let magnitude : Rat :=
      if 0 ≤ exponent then n * 10 ^ exponent.toNat else n / 10 ^ (-exponent).toNat
    round (if negative then -magnitude else magnitude)

/-- An unsigned decimal numeral: digits before and after the point, and an exponent. -/
structure Numeral where
  /-- The digits before the point. -/
  whole : List Char
  /-- The digits after the point. -/
  fraction : List Char
  /-- The exponent, zero if none is written. -/
  exponent : Int

/-- The number that a numeral denotes. -/
def Numeral.value (numeral : Numeral) (negative : Bool) : Binary64 :=
  ofDecimal negative (numeral.whole ++ numeral.fraction)
    (numeral.exponent - numeral.fraction.length)

/-- Whether a character is a decimal digit. -/
def isDecimal (c : Char) : Bool := c.isDigit

/-- Reads the exponent part of a numeral, after its mark: an optional sign and digits. -/
def readExponent? (cs : List Char) : Option (Int × List Char) :=
  let (negative, rest) :=
    match cs with
    | '-' :: rest => (true, rest)
    | '+' :: rest => (false, rest)
    | rest => (false, rest)
  let digits := rest.takeWhile isDecimal
  if digits.isEmpty then none
  else
    let n : Int := Text.ofDigits 10 digits
    some (if negative then -n else n, rest.dropWhile isDecimal)

/-! ## Free form -/

/-- Splits an optional sign off; the flag says whether it is negative. -/
def splitSign : List Char → Bool × List Char
  | '-' :: cs => (true, cs)
  | '+' :: cs => (false, cs)
  | cs => (false, cs)

/-- Reads an unsigned decimal numeral that spans the whole text. One digit at least stands before
or after the point. -/
def readNumeral? (cs : List Char) : Option Numeral :=
  let whole := cs.takeWhile isDecimal
  let rest := cs.dropWhile isDecimal
  let (fraction, rest) :=
    match rest with
    | '.' :: rest => (rest.takeWhile isDecimal, rest.dropWhile isDecimal)
    | rest => ([], rest)
  if whole.isEmpty && fraction.isEmpty then none
  else
    match rest with
    | [] => some ⟨whole, fraction, 0⟩
    | mark :: rest =>
      if mark = 'e' ∨ mark = 'E' then
        match readExponent? rest with
        | some (exponent, []) => some ⟨whole, fraction, exponent⟩
        | _ => none
      else none

/-- The base that a letter after a leading zero announces. -/
def baseOfLetter? : Char → Option Nat
  | 'x' | 'X' => some 16
  | 'o' | 'O' => some 8
  | 'b' | 'B' => some 2
  | _ => none

/-- Reads a signed decimal numeral or a signed `Infinity`. -/
def ofSigned (cs : List Char) : Binary64 :=
  let (negative, body) := splitSign cs
  if body = "Infinity".toList then .infinite negative
  else
    match readNumeral? body with
    | some numeral => numeral.value negative
    | none => .nan

/-- Reads text that is trimmed and not empty. -/
def ofTrimmed (cs : List Char) : Binary64 :=
  match cs with
  | '0' :: letter :: digits =>
    match baseOfLetter? letter with
    | some base =>
      match Text.readDigits? base digits with
      | some n => ofNat n
      | none => .nan
    | none => ofSigned cs
  | _ => ofSigned cs

/-- The number that a free form text denotes. -/
def ofText (s : String) : Binary64 :=
  match Text.trimChars s.toList with
  | [] => .finite 0
  | cs => ofTrimmed cs

end BinaryReport.Binary64
