/-!
# Digits

Reading and writing of natural numbers in a base up to 36. Written digits are lower case; reading
takes either case.
-/

namespace BinaryReport.Text

/-- The value of a digit, letters counting from ten in either case. -/
def digitValue? (c : Char) : Option Nat :=
  if '0' ≤ c ∧ c ≤ '9' then some (c.toNat - '0'.toNat)
  else if 'a' ≤ c ∧ c ≤ 'z' then some (c.toNat - 'a'.toNat + 10)
  else if 'A' ≤ c ∧ c ≤ 'Z' then some (c.toNat - 'A'.toNat + 10)
  else none

/-- Whether a character is a digit of the base. -/
def isDigitOf (base : Nat) (c : Char) : Bool := (digitValue? c).any (· < base)

/-- The number that a run of digits denotes, the most significant digit first. -/
def ofDigits (base : Nat) (cs : List Char) : Nat :=
  cs.foldl (fun n c => n * base + (digitValue? c).getD 0) 0

/-- Reads a text that consists of one or more digits of the base. -/
def readDigits? (base : Nat) (cs : List Char) : Option Nat :=
  if !cs.isEmpty && cs.all (isDigitOf base) then some (ofDigits base cs) else none

/-- Lower case hexadecimal digits, without a sign of the base. -/
def hexDigits (n : Nat) : List Char := Nat.toDigits 16 n

/-- Two lower case hexadecimal digits of a number below 256. -/
def hexPair (n : Nat) : List Char := [Nat.digitChar (n / 16 % 16), Nat.digitChar (n % 16)]

/-- A letter, a digit or an underscore. -/
def isWordChar (c : Char) : Bool := c.isAlphanum || c = '_'

/-- A letter or an underscore: what an identifier begins with. -/
def isWordStart (c : Char) : Bool := c.isAlpha || c = '_'

end BinaryReport.Text
