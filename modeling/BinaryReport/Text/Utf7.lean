import BinaryReport.Text.Utf16

/-!
# Reading UTF-7

A text of seven bit characters, in which a mark begins a run of digits of six bits each: the digits
spell the bytes of UTF-16 units, and the run ends at the first character that is no digit. A minus
sign that ends a run is left out, and a minus sign directly behind the mark stands for the mark.

There are two variants, the general one and the one for the names of mailboxes.
-/

namespace BinaryReport.Text.Utf7

/-- What tells the variants apart. -/
structure Variant where
  /-- What begins a run. -/
  mark : Char
  /-- Another way to write the last digit, if there is one. -/
  lastDigit? : Option Char

/-- The general variant. -/
def general : Variant := ⟨'+', none⟩

/-- The variant for the names of mailboxes. -/
def mailbox : Variant := ⟨'&', some ','⟩

/-- The value of a digit. -/
def digit? (v : Variant) (c : Char) : Option Nat :=
  if 'A' ≤ c ∧ c ≤ 'Z' then some (c.toNat - 'A'.toNat)
  else if 'a' ≤ c ∧ c ≤ 'z' then some (c.toNat - 'a'.toNat + 26)
  else if '0' ≤ c ∧ c ≤ '9' then some (c.toNat - '0'.toNat + 52)
  else if c = '+' then some 62
  else if c = '/' ∨ v.lastDigit? = some c then some 63
  else none

/-- The bytes of the rest of some digits, given those read so far in reverse. Bits at the end that
fill no byte are left out. -/
def readBytes (done : List UInt8) : List Nat → List UInt8
  | a :: b :: c :: d :: rest =>
    readBytes (.ofNat (c % 4 * 64 + d) :: .ofNat (b % 16 * 16 + c / 4) :: .ofNat (a * 4 + b / 16)
      :: done) rest
  | [a, b, c] => (.ofNat (b % 16 * 16 + c / 4) :: .ofNat (a * 4 + b / 16) :: done).reverse
  | [a, b] => (.ofNat (a * 4 + b / 16) :: done).reverse
  | _ => done.reverse

/-- The units that the digits of a run spell. -/
def unitsOfRun (digits : List Nat) : List Nat :=
  Utf16.dropMark (Utf16.unitsOf .bigEndian (readBytes [] digits))

/-- The unit of a byte outside of runs. -/
def direct (c : Char) : Nat := if c.toNat < 0x80 then c.toNat else Utf16.replacement.toNat

/-- Where a reader is. -/
structure State where
  /-- The digits of the run that has been begun, in reverse. -/
  run? : Option (List Nat)
  /-- The units read so far, in reverse. -/
  done : List Nat

/-- Reads a byte outside of runs. -/
def State.readDirect (v : Variant) (done : List Nat) (c : Char) : State :=
  if c = v.mark then ⟨some [], done⟩ else ⟨none, direct c :: done⟩

/-- Reads a byte. -/
def State.read (v : Variant) (s : State) (c : Char) : State :=
  match s.run? with
  | none => readDirect v s.done c
  | some digits =>
    match digit? v c with
    | some d => ⟨some (d :: digits), s.done⟩
    | none =>
      if c = '-' then
        ⟨none, if digits.isEmpty then v.mark.toNat :: s.done
          else (unitsOfRun digits.reverse).reverse ++ s.done⟩
      else readDirect v ((unitsOfRun digits.reverse).reverse ++ s.done) c

/-- The units of some bytes. The digits of a run that nothing ends are read in two parts, the first
of which has a number of digits that is a multiple of eight. -/
def unitsOf (v : Variant) (bytes : List UInt8) : List Nat :=
  let s := bytes.foldl (fun s byte => s.read v (Char.ofNat byte.toNat)) (State.mk none [])
  match s.run? with
  | none => Utf16.dropMark s.done.reverse
  | some digits =>
    let digits := digits.reverse
    let n := digits.length - digits.length % 8
    Utf16.dropMark (s.done.reverse ++ unitsOfRun (digits.take n)) ++ unitsOfRun (digits.drop n)

/-- The text of some bytes. -/
def decode (v : Variant) (bytes : List UInt8) : List Char := Utf16.decode (unitsOf v bytes)

end BinaryReport.Text.Utf7
