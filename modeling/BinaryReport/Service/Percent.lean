import BinaryReport.Text.Digits

/-!
# Percent encoding

Decoding of percent encoded text: a percent sign and two hexadecimal digits stand for a byte, and
the bytes have to be well formed UTF-8. Other characters stand for themselves, but not inside the
bytes of one character.
-/

namespace BinaryReport.Percent

/-- A character that has been begun: the bytes still owed, the bytes that follow its first one
altogether, and the bits so far. -/
structure Partial where
  /-- How many bytes are owed. -/
  owed : Nat
  /-- How many bytes follow the first. -/
  total : Nat
  /-- The bits so far. -/
  bits : Nat

/-- What the first byte of a character of more than one byte begins. -/
def lead? (byte : Nat) : Option Partial :=
  if 0xC0 ≤ byte ∧ byte < 0xE0 then some ⟨1, 1, byte - 0xC0⟩
  else if 0xE0 ≤ byte ∧ byte < 0xF0 then some ⟨2, 2, byte - 0xE0⟩
  else if 0xF0 ≤ byte ∧ byte < 0xF8 then some ⟨3, 3, byte - 0xF0⟩
  else none

/-- The least code point that needs a number of bytes after the first. -/
def least : Nat → Nat
  | 1 => 0x80
  | 2 => 0x800
  | _ => 0x10000

/-- The character of a code point, if it is one and needs the bytes it has. -/
def character? (total n : Nat) : Option Char :=
  if least total ≤ n ∧ n.isValidChar then some (Char.ofNat n) else none

/-- Decodes the rest of a text, given what has been decoded in reverse and the character that has
been begun. -/
def decodeFrom (begun? : Option Partial) (done : List Char) : List Char → Option (List Char)
  | [] => if begun?.isNone then some done.reverse else none
  | '%' :: a :: b :: rest =>
    match Text.readDigits? 16 [a, b], begun? with
    | none, _ => none
    | some byte, none =>
      if byte < 0x80 then decodeFrom none (Char.ofNat byte :: done) rest
      else
        match lead? byte with
        | none => none
        | some p => decodeFrom (some p) done rest
    | some byte, some p =>
      if byte < 0x80 ∨ 0xC0 ≤ byte then none
      else
        let bits := p.bits * 0x40 + (byte - 0x80)
        if p.owed = 1 then
          match character? p.total bits with
          | none => none
          | some c => decodeFrom none (c :: done) rest
        else decodeFrom (some ⟨p.owed - 1, p.total, bits⟩) done rest
  | c :: rest =>
    if begun?.isSome || c = '%' then none else decodeFrom none (c :: done) rest

/-- Decodes a text, if its percent signs and its bytes are well formed. -/
def decode? (cs : List Char) : Option (List Char) := decodeFrom none [] cs

end BinaryReport.Percent
