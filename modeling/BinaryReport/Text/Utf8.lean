/-!
# Reading UTF-8

Bytes that are not well formed are no obstacle: each longest run of bytes that begins a character
but does not complete it, and each byte that can begin none, is read as one replacement character.
-/

namespace BinaryReport.Text.Utf8

/-- A character that has been begun. -/
structure Begun where
  /-- How many bytes are missing. -/
  missing : Nat
  /-- The least next byte. -/
  low : Nat
  /-- The greatest next byte. -/
  high : Nat
  /-- The bits so far. -/
  bits : Nat

/-- What stands for bytes that are not well formed. -/
def replacement : Char := '\uFFFD'

/-- What a byte begins that is not a character by itself. The bounds of the second byte leave out
spellings that are too long, halves of pairs, and what lies beyond the last character. -/
def lead? (byte : Nat) : Option Begun :=
  if 0xC2 ≤ byte ∧ byte < 0xE0 then some ⟨1, 0x80, 0xBF, byte - 0xC0⟩
  else if byte = 0xE0 then some ⟨2, 0xA0, 0xBF, 0⟩
  else if byte = 0xED then some ⟨2, 0x80, 0x9F, 0xD⟩
  else if 0xE1 ≤ byte ∧ byte < 0xF0 then some ⟨2, 0x80, 0xBF, byte - 0xE0⟩
  else if byte = 0xF0 then some ⟨3, 0x90, 0xBF, 0⟩
  else if 0xF1 ≤ byte ∧ byte < 0xF4 then some ⟨3, 0x80, 0xBF, byte - 0xF0⟩
  else if byte = 0xF4 then some ⟨3, 0x80, 0x8F, 4⟩
  else none

/-- Reads a byte between characters: what it begins, and what has been read in reverse. -/
def readFirst (done : List Char) (byte : Nat) : Option Begun × List Char :=
  if byte < 0x80 then (none, Char.ofNat byte :: done)
  else
    match lead? byte with
    | some b => (some b, done)
    | none => (none, replacement :: done)

/-- Reads a byte. -/
def readByte (begun? : Option Begun) (done : List Char) (byte : Nat) : Option Begun × List Char :=
  match begun? with
  | none => readFirst done byte
  | some b =>
    if b.low ≤ byte ∧ byte ≤ b.high then
      let bits := b.bits * 0x40 + (byte - 0x80)
      if b.missing = 1 then (none, Char.ofNat bits :: done)
      else (some ⟨b.missing - 1, 0x80, 0xBF, bits⟩, done)
    else readFirst (replacement :: done) byte

/-- Reads the rest of a text, given the character that has been begun and what has been read in
reverse. -/
def readFrom (begun? : Option Begun) (done : List Char) : List UInt8 → List Char
  | [] => (if begun?.isSome then replacement :: done else done).reverse
  | byte :: rest =>
    let (begun?, done) := readByte begun? done byte.toNat
    readFrom begun? done rest

/-- The text of some bytes. -/
def decode (bytes : List UInt8) : String := String.ofList (readFrom none [] bytes)

end BinaryReport.Text.Utf8
