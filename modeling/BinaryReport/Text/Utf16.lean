/-!
# Reading UTF-16

A text as 16 bit units, and as bytes in either order. A half of a surrogate pair without the other
half is read as the replacement character, and an odd byte at the end is left out.
-/

namespace BinaryReport.Text.Utf16

/-- Whether a unit is the first half of a pair. -/
def isHigh (u : Nat) : Bool := 0xD800 ≤ u && u < 0xDC00

/-- Whether a unit is the second half of a pair. -/
def isLow (u : Nat) : Bool := 0xDC00 ≤ u && u < 0xE000

/-- The character of a pair. -/
def ofPair (high low : Nat) : Char :=
  Char.ofNat (0x10000 + (high - 0xD800) * 0x400 + (low - 0xDC00))

/-- What stands for half of a pair without the other half. -/
def replacement : Char := '\uFFFD'

/-- The characters read so far, in reverse, once a first half that still waits for its second half
is known to have none. -/
def settle (pending : Option Nat) (done : List Char) : List Char :=
  if pending.isSome then replacement :: done else done

/-- Reads a unit, given the characters read so far in reverse and, if the last unit was the first
half of a pair, that half. -/
def readUnit (pending : Option Nat) (done : List Char) (u : Nat) : Option Nat × List Char :=
  match pending with
  | some high =>
    if isLow u then (none, ofPair high u :: done)
    else if isHigh u then (some u, replacement :: done)
    else (none, Char.ofNat u :: replacement :: done)
  | none =>
    if isLow u then (none, replacement :: done)
    else if isHigh u then (some u, done)
    else (none, Char.ofNat u :: done)

/-- The characters of some units. -/
def decode (us : List Nat) : List Char :=
  let (pending, done) := us.foldl (fun state u => readUnit state.1 state.2 u) (none, [])
  (settle pending done).reverse

/-! ## Bytes -/

/-- The order of the two bytes of a unit. -/
inductive ByteOrder where
  /-- The greater part comes first. -/
  | bigEndian
  /-- The lesser part comes first. -/
  | littleEndian
deriving DecidableEq

/-- The unit of two bytes. -/
def ByteOrder.unit (order : ByteOrder) (a b : UInt8) : Nat :=
  match order with
  | .bigEndian => a.toNat * 0x100 + b.toNat
  | .littleEndian => b.toNat * 0x100 + a.toNat

/-- The units of the rest of some bytes, given those read so far in reverse. -/
def readUnits (order : ByteOrder) (done : List Nat) : List UInt8 → List Nat
  | a :: b :: rest => readUnits order (order.unit a b :: done) rest
  | _ => done.reverse

/-- The units of some bytes. -/
def unitsOf (order : ByteOrder) (bytes : List UInt8) : List Nat := readUnits order [] bytes

/-- The units without a byte order mark at their start. -/
def dropMark : List Nat → List Nat
  | 0xFEFF :: us => us
  | us => us

/-- How many of some bytes, by twos, are a zero and something else, in this order and in the other
one. -/
def countZeros : List UInt8 → Nat × Nat
  | a :: b :: rest =>
    let (first, second) := countZeros rest
    if a = 0 ∧ b ≠ 0 then (first + 1, second)
    else if a ≠ 0 ∧ b = 0 then (first, second + 1)
    else (first, second)
  | _ => (0, 0)

/-- The byte order of a text: that of its byte order mark, else the one in which more of the first
32 units are below 256, else the lesser part first. -/
def orderOf (bytes : List UInt8) : ByteOrder :=
  match bytes with
  | 0xFE :: 0xFF :: _ => .bigEndian
  | 0xFF :: 0xFE :: _ => .littleEndian
  | _ =>
    let (big, little) := countZeros (bytes.take 64)
    if little < big then .bigEndian else .littleEndian

end BinaryReport.Text.Utf16
