import BinaryReport.Text.Utf7

/-!
# Character sets

The character sets in which a body can be sent. A set has many spellings: capitals, and all
characters but letters and digits, do not count in its name, nor does a colon with a year at its
end.
-/

namespace BinaryReport

/-- A character set. -/
inductive Charset where
  /-- UTF-8. -/
  | utf8
  /-- UTF-16 with an order of bytes, or with the order that the text itself shows. -/
  | utf16 (order? : Option Text.Utf16.ByteOrder)
  /-- UTF-7 of a variant. -/
  | utf7 (v : Text.Utf7.Variant)

namespace Charset

/-! ## Letters of Latin-1 -/

/-- The small letter of a letter in the range of Latin-1. -/
def toLower (c : Char) : Char :=
  if c.isUpper ∨ ('À' ≤ c ∧ c ≤ 'Þ' ∧ c ≠ '×') then Char.ofNat (c.toNat + 32) else c

/-- The capitals of a letter in the range of Latin-1; some of them are outside of that range, and
one letter has two. -/
def capitals (c : Char) : List Char :=
  if c = 'ß' then ['S', 'S']
  else if c = 'ÿ' then ['Ÿ']
  else if c = 'µ' then ['\u039C']
  else if c.isLower ∨ ('à' ≤ c ∧ c ≤ 'þ' ∧ c ≠ '÷') then [Char.ofNat (c.toNat - 32)]
  else [c]

/-! ## Names -/

/-- A name without a colon and four digits at its end. -/
def dropYear (name : List Char) : List Char :=
  match name.reverse with
  | a :: b :: c :: d :: ':' :: rest =>
    if [a, b, c, d].all Char.isDigit then rest.reverse else name
  | _ => name

/-- A name in small letters as its letters and digits only. -/
def plainName (name : List Char) : List Char :=
  (dropYear name).filter fun c => c.isLower || c.isDigit

/-- The character sets by their plain names. -/
def byName : List (List Char × Charset) :=
  [("utf8".toList, .utf8), ("utf16".toList, .utf16 none),
    ("utf16le".toList, .utf16 (some .littleEndian)), ("utf16be".toList, .utf16 (some .bigEndian)),
    ("utf7".toList, .utf7 Text.Utf7.general), ("utf7imap".toList, .utf7 Text.Utf7.mailbox)]

/-- The character set of a name in small letters. -/
def ofName? (name : List Char) : Option Charset := byName.lookup (plainName name)

/-! ## Decoding -/

/-- A text without a byte order mark at its start. -/
def dropMark : List Char → List Char
  | '\uFEFF' :: cs => cs
  | cs => cs

/-- Reads a text, whose bytes are those of its UTF-8 form, in a character set. -/
def decode (set : Charset) (text : String) : List Char :=
  let bytes := text.toUTF8.data.toList
  match set with
  | .utf8 => dropMark text.toList
  | .utf16 order? =>
    let order := order?.getD (Text.Utf16.orderOf bytes)
    Text.Utf16.decode (Text.Utf16.dropMark (Text.Utf16.unitsOf order bytes))
  | .utf7 v => Text.Utf7.decode v bytes

end Charset

end BinaryReport
