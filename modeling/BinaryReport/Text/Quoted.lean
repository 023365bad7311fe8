import BinaryReport.Text.Split
import BinaryReport.Text.Units

/-!
# Quoted text

A text between quotes, as messages show it. The quotes are of the first kind of single, double and
backward quotes that the text does not have; controls, backslashes, and quotes that would end the
text are escaped. A long text is shown line by line.
-/

namespace BinaryReport.Text.Quoted

/-- The quotes of a text. Backward quotes also leave out a text in which a dollar sign comes before
a brace; where no kind will do, the quotes are single. -/
def quoteOf (cs : List Char) : Char :=
  if !cs.contains '\'' then '\''
  else if !cs.contains '"' then '"'
  else if !cs.contains '\x60' && (splitFirst? ['$', '\x7b'] cs).isNone then '\x60'
  else '\''

/-- The letter that stands for a control in an escape. -/
def shortEscape? : Char → Option Char
  | '\x08' => some 'b'
  | '\t' => some 't'
  | '\n' => some 'n'
  | '\x0c' => some 'f'
  | '\r' => some 'r'
  | _ => none

/-- Whether a character is a control. -/
def isControl (c : Char) : Bool := c.toNat < 0x20 || (0x7F ≤ c.toNat && c.toNat < 0xA0)

/-- How a character is written between quotes. -/
def escaped (quote c : Char) : List Char :=
  if c = '\\' || (c = '\'' && quote = '\'') then ['\\', c]
  else
    match shortEscape? c with
    | some letter => ['\\', letter]
    | none =>
      if isControl c then '\\' :: 'x' :: (Nat.toDigits 16 (c.toNat + 0x100)).tail.map Char.toUpper
      else [c]

/-- A text between quotes. -/
def encode (cs : List Char) : List Char :=
  let quote := quoteOf cs
  quote :: cs.flatMap (escaped quote) ++ [quote]

/-- The lines of a text, each with the line feed that ends it. -/
def linesOf (cs : List Char) : List (List Char) :=
  let pieces := splitAt '\n' cs
  (pieces.dropLast.map (· ++ ['\n']) ++ pieces.drop (pieces.length - 1)).filter (!·.isEmpty)

/-- The greatest length of a text that is shown as a whole. -/
def wholeLimit : Nat := 124

/-- A text between quotes; the lines of a long text are quoted one by one. -/
def encodeLines (cs : List Char) : List Char :=
  if wholeLimit < unitLength cs then " +\n  ".toList.intercalate ((linesOf cs).map encode)
  else encode cs

/-- The greatest length of what is shown. -/
def shownLimit : Nat := 128

/-- The beginning of a text as far as it has at most `n` units. -/
def takeUnits : (n : Nat) → List Char → List Char
  | _, [] => []
  | n, c :: cs => if (units c).length ≤ n then c :: takeUnits (n - (units c).length) cs else []

/-- How a text is shown: between quotes, and cut if that is too long. -/
def shown (s : String) : String :=
  let cs := encodeLines s.toList
  if shownLimit < unitLength cs then String.ofList (takeUnits shownLimit cs) ++ "..."
  else String.ofList cs

end BinaryReport.Text.Quoted
