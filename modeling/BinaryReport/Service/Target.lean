import BinaryReport.Service.Percent
import BinaryReport.Text.Blank
import BinaryReport.Text.Split
import BinaryReport.Text.Units

/-!
# Request targets

The path and the query that the target of a request denotes. Most targets are a path, and behind a
question mark a query. Any other target is read with some care: blanks around it do not count, a
backslash is a slash, what stands behind a number sign is left out, a scheme and a host may come
first, and characters that do not belong into a target are percent encoded.

A target can denote no path at all.
-/

namespace BinaryReport

/-- What the target of a request denotes. -/
structure Target where
  /-- The path. -/
  path : List Char
  /-- The query. -/
  query : List Char

namespace Target

/-- The path before the first question mark, and the query behind it. -/
def ofPath (cs : List Char) : Target :=
  ⟨cs.takeWhile (· ≠ '?'), (cs.dropWhile (· ≠ '?')).drop 1⟩

/-- Whether a character makes a target one that has to be read with care. -/
def needsCare (c : Char) : Bool :=
  ['\t', '\n', '\x0c', '\r', ' ', '#', '\u00A0', '\uFEFF'].contains c

/-! ## Cleaning -/

/-- Whether a character does not count at the ends of a target. -/
def isMargin (c : Char) : Bool := c ≤ ' ' || c = '\u00A0' || c = '\uFEFF'

/-- A target without what does not count at its ends. -/
def trim (cs : List Char) : List Char :=
  ((cs.dropWhile isMargin).reverse.dropWhile isMargin).reverse

/-- Whether a character ends the path of a target. -/
def endsPath (c : Char) : Bool := c = '?' || c = '#'

/-- What stands before the query and before what is left out. -/
def front (cs : List Char) : List Char := cs.takeWhile (!endsPath ·)

/-- Writes the backslashes before the query as slashes. -/
def plainSlashes (cs : List Char) : List Char :=
  (front cs).map (fun c => if c = '\\' then '/' else c) ++ cs.dropWhile (!endsPath ·)

/-- Whether a cleaned target is a path and a query and nothing else: it has no number sign, no name
of a user and no blanks, and begins with a slash or two. -/
def isPath (cs : List Char) : Bool :=
  !cs.contains '#' && !(front cs).contains '@' && !cs.any Text.isBlank
    && cs.head? = some '/' && (Text.dropBeginning? "///".toList cs).isNone

/-- How a character of a target is written. -/
def escaped (c : Char) : List Char :=
  if ['\t', '\n', '\r', ' ', '"', '\'', '<', '>', '\\', '^', '\x60', '\x7b', '|', '\x7d'].contains c
  then '%' :: (Text.hexPair c.toNat).map Char.toUpper
  else [c]

/-! ## Schemes -/

/-- Whether a character may stand in a scheme. -/
def isSchemeChar (c : Char) : Bool := c.isAlphanum || c = '.' || c = '+' || c = '-'

/-- The scheme of a target, if it has one, and the rest. -/
def splitScheme (cs : List Char) : Option (List Char) × List Char :=
  match cs.takeWhile isSchemeChar, cs.dropWhile isSchemeChar with
  | c :: scheme, ':' :: rest => (some (c :: scheme), rest)
  | _, _ => (none, cs)

/-- The schemes behind which there is a host only if two slashes say so. -/
def slashedSchemes : List (List Char) :=
  ["http", "https", "ftp", "gopher", "file", "ws", "wss"].map String.toList

/-- The scheme that has no hosts, and whose targets are left as they are. -/
def hostlessScheme : List Char := "javascript".toList

/-- The rest of a text that begins with two slashes. -/
def dropSlashes? (cs : List Char) : Option (List Char) := Text.dropBeginning? "//".toList cs

/-- Whether a target without a scheme begins with two slashes, the name of a user and a host. -/
def hasUser (cs : List Char) : Bool :=
  let isPart (c : Char) : Bool := c ≠ '@' && c ≠ '/'
  match dropSlashes? cs with
  | none => false
  | some rest =>
    match rest.takeWhile isPart, rest.dropWhile isPart with
    | _ :: _, '@' :: host => host.head?.any isPart
    | _, _ => false

/-! ## Hosts -/

/-- Whether a character ends the part of a target that holds the user and the host. -/
def endsAuthority (c : Char) : Bool := c = '/' || endsPath c

/-- Whether a character that does not end that part is never part of a host. -/
def isForeign (c : Char) : Bool :=
  [' ', '"', '%', '\'', ';', '<', '>', '\\', '^', '\x60', '\x7b', '|', '\x7d'].contains c

/-- The user before the last at sign, if there is one, and the host behind it. -/
def splitUser (cs : List Char) : Option (List Char) × List Char :=
  let host := (cs.reverse.takeWhile (· ≠ '@')).reverse
  if cs.contains '@' then (some (cs.take (cs.length - host.length - 1)), host) else (none, host)

/-- A host without its port. -/
def dropPort (host : List Char) : List Char :=
  match host.reverse.dropWhile Char.isDigit with
  | ':' :: rest => rest.reverse
  | _ => host

/-- Whether a host is an address in brackets. -/
def isBracketed (host : List Char) : Bool := host.head? = some '[' && host.getLast? = some ']'

/-- The largest length of a host; the name of a longer one does not count. -/
def hostLimit : Nat := 255

/-- Whether a character stands for nothing in the name of a host: a blank outside of ASCII. -/
def isForeignBlank (c : Char) : Bool := 0x80 ≤ c.toNat && Text.isBlank c

/-- Whether a host can be one: a host in brackets has no null character, and any other has no
brackets and no blanks outside of ASCII either. -/
def isSound (host : List Char) : Bool :=
  !host.contains '\x00'
    && (isBracketed host || !host.any fun c => c = '[' || c = ']' || isForeignBlank c)

/-- Reads the host and what follows it: the path, if it is there, begins with a slash or with a
character that is never part of a host. -/
def readNamedHost? (host behind : List Char) : Option (List Char × List Char) :=
  let host := dropPort host
  if isBracketed host then
    if !isSound host then none
    else some (host.tail.dropLast, if behind.head? = some '/' then behind else '/' :: behind)
  else
    let name := host.takeWhile (· ≠ ':')
    let extra := host.dropWhile (· ≠ ':')
    let rest := if extra.isEmpty then behind else '/' :: extra ++ behind
    if hostLimit < Text.unitLength name then some ([], rest)
    else if isSound name then some (name, rest) else none

/-- Reads the user, the host and the port, as far as they are there. -/
def readHost? (cs : List Char) : Option (List Char × List Char) :=
  let authority := (cs.takeWhile (!endsAuthority ·)).filter fun c =>
    c ≠ '\t' && c ≠ '\n' && c ≠ '\r'
  let (user?, host) := splitUser authority
  if (user?.map Percent.decode?) = some none then none
  else
    readNamedHost? (host.takeWhile (!isForeign ·))
      (host.dropWhile (!isForeign ·) ++ cs.dropWhile (!endsAuthority ·))

/-! ## Reading -/

/-- The target of a path and a query, where an empty path is none, or the root if there is no path
behind the host of a scheme that is known. -/
def finish? (hasRoot : Bool) (cs : List Char) : Option Target :=
  let t := ofPath (cs.takeWhile (· ≠ '#'))
  if !t.path.isEmpty then some t
  else if hasRoot then some ⟨['/'], t.query⟩
  else none

/-- Reads a cleaned target that is more than a path and a query. -/
def readReference? (cs : List Char) : Option Target :=
  let (scheme?, rest) := splitScheme cs
  let small := scheme?.map fun s => s.map Char.toLower
  if small = some hostlessScheme then finish? false rest
  else
    let behindSlashes? := if scheme?.isSome || hasUser rest then dropSlashes? rest else none
    let slashed (s? : Option (List Char)) : Bool := s?.any slashedSchemes.contains
    if behindSlashes?.isSome || (scheme?.isSome && !slashed scheme?) then
      match readHost? (behindSlashes?.getD rest) with
      | none => none
      | some (host, rest) => finish? (slashed small && !host.isEmpty) (rest.flatMap escaped)
    else finish? false (rest.flatMap escaped)

/-- Reads a target. -/
def read? (target : String) : Option Target :=
  let cs := target.toList
  if cs.head? = some '/' && !cs.any needsCare then some (ofPath cs)
  else
    let cs := plainSlashes (trim cs)
    if isPath cs then some (ofPath cs) else readReference? cs

end Target

end BinaryReport
