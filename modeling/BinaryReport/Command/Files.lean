import BinaryReport.Text.Quoted

/-!
# Files

The files that a run can read, as a tree of names. A path is followed name by name from the current
directory, or from the root if it begins with a slash: an empty name and a single dot stay where
they are, two dots go up, and any other name goes down. Only in a directory can a path go on.
-/

namespace BinaryReport

/-! ## Errors -/

/-- Why a file cannot be read. -/
inductive ReadError where
  /-- There is nothing at the path. -/
  | missing
  /-- There is a directory at the path. -/
  | directory
  /-- The path goes on behind a file. -/
  | notDirectory
  /-- A name of the path, or the path itself, is too long. -/
  | nameTooLong
  /-- The path has a null character. -/
  | nullCharacter
  /-- Reading is not allowed. -/
  | denied
  /-- Something else is wrong. -/
  | other (details : String)
deriving DecidableEq

/-- What is said about a path that cannot be read. -/
def ReadError.message (path : String) : ReadError → String
  | .missing => "ENOENT: no such file or directory, open '" ++ path ++ "'"
  | .directory => "EISDIR: illegal operation on a directory, read"
  | .notDirectory => "ENOTDIR: not a directory, open '" ++ path ++ "'"
  | .nameTooLong => "ENAMETOOLONG: name too long, open '" ++ path ++ "'"
  | .nullCharacter =>
    "The argument 'path' must be a string, Uint8Array, or URL without null bytes. Received "
      ++ Text.Quoted.shown path
  | .denied => "EACCES: permission denied, open '" ++ path ++ "'"
  | .other details => details

/-- How files are read. -/
abbrev FileReader := String → Except ReadError String

/-! ## The tree -/

/-- A place in the tree: the names on the way from the root. -/
abbrev Place := List (List Char)

/-- What is at a place. -/
inductive FileNode where
  /-- A directory. -/
  | directory
  /-- A file with a text. -/
  | file (text : String)
deriving DecidableEq

/-- The files of a system. -/
structure Files where
  /-- The current directory. -/
  current : Place
  /-- What is where. The directories on the way to a place need not be listed. -/
  nodes : List (Place × FileNode)

namespace Files

/-- The names of a path, without those that stay where they are. -/
def names (path : String) : Place :=
  (Text.splitAt '/' path.toList).filter fun name => !name.isEmpty && name ≠ ['.']

/-- Adds a file, or a directory if its path ends with a slash. The path is one from the current
directory unless it begins with a slash. -/
def add (files : Files) (path text : String) : Files :=
  let cs := path.toList
  let place := if cs.head? = some '/' then names path else files.current ++ names path
  let node := if cs.getLast? = some '/' then .directory else FileNode.file text
  { files with nodes := (place, node) :: files.nodes }

/-- What is at a place. There is a directory wherever something is below. -/
def node? (files : Files) (place : Place) : Option FileNode :=
  match files.nodes.lookup place with
  | some node => some node
  | none =>
    if place.isEmpty || place.isPrefixOf files.current
        || files.nodes.any fun n => place.isPrefixOf n.1
    then some .directory else none

/-! ## Paths -/

/-- The largest number of bytes of a name. -/
def nameLimit : Nat := 255

/-- The largest number of bytes of a path. -/
def pathLimit : Nat := 4095

/-- Follows a name from a place. -/
def follow (files : Files) (place : Place) (name : List Char) : Except ReadError Place :=
  match files.node? place with
  | none => .error .missing
  | some (.file _) => .error .notDirectory
  | some .directory =>
    if name = [] ∨ name = ['.'] then .ok place
    else if name = ['.', '.'] then .ok place.dropLast
    else if nameLimit < (String.ofList name).utf8ByteSize then .error .nameTooLong
    else .ok (place ++ [name])

/-- The place that a path leads to. -/
def resolve (files : Files) (path : String) : Except ReadError Place :=
  if path.isEmpty then .error .missing
  else if pathLimit < path.utf8ByteSize then .error .nameTooLong
  else
    (Text.splitAt '/' path.toList).foldlM files.follow
      (if path.toList.head? = some '/' then [] else files.current)

/-- Reads a file. -/
def read (files : Files) (path : String) : Except ReadError String := do
  match files.node? (← files.resolve path) with
  | none => .error .missing
  | some .directory => .error .directory
  | some (.file text) => .ok text

end Files

end BinaryReport
