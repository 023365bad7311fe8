import BinaryReport.Json.Reader
import BinaryReport.Service.Charset
import BinaryReport.Service.Target
import BinaryReport.Text.Split

/-!
# Requests and responses

What a client sends and what it gets back. The arguments of a request are its body, read as JSON if
the header says that it is JSON; a body that cannot be read is refused before anything else is
looked at.
-/

namespace BinaryReport

/-- A request. -/
structure Request where
  /-- The method. -/
  method : String
  /-- The path with the query, or whatever else the client sends in their place. -/
  target : String
  /-- The body, if there is one. -/
  body? : Option String
  /-- The type of the body as the header gives it, if it does. -/
  contentType? : Option String
  /-- The address of the client. -/
  client : String

/-- The type of a response. -/
inductive MediaType where
  /-- JSON. -/
  | json
  /-- Plain text. -/
  | plain
  /-- Markdown. -/
  | markdown
  /-- A page for browsers. -/
  | page
deriving DecidableEq

/-- The name of a type as the header gives it. -/
def MediaType.name : MediaType → String
  | .json => "application/json; charset=utf-8"
  | .plain => "text/plain; charset=utf-8"
  | .markdown => "text/markdown; charset=utf-8"
  | .page => "text/html; charset=utf-8"

/-- The body of a response. -/
inductive ResponseBody where
  /-- A JSON value. -/
  | json (v : Json)
  /-- A text. -/
  | text (s : String)
  /-- Nothing. -/
  | empty

/-- A response. -/
structure Response where
  /-- The status. -/
  status : Nat
  /-- The type of the body, if there is any. -/
  type? : Option MediaType
  /-- The body. -/
  body : ResponseBody

namespace Response

/-- A JSON response. -/
def json (status : Nat) (v : Json) : Response := ⟨status, some .json, .json v⟩

/-- A text response. -/
def text (type : MediaType) (s : String) : Response := ⟨200, some type, .text s⟩

/-- The JSON form of an error. -/
def errorJson (message : String) : Json :=
  .object [("error", .bool true), ("message", .string message)]

/-- A response that reports an error. -/
def error (status : Nat) (message : String) : Response := json status (errorJson message)

/-- A page for browsers, with a text that does not matter. -/
def page (status : Nat) : Response := ⟨status, some .page, .empty⟩

/-- The response where there is nothing at a path. -/
def notFound : Response := page 404

/-- The response to a question about what is allowed. -/
def allowed : Response := ⟨204, none, .empty⟩

/-- The response without its body. -/
def bodiless (r : Response) : Response := { r with body := .empty }

end Response

/-! ## Headers -/

namespace ContentType

/-- Whether a character may stand in a name of a header. -/
def isTokenChar (c : Char) : Bool :=
  c.isAlphanum
    || ['!', '#', '$', '%', '&', '\'', '*', '+', '-', '.', '^', '_', '\x60', '|', '~'].contains c

/-- Drops spaces. -/
def dropSpaces (cs : List Char) : List Char := cs.dropWhile (· = ' ')

/-- Whether a character may be escaped in a quoted value: those of ASCII that are seen. -/
def isEscapable (c : Char) : Bool := ' ' ≤ c && c ≤ '~'

/-- Whether a character may stand for itself in a quoted value: those that may be escaped but for
the quote and the backslash, and those of the upper half of Latin-1. -/
def isQuotable (c : Char) : Bool :=
  (isEscapable c && c ≠ '"' && c ≠ '\\') || ('\u0080' ≤ c && c ≤ 'ÿ')

/-- Reads the rest of a quoted value after its opening quote, given what has been read in
reverse. -/
def readQuoted (done : List Char) : List Char → Option (List Char × List Char)
  | '"' :: rest => some (done.reverse, rest)
  | '\\' :: c :: rest => if isEscapable c then readQuoted (c :: done) rest else none
  | c :: rest => if isQuotable c then readQuoted (c :: done) rest else none
  | [] => none

/-- Reads a value: a name or a quoted text. -/
def readValue? (cs : List Char) : Option (List Char × List Char) :=
  match cs with
  | '"' :: rest => readQuoted [] rest
  | _ =>
    let value := cs.takeWhile isTokenChar
    if value.isEmpty then none else some (value, cs.dropWhile isTokenChar)

/-- Reads a parameter after its semicolon: a name, an equals sign and a value. -/
def readParameter? (cs : List Char) : Option ((List Char × List Char) × List Char) := do
  let cs := dropSpaces cs
  let name := cs.takeWhile isTokenChar
  if name.isEmpty then none
  match dropSpaces (cs.dropWhile isTokenChar) with
  | '=' :: rest =>
    let (value, rest) ← readValue? (dropSpaces rest)
    some ((name.map Char.toLower, value), dropSpaces rest)
  | _ => none

/-- Reads up to `n` parameters that span the text. -/
def readParameters? : (n : Nat) → List Char → Option (List (List Char × List Char))
  | _, [] => some []
  | 0, _ => none
  | n + 1, ';' :: cs => do
    let (parameter, rest) ← readParameter? cs
    let parameters ← readParameters? n rest
    some (parameter :: parameters)
  | _, _ => none

/-- The type and the parameters of a header. -/
def read? (header : String) : Option (List Char × List (List Char × List Char)) := do
  let cs := header.toList
  let type := (Text.splitAt ' ' (cs.takeWhile (· ≠ ';'))).filter (!·.isEmpty)
  let parameters ← readParameters? cs.length (cs.dropWhile (· ≠ ';'))
  match type with
  | [type] => some (type.map Char.toLower, parameters)
  | _ => none

/-- The type whose bodies are read. -/
def jsonType : List Char := "application/json".toList

/-- The name of the character set that a header names, in small letters, or that of UTF-8 if it
names none. -/
def charsetName (parameters : List (List Char × List Char)) : List Char :=
  match parameters.reverse.lookup "charset".toList with
  | some (c :: name) => (c :: name).map Charset.toLower
  | _ => "utf-8".toList

end ContentType

/-! ## Bodies -/

/-- Why the body of a request is refused. -/
inductive BodyProblem where
  /-- It is in a character set that is not known. -/
  | charset (name : String)
  /-- It is too large. -/
  | tooLarge
  /-- It is not JSON. -/
  | invalidJson
deriving DecidableEq

namespace BodyProblem

/-- The status of the response. -/
def status : BodyProblem → Nat
  | .charset _ => 415
  | .tooLarge => 413
  | .invalidJson => 400

/-- The message of the response. -/
def message : BodyProblem → String
  | .charset name => "unsupported charset \"" ++ name ++ "\""
  | .tooLarge => "request entity too large"
  | .invalidJson => "invalid JSON"

/-- The response. -/
def response (p : BodyProblem) : Response := .error p.status p.message

end BodyProblem

namespace Request

/-- The largest number of bytes of a body. -/
def bodyLimit : Nat := 2097152

/-- The arguments when there are none. -/
def noArguments : Json := .object []

/-- Reads a body as an object or an array. -/
def readDocument (cs : List Char) : Except BodyProblem Json :=
  match Json.skipSeparators cs with
  | [] => .error .invalidJson
  | c :: _ =>
    if c = '\x7b' ∨ c = '[' then
      match Json.readChars? cs with
      | some v => .ok v
      | none => .error .invalidJson
    else .error .invalidJson

/-- Reads a body in the character set of a name in small letters. -/
def readBody (name : List Char) (body : String) : Except BodyProblem Json :=
  let unknown : BodyProblem := .charset (String.ofList (name.flatMap Charset.capitals))
  if (Text.dropBeginning? "utf-".toList name).isNone then .error unknown
  else if bodyLimit < body.utf8ByteSize then .error .tooLarge
  else
    match Charset.ofName? name with
    | none => .error unknown
    | some set =>
      let cs := set.decode body
      if cs.isEmpty then .ok noArguments else readDocument cs

/-- The arguments of a request. -/
def arguments (r : Request) : Except BodyProblem Json :=
  match r.body?, r.contentType?.bind ContentType.read? with
  | some body, some (type, parameters) =>
    if type = ContentType.jsonType then readBody (ContentType.charsetName parameters) body
    else .ok noArguments
  | _, _ => .ok noArguments

/-- What the target of a request denotes. -/
def target? (r : Request) : Option Target := Target.read? r.target

/-- Whether the method of a request is the one of a name; capitals do not count. -/
def hasMethod (name : String) (r : Request) : Bool := r.method.toLower == name.toLower

/-- Whether a request asks for a response without its body. Here capitals count. -/
def wantsNoBody (r : Request) : Bool := r.method == "HEAD"

/-- Whether a request asks for something to be shown. -/
def isGet (r : Request) : Bool := r.hasMethod "GET" || r.hasMethod "HEAD"

end Request

end BinaryReport
