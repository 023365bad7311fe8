import BinaryReport.Program.Basic
import BinaryReport.Snapshot.Schema

/-!
# Loading a snapshot

A snapshot becomes a program entry by entry, in the order of the schema: addresses are read,
functions are sorted by their entries, symbols that are already there are skipped, data is placed.
The first thing that cannot be done is the error, with the place in the snapshot.
-/

namespace BinaryReport

/-- Why an entry of a snapshot cannot be loaded. -/
inductive LoadReason where
  /-- A text denotes no address. -/
  | address (e : AddressError)
  /-- There is an earlier instruction at the address. -/
  | duplicateInstruction (text : String)
  /-- The body of a function does not contain its entry. -/
  | entryOutsideBody (text : String)
  /-- There is an earlier function with the entry. -/
  | duplicateFunction (text : String)
  /-- A text denotes no data type. -/
  | type (e : DataTypeError)
  /-- Data cannot be placed. -/
  | placement (e : Program.PlacementError)
deriving DecidableEq

namespace LoadReason

/-- What is wrong with the entry. -/
def message : LoadReason → String
  | .address e => e.message
  | .duplicateInstruction text => "duplicate instruction at " ++ text
  | .entryOutsideBody text => "body does not contain entry " ++ text
  | .duplicateFunction text => "duplicate function at " ++ text
  | .type e => e.message
  | .placement e => e.message

end LoadReason

/-- An entry of a snapshot that cannot be loaded. -/
structure LoadError where
  /-- The path to the entry or to its member. -/
  path : List PathStep
  /-- Why it cannot be loaded. -/
  reason : LoadReason
deriving DecidableEq

namespace LoadError

/-- The error as a failure. A length that is no integer is not blamed on the snapshot. -/
def failure (e : LoadError) : Failure :=
  match e.reason with
  | .placement (.extent (.notInteger displacement)) =>
    DisplacementError.failure (.notInteger displacement)
  | reason => Snapshot.invalidAt (PathStep.pathText e.path) reason.message

end LoadError

namespace Program.Load

variable {α β σ : Type}

/-! ## Loading lists -/

/-- Loads the entries of a list in order, with their indices. -/
def each (load : Nat → α → Except LoadError β) (index : Nat) : List α → Except LoadError (List β)
  | [] => .ok []
  | entry :: rest => do
    let b ← load index entry
    let bs ← each load (index + 1) rest
    .ok (b :: bs)

/-- Adds the entries of a list in order to what is there, with their indices. -/
def addEach (add : σ → Nat → α → Except LoadError σ) (state : σ) (index : Nat) :
    List α → Except LoadError σ
  | [] => .ok state
  | entry :: rest => do
    let state ← add state index entry
    addEach add state (index + 1) rest

/-- Reads an address at a path. -/
def address (space : AddressSpace) (path : List PathStep) (text : String) :
    Except LoadError Address :=
  (space.parse text).mapError fun e => ⟨path, .address e⟩

/-- The path to a member of an entry. -/
def member (list : String) (index : Nat) (key : String) : List PathStep :=
  [.key list, .index index, .key key]

/-- The path to an entry of a list. -/
def item (list : String) (index : Nat) : List PathStep := [.key list, .index index]

/-! ## Parts -/

/-- The least of the addresses. -/
def least? : List Address → Option Address
  | [] => none
  | a :: rest =>
    match least? rest with
    | none => some a
    | some b => some (if b.offset < a.offset then b else a)

/-- Adds an instruction. -/
def addInstruction (space : AddressSpace) (done : List Instruction) (index : Nat)
    (e : InstructionEntry) : Except LoadError (List Instruction) := do
  let a ← address space (member "instructions" index "address") e.address
  if done.any (·.address = a) then
    .error ⟨member "instructions" index "address", .duplicateInstruction e.address⟩
  else .ok (done ++ [⟨a, e.mnemonic, e.operands, e.bytes.bytes.map signedByte⟩])

/-- Loads a range of a function's body. -/
def bodyRange (space : AddressSpace) (function index : Nat) (e : BodyEntry) :
    Except LoadError AddressRange := do
  let path (key : String) : List PathStep :=
    [.key "functions", .index function, .key "body", .index index, .key key]
  let first ← address space (path "start") e.start
  let last ← address space (path "end") e.last
  .ok ⟨first, last⟩

/-- A function with its place in the snapshot. -/
structure Placed where
  /-- The index of its entry. -/
  index : Nat
  /-- The text of its entry address. -/
  entryText : String
  /-- The function. -/
  function : Function

/-- Loads a function. -/
def function (space : AddressSpace) (index : Nat) (e : FunctionEntry) :
    Except LoadError Placed := do
  let entry ← address space (member "functions" index "entry") e.entry
  let ranges ← each (bodyRange space index) 0 e.body
  let body := RangeSet.ofRanges ranges
  if body.contains entry then
    .ok ⟨index, e.entry, ⟨⟨e.name, entry, .function, e.source, false⟩, body, e.returnType,
      e.parameters, e.decompiled?, e.latency⟩⟩
  else .error ⟨member "functions" index "body", .entryOutsideBody e.entry⟩

/-- Whether the first function is not entered behind the second. -/
def entersBefore (f g : Placed) : Bool := f.function.entry.offset ≤ g.function.entry.offset

/-- Adds a function, unless one with its entry is there. -/
def addFunction (done : List Function) (_ : Nat) (f : Placed) : Except LoadError (List Function) :=
  if done.any (·.entry = f.function.entry) then
    .error ⟨member "functions" f.index "entry", .duplicateFunction f.entryText⟩
  else .ok (done ++ [f.function])

/-- Loads the functions and sorts them by their entries. -/
def sortedFunctions (space : AddressSpace) (entries : List FunctionEntry) :
    Except LoadError (List Function) := do
  let placed ← each (function space) 0 entries
  addEach addFunction [] 0 (placed.mergeSort entersBefore)

/-- Adds a symbol to the labels, unless one of its name and address is in the table. -/
def addSymbol (space : AddressSpace) (functions : List Function) (labels : List Symbol)
    (index : Nat) (e : SymbolEntry) : Except LoadError (List Symbol) := do
  let a ← address space (member "symbols" index "address") e.address
  let known (s : Symbol) : Bool := s.name = e.name && s.address = a
  if functions.any (fun f => known f.symbol) || labels.any known then .ok labels
  else .ok (labels ++ [⟨e.name, a, e.kind, e.source, e.isExternal⟩])

/-- Adds a unit of data to a program. -/
def addData (p : Program) (index : Nat) (e : DataEntry) : Except LoadError Program := do
  let a ← address p.space (member "data" index "address") e.address
  let t ← (p.parseType e.type).mapError fun err => LoadError.mk (item "data" index) (.type err)
  (p.placeData a t).mapError fun err => LoadError.mk (item "data" index) (.placement err)

/-- Loads a comment. -/
def comment (space : AddressSpace) (index : Nat) (e : CommentEntry) :
    Except LoadError Comment := do
  let a ← address space (member "comments" index "address") e.address
  .ok ⟨a, e.kind, e.text⟩

end Program.Load

namespace Program

open Load

/-- Loads a snapshot. -/
def load (s : Snapshot) : Except LoadError Program := do
  let space : AddressSpace := ⟨s.pointerSize.bytes⟩
  let imageBase ← address space [.key "imageBase"] s.imageBase
  let starts ← each (fun i e => address space (member "memory" i "start") e.start) 0 s.memory
  let entryPoints ← each (fun i text => address space (item "entryPoints" i) text) 0 s.entryPoints
  let instructions ← addEach (addInstruction space) [] 0 s.instructions
  let functions ← sortedFunctions space s.functions
  let labels ← addEach (addSymbol space functions) [] 0 s.symbols
  let bare : Program :=
    ⟨s.name, s.language, space, imageBase, least? starts, entryPoints, functions, labels,
      instructions, [], []⟩
  let p ← addEach addData bare 0 s.data
  let comments ← each (comment space) 0 s.comments
  .ok { p with comments := comments }

end Program

end BinaryReport
