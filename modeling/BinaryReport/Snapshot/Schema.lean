import BinaryReport.Check
import BinaryReport.Failure
import BinaryReport.Snapshot.Basic

/-!
# The schema of snapshots

`Snapshot.check` reads a snapshot from a JSON value, with a default for every member that may be
missing, and `Snapshot.toJson` writes it with all members in the order of the schema.
`Snapshot.parse` reports the first issue as a failure.
-/

namespace BinaryReport

open Check

/-! ## Values -/

/-- One of the sources. -/
def Source.check : Check Source := choice (Source.all.map fun s => (s.name, s))

/-- One of the kinds of symbols. -/
def SymbolKind.check : Check SymbolKind := choice (SymbolKind.all.map fun k => (k.name, k))

/-- One of the kinds of comments. -/
def CommentKind.check : Check CommentKind := choice (CommentKind.all.map fun k => (k.name, k))

/-- The number 4 or the number 8. -/
def PointerSize.check : Check PointerSize where
  expected := "number"
  run
    | .number x =>
      if x = .ofNat 4 then .accepted .four
      else if x = .ofNat 8 then .accepted .eight
      else .complain .noneOf
    | _ => .complain .noneOf

/-- A text of bytes. -/
def ByteText.check : Check ByteText where
  expected := "string"
  run
    | .string s =>
      if h : (readHexBytes? s).isSome then .accepted ⟨s, h⟩
      else .complain (.badForm "expected space-separated hex byte pairs")
    | v => mismatch "string" v

/-! ## Entries -/

/-- A block of memory; its length is a positive integer. -/
def MemoryEntry.check : Check MemoryEntry := record fun ms =>
  MemoryEntry.mk <$> required "name" anyText ms <*> required "start" anyText ms
    <*> required "length" (number [.integer, .positive]) ms

/-- An instruction. -/
def InstructionEntry.check : Check InstructionEntry := record fun ms =>
  InstructionEntry.mk <$> required "address" anyText ms <*> required "mnemonic" nonemptyText ms
    <*> withDefault "operands" "" anyText ms <*> required "bytes" ByteText.check ms

/-- A range of a body. -/
def BodyEntry.check : Check BodyEntry := record fun ms =>
  BodyEntry.mk <$> required "start" anyText ms <*> required "end" anyText ms

/-- A function; its latency is not negative. -/
def FunctionEntry.check : Check FunctionEntry := record fun ms =>
  FunctionEntry.mk <$> required "name" nonemptyText ms <*> required "entry" anyText ms
    <*> required "body" (nonemptyArray BodyEntry.check) ms
    <*> withDefault "returnType" "undefined" anyText ms
    <*> withDefault "parameters" [] (array anyText) ms
    <*> withDefault "source" .analysis Source.check ms
    <*> optional "decompiled" anyText ms
    <*> withDefault "decompileLatencyMs" 0 (number [.nonnegative]) ms

/-- A symbol. -/
def SymbolEntry.check : Check SymbolEntry := record fun ms =>
  SymbolEntry.mk <$> required "name" nonemptyText ms <*> required "address" anyText ms
    <*> withDefault "type" .label SymbolKind.check ms
    <*> withDefault "source" .analysis Source.check ms
    <*> withDefault "external" false bool ms

/-- A unit of data. -/
def DataEntry.check : Check DataEntry := record fun ms =>
  DataEntry.mk <$> required "address" anyText ms <*> required "type" anyText ms

/-- A comment. -/
def CommentEntry.check : Check CommentEntry := record fun ms =>
  CommentEntry.mk <$> required "address" anyText ms
    <*> withDefault "kind" .endOfLine CommentKind.check ms <*> required "text" anyText ms

namespace Snapshot

/-- A snapshot. -/
def check : Check Snapshot := record fun ms =>
  Snapshot.mk <$> required "name" nonemptyText ms <*> required "language" nonemptyText ms
    <*> required "imageBase" anyText ms
    <*> withDefault "pointerSize" .eight PointerSize.check ms
    <*> withDefault "entryPoints" [] (array anyText) ms
    <*> withDefault "memory" [] (array MemoryEntry.check) ms
    <*> withDefault "instructions" [] (array InstructionEntry.check) ms
    <*> withDefault "functions" [] (array FunctionEntry.check) ms
    <*> withDefault "symbols" [] (array SymbolEntry.check) ms
    <*> withDefault "data" [] (array DataEntry.check) ms
    <*> withDefault "comments" [] (array CommentEntry.check) ms

/-- The failure of a snapshot with something wrong at a place. -/
def invalidAt (place reason : String) : Failure :=
  .ofKind .snapshot ("Invalid snapshot at " ++ place ++ ": " ++ reason)

/-- Reads a snapshot; the first issue is the failure. -/
def parse (v : Json) : Except Failure Snapshot :=
  match check.run v with
  | .accepted s => .ok s
  | .refused first _ => .error (invalidAt (PathStep.pathName first.path) first.message)

end Snapshot

/-! ## Writing -/

/-- A block of memory as a JSON value. -/
def MemoryEntry.toJson (e : MemoryEntry) : Json :=
  .object [("name", .string e.name), ("start", .string e.start), ("length", .number e.length)]

/-- An instruction as a JSON value. -/
def InstructionEntry.toJson (e : InstructionEntry) : Json :=
  .object [("address", .string e.address), ("mnemonic", .string e.mnemonic),
    ("operands", .string e.operands), ("bytes", .string e.bytes.text)]

/-- A range of a body as a JSON value. -/
def BodyEntry.toJson (e : BodyEntry) : Json :=
  .object [("start", .string e.start), ("end", .string e.last)]

/-- A function as a JSON value; the code is left out if there is none. -/
def FunctionEntry.toJson (e : FunctionEntry) : Json :=
  .object ([("name", .string e.name), ("entry", .string e.entry),
    ("body", .array (e.body.map BodyEntry.toJson)), ("returnType", .string e.returnType),
    ("parameters", .strings e.parameters), ("source", .string e.source.name)]
    ++ (e.decompiled?.map fun code => ("decompiled", Json.string code)).toList
    ++ [("decompileLatencyMs", .number e.latency)])

/-- A symbol as a JSON value. -/
def SymbolEntry.toJson (e : SymbolEntry) : Json :=
  .object [("name", .string e.name), ("address", .string e.address), ("type", .string e.kind.name),
    ("source", .string e.source.name), ("external", .bool e.isExternal)]

/-- A unit of data as a JSON value. -/
def DataEntry.toJson (e : DataEntry) : Json :=
  .object [("address", .string e.address), ("type", .string e.type)]

/-- A comment as a JSON value. -/
def CommentEntry.toJson (e : CommentEntry) : Json :=
  .object [("address", .string e.address), ("kind", .string e.kind.name), ("text", .string e.text)]

/-- A snapshot as a JSON value. -/
def Snapshot.toJson (s : Snapshot) : Json :=
  .object [("name", .string s.name), ("language", .string s.language),
    ("imageBase", .string s.imageBase), ("pointerSize", .number (.ofNat s.pointerSize.bytes)),
    ("entryPoints", .strings s.entryPoints), ("memory", .array (s.memory.map MemoryEntry.toJson)),
    ("instructions", .array (s.instructions.map InstructionEntry.toJson)),
    ("functions", .array (s.functions.map FunctionEntry.toJson)),
    ("symbols", .array (s.symbols.map SymbolEntry.toJson)),
    ("data", .array (s.data.map DataEntry.toJson)),
    ("comments", .array (s.comments.map CommentEntry.toJson))]

end BinaryReport
