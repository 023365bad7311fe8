import BinaryReport.Proofs.Check.Implements
import Mathlib.Logic.Relation

/-!
# The form of snapshots

The schema of snapshots and of their entries, with the members in their order and the values that stand
for those that may be missing. The checks of snapshots and entries implement it
(`Snapshot.implements_check`), so a snapshot is refused for the first place at which something is wrong
(`Snapshot.exists_parse_iff`, `Snapshot.parse_eq_error_iff`), and edits at places where the schema does
not care change nothing (`Snapshot.parse_edits`).
-/

namespace BinaryReport

open Check

/-! ## Schemas -/

/-- One of the sources. -/
def Source.schema : Schema := .choice ["DEFAULT", "ANALYSIS", "IMPORTED", "USER_DEFINED"]

/-- One of the kinds of symbols. -/
def SymbolKind.schema : Schema :=
  .choice ["Function", "Label", "Namespace", "Class", "Library", "Global Var"]

/-- One of the kinds of comments. -/
def CommentKind.schema : Schema := .choice ["EOL", "PRE", "POST", "PLATE", "REPEATABLE"]

/-- A block of memory. -/
def MemoryEntry.schema : Schema :=
  .record [.mk "name" .required .text, .mk "start" .required .text,
    .mk "length" .required (.number [.integer, .positive])]

/-- An instruction. -/
def InstructionEntry.schema : Schema :=
  .record [.mk "address" .required .text, .mk "mnemonic" .required .nonemptyText,
    .mk "operands" (.default (.string "")) .text, .mk "bytes" .required .bytes]

/-- A range of a body. -/
def BodyEntry.schema : Schema :=
  .record [.mk "start" .required .text, .mk "end" .required .text]

/-- A function. -/
def FunctionEntry.schema : Schema :=
  .record [.mk "name" .required .nonemptyText, .mk "entry" .required .text,
    .mk "body" .required (.list true BodyEntry.schema),
    .mk "returnType" (.default (.string "undefined")) .text,
    .mk "parameters" (.default (.array [])) (.list false .text),
    .mk "source" (.default (.string "ANALYSIS")) Source.schema,
    .mk "decompiled" .optional .text,
    .mk "decompileLatencyMs" (.default (.number (.ofNat 0))) (.number [.nonnegative])]

/-- A symbol. -/
def SymbolEntry.schema : Schema :=
  .record [.mk "name" .required .nonemptyText, .mk "address" .required .text,
    .mk "type" (.default (.string "Label")) SymbolKind.schema,
    .mk "source" (.default (.string "ANALYSIS")) Source.schema,
    .mk "external" (.default (.bool false)) .truth]

/-- A unit of data. -/
def DataEntry.schema : Schema :=
  .record [.mk "address" .required .text, .mk "type" .required .text]

/-- A comment. -/
def CommentEntry.schema : Schema :=
  .record [.mk "address" .required .text, .mk "kind" (.default (.string "EOL")) CommentKind.schema,
    .mk "text" .required .text]

/-- A snapshot. -/
def Snapshot.schema : Schema :=
  .record [.mk "name" .required .nonemptyText, .mk "language" .required .nonemptyText,
    .mk "imageBase" .required .text,
    .mk "pointerSize" (.default (.number (.ofNat 8))) (.oneOf [.ofNat 4, .ofNat 8]),
    .mk "entryPoints" (.default (.array [])) (.list false .text),
    .mk "memory" (.default (.array [])) (.list false MemoryEntry.schema),
    .mk "instructions" (.default (.array [])) (.list false InstructionEntry.schema),
    .mk "functions" (.default (.array [])) (.list false FunctionEntry.schema),
    .mk "symbols" (.default (.array [])) (.list false SymbolEntry.schema),
    .mk "data" (.default (.array [])) (.list false DataEntry.schema),
    .mk "comments" (.default (.array [])) (.list false CommentEntry.schema)]

/-! ## Checks of values -/

theorem Source.implements_check : Source.check.Implements Source.schema :=
  implements_names Source.all Source.name

theorem SymbolKind.implements_check : SymbolKind.check.Implements SymbolKind.schema :=
  implements_names SymbolKind.all SymbolKind.name

theorem CommentKind.implements_check : CommentKind.check.Implements CommentKind.schema :=
  implements_names CommentKind.all CommentKind.name

theorem PointerSize.check_bytes (p : PointerSize) :
    PointerSize.check.run (.number (.ofNat p.bytes)) = .accepted p := by
  have hrun (n : Nat) : PointerSize.check.run (.number (.ofNat n)) =
      if Binary64.ofNat n = .ofNat 4 then .accepted .four
      else if Binary64.ofNat n = .ofNat 8 then .accepted .eight else .complain .noneOf := rfl
  have hne : Binary64.ofNat 8 ≠ .ofNat 4 := by decide
  cases p with
  | four => rw [PointerSize.bytes, hrun, if_pos rfl]
  | eight => rw [PointerSize.bytes, hrun, if_neg hne, if_pos rfl]

theorem PointerSize.implements_check :
    PointerSize.check.Implements (.oneOf [.ofNat 4, .ofNat 8]) where
  expected := rfl
  first v := by
    refine first?_of_complaint? rfl ?_
    cases v with
    | number x =>
      unfold PointerSize.check Schema.complaint?
      dsimp only
      by_cases hfour : x = .ofNat 4
      · rw [if_pos hfour, if_pos (by simp [hfour])]
        exact ⟨.four, rfl⟩
      · by_cases height : x = .ofNat 8
        · rw [if_neg hfour, if_pos height, if_pos (by simp [height])]
          exact ⟨.eight, rfl⟩
        · rw [if_neg hfour, if_neg height, if_neg (by simp [hfour, height])]
    | null | bool | string | array | object => rfl
  edit h := by cases h

theorem ByteText.implements_check : ByteText.check.Implements .bytes where
  expected := rfl
  first v := by
    refine first?_of_complaint? rfl ?_
    cases v with
    | string s =>
      unfold ByteText.check Schema.complaint?
      dsimp only
      by_cases hreadable : (readHexBytes? s).isSome = true
      · rw [dif_pos hreadable, if_pos hreadable]
        exact ⟨_, rfl⟩
      · rw [dif_neg hreadable, if_neg hreadable]
    | null | bool | number | array | object => rfl
  edit h := by cases h

/-! ## Checks of entries -/

theorem MemoryEntry.implements_check : MemoryEntry.check.Implements MemoryEntry.schema := by
  have hread := ((reads_required "name" implements_anyText).map MemoryEntry.mk)
    |>.seq (reads_required "start" implements_anyText)
    |>.seq (reads_required "length" (implements_number [.integer, .positive]))
  exact implements_record (by decide) hread

theorem InstructionEntry.implements_check :
    InstructionEntry.check.Implements InstructionEntry.schema := by
  have hread := ((reads_required "address" implements_anyText).map InstructionEntry.mk)
    |>.seq (reads_required "mnemonic" implements_nonemptyText)
    |>.seq (reads_withDefault "operands" (w := .string "") implements_anyText rfl)
    |>.seq (reads_required "bytes" ByteText.implements_check)
  exact implements_record (by decide) hread

theorem BodyEntry.implements_check : BodyEntry.check.Implements BodyEntry.schema := by
  have hread := ((reads_required "start" implements_anyText).map BodyEntry.mk)
    |>.seq (reads_required "end" implements_anyText)
  exact implements_record (by decide) hread

theorem FunctionEntry.implements_check : FunctionEntry.check.Implements FunctionEntry.schema := by
  have hlatency : (number [.nonnegative]).run (.number (.ofNat 0)) = .accepted 0 := by rfl
  have hread := ((reads_required "name" implements_nonemptyText).map FunctionEntry.mk)
    |>.seq (reads_required "entry" implements_anyText)
    |>.seq (reads_required "body" (implements_nonemptyArray BodyEntry.implements_check))
    |>.seq (reads_withDefault "returnType" (w := .string "undefined") implements_anyText rfl)
    |>.seq (reads_withDefault "parameters" (w := .array []) (implements_array implements_anyText) rfl)
    |>.seq (reads_withDefault "source" (w := .string "ANALYSIS") Source.implements_check rfl)
    |>.seq (reads_optional "decompiled" implements_anyText)
    |>.seq (reads_withDefault "decompileLatencyMs" (implements_number [.nonnegative]) hlatency)
  exact implements_record (by decide) hread

theorem SymbolEntry.implements_check : SymbolEntry.check.Implements SymbolEntry.schema := by
  have hread := ((reads_required "name" implements_nonemptyText).map SymbolEntry.mk)
    |>.seq (reads_required "address" implements_anyText)
    |>.seq (reads_withDefault "type" (w := .string "Label") SymbolKind.implements_check rfl)
    |>.seq (reads_withDefault "source" (w := .string "ANALYSIS") Source.implements_check rfl)
    |>.seq (reads_withDefault "external" (w := .bool false) implements_bool rfl)
  exact implements_record (by decide) hread

theorem DataEntry.implements_check : DataEntry.check.Implements DataEntry.schema := by
  have hread := ((reads_required "address" implements_anyText).map DataEntry.mk)
    |>.seq (reads_required "type" implements_anyText)
  exact implements_record (by decide) hread

theorem CommentEntry.implements_check : CommentEntry.check.Implements CommentEntry.schema := by
  have hread := ((reads_required "address" implements_anyText).map CommentEntry.mk)
    |>.seq (reads_withDefault "kind" (w := .string "EOL") CommentKind.implements_check rfl)
    |>.seq (reads_required "text" implements_anyText)
  exact implements_record (by decide) hread

theorem Snapshot.implements_check : Snapshot.check.Implements Snapshot.schema := by
  have hread := ((reads_required "name" implements_nonemptyText).map Snapshot.mk)
    |>.seq (reads_required "language" implements_nonemptyText)
    |>.seq (reads_required "imageBase" implements_anyText)
    |>.seq (reads_withDefault "pointerSize" PointerSize.implements_check
      (PointerSize.check_bytes .eight))
    |>.seq (reads_withDefault "entryPoints" (w := .array []) (implements_array implements_anyText) rfl)
    |>.seq (reads_withDefault "memory" (w := .array [])
      (implements_array MemoryEntry.implements_check) rfl)
    |>.seq (reads_withDefault "instructions" (w := .array [])
      (implements_array InstructionEntry.implements_check) rfl)
    |>.seq (reads_withDefault "functions" (w := .array [])
      (implements_array FunctionEntry.implements_check) rfl)
    |>.seq (reads_withDefault "symbols" (w := .array [])
      (implements_array SymbolEntry.implements_check) rfl)
    |>.seq (reads_withDefault "data" (w := .array [])
      (implements_array DataEntry.implements_check) rfl)
    |>.seq (reads_withDefault "comments" (w := .array [])
      (implements_array CommentEntry.implements_check) rfl)
  exact implements_record (by decide) hread

/-! ## Reading -/

namespace Snapshot

/-- A snapshot is read if nothing is wrong at any place. -/
theorem exists_parse_iff {v : Json} :
    (∃ s, parse v = .ok s) ↔ ∀ p ∈ schema.places v, p.complaint? = none := by
  have hfirst := implements_check.first v
  rw [← Schema.firstIssue?_eq_none_iff, ← hfirst]
  unfold parse
  cases check.run v with
  | accepted s => exact ⟨fun _ => rfl, fun _ => ⟨s, rfl⟩⟩
  | refused first others => exact ⟨fun ⟨_, h⟩ => (nomatch h), nofun⟩

/-- A snapshot that cannot be read is refused for the first place at which something is wrong. -/
theorem parse_eq_error_iff {v : Json} {f : Failure} :
    parse v = .error f ↔
      ∃ before p after c, schema.places v = before ++ p :: after ∧
        (∀ q ∈ before, q.complaint? = none) ∧ p.complaint? = some c ∧
        f = invalidAt (PathStep.pathName p.path) c.message := by
  have hfirst := implements_check.first v
  have hissue : parse v = .error f ↔
      ∃ i, schema.firstIssue? v = some i ∧ f = invalidAt (PathStep.pathName i.path) i.message := by
    rw [← hfirst]
    unfold parse
    cases check.run v with
    | accepted s => exact ⟨nofun, fun ⟨_, h, _⟩ => nomatch h⟩
    | refused first others =>
      constructor
      · intro h
        exact ⟨first, rfl, (Except.error.inj h).symm⟩
      · rintro ⟨i, hi, rfl⟩
        obtain rfl := Option.some.inj hi
        rfl
  rw [hissue]
  constructor
  · rintro ⟨i, hi, rfl⟩
    obtain ⟨before, p, after, c, hplaces, hbefore, hc, rfl⟩ := Schema.firstIssue?_eq_some_iff.1 hi
    exact ⟨before, p, after, c, hplaces, hbefore, hc, rfl⟩
  · rintro ⟨before, p, after, c, hplaces, hbefore, hc, rfl⟩
    exact ⟨⟨p.path, c⟩, Schema.firstIssue?_eq_some_iff.2
      ⟨before, p, after, c, hplaces, hbefore, hc, rfl⟩, rfl⟩

theorem parse_edit {v v' : Json} (h : schema.Edit v v') : parse v' = parse v := by
  unfold parse
  rw [implements_check.edit h]

/-- Any number of edits makes no difference. -/
theorem parse_edits {v v' : Json} (h : Relation.ReflTransGen schema.Edit v v') :
    parse v' = parse v := by
  induction h with
  | refl => rfl
  | tail _ hstep ih => rw [parse_edit hstep, ih]

end Snapshot

end BinaryReport
