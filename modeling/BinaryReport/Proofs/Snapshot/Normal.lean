import BinaryReport.Proofs.Check.Acceptance
import BinaryReport.Proofs.Engine.Refusal
import BinaryReport.Proofs.Snapshot.Form
import BinaryReport.Report.Assembly

/-!
# Snapshots in normal form

A snapshot that is read and written is in normal form: every member that has a default is there, none
is there that is not listed. It reads as the same snapshot (`Snapshot.restores_check`), because every
default passes the check of its member.
-/

namespace BinaryReport

open Check

/-! ## Values -/

theorem Source.restores_check : Source.check.Restores fun s => .string s.name := by
  intro v s _
  cases s <;> rfl

theorem SymbolKind.restores_check : SymbolKind.check.Restores fun k => .string k.name := by
  intro v k _
  cases k <;> rfl

theorem CommentKind.restores_check : CommentKind.check.Restores fun k => .string k.name := by
  intro v k _
  cases k <;> rfl

theorem PointerSize.restores_check :
    PointerSize.check.Restores fun p => .number (.ofNat p.bytes) := by
  intro v p _
  exact p.check_bytes

theorem ByteText.restores_check : ByteText.check.Restores fun b => .string b.text := by
  intro v b _
  exact dif_pos b.readable

/-! ## Entries -/

theorem MemoryEntry.restores_check : MemoryEntry.check.Restores MemoryEntry.toJson := by
  intro v e h
  obtain ⟨ms, rfl, hread⟩ := record_eq_accepted h
  obtain ⟨f, length, h₁, hlength, rfl⟩ := Verdict.seq_eq_accepted hread
  obtain ⟨f, start, h₂, -, rfl⟩ := Verdict.seq_eq_accepted h₁
  obtain ⟨name, -, rfl⟩ := Verdict.map_eq_accepted h₂
  have hlength' := Restores.required (restores_number _) hlength
  unfold MemoryEntry.toJson MemoryEntry.check Check.record
  dsimp only
  rw [required_eq rfl hlength']
  rfl

theorem InstructionEntry.restores_check :
    InstructionEntry.check.Restores InstructionEntry.toJson := by
  intro v e h
  obtain ⟨ms, rfl, hread⟩ := record_eq_accepted h
  obtain ⟨f, bytes, h₁, hbytes, rfl⟩ := Verdict.seq_eq_accepted hread
  obtain ⟨f, operands, h₂, -, rfl⟩ := Verdict.seq_eq_accepted h₁
  obtain ⟨f, mnemonic, h₃, hmnemonic, rfl⟩ := Verdict.seq_eq_accepted h₂
  obtain ⟨address, -, rfl⟩ := Verdict.map_eq_accepted h₃
  have hmnemonic' := Restores.required restores_nonemptyText hmnemonic
  have hbytes' := Restores.required ByteText.restores_check hbytes
  unfold InstructionEntry.toJson InstructionEntry.check Check.record
  dsimp only
  rw [required_eq rfl hmnemonic', required_eq rfl hbytes']
  rfl

theorem BodyEntry.restores_check : BodyEntry.check.Restores BodyEntry.toJson := by
  intro v e _
  rfl

theorem FunctionEntry.restores_check : FunctionEntry.check.Restores FunctionEntry.toJson := by
  intro v e h
  obtain ⟨ms, rfl, hread⟩ := record_eq_accepted h
  obtain ⟨f, latency, h₁, hlatency, rfl⟩ := Verdict.seq_eq_accepted hread
  obtain ⟨f, decompiled?, h₂, -, rfl⟩ := Verdict.seq_eq_accepted h₁
  obtain ⟨f, source, h₃, hsource, rfl⟩ := Verdict.seq_eq_accepted h₂
  obtain ⟨f, parameters, h₄, hparameters, rfl⟩ := Verdict.seq_eq_accepted h₃
  obtain ⟨f, returnType, h₅, -, rfl⟩ := Verdict.seq_eq_accepted h₄
  obtain ⟨f, body, h₆, hbody, rfl⟩ := Verdict.seq_eq_accepted h₅
  obtain ⟨f, entry, h₇, -, rfl⟩ := Verdict.seq_eq_accepted h₆
  obtain ⟨name, hname, rfl⟩ := Verdict.map_eq_accepted h₇
  have hname' := Restores.required restores_nonemptyText hname
  have hbody' := Restores.required (restores_nonemptyArray BodyEntry.restores_check) hbody
  have hparameters' := Restores.withDefault (restores_array restores_anyText) rfl hparameters
  have hsource' := Restores.withDefault Source.restores_check rfl hsource
  have hlatency' := Restores.withDefault (restores_number _) rfl hlatency
  unfold FunctionEntry.toJson FunctionEntry.check Check.record
  -- the code is written only if there is any, so what stands behind it moves
  cases decompiled? with
  | none =>
    dsimp only
    rw [required_eq rfl hname', required_eq rfl hbody', withDefault_of_lookup rfl hparameters',
      withDefault_of_lookup rfl hsource', optional_of_missing rfl,
      withDefault_of_lookup rfl hlatency']
    rfl
  | some code =>
    dsimp only
    rw [required_eq rfl hname', required_eq rfl hbody', withDefault_of_lookup rfl hparameters',
      withDefault_of_lookup rfl hsource', optional_of_lookup (w := .string code) rfl rfl,
      withDefault_of_lookup rfl hlatency']
    rfl

theorem SymbolEntry.restores_check : SymbolEntry.check.Restores SymbolEntry.toJson := by
  intro v e h
  obtain ⟨ms, rfl, hread⟩ := record_eq_accepted h
  obtain ⟨f, isExternal, h₁, -, rfl⟩ := Verdict.seq_eq_accepted hread
  obtain ⟨f, source, h₂, hsource, rfl⟩ := Verdict.seq_eq_accepted h₁
  obtain ⟨f, kind, h₃, hkind, rfl⟩ := Verdict.seq_eq_accepted h₂
  obtain ⟨f, address, h₄, -, rfl⟩ := Verdict.seq_eq_accepted h₃
  obtain ⟨name, hname, rfl⟩ := Verdict.map_eq_accepted h₄
  have hname' := Restores.required restores_nonemptyText hname
  have hkind' := Restores.withDefault SymbolKind.restores_check rfl hkind
  have hsource' := Restores.withDefault Source.restores_check rfl hsource
  unfold SymbolEntry.toJson SymbolEntry.check Check.record
  dsimp only
  rw [required_eq rfl hname', withDefault_of_lookup rfl hkind', withDefault_of_lookup rfl hsource']
  rfl

theorem DataEntry.restores_check : DataEntry.check.Restores DataEntry.toJson := by
  intro v e _
  rfl

theorem CommentEntry.restores_check : CommentEntry.check.Restores CommentEntry.toJson := by
  intro v e h
  obtain ⟨ms, rfl, hread⟩ := record_eq_accepted h
  obtain ⟨f, text, h₁, -, rfl⟩ := Verdict.seq_eq_accepted hread
  obtain ⟨f, kind, h₂, hkind, rfl⟩ := Verdict.seq_eq_accepted h₁
  obtain ⟨address, -, rfl⟩ := Verdict.map_eq_accepted h₂
  have hkind' := Restores.withDefault CommentKind.restores_check rfl hkind
  unfold CommentEntry.toJson CommentEntry.check Check.record
  dsimp only
  rw [withDefault_of_lookup rfl hkind']
  rfl

/-! ## Snapshots -/

theorem Snapshot.restores_check : Snapshot.check.Restores Snapshot.toJson := by
  intro v s h
  obtain ⟨ms, rfl, hread⟩ := record_eq_accepted h
  obtain ⟨f, comments, h₁, hcomments, rfl⟩ := Verdict.seq_eq_accepted hread
  obtain ⟨f, data, h₂, hdata, rfl⟩ := Verdict.seq_eq_accepted h₁
  obtain ⟨f, symbols, h₃, hsymbols, rfl⟩ := Verdict.seq_eq_accepted h₂
  obtain ⟨f, functions, h₄, hfunctions, rfl⟩ := Verdict.seq_eq_accepted h₃
  obtain ⟨f, instructions, h₅, hinstructions, rfl⟩ := Verdict.seq_eq_accepted h₄
  obtain ⟨f, memory, h₆, hmemory, rfl⟩ := Verdict.seq_eq_accepted h₅
  obtain ⟨f, entryPoints, h₇, hentryPoints, rfl⟩ := Verdict.seq_eq_accepted h₆
  obtain ⟨f, pointerSize, h₈, hpointerSize, rfl⟩ := Verdict.seq_eq_accepted h₇
  obtain ⟨f, imageBase, h₉, -, rfl⟩ := Verdict.seq_eq_accepted h₈
  obtain ⟨f, language, h₁₀, hlanguage, rfl⟩ := Verdict.seq_eq_accepted h₉
  obtain ⟨name, hname, rfl⟩ := Verdict.map_eq_accepted h₁₀
  have hname' := Restores.required restores_nonemptyText hname
  have hlanguage' := Restores.required restores_nonemptyText hlanguage
  have hpointerSize' :=
    Restores.withDefault PointerSize.restores_check (PointerSize.check_bytes .eight) hpointerSize
  have hentryPoints' := Restores.withDefault (restores_array restores_anyText) rfl hentryPoints
  have hmemory' := Restores.withDefault (restores_array MemoryEntry.restores_check) rfl hmemory
  have hinstructions' :=
    Restores.withDefault (restores_array InstructionEntry.restores_check) rfl hinstructions
  have hfunctions' :=
    Restores.withDefault (restores_array FunctionEntry.restores_check) rfl hfunctions
  have hsymbols' := Restores.withDefault (restores_array SymbolEntry.restores_check) rfl hsymbols
  have hdata' := Restores.withDefault (restores_array DataEntry.restores_check) rfl hdata
  have hcomments' := Restores.withDefault (restores_array CommentEntry.restores_check) rfl hcomments
  unfold Snapshot.toJson Snapshot.check Check.record
  dsimp only
  rw [required_eq rfl hname', required_eq rfl hlanguage', withDefault_of_lookup rfl hpointerSize',
    withDefault_of_lookup rfl hentryPoints', withDefault_of_lookup rfl hmemory',
    withDefault_of_lookup rfl hinstructions', withDefault_of_lookup rfl hfunctions',
    withDefault_of_lookup rfl hsymbols', withDefault_of_lookup rfl hdata',
    withDefault_of_lookup rfl hcomments']
  rfl

namespace Snapshot

theorem parse_toJson {v : Json} {s : Snapshot} (h : parse v = .ok s) : parse s.toJson = .ok s := by
  unfold parse
  rw [restores_check (check_of_parse h)]

/-- The normal form is loaded like the snapshot itself. -/
theorem ofJson_toJson {v : Json} {s : Snapshot} (h : parse v = .ok s) :
    Engine.ofJson s.toJson = Engine.ofJson v := by
  rw [Engine.ofJson_of_parse h, Engine.ofJson_of_parse (parse_toJson h)]

/-- Reading a snapshot brings it into normal form. If it is read, then nothing is wrong with it; its normal
form is read as the same snapshot, and so is whatever comes from it by edits where the schema does not
care; and both have the same reports. If it is not read, then something is wrong with it, and the failure
names the first place, in the order of the schema, at which something is wrong. -/
theorem parse_normalises (v : Json) :
    (∀ s, parse v = .ok s →
      (∀ p ∈ schema.places v, p.complaint? = none) ∧
      parse s.toJson = .ok s ∧
      (∀ v', Relation.ReflTransGen schema.Edit v v' → parse v' = .ok s) ∧
      ∀ limits, (Engine.ofJson s.toJson).map (fun e => Report.build e limits) =
        (Engine.ofJson v).map fun e => Report.build e limits) ∧
    ∀ r, parse v = .error r →
      ∃ before p after c, schema.places v = before ++ p :: after ∧
        (∀ q ∈ before, q.complaint? = none) ∧ p.complaint? = some c ∧
        r = invalidAt (PathStep.pathName p.path) c.message := by
  refine ⟨fun s h => ⟨?_, parse_toJson h, fun v' hedits => ?_, fun limits => ?_⟩, fun r h => ?_⟩
  · exact exists_parse_iff.1 ⟨s, h⟩
  · rw [parse_edits hedits, h]
  · rw [ofJson_toJson h]
  · exact parse_eq_error_iff.1 h

/-- A snapshot with one symbol. -/
def symbolForm (symbol : Members) : Json :=
  .object [("name", .string "a"), ("language", .string "x"), ("imageBase", .string "0"),
    ("symbols", .array [.object symbol])]

/-- An edit of the symbol is an edit of the snapshot. -/
theorem edit_symbolForm {symbol symbol' : Members}
    (h : SymbolEntry.schema.Edit (.object symbol) (.object symbol')) :
    schema.Edit (symbolForm symbol) (symbolForm symbol') := by
  have hitem := @Schema.Edit.item false _ [] [] _ _ h
  exact @Schema.Edit.member _
    [("name", .string "a"), ("language", .string "x"), ("imageBase", .string "0")] [] "symbols"
    _ _ _ _ (List.mem_of_getElem? (i := 8) rfl) hitem

/-- The kind of a label is its default and can be left out, and a remark can be added. If both the
address and the kind are wrong, then the address is named, wherever it stands. -/
theorem parse_normalises_symbol :
    (∃ s, parse (symbolForm [("name", .string "s"), ("address", .string "0"),
        ("type", .string "Label")]) = .ok s ∧
      parse s.toJson = .ok s ∧
      parse (symbolForm [("name", .string "s"), ("remark", .null), ("address", .string "0")]) =
        .ok s) ∧
    ∃ before p after c,
      schema.places (symbolForm [("type", .string "Mark"), ("address", .null),
        ("name", .string "s")]) = before ++ p :: after ∧
      (∀ q ∈ before, q.complaint? = none) ∧ p.complaint? = some c ∧
      invalidAt "symbols.0.address" "Expected string, received null" =
        invalidAt (PathStep.pathName p.path) c.message := by
  constructor
  · have hlabel : parse (symbolForm [("name", .string "s"), ("address", .string "0"),
        ("type", .string "Label")]) = .ok ⟨"a", "x", "0", .eight, [], [], [], [],
          [⟨"s", "0", .label, .analysis, false⟩], [], []⟩ := rfl
    obtain ⟨-, hnormal, hedits, -⟩ := (parse_normalises _).1 _ hlabel
    have hdelete : SymbolEntry.schema.Edit
        (.object [("name", .string "s"), ("address", .string "0"), ("type", .string "Label")])
        (.object [("name", .string "s"), ("address", .string "0")]) :=
      @Schema.Edit.delete _
        [("name", .string "s"), ("address", .string "0"), ("type", .string "Label")] "type" _ _
        (List.mem_of_getElem? (i := 2) rfl) rfl
    have hadd : SymbolEntry.schema.Edit
        (.object [("name", .string "s"), ("address", .string "0")])
        (.object [("name", .string "s"), ("remark", .null), ("address", .string "0")]) :=
      @Schema.Edit.add _ [("name", .string "s")] [("address", .string "0")] "remark" .null (by decide)
    exact ⟨_, hlabel, hnormal,
      hedits _ (.tail (.single (edit_symbolForm hdelete)) (edit_symbolForm hadd))⟩
  · exact (parse_normalises _).2 _ rfl

end Snapshot

end BinaryReport
