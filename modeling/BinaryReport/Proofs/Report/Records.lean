import BinaryReport.Proofs.Check.Acceptance
import BinaryReport.Proofs.Json.Mention
import BinaryReport.Report.Schema

/-!
# Reports and their JSON forms

The JSON form of a report is legible, its schema takes it back to the report, and a long word is
mentioned in it exactly if one of the report's texts has the word. The same holds for the outcome of
a change. The schema of error reports refuses whole reports, so the order in which the two schemas
are tried does not matter.
-/

namespace BinaryReport

open Json

/-! ## Texts -/

/-- The texts of a function. -/
def FunctionRecord.texts (r : FunctionRecord) : List String :=
  [r.name, r.entryPoint, r.signature, r.bodyRange]

/-- The texts of a symbol. -/
def SymbolRecord.texts (r : SymbolRecord) : List String := [r.name, r.address, r.type, r.source]

/-- The texts of an instruction. -/
def InstructionRecord.texts (r : InstructionRecord) : List String :=
  [r.address, r.mnemonic, r.operands, r.bytes, r.comment]

/-- The texts of a decompiled function. -/
def DecompiledFunction.texts (r : DecompiledFunction) : List String :=
  [r.name, r.entryPoint, r.code, r.signature, r.body]

/-- The texts of a whole report. -/
def AnalysisReport.texts (r : AnalysisReport) : List String :=
  [r.programName, r.entryPoint] ++ r.entryFunction?.toList.flatMap DecompiledFunction.texts
    ++ r.functions.flatMap FunctionRecord.texts ++ r.symbols.flatMap SymbolRecord.texts
    ++ r.disassembly.flatMap InstructionRecord.texts ++ [r.imageBase, r.language]

/-- The texts of an error report. -/
def ErrorReport.texts (r : ErrorReport) : List String := [r.message, r.traceback, r.programName]

/-- The texts of a report. -/
def Report.texts : Report → List String
  | .whole r => r.texts
  | .failed r => r.texts

/-- The texts of the outcome of a change. -/
def MutationResult.texts (r : MutationResult) : List String := [r.message]

/-- Whether one of the texts has the word. -/
def Mentioned (word : String) (texts : List String) : Prop :=
  ∃ s ∈ texts, word.toList <:+: s.toList

instance (word : String) (texts : List String) : Decidable (Mentioned word texts) :=
  inferInstanceAs (Decidable (∃ s ∈ texts, word.toList <:+: s.toList))

/-! ## Legible forms -/

theorem legible_array_map {α : Type} {f : α → Json} (h : ∀ a, Legible (f a)) (as : List α) :
    Legible (.array (as.map f)) := by
  refine .array fun v hv => ?_
  obtain ⟨a, -, rfl⟩ := List.mem_map.1 hv
  exact h a

/-- An object with plain keys whose values are strings. -/
theorem legible_of_strings {keys : List String} (hkeys : PlainKeys keys)
    {members : List (String × Json)} (hmembers : members.map Prod.fst = keys)
    (h : ∀ m ∈ members, m.2.string?.isSome = true) : Legible (.object members) := by
  refine .ofKeys hkeys hmembers fun m hm => ?_
  have hstring := h m hm
  cases hv : m.2 with
  | string s => exact .string s
  | null | bool | number | array | object => rw [hv] at hstring; cases hstring

theorem FunctionRecord.legible (r : FunctionRecord) : Legible r.toJson :=
  legible_of_strings (by decide : PlainKeys ["name", "entry_point", "signature", "body_range"]) rfl
    (by simp [Json.string?])

theorem SymbolRecord.legible (r : SymbolRecord) : Legible r.toJson :=
  legible_of_strings (by decide : PlainKeys ["name", "address", "type", "source"]) rfl
    (by simp [Json.string?])

theorem InstructionRecord.legible (r : InstructionRecord) : Legible r.toJson :=
  legible_of_strings
    (by decide : PlainKeys ["address", "mnemonic", "operands", "bytes", "comment"]) rfl
    (by simp [Json.string?])

theorem DecompiledFunction.legible (r : DecompiledFunction) : Legible r.toJson :=
  legible_of_strings
    (by decide : PlainKeys ["name", "entry_point", "code", "signature", "body"]) rfl
    (by simp [Json.string?])

theorem DecompiledFunction.legible? (r? : Option DecompiledFunction) : Legible (toJson? r?) := by
  cases r? with
  | none => exact .null
  | some r => exact r.legible

theorem AnalysisReport.legible (r : AnalysisReport) : Legible r.toJson := by
  refine .ofKeys (by decide : PlainKeys AnalysisReport.keys) rfl fun m hm => ?_
  simp only [List.mem_cons, List.not_mem_nil, or_false] at hm
  rcases hm with rfl | rfl | rfl | rfl | rfl | rfl | rfl | rfl
  · exact .string _
  · exact .string _
  · exact DecompiledFunction.legible? _
  · exact legible_array_map FunctionRecord.legible _
  · exact legible_array_map SymbolRecord.legible _
  · exact legible_array_map InstructionRecord.legible _
  · exact .string _
  · exact .string _

theorem ErrorReport.legible (r : ErrorReport) : Legible r.toJson := by
  refine .ofKeys (by decide : PlainKeys ErrorReport.keys) rfl fun m hm => ?_
  simp only [List.mem_cons, List.not_mem_nil, or_false] at hm
  rcases hm with rfl | rfl | rfl | rfl
  · exact .bool true
  · exact .string _
  · exact .string _
  · exact .string _

theorem Report.legible (r : Report) : Legible r.toJson := by
  cases r with
  | whole r => exact r.legible
  | failed r => exact r.legible

theorem MutationResult.legible (r : MutationResult) : Legible r.toJson := by
  refine .ofKeys (by decide : PlainKeys ["success", "message"]) rfl fun m hm => ?_
  simp only [List.mem_cons, List.not_mem_nil, or_false] at hm
  rcases hm with rfl | rfl
  · exact .bool r.success
  · exact .string r.message

/-! ## Reading the forms back -/

theorem FunctionRecord.check_toJson (r : FunctionRecord) :
    FunctionRecord.check.run r.toJson = .accepted r := rfl

theorem SymbolRecord.check_toJson (r : SymbolRecord) :
    SymbolRecord.check.run r.toJson = .accepted r := rfl

theorem InstructionRecord.check_toJson (r : InstructionRecord) :
    InstructionRecord.check.run r.toJson = .accepted r := rfl

theorem DecompiledFunction.check_toJson? (r? : Option DecompiledFunction) :
    (Check.nullable DecompiledFunction.check).run (toJson? r?) = .accepted r? := by
  cases r? <;> rfl

/-- A whole report is read back from its JSON form. -/
theorem AnalysisReport.check_toJson (r : AnalysisReport) :
    AnalysisReport.check.run r.toJson = .accepted r := by
  have hentry := DecompiledFunction.check_toJson? r.entryFunction?
  have hfunctions := Check.array_map FunctionRecord.check_toJson r.functions
  have hsymbols := Check.array_map SymbolRecord.check_toJson r.symbols
  have hdisassembly := Check.array_map InstructionRecord.check_toJson r.disassembly
  unfold AnalysisReport.toJson AnalysisReport.check Check.strictRecord AnalysisReport.read
  dsimp only
  rw [Check.required_eq rfl hentry, Check.required_eq rfl hfunctions,
    Check.required_eq rfl hsymbols, Check.required_eq rfl hdisassembly]
  rfl

/-- An error report is read back from its JSON form. -/
theorem ErrorReport.check_toJson (r : ErrorReport) :
    ErrorReport.check.run r.toJson = .accepted r := rfl

/-- A whole report is no error report. -/
theorem ErrorReport.check_toJson_whole (r : AnalysisReport) :
    ∃ first others, ErrorReport.check.run r.toJson = .refused first others :=
  ⟨_, _, rfl⟩

/-- The outcome of a change is read back from its JSON form. -/
theorem MutationResult.check_toJson (r : MutationResult) :
    MutationResult.check.run r.toJson = .accepted r := rfl

/-! ## Words in the forms -/

section Words

variable {word : String}

/-- A word that is longer than every key of a report. -/
def OutgrowsKeys (word : String) : Prop := 14 < word.length

theorem mentions_array_map {α : Type} {f : α → Json} {texts : α → List String}
    (h : ∀ a, Mentions word.toList (f a) ↔ Mentioned word (texts a)) (as : List α) :
    Mentions word.toList (.array (as.map f)) ↔ Mentioned word (as.flatMap texts) := by
  rw [mentions_array_iff]
  constructor
  · rintro ⟨v, hv, hmentions⟩
    obtain ⟨a, ha, rfl⟩ := List.mem_map.1 hv
    obtain ⟨s, hs, hin⟩ := (h a).1 hmentions
    exact ⟨s, List.mem_flatMap.2 ⟨a, ha, hs⟩, hin⟩
  · rintro ⟨s, hs, hin⟩
    obtain ⟨a, ha, hs⟩ := List.mem_flatMap.1 hs
    exact ⟨f a, List.mem_map_of_mem ha, (h a).2 ⟨s, hs, hin⟩⟩

/-- The keys of an object do not count for a word that outgrows them. -/
theorem mentions_object_of_outgrows (hword : OutgrowsKeys word) (keys : List String)
    (hkeys : ∀ key ∈ keys, key.length ≤ 14) {members : List (String × Json)}
    (hmembers : members.map Prod.fst = keys) :
    Mentions word.toList (.object members) ↔ ∃ v ∈ members.map Prod.snd, Mentions word.toList v := by
  subst hmembers
  unfold OutgrowsKeys at hword
  have hkey : ∀ m ∈ members, ¬ word.toList <:+: m.1.toList := by
    intro m hm hin
    have hle := hin.length_le
    have hlt := hkeys m.1 (List.mem_map_of_mem hm)
    simp only [String.length_toList] at hle
    omega
  rw [mentions_object_iff]
  constructor
  · rintro ⟨m, hm, h | h⟩
    · exact absurd h (hkey m hm)
    · exact ⟨m.2, List.mem_map_of_mem hm, h⟩
  · rintro ⟨v, hv, h⟩
    obtain ⟨m, hm, rfl⟩ := List.mem_map.1 hv
    exact ⟨m, hm, Or.inr h⟩

theorem FunctionRecord.mentions_iff (hword : OutgrowsKeys word) (r : FunctionRecord) :
    Mentions word.toList r.toJson ↔ Mentioned word r.texts := by
  rw [FunctionRecord.toJson, mentions_object_of_outgrows hword
    ["name", "entry_point", "signature", "body_range"] (by decide) rfl]
  simp [Mentioned, FunctionRecord.texts, mentions_string_iff]

theorem SymbolRecord.mentions_iff (hword : OutgrowsKeys word) (r : SymbolRecord) :
    Mentions word.toList r.toJson ↔ Mentioned word r.texts := by
  rw [SymbolRecord.toJson, mentions_object_of_outgrows hword
    ["name", "address", "type", "source"] (by decide) rfl]
  simp [Mentioned, SymbolRecord.texts, mentions_string_iff]

theorem InstructionRecord.mentions_iff (hword : OutgrowsKeys word) (r : InstructionRecord) :
    Mentions word.toList r.toJson ↔ Mentioned word r.texts := by
  rw [InstructionRecord.toJson, mentions_object_of_outgrows hword
    ["address", "mnemonic", "operands", "bytes", "comment"] (by decide) rfl]
  simp [Mentioned, InstructionRecord.texts, mentions_string_iff]

theorem DecompiledFunction.mentions_iff (hword : OutgrowsKeys word) (r : DecompiledFunction) :
    Mentions word.toList r.toJson ↔ Mentioned word r.texts := by
  rw [DecompiledFunction.toJson, mentions_object_of_outgrows hword
    ["name", "entry_point", "code", "signature", "body"] (by decide) rfl]
  simp [Mentioned, DecompiledFunction.texts, mentions_string_iff]

theorem DecompiledFunction.mentions?_iff (hword : OutgrowsKeys word)
    (r? : Option DecompiledFunction) : Mentions word.toList (toJson? r?) ↔
      Mentioned word (r?.toList.flatMap DecompiledFunction.texts) := by
  cases r? with
  | none => exact iff_of_false not_mentions_null nofun
  | some r =>
    rw [Option.toList_some, List.flatMap_singleton]
    exact r.mentions_iff hword

theorem Mentioned.append_iff {a b : List String} :
    Mentioned word (a ++ b) ↔ Mentioned word a ∨ Mentioned word b := by
  simp [Mentioned, or_and_right, exists_or]

theorem AnalysisReport.mentions_iff (hword : OutgrowsKeys word) (r : AnalysisReport) :
    Mentions word.toList r.toJson ↔ Mentioned word r.texts := by
  have hentry := DecompiledFunction.mentions?_iff hword r.entryFunction?
  have hfunctions := mentions_array_map (FunctionRecord.mentions_iff hword) r.functions
  have hsymbols := mentions_array_map (SymbolRecord.mentions_iff hword) r.symbols
  have hdisassembly := mentions_array_map (InstructionRecord.mentions_iff hword) r.disassembly
  rw [AnalysisReport.toJson, mentions_object_of_outgrows hword AnalysisReport.keys (by decide) rfl,
    AnalysisReport.texts]
  simp only [Mentioned.append_iff, ← hentry, ← hfunctions, ← hsymbols, ← hdisassembly]
  simp [Mentioned, mentions_string_iff, or_assoc]

theorem ErrorReport.mentions_iff (hword : OutgrowsKeys word) (r : ErrorReport) :
    Mentions word.toList r.toJson ↔ Mentioned word r.texts := by
  rw [ErrorReport.toJson, mentions_object_of_outgrows hword ErrorReport.keys (by decide) rfl]
  simp [Mentioned, ErrorReport.texts, mentions_string_iff, not_mentions_bool]

/-- The JSON form of a report mentions the word exactly if one of the report's texts has it. -/
theorem Report.mentions_iff (hword : OutgrowsKeys word) (r : Report) :
    Mentions word.toList r.toJson ↔ Mentioned word r.texts := by
  cases r with
  | whole r => exact r.mentions_iff hword
  | failed r => exact r.mentions_iff hword

theorem MutationResult.mentions_iff (hword : OutgrowsKeys word) (r : MutationResult) :
    Mentions word.toList r.toJson ↔ Mentioned word r.texts := by
  rw [MutationResult.toJson, mentions_object_of_outgrows hword ["success", "message"]
    (by decide) rfl]
  simp [Mentioned, MutationResult.texts, mentions_string_iff, not_mentions_bool]

end Words

end BinaryReport
