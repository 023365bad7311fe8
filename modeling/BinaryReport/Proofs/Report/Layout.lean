import BinaryReport.Engine.Catalog
import BinaryReport.Proofs.Address.Text
import BinaryReport.Proofs.Text.Lines
import BinaryReport.Report.Layout

/-!
# Marks in layouts

A layout separates lines by line feeds and the cells of a table by pipes. The texts that the library
writes itself, which are addresses, ranges, bytes, and the names of kinds and sources, have neither
mark (`Markless`), so a mark in a layout that is not its own comes from a text of the snapshot. A
section of a page takes one line for each of its items exactly if no item has a line feed
(`lines_section_iff`).
-/

namespace BinaryReport

open Text

/-! ## Texts without marks -/

/-- There is no line feed in the text, and no pipe. -/
def Markless (s : String) : Prop := '\n' ∉ s.toList ∧ '|' ∉ s.toList

instance (s : String) : Decidable (Markless s) :=
  inferInstanceAs (Decidable ('\n' ∉ s.toList ∧ '|' ∉ s.toList))

theorem markless_of_forall {s : String} (h : ∀ c ∈ s.toList, c ≠ '\n' ∧ c ≠ '|') : Markless s :=
  ⟨fun hmem => (h '\n' hmem).1 rfl, fun hmem => (h '|' hmem).2 rfl⟩

theorem Markless.append {s t : String} (hs : Markless s) (ht : Markless t) : Markless (s ++ t) := by
  simp only [Markless, String.toList_append, List.mem_append, not_or]
  exact ⟨⟨hs.1, ht.1⟩, hs.2, ht.2⟩

theorem Markless.intercalate {separator : String} (hseparator : Markless separator)
    {pieces : List String} (hpieces : ∀ piece ∈ pieces, Markless piece) :
    Markless (separator.intercalate pieces) :=
  ⟨notMem_intercalate hseparator.1 fun piece hpiece => (hpieces piece hpiece).1,
    notMem_intercalate hseparator.2 fun piece hpiece => (hpieces piece hpiece).2⟩

theorem digitChar_ne_mark {d : Nat} (h : d < 16) :
    Nat.digitChar d ≠ '\n' ∧ Nat.digitChar d ≠ '|' := by
  revert d
  decide

theorem Address.markless_canonical (a : Address) : Markless a.canonical := by
  refine markless_of_forall fun c hc => ?_
  rcases a.cases_of_mem_canonical hc with rfl | ⟨d, hd, rfl⟩
  · decide
  · exact digitChar_ne_mark hd

theorem AddressRange.markless_text (r : AddressRange) : Markless r.text := by
  have hfirst := r.first.markless_canonical
  have hlast := r.last.markless_canonical
  exact ((((by decide : Markless "[").append hfirst).append (by decide : Markless ", ")).append
    hlast).append (by decide)

theorem RangeSet.markless_text (s : RangeSet) : Markless s.text := by
  refine (by decide : Markless " ").intercalate fun piece hpiece => ?_
  obtain ⟨r, -, rfl⟩ := List.mem_map.1 hpiece
  exact r.markless_text

theorem markless_bytesText (bs : List Int) : Markless (bytesText bs) := by
  refine (by decide : Markless " ").intercalate fun piece hpiece => ?_
  obtain ⟨b, -, rfl⟩ := List.mem_map.1 hpiece
  refine markless_of_forall fun c hc => ?_
  have hdigit (n : Nat) := digitChar_ne_mark (Nat.mod_lt n (by decide : 0 < 16))
  rw [String.toList_ofList, hexPair, List.mem_pair] at hc
  rcases hc with rfl | rfl
  · exact hdigit _
  · exact hdigit _

theorem SymbolKind.markless_name (k : SymbolKind) : Markless k.name := by
  cases k <;> decide

theorem Source.markless_name (s : Source) : Markless s.name := by
  cases s <;> decide

/-! ## Sections -/

theorem markdownSection_nil (head tail : List String) : markdownSection head [] tail = [] := rfl

theorem markdownSection_of_ne_nil {items : List String} (h : items ≠ []) (head tail : List String) :
    markdownSection head items tail = head ++ items ++ tail ++ [""] :=
  if_neg (mt List.isEmpty_iff.1 h)

theorem forall_mem_markdownSection {P : String → Prop} {head items tail : List String}
    (hhead : ∀ l ∈ head, P l) (htail : ∀ l ∈ tail, P l) (hempty : P "") :
    (∀ l ∈ markdownSection head items tail, P l) ↔ ∀ item ∈ items, P item := by
  by_cases hitems : items = []
  · rw [hitems, markdownSection_nil]
  · rw [markdownSection_of_ne_nil hitems]
    simp only [List.forall_mem_append, List.forall_mem_singleton]
    exact ⟨fun h => h.1.1.2, fun h => ⟨⟨⟨hhead, h⟩, htail⟩, hempty⟩⟩

/-- A section takes one line for each item exactly if no item has a line feed. -/
theorem lines_section_iff {above below head items tail : List String} (habove : above ≠ [])
    (hhead : ∀ l ∈ head, '\n' ∉ l.toList) (htail : ∀ l ∈ tail, '\n' ∉ l.toList) :
    lines (joinLines (above ++ markdownSection head items tail ++ below)) =
        above.flatMap lines ++ markdownSection head items tail ++ below.flatMap lines ↔
      ∀ item ∈ items, '\n' ∉ item.toList := by
  have hpage : above ++ markdownSection head items tail ++ below ≠ [] :=
    List.append_ne_nil_of_left_ne_nil (List.append_ne_nil_of_left_ne_nil habove _) _
  rw [lines_page_iff hpage, forall_mem_markdownSection hhead htail (by decide)]

namespace AnalysisReport

/-- The functions in a page. -/
def functionSection (r : AnalysisReport) : List String :=
  markdownSection ["## Functions", "| Name | Entry | Signature | Body |", "|---|---:|---|---|"]
    (r.functions.map FunctionRecord.row) []

/-- The symbols in a page. -/
def symbolSection (r : AnalysisReport) : List String :=
  markdownSection ["## Symbols", "| Name | Address | Type | Source |", "|---|---:|---|---|"]
    (r.symbols.map SymbolRecord.row) []

/-- The disassembly in a page. -/
def disassemblySection (r : AnalysisReport) : List String :=
  markdownSection ["## Disassembly", "\x60\x60\x60asm"] (r.disassembly.map InstructionRecord.line)
    ["\x60\x60\x60"]

/-- The lines of a page above the disassembly. -/
def linesAbove (r : AnalysisReport) : List String :=
  r.markdownHead ++ r.functionSection ++ r.symbolSection ++ r.markdownEntryFunction

/-- The lines of a page below the functions. -/
def linesBelowFunctions (r : AnalysisReport) : List String :=
  r.symbolSection ++ r.markdownEntryFunction ++ r.disassemblySection

/-- The lines of a page above the symbols. -/
def linesAboveSymbols (r : AnalysisReport) : List String := r.markdownHead ++ r.functionSection

/-- The lines of a page below the symbols. -/
def linesBelowSymbols (r : AnalysisReport) : List String :=
  r.markdownEntryFunction ++ r.disassemblySection

theorem markdown_eq (r : AnalysisReport) :
    r.markdown = joinLines (r.linesAbove ++ r.disassemblySection) := rfl

theorem markdown_eq_functions (r : AnalysisReport) :
    r.markdown = joinLines (r.markdownHead ++ r.functionSection ++ r.linesBelowFunctions) := by
  rw [markdown_eq, linesAbove, linesBelowFunctions]
  simp only [List.append_assoc]

theorem markdown_eq_symbols (r : AnalysisReport) :
    r.markdown = joinLines (r.linesAboveSymbols ++ r.symbolSection ++ r.linesBelowSymbols) := by
  rw [markdown_eq, linesAbove, linesAboveSymbols, linesBelowSymbols]
  simp only [List.append_assoc]

theorem markdownHead_ne_nil (r : AnalysisReport) : r.markdownHead ≠ [] := List.cons_ne_nil _ _

theorem linesAboveSymbols_ne_nil (r : AnalysisReport) : r.linesAboveSymbols ≠ [] :=
  List.cons_ne_nil _ _

theorem linesAbove_ne_nil (r : AnalysisReport) : r.linesAbove ≠ [] := List.cons_ne_nil _ _

end AnalysisReport

end BinaryReport
