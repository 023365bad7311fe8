import BinaryReport.Proofs.Report.Listing
import BinaryReport.Proofs.Report.Records
import BinaryReport.Proofs.Report.Symbols

/-!
# The rows of tables

A row is read back by cutting it at the pipes that have no backslash before them, and taking the
padding and the escapes off each cell (`readRow`). This gives the texts of the record for every row of a
report, since a cell that ends in a backslash still has its padding before the next pipe
(`readRow_markdownRow`). Line feeds are not escaped: a table has one line per record exactly if no name
and no declaration has one (`Report.tables_build`).
-/

namespace BinaryReport

open Text Outcome

/-! ## Escapes -/

/-- The pieces of a text between the pipes that have no backslash before them; `escaped` tells whether
there is a backslash before the text. -/
def cutRow (escaped : Bool) : List Char → List (List Char)
  | [] => [[]]
  | c :: cs =>
    if c = '|' ∧ escaped = false then [] :: cutRow false cs
    else (cutRow (c = '\\') cs).modifyHead (c :: ·)

/-- A text without a space at its start. -/
def dropSpace : List Char → List Char
  | ' ' :: cs => cs
  | cs => cs

/-- A piece of a row without its padding. -/
def unpad (piece : List Char) : List Char := (dropSpace (dropSpace piece).reverse).reverse

/-- A text with a pipe for each escaped pipe. -/
def unescapePipes : List Char → List Char
  | '\\' :: '|' :: cs => '|' :: unescapePipes cs
  | c :: cs => c :: unescapePipes cs
  | [] => []

/-- The cells of a row: what is between its first pipe and its last one. -/
def readRow (row : String) : List String :=
  (cutRow false row.toList).tail.dropLast.map fun piece => String.ofList (unescapePipes (unpad piece))

/-- A text with its pipes escaped. -/
def escapePipes (cs : List Char) : List Char :=
  cs.flatMap fun c => if c = '|' then ['\\', '|'] else [c]

variable {c : Char} {cs : List Char}

theorem escapePipes_pipe (cs : List Char) :
    escapePipes ('|' :: cs) = '\\' :: '|' :: escapePipes cs := rfl

theorem escapePipes_cons (h : c ≠ '|') (cs : List Char) :
    escapePipes (c :: cs) = c :: escapePipes cs := by
  rw [escapePipes, List.flatMap_cons, if_neg h]
  rfl

theorem toList_markdownCell (s : String) : (markdownCell s).toList = escapePipes s.toList :=
  String.toList_ofList

theorem escapePipes_of_notMem (h : '|' ∉ cs) : escapePipes cs = cs := by
  induction cs with
  | nil => rfl
  | cons c cs ih =>
    obtain ⟨hc, hcs⟩ := List.ne_and_not_mem_of_not_mem_cons h
    rw [escapePipes_cons hc.symm, ih hcs]

theorem Markless.markdownCell_eq {s : String} (h : Markless s) : markdownCell s = s := by
  rw [← String.toList_inj, toList_markdownCell, escapePipes_of_notMem h.2]

theorem feed_mem_escapePipes_iff : '\n' ∈ escapePipes cs ↔ '\n' ∈ cs := by
  induction cs with
  | nil => rfl
  | cons c cs ih =>
    by_cases hc : c = '|'
    · subst hc
      simp [escapePipes_pipe, ih]
    · rw [escapePipes_cons hc, List.mem_cons, List.mem_cons, ih]

theorem head?_escapePipes_ne (cs : List Char) : (escapePipes cs).head? ≠ some '|' := by
  cases cs with
  | nil => nofun
  | cons c cs =>
    by_cases hc : c = '|'
    · subst hc
      rw [escapePipes_pipe, List.head?_cons]
      decide
    · rw [escapePipes_cons hc, List.head?_cons]
      exact fun heq => hc (Option.some.inj heq)

theorem unescapePipes_cons (h : cs.head? ≠ some '|') :
    unescapePipes (c :: cs) = c :: unescapePipes cs := by
  cases cs with
  | nil => simp [unescapePipes]
  | cons d cs =>
    have hd : d ≠ '|' := fun heq => h (congrArg some heq)
    simp [unescapePipes, hd]

theorem unescapePipes_escapePipes (cs : List Char) : unescapePipes (escapePipes cs) = cs := by
  induction cs with
  | nil => simp [escapePipes, unescapePipes]
  | cons c cs ih =>
    by_cases hc : c = '|'
    · subst hc
      rw [escapePipes_pipe, unescapePipes, ih]
    -- What follows a backslash of the text is never a pipe, which would have one of its own.
    · rw [escapePipes_cons hc, unescapePipes_cons (head?_escapePipes_ne cs), ih]

/-! ## Rows -/

/-- A cell ends at the pipe behind its padding, whatever its last character is. -/
theorem cutRow_escapePipes (escaped : Bool) (cs rest : List Char) :
    cutRow escaped (escapePipes cs ++ ' ' :: '|' :: rest) =
      (escapePipes cs ++ [' ']) :: cutRow false rest := by
  induction cs generalizing escaped with
  | nil => simp [escapePipes, cutRow]
  | cons c cs ih =>
    by_cases hc : c = '|'
    · subst hc
      simp [escapePipes_pipe, cutRow, ih]
    · simp [escapePipes_cons hc, cutRow, hc, ih]

theorem unpad_padded (cs : List Char) : unpad (' ' :: (cs ++ [' '])) = cs := by
  simp [unpad, dropSpace]

theorem intercalate_padded (cell : List Char) (cells : List (List Char)) :
    ' ' :: ([' ', '|', ' '].intercalate (cell :: cells) ++ [' ', '|']) =
      (cell :: cells).flatMap fun cell => ' ' :: (cell ++ [' ', '|']) := by
  induction cells generalizing cell with
  | nil => simp
  | cons next cells ih =>
    rw [List.intercalate_cons_cons, List.flatMap_cons, ← ih next]
    simp

theorem toList_markdownRow {cells : List String} (h : cells ≠ []) :
    (markdownRow cells).toList =
      '|' :: (cells.map String.toList).flatMap fun cell => ' ' :: (cell ++ [' ', '|']) := by
  obtain ⟨cell, cells, rfl⟩ := List.exists_cons_of_ne_nil h
  rw [List.map_cons, ← intercalate_padded]
  simp only [markdownRow, String.toList_append, String.toList_intercalate, List.map_cons]
  rfl

theorem cutRow_cells (texts : List (List Char)) :
    cutRow false ((texts.map escapePipes).flatMap fun cell => ' ' :: (cell ++ [' ', '|'])) =
      (texts.map fun cs => ' ' :: (escapePipes cs ++ [' '])) ++ [[]] := by
  induction texts with
  | nil => rfl
  | cons cs texts ih =>
    have hcell := cutRow_escapePipes false cs
      ((texts.map escapePipes).flatMap fun cell => ' ' :: (cell ++ [' ', '|']))
    simp [cutRow, hcell, ih]

/-- The texts of a row are read back from it. -/
theorem readRow_markdownRow {texts : List String} (h : texts ≠ []) :
    readRow (markdownRow (texts.map markdownCell)) = texts := by
  have hcells : (texts.map markdownCell).map String.toList =
      (texts.map String.toList).map escapePipes := by
    rw [List.map_map, List.map_map]
    exact List.map_congr_left fun s _ => toList_markdownCell s
  have hpiece (s : String) :
      String.ofList (unescapePipes (unpad (' ' :: (escapePipes s.toList ++ [' '])))) = s := by
    rw [unpad_padded, unescapePipes_escapePipes, String.ofList_toList]
  rw [readRow, toList_markdownRow (mt List.map_eq_nil_iff.1 h), hcells, cutRow, if_pos ⟨rfl, rfl⟩,
    cutRow_cells, List.tail_cons, List.dropLast_concat, List.map_map, List.map_map]
  exact (List.map_congr_left fun s _ => hpiece s).trans (List.map_id' texts)

theorem feed_notMem_markdownRow_iff {texts : List String} (h : texts ≠ []) :
    '\n' ∉ (markdownRow (texts.map markdownCell)).toList ↔ ∀ s ∈ texts, '\n' ∉ s.toList := by
  rw [toList_markdownRow (mt List.map_eq_nil_iff.1 h)]
  simp [toList_markdownCell, feed_mem_escapePipes_iff]

theorem FunctionRecord.texts_ne_nil (f : FunctionRecord) : f.texts ≠ [] := List.cons_ne_nil _ _

theorem SymbolRecord.texts_ne_nil (x : SymbolRecord) : x.texts ≠ [] := List.cons_ne_nil _ _

theorem FunctionRecord.row_eq {f : FunctionRecord} (hentry : Markless f.entryPoint)
    (hbody : Markless f.bodyRange) : f.row = markdownRow (f.texts.map markdownCell) := by
  simp only [row, texts, List.map_cons, List.map_nil, hentry.markdownCell_eq, hbody.markdownCell_eq]

theorem SymbolRecord.row_eq {x : SymbolRecord} (haddress : Markless x.address)
    (htype : Markless x.type) (hsource : Markless x.source) :
    x.row = markdownRow (x.texts.map markdownCell) := by
  simp only [row, texts, List.map_cons, List.map_nil, haddress.markdownCell_eq,
    htype.markdownCell_eq, hsource.markdownCell_eq]

theorem FunctionRecord.markless_ofFunction (g : Function) :
    Markless (ofFunction g).entryPoint ∧ Markless (ofFunction g).bodyRange :=
  ⟨g.entry.markless_canonical, g.body.markless_text⟩

theorem SymbolRecord.markless_ofSymbol (y : Symbol) : Markless (ofSymbol y).address ∧
    Markless (ofSymbol y).type ∧ Markless (ofSymbol y).source :=
  ⟨y.address.markless_canonical, y.kind.markless_name, y.source.markless_name⟩

/-! ## Names -/

/-- None of the texts that a snapshot gives to the tables has a line feed. -/
structure Snapshot.BreaklessNames (s : Snapshot) : Prop where
  functions : ∀ entry ∈ s.functions, '\n' ∉ entry.name.toList ∧ '\n' ∉ entry.returnType.toList ∧
    ∀ parameter ∈ entry.parameters, '\n' ∉ parameter.toList
  symbols : ∀ entry ∈ s.symbols, '\n' ∉ entry.name.toList

namespace Program

variable {s : Snapshot} {p p' : Program}

/-- No name in the table of symbols has a line feed. -/
def HasBreaklessNames (p : Program) : Prop := ∀ x ∈ p.symbols, '\n' ∉ x.name.toList

theorem hasBreaklessNames_load (hbreakless : s.BreaklessNames) (h : load s = .ok p) :
    p.HasBreaklessNames := by
  intro x hx
  obtain ⟨listed, hlisted, hfind⟩ := find?_symbols_load h
  rw [(hasUniqueSymbols_load h).mem_iff, hfind] at hx
  rcases List.mem_append.1 (List.mem_of_find?_eq_some hx) with hx | hx
  · obtain ⟨f, hf, rfl⟩ := List.mem_map.1 hx
    obtain ⟨entry, hentry, _, _, -, -, -, rfl⟩ := exists_denotes_of_load h hf
    exact (hbreakless.functions entry hentry).1
  · obtain ⟨entry, hentry, _, -, rfl⟩ := Matching.exists_of_mem_right hlisted hx
    exact hbreakless.symbols entry hentry

theorem mem_symbols_renameIndex {index : Nat} {name : String} {source : Source} {x : Symbol}
    (h : x ∈ (p.renameIndex index name source).symbols) : x ∈ p.symbols ∨ x.name = name := by
  rw [renameIndex_eq, symbols_withSymbols (List.length_modify ..)] at h
  obtain ⟨i, hi⟩ := List.mem_iff_getElem?.1 h
  rw [List.getElem?_modify] at hi
  obtain ⟨y, hy, rfl⟩ := Option.map_eq_some_iff.1 hi
  split_ifs
  · exact Or.inr rfl
  · exact Or.inl (List.mem_of_getElem? hy)

/-- A name that a symbol can be given has no blanks. -/
theorem feed_notMem_of_isSymbolName {name : String} (h : isSymbolName name = true) :
    '\n' ∉ name.toList := by
  intro hmem
  have hblank : name.toList.any isBlank = true := List.any_eq_true.2 ⟨'\n', hmem, by decide⟩
  rw [isSymbolName, hblank, Bool.not_true, Bool.and_false] at h
  cases h

theorem HasBreaklessNames.change (h : p.HasBreaklessNames) (hchange : Engine.Change p p') :
    p'.HasBreaklessNames := by
  cases hchange with
  | none => exact h
  | name index name source hname =>
    intro x hx
    rcases mem_symbols_renameIndex hx with hx | rfl
    · exact h x hx
    · exact feed_notMem_of_isSymbolName hname
  | data _ _ hplace =>
    obtain rfl := placeData_eq hplace
    exact h

theorem HasFunctionsOf.feed_notMem_signature (h : p.HasFunctionsOf s)
    (hbreakless : s.BreaklessNames) {f : Function} (hf : f ∈ p.functions)
    (hname : '\n' ∉ f.name.toList) : '\n' ∉ f.signature.toList := by
  obtain ⟨order, hperm, hloaded⟩ := h.loaded
  obtain ⟨entry, hentry, hfrom⟩ := Matching.exists_of_mem_right hloaded hf
  obtain ⟨-, hreturn, hparameters⟩ := hbreakless.functions entry (hperm.mem_iff.1 hentry)
  rw [← hfrom.returnType] at hreturn
  rw [← hfrom.parameters] at hparameters
  have htext : '\n' ∉ f.parameterText.toList := by
    unfold Function.parameterText
    split_ifs
    · decide
    · exact notMem_intercalate (by decide) hparameters
  simp [Function.signature, hreturn, hname, htext]

end Program

/-! ## Reports -/

namespace Report

variable {s : Snapshot} {e : Engine} {r : AnalysisReport}

/-- The functions and the symbols of a report are records of a program. -/
structure RecordsOf (p : Program) (r : AnalysisReport) : Prop where
  functions : r.functions = p.functions.map FunctionRecord.ofFunction
  symbols : r.symbols = (p.symbols.filter (!·.isExternal)).map SymbolRecord.ofSymbol

variable {p : Program}

theorem RecordsOf.markless_function (h : RecordsOf p r) {f : FunctionRecord}
    (hf : f ∈ r.functions) : Markless f.entryPoint ∧ Markless f.bodyRange := by
  rw [h.functions] at hf
  obtain ⟨g, -, rfl⟩ := List.mem_map.1 hf
  exact FunctionRecord.markless_ofFunction g

theorem RecordsOf.markless_symbol (h : RecordsOf p r) {x : SymbolRecord} (hx : x ∈ r.symbols) :
    Markless x.address ∧ Markless x.type ∧ Markless x.source := by
  rw [h.symbols] at hx
  obtain ⟨y, -, rfl⟩ := List.mem_map.1 hx
  exact SymbolRecord.markless_ofSymbol y

theorem RecordsOf.readRow_function (h : RecordsOf p r) {f : FunctionRecord}
    (hf : f ∈ r.functions) : readRow f.row = f.texts := by
  obtain ⟨hentry, hbody⟩ := h.markless_function hf
  rw [FunctionRecord.row_eq hentry hbody, readRow_markdownRow f.texts_ne_nil]

theorem RecordsOf.readRow_symbol (h : RecordsOf p r) {x : SymbolRecord} (hx : x ∈ r.symbols) :
    readRow x.row = x.texts := by
  obtain ⟨haddress, htype, hsource⟩ := h.markless_symbol hx
  rw [SymbolRecord.row_eq haddress htype hsource, readRow_markdownRow x.texts_ne_nil]

theorem RecordsOf.feed_notMem_functions_iff (h : RecordsOf p r) :
    (∀ l ∈ r.functions.map FunctionRecord.row, '\n' ∉ l.toList) ↔
      ∀ f ∈ r.functions, '\n' ∉ f.name.toList ∧ '\n' ∉ f.signature.toList := by
  rw [List.forall_mem_map]
  refine forall₂_congr fun f hf => ?_
  obtain ⟨hentry, hbody⟩ := h.markless_function hf
  rw [FunctionRecord.row_eq hentry hbody, feed_notMem_markdownRow_iff f.texts_ne_nil]
  simp [FunctionRecord.texts, hentry.1, hbody.1]

theorem RecordsOf.feed_notMem_symbols_iff (h : RecordsOf p r) :
    (∀ l ∈ r.symbols.map SymbolRecord.row, '\n' ∉ l.toList) ↔
      ∀ x ∈ r.symbols, '\n' ∉ x.name.toList := by
  rw [List.forall_mem_map]
  refine forall₂_congr fun x hx => ?_
  obtain ⟨haddress, htype, hsource⟩ := h.markless_symbol hx
  rw [SymbolRecord.row_eq haddress htype hsource, feed_notMem_markdownRow_iff x.texts_ne_nil]
  simp [SymbolRecord.texts, haddress.1, htype.1, hsource.1]

theorem lines_functions_iff (h : RecordsOf p r) :
    lines r.markdown = r.markdownHead.flatMap lines ++ r.functionSection ++
        r.linesBelowFunctions.flatMap lines ↔
      ∀ f ∈ r.functions, '\n' ∉ f.name.toList ∧ '\n' ∉ f.signature.toList := by
  rw [← h.feed_notMem_functions_iff, r.markdown_eq_functions]
  exact lines_section_iff r.markdownHead_ne_nil (by decide) (by decide)

theorem lines_symbols_iff (h : RecordsOf p r) :
    lines r.markdown = r.linesAboveSymbols.flatMap lines ++ r.symbolSection ++
        r.linesBelowSymbols.flatMap lines ↔
      ∀ x ∈ r.symbols, '\n' ∉ x.name.toList := by
  rw [← h.feed_notMem_symbols_iff, r.markdown_eq_symbols]
  exact lines_section_iff r.linesAboveSymbols_ne_nil (by decide) (by decide)

theorem RecordsOf.feed_notMem (h : RecordsOf p r) (hnames : p.HasBreaklessNames)
    (hfunctions : p.HasFunctionsOf s) (hbreakless : s.BreaklessNames) :
    (∀ f ∈ r.functions, '\n' ∉ f.name.toList ∧ '\n' ∉ f.signature.toList) ∧
      ∀ x ∈ r.symbols, '\n' ∉ x.name.toList := by
  rw [h.functions, h.symbols, List.forall_mem_map, List.forall_mem_map]
  constructor
  · intro f hf
    have hname : '\n' ∉ f.name.toList :=
      hnames f.symbol (List.mem_append_left _ (List.mem_map_of_mem hf))
    exact ⟨hname, hfunctions.feed_notMem_signature hbreakless hf hname⟩
  · intro x hx
    exact hnames x (List.mem_filter.1 hx).1

/-- Whatever was renamed or retyped before, every row of the tables is read back as the texts of its
record. A table has one line for each record exactly if no name and no declaration in it has a line
feed, and none has if the snapshot gives none to a name, a type or a parameter. -/
theorem tables_build (h : Engine.Reached s e) (limits : Limits) :
    ∃ r, (build e limits).2.outcome = .ok (.whole r) ∧
      (∀ f ∈ r.functions, readRow f.row = f.texts) ∧ (∀ x ∈ r.symbols, readRow x.row = x.texts) ∧
      (lines r.markdown = r.markdownHead.flatMap lines ++ r.functionSection ++
          r.linesBelowFunctions.flatMap lines ↔
        ∀ f ∈ r.functions, '\n' ∉ f.name.toList ∧ '\n' ∉ f.signature.toList) ∧
      (lines r.markdown = r.linesAboveSymbols.flatMap lines ++ r.symbolSection ++
          r.linesBelowSymbols.flatMap lines ↔
        ∀ x ∈ r.symbols, '\n' ∉ x.name.toList) ∧
      (s.BreaklessNames →
        (∀ f ∈ r.functions, '\n' ∉ f.name.toList ∧ '\n' ∉ f.signature.toList) ∧
          ∀ x ∈ r.symbols, '\n' ∉ x.name.toList) := by
  have hopen : Engine.Faultless { e with isOpen := true } := h.faultless
  obtain ⟨r, hr, hfilled⟩ := exists_filled h.faultless limits
  have hrecords : RecordsOf e.program r := ⟨hfilled.functions_eq hopen, hfilled.symbols_eq hopen⟩
  refine ⟨r, hr, fun f hf => hrecords.readRow_function hf, fun x hx => hrecords.readRow_symbol hx,
    lines_functions_iff hrecords, lines_symbols_iff hrecords, fun hbreakless => ?_⟩
  have hnames : e.program.HasBreaklessNames :=
    h.induct (fun _ => Program.hasBreaklessNames_load hbreakless) fun _ _ =>
      Program.HasBreaklessNames.change
  exact hrecords.feed_notMem hnames h.hasFunctionsOf hbreakless

/-! ## Escaped and broken rows -/

/-- The name of a symbol with a backslash before a pipe and one at its end. -/
def slashedName : String := "a\\|b\\"

/-- The record of a symbol at the base of the image. -/
def symbolRecord (name : String) : SymbolRecord := ⟨name, "0x10", "Label", "ANALYSIS"⟩

/-- A snapshot of one symbol. -/
def symbolSnapshot (name : String) : Snapshot :=
  ⟨"p", "x", "10", .four, [], [], [], [], [⟨name, "10", .label, .analysis, false⟩], [], []⟩

/-- The program of the snapshot. -/
def symbolProgram (name : String) : Program :=
  ⟨"p", "x", ⟨4⟩, ⟨16⟩, none, [], [], [⟨name, ⟨16⟩, .label, .analysis, false⟩], [], [], []⟩

/-- The report of the program. -/
def symbolReport (name : String) : AnalysisReport :=
  ⟨"p", "0x10", none, [], [symbolRecord name], [], "0x10", "x"⟩

theorem reached_symbolProgram {name : String}
    (h : Program.load (symbolSnapshot name) = .ok (symbolProgram name)) :
    Engine.Reached (symbolSnapshot name) (Engine.ofProgram (symbolProgram name)) :=
  ⟨_, [], false, Engine.ofSnapshot_of_load h, rfl⟩

/-- A backslash does not hide the pipe behind it, or that of the next cell. -/
theorem tables_build_slashed :
    Engine.Reached (symbolSnapshot slashedName) (Engine.ofProgram (symbolProgram slashedName)) ∧
      (build (Engine.ofProgram (symbolProgram slashedName)) .standard).2.outcome =
        .ok (.whole (symbolReport slashedName)) ∧
      (symbolRecord slashedName).row = "| a\\\\|b\\ | 0x10 | Label | ANALYSIS |" ∧
      (symbolRecord slashedName).row ∈ lines (symbolReport slashedName).markdown ∧
      readRow (symbolRecord slashedName).row = ["a\\|b\\", "0x10", "Label", "ANALYSIS"] := by
  have hload : Program.load (symbolSnapshot slashedName) = .ok (symbolProgram slashedName) := by
    decide +kernel
  have hreached := reached_symbolProgram hload
  obtain ⟨r, hr, -, hrows, -, hlines, -⟩ := tables_build hreached .standard
  have hbuild : (build (Engine.ofProgram (symbolProgram slashedName)) .standard).2.outcome =
      .ok (.whole (symbolReport slashedName)) := ok_of_toOption (by decide +kernel)
  obtain rfl := Report.whole.inj (Except.ok.inj (hr.symm.trans hbuild))
  refine ⟨hreached, hbuild, by decide +kernel, ?_, ?_⟩
  · rw [hlines.2 (by decide +kernel)]
    decide +kernel
  · exact hrows (symbolRecord slashedName) List.mem_cons_self

/-- The name of a symbol with a line feed. -/
def brokenName : String := "a\nb"

/-- It gives its symbol two lines in the table, and no line is read back as the texts of the record. -/
theorem tables_build_broken :
    Engine.Reached (symbolSnapshot brokenName) (Engine.ofProgram (symbolProgram brokenName)) ∧
      (build (Engine.ofProgram (symbolProgram brokenName)) .standard).2.outcome =
        .ok (.whole (symbolReport brokenName)) ∧
      (lines (symbolReport brokenName).markdown).drop
          (symbolReport brokenName).linesAboveSymbols.length =
        ["## Symbols", "| Name | Address | Type | Source |", "|---|---:|---|---|", "| a",
          "b | 0x10 | Label | ANALYSIS |", ""] ∧
      ∀ l ∈ lines (symbolReport brokenName).markdown, readRow l ≠ (symbolRecord brokenName).texts := by
  have hlines : lines (symbolReport brokenName).markdown =
      (symbolReport brokenName).markdownLines.flatMap lines := lines_joinLines (List.cons_ne_nil _ _)
  refine ⟨reached_symbolProgram (by decide +kernel), ok_of_toOption (by decide +kernel), ?_⟩
  rw [hlines]
  decide +kernel

end Report

end BinaryReport
