import BinaryReport.Proofs.Engine.Bytes
import BinaryReport.Proofs.Program.Loaded
import BinaryReport.Proofs.Report.Coherence
import BinaryReport.Proofs.Report.Layout

/-!
# The lines of a disassembly

An instruction is laid out in columns, and its texts are put there as the snapshot has them. A line
feed among them breaks the line, unless there is no comment and only blanks follow, which are trimmed
off with it (`InstructionRecord.StaysOnLine`). The listing of a report has its head and then one line
per instruction exactly if every instruction stays on its line and neither the name of the program nor
the language has a line feed. For the disassembly of a Markdown page the instructions alone count
(`Report.disassembly_lines_build`).
-/

namespace BinaryReport

open Text Outcome

/-! ## Columns -/

/-- A number of spaces. -/
def spaces (n : Nat) : List Char := List.replicate n ' '

theorem areBlank_spaces (n : Nat) : AreBlank (spaces n) := by
  intro c hc
  rw [List.eq_of_mem_replicate hc]
  decide

theorem feed_notMem_spaces (n : Nat) : '\n' ∉ spaces n := by
  intro h
  exact absurd (List.eq_of_mem_replicate h) (by decide)

theorem toList_padRight (width : Nat) (s : String) :
    (padRight width s).toList = s.toList ++ spaces (width - unitLength s.toList) := by
  rw [padRight, String.toList_append, String.toList_ofList]
  rfl

namespace InstructionRecord

/-- The columns of an instruction without its comment. -/
def columns (r : InstructionRecord) : String :=
  padRight 18 (r.address ++ ":") ++ " " ++ padRight 16 r.bytes ++ " " ++ padRight 8 r.mnemonic ++ " "
    ++ padRight 20 r.operands

theorem line_eq (r : InstructionRecord) :
    r.line = if r.comment.isEmpty then trimEnd r.columns else r.columns ++ "  ; " ++ r.comment := rfl

/-- No line feed gets from the mnemonic, the operands or the comment into the line of the
instruction. -/
def StaysOnLine (r : InstructionRecord) : Prop :=
  if r.comment = "" then '\n' ∉ dropBlanksEnd (r.mnemonic.toList ++ r.operands.toList)
  else '\n' ∉ r.mnemonic.toList ∧ '\n' ∉ r.operands.toList ∧ '\n' ∉ r.comment.toList

instance (r : InstructionRecord) : Decidable r.StaysOnLine := by
  unfold StaysOnLine
  infer_instance

variable {r : InstructionRecord}

theorem exists_toList_columns (haddress : Markless r.address) (hbytes : Markless r.bytes) :
    ∃ front gap behind, '\n' ∉ front ∧ r.columns.toList =
      front ++ (r.mnemonic.toList ++ (spaces gap ++ (r.operands.toList ++ spaces behind))) := by
  refine ⟨(padRight 18 (r.address ++ ":") ++ " " ++ padRight 16 r.bytes ++ " ").toList,
    8 - unitLength r.mnemonic.toList + 1, 20 - unitLength r.operands.toList, ?_, ?_⟩
  · simp [toList_padRight, haddress.1, hbytes.1, feed_notMem_spaces]
  · have hspace : " ".toList = [' '] := rfl
    have hgap (n : Nat) : spaces (n + 1) = spaces n ++ [' '] := List.replicate_succ'
    simp only [columns, String.toList_append, toList_padRight, hspace, hgap, List.append_assoc]

/-- Where the address and the bytes have no line feed, the line has none exactly if the instruction
stays on it. -/
theorem feed_notMem_line_iff (haddress : Markless r.address) (hbytes : Markless r.bytes) :
    '\n' ∉ r.line.toList ↔ r.StaysOnLine := by
  obtain ⟨front, gap, behind, hfront, hcolumns⟩ := exists_toList_columns haddress hbytes
  unfold StaysOnLine
  rw [line_eq]
  by_cases hcomment : r.comment = ""
  · rw [if_pos hcomment, if_pos (by rw [hcomment]; rfl), trimEnd, String.toList_ofList, hcolumns,
      mem_dropBlanksEnd_append hfront, mem_dropBlanksEnd_gap (areBlank_spaces gap)
      (feed_notMem_spaces gap), ← List.append_assoc, dropBlanksEnd_append (areBlank_spaces behind)]
  · have hsemicolon : '\n' ∉ "  ; ".toList := by decide
    rw [if_neg hcomment, if_neg (mt String.isEmpty_iff.1 hcomment)]
    simp only [String.toList_append, hcolumns, List.mem_append, not_or, hfront, hsemicolon,
      feed_notMem_spaces, not_false_eq_true, true_and, and_true, and_assoc]

theorem staysOnLine_of_notMem (hmnemonic : '\n' ∉ r.mnemonic.toList)
    (hoperands : '\n' ∉ r.operands.toList) (hcomment : '\n' ∉ r.comment.toList) :
    r.StaysOnLine := by
  unfold StaysOnLine
  split_ifs with h
  · intro hmem
    rcases List.mem_append.1 (mem_of_mem_dropBlanksEnd hmem) with hmem | hmem
    · exact hmnemonic hmem
    · exact hoperands hmem
  · exact ⟨hmnemonic, hoperands, hcomment⟩

end InstructionRecord

/-! ## The texts of a program -/

/-- None of the texts that a snapshot gives to a listing has a line feed. -/
structure Snapshot.Breakless (s : Snapshot) : Prop where
  name : '\n' ∉ s.name.toList
  language : '\n' ∉ s.language.toList
  instructions : ∀ entry ∈ s.instructions,
    '\n' ∉ entry.mnemonic.toList ∧ '\n' ∉ entry.operands.toList
  comments : ∀ entry ∈ s.comments, '\n' ∉ entry.text.toList

namespace Program

variable {s : Snapshot} {p p' : Program}

/-- The name, the language and the comments are those of a snapshot. -/
structure HasTextsOf (s : Snapshot) (p : Program) : Prop where
  name : p.name = s.name
  language : p.language = s.language
  comments : List.Forall₂ (CommentEntry.Denotes s.space) s.comments p.comments

theorem Load.texts_bare (h : Load.bare s = .ok p) : p.name = s.name ∧ p.language = s.language := by
  obtain ⟨imageBase, -, h⟩ := bind_eq_ok h
  obtain ⟨starts, -, h⟩ := bind_eq_ok h
  obtain ⟨entryPoints, -, h⟩ := bind_eq_ok h
  obtain ⟨instructions, -, h⟩ := bind_eq_ok h
  obtain ⟨functions, -, h⟩ := bind_eq_ok h
  obtain ⟨labels, -, h⟩ := bind_eq_ok h
  obtain rfl := Except.ok.inj h
  exact ⟨rfl, rfl⟩

theorem hasTextsOf_load (h : load s = .ok p) : p.HasTextsOf s := by
  have hcomments : List.Forall₂ (CommentEntry.Denotes s.space) s.comments p.comments := by
    obtain ⟨start, loaded, comments, -, -, hcomments, rfl⟩ := load_eq_ok_iff.1 h
    exact (Load.each_eq_ok_iff (R := CommentEntry.Denotes s.space) fun _ _ _ =>
      Load.comment_eq_ok_iff).1 hcomments
  obtain ⟨start, data, comments, hstart, rfl⟩ := exists_bare_of_load h
  obtain ⟨hname, hlanguage⟩ := Load.texts_bare hstart
  exact ⟨hname, hlanguage, hcomments⟩

theorem HasTextsOf.change (h : p.HasTextsOf s) (hchange : Engine.Change p p') : p'.HasTextsOf s := by
  cases hchange with
  | none => exact h
  | name index name source =>
    rw [renameIndex_eq]
    exact ⟨h.name, h.language, h.comments⟩
  | data _ _ hplace =>
    obtain rfl := placeData_eq hplace
    exact ⟨h.name, h.language, h.comments⟩

theorem HasTextsOf.feed_notMem_comment (h : p.HasTextsOf s) (hbreakless : s.Breakless)
    (kind : CommentKind) (a : Address) : '\n' ∉ ((p.commentAt? kind a).getD "").toList := by
  cases hcomment : p.commentAt? kind a with
  | none => decide
  | some text =>
    obtain ⟨c, hc, rfl⟩ := Option.map_eq_some_iff.1 hcomment
    have hmem := List.mem_reverse.1 (List.mem_of_find?_eq_some hc)
    obtain ⟨entry, hentry, -, -, htext⟩ := Matching.exists_of_mem_right h.comments hmem
    rw [Option.getD_some, htext]
    exact hbreakless.comments entry hentry

theorem HasInstructionsOf.feed_notMem (h : p.HasInstructionsOf s) (hbreakless : s.Breakless)
    {i : Instruction} (hi : i ∈ p.instructions) :
    '\n' ∉ i.mnemonic.toList ∧ '\n' ∉ i.operands.toList := by
  obtain ⟨entry, hentry, a, -, rfl⟩ := Matching.exists_of_mem_right h.1 hi
  exact hbreakless.instructions entry hentry

end Program

/-! ## Reports -/

namespace Engine

variable {s : Snapshot} {e : Engine}

theorem Reached.withOpen (h : Reached s e) (isOpen : Bool) :
    Reached s { e with isOpen := isOpen } := by
  obtain ⟨e₀, edits, _, hload, rfl⟩ := h
  exact ⟨e₀, edits, isOpen, hload, rfl⟩

theorem Reached.hasTextsOf (h : Reached s e) : e.program.HasTextsOf s :=
  h.induct (fun _ => Program.hasTextsOf_load) fun _ _ => Program.HasTextsOf.change

theorem Reached.staysOnLine (h : Reached s e) (hbreakless : s.Breakless) {start : Address}
    {bound : Binary64} {records : List InstructionRecord}
    (hwalk : e.disassemble start bound = .ok records) : ∀ r ∈ records, r.StaysOnLine := by
  intro record hrecord
  obtain ⟨i, hi, rfl⟩ := h.exists_of_mem_disassemble hwalk hrecord
  obtain ⟨hmnemonic, hoperands⟩ :=
    h.hasInstructionsOf.feed_notMem hbreakless (Program.mem_of_instructionAt? hi).1
  have hcomment := h.hasTextsOf.feed_notMem_comment hbreakless .endOfLine i.address
  exact InstructionRecord.staysOnLine_of_notMem hmnemonic hoperands hcomment

end Engine

namespace AnalysisReport

variable {r : AnalysisReport}

theorem forall_mem_listingHead (hentry : Markless r.entryPoint) (hbase : Markless r.imageBase) :
    (∀ l ∈ r.listingHead, '\n' ∉ l.toList) ↔
      '\n' ∉ r.programName.toList ∧ '\n' ∉ r.language.toList := by
  simp [listingHead, hentry.1, hbase.1]

end AnalysisReport

namespace Report

variable {s : Snapshot} {e : Engine}

/-- The addresses and the bytes of a report are written by the library. -/
structure WrittenMarkless (r : AnalysisReport) : Prop where
  entryPoint : Markless r.entryPoint
  imageBase : Markless r.imageBase
  instructions : ∀ i ∈ r.disassembly, Markless i.address ∧ Markless i.bytes

theorem Filled.writtenMarkless (h : Engine.Reached s e) {opened : Bool} {limits : Limits}
    {r : AnalysisReport} (hfilled : Filled e opened limits r) : WrittenMarkless r := by
  obtain ⟨entry, function?, -, hentry, -, hwalk⟩ := hfilled.entry
  constructor
  case entryPoint =>
    rw [hentry]
    exact entry.markless_canonical
  case imageBase =>
    rw [hfilled.imageBase]
    exact e.program.imageBase.markless_canonical
  case instructions =>
    intro record hrecord
    obtain ⟨i, -, rfl⟩ := h.exists_of_mem_disassemble hwalk hrecord
    exact ⟨i.address.markless_canonical, markless_bytesText i.bytes⟩

theorem WrittenMarkless.forall_line_iff {r : AnalysisReport} (h : WrittenMarkless r) :
    (∀ l ∈ r.disassembly.map InstructionRecord.line, '\n' ∉ l.toList) ↔
      ∀ i ∈ r.disassembly, i.StaysOnLine := by
  rw [List.forall_mem_map]
  refine forall₂_congr fun i hi => ?_
  obtain ⟨haddress, hbytes⟩ := h.instructions i hi
  exact InstructionRecord.feed_notMem_line_iff haddress hbytes

theorem lines_listing_iff {r : AnalysisReport} (h : WrittenMarkless r) :
    lines r.listing = r.listingHead ++ r.disassembly.map InstructionRecord.line ↔
      '\n' ∉ r.programName.toList ∧ '\n' ∉ r.language.toList ∧
        ∀ i ∈ r.disassembly, i.StaysOnLine := by
  have hne : r.listingHead ++ r.disassembly.map InstructionRecord.line ≠ [] := List.cons_ne_nil _ _
  rw [AnalysisReport.listing, lines_joinLines hne, flatMap_lines_eq_self_iff,
    List.forall_mem_append, AnalysisReport.forall_mem_listingHead h.entryPoint h.imageBase,
    h.forall_line_iff, and_assoc]

theorem lines_markdown_iff {r : AnalysisReport} (h : WrittenMarkless r) :
    lines r.markdown = r.linesAbove.flatMap lines ++ r.disassemblySection ↔
      ∀ i ∈ r.disassembly, i.StaysOnLine := by
  have hsection : lines (joinLines (r.linesAbove ++ r.disassemblySection ++ [])) =
      r.linesAbove.flatMap lines ++ r.disassemblySection ++ [] ↔
        ∀ l ∈ r.disassembly.map InstructionRecord.line, '\n' ∉ l.toList :=
    lines_section_iff r.linesAbove_ne_nil (by decide) (by decide)
  rw [List.append_nil, List.append_nil, ← r.markdown_eq, h.forall_line_iff] at hsection
  exact hsection

/-- Whatever was renamed or retyped before, the listing has the seven lines of its head and then one
for each instruction exactly if the name, the language and the instructions leave their lines whole;
in a page the disassembly has one line for each instruction exactly if the instructions do. All of them
do if no text of the snapshot has a line feed. -/
theorem disassembly_lines_build (h : Engine.Reached s e) (limits : Limits) :
    ∃ r, (build e limits).2.outcome = .ok (.whole r) ∧ r.listingHead.length = 7 ∧
      (lines r.listing = r.listingHead ++ r.disassembly.map InstructionRecord.line ↔
        '\n' ∉ s.name.toList ∧ '\n' ∉ s.language.toList ∧ ∀ i ∈ r.disassembly, i.StaysOnLine) ∧
      (lines r.markdown = r.linesAbove.flatMap lines ++ r.disassemblySection ↔
        ∀ i ∈ r.disassembly, i.StaysOnLine) ∧
      (s.Breakless → ∀ i ∈ r.disassembly, i.StaysOnLine) := by
  have hopen := h.withOpen true
  obtain ⟨r, hr, hfilled⟩ := exists_filled h.faultless limits
  have hwritten := Filled.writtenMarkless hopen hfilled
  have hname : s.name = r.programName := by
    have hok := hfilled.name
    rw [hopen.faultless.name_eq] at hok
    exact h.hasTextsOf.name.symm.trans (Except.ok.inj hok)
  have hlanguage : s.language = r.language := h.hasTextsOf.language.symm.trans hfilled.language.symm
  obtain ⟨entry, function?, -, -, -, hwalk⟩ := hfilled.entry
  refine ⟨r, hr, rfl, ?_, lines_markdown_iff hwritten,
    fun hbreakless => hopen.staysOnLine hbreakless hwalk⟩
  rw [hname, hlanguage]
  exact lines_listing_iff hwritten

/-! ## Trimmed and broken lines -/

theorem readable_return : (readHexBytes? "c3").isSome = true := by
  decide +kernel

/-- A snapshot of one instruction. -/
def instructionSnapshot (operands : String) (comments : List CommentEntry) : Snapshot :=
  ⟨"p", "x", "10", .four, [], [], [⟨"10", "RET", operands, ⟨"c3", readable_return⟩⟩], [], [], [],
    comments⟩

/-- The program of the snapshot. -/
def instructionProgram (operands : String) (comments : List Comment) : Program :=
  ⟨"p", "x", ⟨4⟩, ⟨16⟩, none, [], [], [], [⟨⟨16⟩, "RET", operands, [-61]⟩], [], comments⟩

/-- The report of the program. -/
def instructionReport (operands comment : String) : AnalysisReport :=
  ⟨"p", "0x10", none, [], [], [⟨"0x10", "RET", operands, "c3", comment⟩], "0x10", "x"⟩

theorem reached_instructionProgram {operands : String} {entries : List CommentEntry}
    {comments : List Comment} (h : Program.load (instructionSnapshot operands entries) =
      .ok (instructionProgram operands comments)) :
    Engine.Reached (instructionSnapshot operands entries)
      (Engine.ofProgram (instructionProgram operands comments)) :=
  ⟨_, [], false, Engine.ofSnapshot_of_load h, rfl⟩

/-- A line feed at the end of the operands is trimmed off. -/
theorem disassembly_lines_build_trimmed :
    Engine.Reached (instructionSnapshot "\n" []) (Engine.ofProgram (instructionProgram "\n" [])) ∧
      (build (Engine.ofProgram (instructionProgram "\n" [])) .standard).2.outcome =
        .ok (.whole (instructionReport "\n" "")) ∧
      lines (instructionReport "\n" "").listing = (instructionReport "\n" "").listingHead ++
        ["0x10:              c3               RET"] := by
  have hload : Program.load (instructionSnapshot "\n" []) = .ok (instructionProgram "\n" []) := by
    decide +kernel
  have hreached := reached_instructionProgram hload
  obtain ⟨r, hr, -, hlisting, -, -⟩ := disassembly_lines_build hreached .standard
  have hbuild : (build (Engine.ofProgram (instructionProgram "\n" [])) .standard).2.outcome =
      .ok (.whole (instructionReport "\n" "")) := ok_of_toOption (by decide +kernel)
  obtain rfl := Report.whole.inj (Except.ok.inj (hr.symm.trans hbuild))
  exact ⟨hreached, hbuild, hlisting.2 (by decide +kernel)⟩

/-- The report of an instruction with a comment of two lines. -/
def brokenReport : AnalysisReport := instructionReport "" "a\nb"

/-- Such a comment gives its instruction two lines in the listing and in the page. -/
theorem disassembly_lines_build_broken :
    Engine.Reached (instructionSnapshot "" [⟨"10", .endOfLine, "a\nb"⟩])
        (Engine.ofProgram (instructionProgram "" [⟨⟨16⟩, .endOfLine, "a\nb"⟩])) ∧
      (build (Engine.ofProgram (instructionProgram "" [⟨⟨16⟩, .endOfLine, "a\nb"⟩]))
        .standard).2.outcome = .ok (.whole brokenReport) ∧
      lines brokenReport.listing ≠
        brokenReport.listingHead ++ brokenReport.disassembly.map InstructionRecord.line ∧
      brokenReport.disassembly.length = 1 ∧ (lines brokenReport.listing).length = 7 + 2 ∧
      (lines brokenReport.markdown).drop brokenReport.linesAbove.length =
        ["## Disassembly", "\x60\x60\x60asm",
          "0x10:              c3               RET                            ; a", "b",
          "\x60\x60\x60", ""] := by
  have hlisting : lines brokenReport.listing =
      (brokenReport.listingHead ++ brokenReport.disassembly.map InstructionRecord.line).flatMap lines :=
    lines_joinLines (List.cons_ne_nil _ _)
  have hpage : lines brokenReport.markdown = brokenReport.markdownLines.flatMap lines :=
    lines_joinLines (List.cons_ne_nil _ _)
  refine ⟨reached_instructionProgram (by decide +kernel), ok_of_toOption (by decide +kernel), ?_⟩
  rw [hlisting, hpage]
  decide +kernel

end Report

end BinaryReport
