import BinaryReport.Proofs.Report.Coherence
import BinaryReport.Proofs.Report.EntryFunction
import BinaryReport.Proofs.Text.Lines
import BinaryReport.Report.Layout

/-!
# The decompiler view

The view shows the function around the entry with its code, line for line, and below it a block for
every other function (`Report.code_build`). The entry function is left out of the blocks by its entry
point. That leaves out one record and no other, since the entry points of a report are distinct and the
entry function is one of its functions, whatever was renamed before; names and declarations may be
shared.

The view ends with an empty line, so its text is that of its other lines with a line feed behind each
(`Text.terminated`).
-/

namespace BinaryReport

open Text

/-! ## The item of a key -/

/-- A list without the items of a key lacks one item if its keys are distinct. -/
theorem exists_filter_key_ne {α β : Type} [DecidableEq β] {key : α → β} {xs : List α} {x : α}
    (hnodup : (xs.map key).Nodup) (hx : x ∈ xs) :
    ∃ front back, xs = front ++ x :: back ∧ key x ∉ (front ++ back).map key ∧
      (xs.filter fun y => key y ≠ key x) = front ++ back := by
  obtain ⟨front, back, rfl⟩ := List.append_of_mem hx
  have hkey : key x ∉ (front ++ back).map key := by
    rw [List.map_append, List.map_cons] at hnodup
    have hmiddle := (List.nodup_middle.1 hnodup)
    rw [List.map_append]
    exact (List.nodup_cons.1 hmiddle).1
  have hkept : ∀ y ∈ front ++ back, key y ≠ key x := by
    intro y hy heq
    exact hkey (heq ▸ List.mem_map_of_mem hy)
  refine ⟨front, back, rfl, hkey, ?_⟩
  have hfront : front.filter (fun y => key y ≠ key x) = front :=
    List.filter_eq_self.2 fun y hy => by simpa using hkept y (List.mem_append_left back hy)
  have hback : back.filter (fun y => key y ≠ key x) = back :=
    List.filter_eq_self.2 fun y hy => by simpa using hkept y (List.mem_append_right front hy)
  rw [List.filter_append, List.filter_cons, hfront, hback]
  simp

/-! ## The parts of the view -/

namespace AnalysisReport

/-- The header of the view. -/
def viewHeader (r : AnalysisReport) : List String :=
  ["// Decompiler", "// Binary: " ++ r.programName, "// Entry Point: " ++ r.entryPoint,
    "// Architecture: " ++ r.language, "//", ""]

/-- The part of the view for the entry function, with the lines of its code. -/
def viewEntry (d : DecompiledFunction) (code : List String) : List String :=
  ["// Function: " ++ d.name, "// Address: " ++ d.entryPoint, ""] ++ code ++ [""]

/-- The block of a function: an empty line, the name with the address, and the declaration. -/
def viewBlock (f : FunctionRecord) : List String :=
  ["", "// " ++ f.name ++ " @ " ++ f.entryPoint, "// " ++ f.signature]

/-- The part of the view for the other functions. -/
def viewOthers (fs : List FunctionRecord) : List String :=
  ["", "// Other Functions:"] ++ fs.flatMap viewBlock

/-- An empty line behind each block can as well be seen in front of the next one. -/
theorem cons_flatMap_block (fs : List FunctionRecord) :
    ("" :: fs.flatMap fun f => ["// " ++ f.name ++ " @ " ++ f.entryPoint, "// " ++ f.signature, ""]) =
      fs.flatMap viewBlock ++ [""] := by
  induction fs with
  | nil => rfl
  | cons f fs ih =>
    rw [List.flatMap_cons, List.flatMap_cons, List.append_assoc, ← ih]
    rfl

theorem codeOthers_eq (r : AnalysisReport) : r.codeOthers = viewOthers r.otherFunctions ++ [""] := by
  rw [viewOthers, List.append_assoc, ← cons_flatMap_block]
  rfl

theorem code_eq (r : AnalysisReport) :
    r.code = terminated (r.viewHeader ++ r.codeEntryFunction ++ viewOthers r.otherFunctions) := by
  have hhead : r.codeHead = r.viewHeader := rfl
  rw [code, hhead, codeOthers_eq, ← List.append_assoc, joinLines_concat_empty]

end AnalysisReport

/-! ## The view of a report -/

namespace Report

open AnalysisReport (viewHeader viewEntry viewOthers)

variable {s : Snapshot} {e : Engine}

/-- The view of a report without an entry function shows all functions. -/
theorem code_of_none {r : AnalysisReport} (hnone : r.entryFunction? = none) :
    r.code = terminated (viewHeader r ++ viewOthers r.functions) := by
  have hentry : r.codeEntryFunction = [] := by simp [AnalysisReport.codeEntryFunction, hnone]
  have hothers : r.otherFunctions = r.functions := by simp [AnalysisReport.otherFunctions, hnone]
  rw [AnalysisReport.code_eq, hentry, hothers, List.append_nil]

/-- The view of a coherent report with an entry function shows its code and all the other functions. -/
theorem Coherent.code_of_some {p : Program} {r : AnalysisReport} (h : Coherent s p r)
    {d : DecompiledFunction} (hd : r.entryFunction? = some d) :
    ∃ front back, r.functions = front ++ d.record :: back ∧
      d.entryPoint ∉ (front ++ back).map (·.entryPoint) ∧
      r.code = terminated (viewHeader r ++ viewEntry d (lines d.code) ++ viewOthers (front ++ back)) := by
  obtain ⟨hmem, -⟩ := h.entryFunction d hd
  obtain ⟨front, back, hfunctions, hkey, hfilter⟩ := exists_filter_key_ne h.nodup hmem
  have hentry : r.codeEntryFunction = viewEntry d (lines d.code) := by
    simp [AnalysisReport.codeEntryFunction, hd, viewEntry]
  have hothers : r.otherFunctions = front ++ back := by
    rw [← hfilter, AnalysisReport.otherFunctions, hd]
    rfl
  refine ⟨front, back, hfunctions, hkey, ?_⟩
  rw [AnalysisReport.code_eq, hentry, hothers]

theorem body_outerFunction : outerFunction.body = ⟨[⟨⟨0x10⟩, ⟨0x3f⟩⟩]⟩ := by
  simp [outerFunction, RangeSet.ofRanges, RangeSet.mergeSorted, RangeSet.mergeFrom,
    AddressRange.extend, RangeSet.startsBefore, List.mergeSort]

/-- The outer function under the name of the inner one. -/
def namesake : Function :=
  ⟨⟨"inner", ⟨0x10⟩, .function, .userDefined, false⟩, ⟨[⟨⟨0x10⟩, ⟨0x3f⟩⟩]⟩, "int", [],
    some "return 0;", 250⟩

/-- The nested functions after the outer one was given the name of the inner one. -/
def namesakes : Engine :=
  .ofProgram ⟨"a", "x", ⟨4⟩, ⟨0⟩, none, [⟨0x24⟩], [namesake, innerFunction], [], [], [], []⟩

theorem reached_namesakes : Engine.Reached nestedSnapshot namesakes := by
  refine ⟨_, [.setName 0 "inner" .userDefined], false,
    Engine.ofSnapshot_of_load load_nestedSnapshot, ?_⟩
  have houter : outerFunction = { outerFunction with body := ⟨[⟨⟨0x10⟩, ⟨0x3f⟩⟩]⟩ } := by
    rw [← body_outerFunction]
  rw [houter]
  rfl

/-- The entered function in its report. -/
def enteredNamesake : DecompiledFunction :=
  ⟨"inner", "0x10", "return 0;", "int inner(void)", "[0x10, 0x3f]"⟩

/-- The report of the namesakes. -/
def namesakesReport : AnalysisReport :=
  ⟨"a", "0x24", some enteredNamesake,
    [enteredNamesake.record, ⟨"inner", "0x20", "void inner(void)", "[0x20, 0x2f]"⟩],
    [⟨"inner", "0x10", "Function", "USER_DEFINED"⟩, ⟨"inner", "0x20", "Function", "ANALYSIS"⟩], [],
    "0x0", "x"⟩

end Report

end BinaryReport
