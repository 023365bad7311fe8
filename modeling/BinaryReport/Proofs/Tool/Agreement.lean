import BinaryReport.Proofs.Program.Entry
import BinaryReport.Proofs.Tool.Run

/-!
# Reports and the tools for their parts

A report shows the disassembly from the entry on and the function around the entry. Two other tools list
instructions from an address and decompile the function around one. Given the entry that the report
shows, and the limits of the report, they answer what the report shows
(`Tool.answers_agree_with_report`).

The report has the entry as an address and the tools read it from text; they come to the same address
because an entry lies in the address space.
-/

namespace BinaryReport

/-! ## Arguments -/

namespace Check

theorem number_accepts {rules : List NumberRule} {q : Rat}
    (h : ∀ rule ∈ rules, rule.holds (.finite q) = true) :
    (number rules).run (.number (.finite q)) = .accepted (.finite q) := by
  have hnone : (rules.filter fun rule => !rule.holds (.finite q)) = [] := by
    rw [List.filter_eq_nil_iff]
    intro rule hrule
    simp [h rule hrule]
  show NumberRule.judge rules (.finite q) = _
  rw [NumberRule.judge, hnone]
  rfl

end Check

namespace Tool

variable {n : Nat} {t : Rat}

theorem countCheck_accepts (hpos : 1 ≤ n) (hle : n ≤ maxCount) :
    countCheck.run (.number (.ofNat n)) = .accepted (.ofNat n) := by
  have hexact : n ≤ Binary64.exactLimit := le_trans hle (by decide)
  have hlimit : Binary64.ofNat maxCount = .finite maxCount := Binary64.ofNat_eq (by decide)
  rw [Binary64.ofNat_eq hexact]
  refine Check.number_accepts fun rule hrule => ?_
  simp only [List.mem_cons, List.not_mem_nil, or_false] at hrule
  rcases hrule with rfl | rfl | rfl
  · have hint : Binary64.toInt? (.finite n) = some (n : Int) := Binary64.toInt?_finite n
    simp [Check.NumberRule.holds, hint]
  · have hzero : (0 : Rat) < n := by exact_mod_cast hpos
    simpa [Check.NumberRule.holds, Binary64.lt] using hzero
  · have hbound : (n : Rat) ≤ maxCount := by exact_mod_cast hle
    simpa [Check.NumberRule.holds, Binary64.le, hlimit] using hbound

theorem timeoutCheck_accepts (hpos : 0 < t) :
    timeoutCheck.run (.number (.finite t)) = .accepted (.finite t) := by
  refine Check.number_accepts fun rule hrule => ?_
  simp only [List.mem_cons, List.not_mem_nil, or_false] at hrule
  rcases hrule with rfl | rfl
  · simpa [Check.NumberRule.holds, Binary64.lt] using hpos
  · rfl

/-- The arguments for a report within limits. -/
def reportArguments (limits : Limits) : Json :=
  .object [("maxInstructions", .number limits.maxInstructions),
    ("timeoutSeconds", .number limits.timeoutSeconds)]

/-- The arguments for a number of instructions from an address on. -/
def disassembleArguments (address : String) (count : Binary64) : Json :=
  .object [("address", .string address), ("count", .number count)]

/-- The arguments for the function around an address. -/
def decompileArguments (address : String) (timeoutSeconds : Binary64) : Json :=
  .object [("address", .string address), ("timeoutSeconds", .number timeoutSeconds)]

theorem read_reportArguments (defaults : Limits) {limits : Limits}
    (hcount : countCheck.run (.number limits.maxInstructions) = .accepted limits.maxInstructions)
    (htimeout : timeoutCheck.run (.number limits.timeoutSeconds) =
      .accepted limits.timeoutSeconds) :
    Tool.report.read defaults (reportArguments limits) = .accepted (.report limits) := by
  simp [read, orEmpty, reportArguments, argumentCheck, Check.record, Check.optional, Json.lookup,
    hcount, htimeout, Verdict.under, Verdict.map, Functor.map, Seq.seq, Verdict.apply]

theorem read_disassembleArguments (defaults : Limits) (address : String) {count : Binary64}
    (hcount : countCheck.run (.number count) = .accepted count) :
    Tool.disassemble.read defaults (disassembleArguments address count) =
      .accepted (.disassemble address count) := by
  simp [read, orEmpty, disassembleArguments, argumentCheck, Check.record, Check.optional,
    Check.required, Check.anyText, Json.lookup, hcount, Verdict.under, Verdict.map, Functor.map,
    Seq.seq, Verdict.apply]

theorem read_decompileArguments (defaults : Limits) (address : String) {limit : Binary64}
    (htimeout : timeoutCheck.run (.number limit) = .accepted limit) :
    Tool.decompile.read defaults (decompileArguments address limit) =
      .accepted (.decompile address limit) := by
  simp [read, orEmpty, decompileArguments, argumentCheck, Check.record, Check.optional,
    Check.required, Check.anyText, Json.lookup, htimeout, Verdict.under, Verdict.map, Functor.map,
    Seq.seq, Verdict.apply]

end Tool

/-! ## Agreement -/

namespace Engine

variable {e : Engine}

/-- A walk does not depend on the session. -/
theorem disassemble_withSession (e : Engine) (isOpen : Bool) (start : Address) (bound : Binary64) :
    disassemble { e with isOpen := isOpen } start bound = e.disassemble start bound := by
  have hstep (a : Address) : walkStep { e with isOpen := isOpen } a = e.walkStep a := rfl
  exact walkFrom_congr hstep _ _ _ _

theorem Faultless.locate_eq (h : e.Faultless) :
    Report.locate e = .ok (e.program.entryFrom e.program.entryPoints,
      e.program.functionContaining? (e.program.entryFrom e.program.entryPoints)) := by
  rw [Report.locate, h.resolveEntry_eq]
  show (e.functionContaining _ >>= fun function? => _) = _
  rw [h.functionContaining_eq]
  rfl

end Engine

/-- What a report shows about the entry of the program. -/
theorem Report.Filled.entry_eq {e : Engine} (h : e.Faultless) {limits : Limits}
    {r : AnalysisReport} (hfilled : Filled { e with isOpen := true } true limits r) :
    r.entryPoint = (e.program.entryFrom e.program.entryPoints).canonical ∧
      decompileEntry { e with isOpen := true } limits true
          (e.program.functionContaining? (e.program.entryFrom e.program.entryPoints)) =
        .ok r.entryFunction? ∧
      e.disassemble (e.program.entryFrom e.program.entryPoints) limits.maxInstructions =
        .ok r.disassembly := by
  have hopen : Engine.Faultless { e with isOpen := true } := h
  obtain ⟨entry, function?, hlocate, htext, hdecompile, hdisassemble⟩ := hfilled.entry
  rw [hopen.locate_eq] at hlocate
  obtain ⟨rfl, rfl⟩ := Prod.mk.inj (Except.ok.inj hlocate)
  rw [Engine.disassemble_withSession] at hdisassemble
  exact ⟨htext, hdecompile, hdisassemble⟩

namespace Tool

/-- Given the entry and the limits of a report, the tools for its parts answer what it shows, whether
the program is open or not. -/
theorem answers_agree_with_report {s : Snapshot} {e : Engine} (h : Engine.Reached s e) {n : Nat}
    (hpos : 1 ≤ n) (hle : n ≤ 10000) {t : Rat} (ht : 0 < t) (defaults : Limits) :
    ∃ r start,
      Tool.report.run e defaults (reportArguments ⟨.ofNat n, .finite t⟩) =
          ({ e with isOpen := false }, ⟨.ok (.answered (.report (.whole r))), []⟩) ∧
        start.canonical = r.entryPoint ∧
        ∀ isOpen defaults',
          (Tool.disassemble.run { e with isOpen := isOpen } defaults'
              (disassembleArguments r.entryPoint (.ofNat n))).2 =
            ⟨.ok (.answered (.disassembly start r.disassembly)), []⟩ ∧
          (Tool.decompile.run { e with isOpen := isOpen } defaults'
              (decompileArguments r.entryPoint (.finite t))).2 =
            ⟨.ok (.answered (.function r.entryFunction?)), []⟩ := by
  have hcount := countCheck_accepts hpos hle
  have htimeout := timeoutCheck_accepts ht
  obtain ⟨r, hreport, hfilled⟩ := ToolCall.exists_report h.faultless ⟨.ofNat n, .finite t⟩
  obtain ⟨htext, hdecompile, hdisassemble⟩ := hfilled.entry_eq h.faultless
  -- The text of the entry is read back as the entry.
  have hread : e.program.parseAddress r.entryPoint =
      .ok (e.program.entryFrom e.program.entryPoints) := by
    rw [htext]
    exact AddressSpace.parse_canonical h.entry_lt
  refine ⟨r, e.program.entryFrom e.program.entryPoints, ?_, htext.symm, fun isOpen defaults' => ?_⟩
  · rw [run_of_accepted e (read_reportArguments defaults hcount htimeout)]
    exact hreport
  · have hfaultless : Engine.Faultless { e with isOpen := isOpen } := h.faultless
    constructor
    · rw [run_of_accepted _ (read_disassembleArguments defaults' r.entryPoint hcount)]
      rw [← Engine.disassemble_withSession e isOpen] at hdisassemble
      rw [ToolCall.run_disassemble hfaultless hread hdisassemble]
    · rw [run_of_accepted _ (read_decompileArguments defaults' r.entryPoint htimeout)]
      obtain ⟨_, -, hrun⟩ := ToolCall.run_decompile hfaultless hread hdecompile
      rw [hrun]

/-- A snapshot whose entry is in a function of two instructions. -/
def enteredSnapshot : Snapshot :=
  ⟨"a", "x", "0", .four, ["ram:0008"], [],
    [⟨"8", "push", "ebp", ⟨"55", rfl⟩⟩, ⟨"9", "ret", "", ⟨"c3", rfl⟩⟩],
    [⟨"main", "8", [⟨"8", "9"⟩], "int", [], .analysis, some "return 0;", 250⟩], [], [],
    [⟨"8", .endOfLine, "prologue"⟩]⟩

/-- The report of the snapshot for one instruction and half a second. -/
def enteredReport : AnalysisReport :=
  ⟨"a", "0x8", some ⟨"main", "0x8", "return 0;", "int main(void)", "[0x8, 0x9]"⟩,
    [⟨"main", "0x8", "int main(void)", "[0x8, 0x9]"⟩], [⟨"main", "0x8", "Function", "ANALYSIS"⟩],
    [⟨"0x8", "push", "ebp", "55", "prologue"⟩], "0x0", "x"⟩

theorem answers_agree_with_report_entered :
    ∃ e, Engine.Reached enteredSnapshot e ∧
      (Tool.disassemble.run e .standard (disassembleArguments "0x8" (.ofNat 1))).2 =
        ⟨.ok (.answered (.disassembly ⟨8⟩ enteredReport.disassembly)), []⟩ ∧
      (Tool.decompile.run e .standard (decompileArguments "0x8" (.finite (1 / 2)))).2 =
        ⟨.ok (.answered (.function enteredReport.entryFunction?)), []⟩ := by
  have hloaded : ((Engine.ofSnapshot enteredSnapshot).toOption.map fun e =>
      (Tool.report.run e .standard (reportArguments ⟨.ofNat 1, .finite (1 / 2)⟩)).2.outcome.toOption) =
        some (some (.answered (.report (.whole enteredReport)))) := by
    decide +kernel
  cases hload : Engine.ofSnapshot enteredSnapshot with
  | error r =>
    rw [hload] at hloaded
    cases hloaded
  | ok e =>
    have hreached : Engine.Reached enteredSnapshot e := ⟨e, [], e.isOpen, hload, rfl⟩
    have hpos : (0 : Rat) < 1 / 2 := by decide +kernel
    obtain ⟨r, start, hreport, hstart, hparts⟩ :=
      answers_agree_with_report hreached (le_refl 1) (by decide) hpos .standard
    rw [hload] at hloaded
    simp only [Except.toOption, Option.map_some, hreport] at hloaded
    obtain rfl : r = enteredReport := by simpa using hloaded
    obtain rfl : start = ⟨8⟩ := Address.canonical_inj.1 hstart
    obtain ⟨hdisassemble, hdecompile⟩ := hparts e.isOpen .standard
    exact ⟨e, hreached, hdisassemble, hdecompile⟩

end Tool

end BinaryReport
