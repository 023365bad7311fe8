import BinaryReport.Proofs.Command.Output
import BinaryReport.Proofs.Report.EntryFunction
import BinaryReport.Proofs.Text.Lines

/-!
# What a run writes

A run ends with the code two if its arguments make no sense, and then it writes nothing to its output.
Any other run ends with the code zero and writes one text. The one exception is a run that is to print the
view of a code with more lines than the host takes arguments (`Command.Overruns`): the line about the
report is written, then the host fails, and the run raises the failure instead of ending
(`Command.runArguments_writes`).
-/

namespace BinaryReport

/-- The output is a document between its markers, each on a line of its own, and the document is the
JSON text of a value. -/
def Envelope.Encloses (output : String) (v : Json) : Prop :=
  ∃ document, output = startMarker ++ "\n" ++ document ++ "\n" ++ endMarker ++ "\n" ∧
    Json.read? document = some v

theorem Envelope.encloses_format {v : Json} (h : v.Legible) : Encloses (format v) v := by
  refine ⟨v.pretty, rfl, ?_⟩
  rw [Json.read?, Json.pretty, String.toList_ofList]
  exact Json.readChars?_prettyChars h

namespace Command

variable {rt : Runtime} {read : FileReader} {env : Environment} {path : String}

/-- A run writes the outcome of a change: one envelope, and nothing else. -/
def WritesChange (read : FileReader) (path : String)
    (change : Engine → Engine × Except Raised MutationResult) (stdout : List String) : Prop :=
  ∃ r text, Changes read path change r ∧ stdout = [text] ∧ Envelope.Encloses text r.toJson

theorem writesChange_changeResult (command address : String)
    {change : Engine → Engine × Except Raised MutationResult} {r : MutationResult}
    (h : Changes read path change r) :
    WritesChange read path change (changeResult command address r).stdout :=
  ⟨r, Envelope.format r.toJson, h, rfl, Envelope.encloses_format r.legible⟩

/-- What a run writes to its output for a command. -/
def Writes (rt : Runtime) (read : FileReader) (env : Environment) : Command → List String → Prop
  | .help, stdout => stdout = [usageText ++ "\n"]
  | .usage _, stdout => stdout = []
  | .analyze path format max? timeout?, stdout =>
    ∃ r text, Reports read env path max? timeout? r ∧ r.printed rt format = .ok text ∧
      stdout = [text] ∧ (format = .json → Envelope.Encloses text r.toJson)
  | .rename path address name, stdout =>
    WritesChange read path (fun e => e.renameSymbol address name) stdout
  | .retype path address type, stdout =>
    WritesChange read path (fun e => e.retypeData address type) stdout

/-- A command asks for a report that the host cannot print. -/
def Overruns (rt : Runtime) (read : FileReader) (env : Environment) : Command → Prop
  | .analyze path format max? timeout? =>
    ∃ r, reportOf read env path max? timeout? = .ok r ∧ r.Overruns rt format
  | _ => False

/-- How a run ends that the host fails on: the line about the report is all that is written. -/
theorem run_of_overruns {c : Command} (h : Overruns rt read env c) :
    (c.run rt read env).exit = .error (.failure Runtime.stackExceeded) ∧
      (c.run rt read env).stdout = [] ∧ ∃ line, (c.run rt read env).stderr = [line] := by
  cases c with
  | analyze path format max? timeout? =>
    obtain ⟨r, hr, hover⟩ := h
    rw [run, hr, resultOf, reportResult, Report.printed_of_overruns hover]
    exact ⟨rfl, rfl, _, rfl⟩
  | help | usage | rename | retype => exact h.elim

/-- How any other run ends: with the code two exactly if the arguments make no sense, and then without
output; else with the code zero and one text. -/
theorem run_of_not_overruns {c : Command} (h : ¬ Overruns rt read env c) :
    (((c.run rt read env).exit = .ok 2 ∧ (∃ message, c = .usage message) ∧
        (c.run rt read env).stdout = []) ∨
      ((c.run rt read env).exit = .ok 0 ∧ (∀ message, c ≠ .usage message) ∧
        ∃ text, (c.run rt read env).stdout = [text])) ∧
    Writes rt read env c (c.run rt read env).stdout := by
  cases c with
  | help => exact ⟨Or.inr ⟨rfl, (fun _ heq => by cases heq), _, rfl⟩, rfl⟩
  | usage message => exact ⟨Or.inl ⟨rfl, ⟨message, rfl⟩, rfl⟩, rfl⟩
  | analyze path format max? timeout? =>
    obtain ⟨r, hr, hreports⟩ := exists_reportOf read env path max? timeout?
    obtain ⟨text, htext⟩ := Report.exists_printed fun hover => h ⟨r, hr, hover⟩
    have hrun : run rt read env (.analyze path format max? timeout?) =
        ⟨.ok 0, [text], [reportLine r]⟩ := by
      rw [run, hr, resultOf, reportResult, htext]
    rw [hrun]
    refine ⟨Or.inr ⟨rfl, (fun _ heq => by cases heq), text, rfl⟩, r, text, hreports, htext, rfl, ?_⟩
    rintro rfl
    rw [Report.printed_json] at htext
    obtain rfl := Except.ok.inj htext
    exact Envelope.encloses_format r.legible
  | rename path address name =>
    obtain ⟨r, hr, hchanges⟩ := exists_renamed read path address name
    rw [run, hr]
    exact ⟨Or.inr ⟨rfl, (fun _ heq => by cases heq), _, rfl⟩,
      writesChange_changeResult "rename" address hchanges⟩
  | retype path address type =>
    obtain ⟨r, hr, hchanges⟩ := exists_retyped read path address type
    rw [run, hr]
    exact ⟨Or.inr ⟨rfl, (fun _ heq => by cases heq), _, rfl⟩,
      writesChange_changeResult "retype" address hchanges⟩

/-- The discipline of every run. It raises something exactly if the host fails on printing the report, and
then writes nothing to its output. Every other run ends with a code: two exactly if the arguments make no
sense, and then it writes nothing to its output, else zero, and then it writes one text. -/
theorem runArguments_writes (rt : Runtime) (read : FileReader) (env : Environment)
    (arguments : List String) :
    ((∃ r, (runArguments rt read env arguments).exit = .error r) ↔
      Overruns rt read env (parse arguments)) ∧
    (Overruns rt read env (parse arguments) →
      (runArguments rt read env arguments).exit = .error (.failure Runtime.stackExceeded) ∧
      (runArguments rt read env arguments).stdout = []) ∧
    (¬ Overruns rt read env (parse arguments) →
      ((runArguments rt read env arguments).exit = .ok 0 ∨
        (runArguments rt read env arguments).exit = .ok 2) ∧
      ((runArguments rt read env arguments).exit = .ok 2 ↔
        ∃ message, parse arguments = .usage message) ∧
      ((runArguments rt read env arguments).exit = .ok 2 →
        (runArguments rt read env arguments).stdout = []) ∧
      ((runArguments rt read env arguments).exit = .ok 0 →
        ∃ text, (runArguments rt read env arguments).stdout = [text]) ∧
      Writes rt read env (parse arguments) (runArguments rt read env arguments).stdout) := by
  unfold runArguments
  refine ⟨⟨?_, fun hover => ⟨_, (run_of_overruns hover).1⟩⟩, ?_, ?_⟩
  · rintro ⟨r, hraised⟩
    by_contra hover
    rcases (run_of_not_overruns hover).1 with ⟨hexit, -⟩ | ⟨hexit, -⟩
    · cases hexit.symm.trans hraised
    · cases hexit.symm.trans hraised
  · intro hover
    obtain ⟨hexit, hstdout, -⟩ := run_of_overruns hover
    exact ⟨hexit, hstdout⟩
  · intro hover
    obtain ⟨⟨hexit, husage, hstdout⟩ | ⟨hexit, husage, htext⟩, hwrites⟩ := run_of_not_overruns hover
    · refine ⟨Or.inr hexit, ⟨fun _ => husage, fun _ => hexit⟩, fun _ => hstdout, fun hzero => ?_,
        hwrites⟩
      cases hexit.symm.trans hzero
    · refine ⟨Or.inl hexit, ⟨fun htwo => ?_, ?_⟩, fun htwo => ?_, fun _ => htext, hwrites⟩
      · cases hexit.symm.trans htwo
      · rintro ⟨message, heq⟩
        exact absurd heq (husage message)
      · cases hexit.symm.trans htwo

/-! ## A code that a host cannot show -/

/-- A code of empty lines. -/
def emptyLines (n : Nat) : String := Text.joinLines (List.replicate n "")

theorem length_lines_emptyLines {n : Nat} (h : 0 < n) : (Text.lines (emptyLines n)).length = n := by
  have hline : Text.lines "" = [""] := Text.lines_of_notMem List.not_mem_nil
  have hne : List.replicate n "" ≠ [] := List.ne_nil_of_length_pos (by rwa [List.length_replicate])
  have hself : (List.replicate n "").flatMap Text.lines = List.replicate n "" :=
    Text.flatMap_lines_eq_self_iff.2 fun l hl => List.eq_of_mem_replicate hl ▸ List.not_mem_nil
  rw [emptyLines, Text.lines_joinLines hne, hself, List.length_replicate]

/-- A function at the entry of a program that has a code. -/
def codeEntry (code : String) : FunctionEntry :=
  ⟨"main", "8", [⟨"8", "f"⟩], "undefined", [], .analysis, some code, 0⟩

/-- The snapshot of the program. -/
def codeSnapshot (code : String) : Snapshot :=
  ⟨"a", "x", "0", .eight, ["8"], [], [], [codeEntry code], [], [], []⟩

/-- The value that is read as the snapshot. -/
def codeForm (code : String) : Json :=
  .object [("name", .string "a"), ("language", .string "x"), ("imageBase", .string "0"),
    ("entryPoints", .array [.string "8"]),
    ("functions", .array [.object [("name", .string "main"), ("entry", .string "8"),
      ("body", .array [.object [("start", .string "8"), ("end", .string "f")]]),
      ("decompiled", .string code)]])]

theorem parse_codeForm (code : String) : Snapshot.parse (codeForm code) = .ok (codeSnapshot code) := by
  rfl

theorem legible_codeForm (code : String) : Json.Legible (codeForm code) := by
  have hrange : Json.Legible (.object [("start", .string "8"), ("end", .string "f")]) :=
    legible_of_strings (by decide : Json.PlainKeys ["start", "end"]) rfl (by simp [Json.string?])
  have hfunction : Json.Legible (.object [("name", .string "main"), ("entry", .string "8"),
      ("body", .array [.object [("start", .string "8"), ("end", .string "f")]]),
      ("decompiled", .string code)]) := by
    refine .ofKeys (by decide : Json.PlainKeys ["name", "entry", "body", "decompiled"]) rfl fun m hm => ?_
    simp only [List.mem_cons, List.not_mem_nil, or_false] at hm
    rcases hm with rfl | rfl | rfl | rfl
    · exact .string _
    · exact .string _
    · exact .array fun v hv => List.mem_singleton.1 hv ▸ hrange
    · exact .string _
  refine .ofKeys (by decide : Json.PlainKeys ["name", "language", "imageBase", "entryPoints", "functions"])
    rfl fun m hm => ?_
  simp only [List.mem_cons, List.not_mem_nil, or_false] at hm
  rcases hm with rfl | rfl | rfl | rfl | rfl
  · exact .string _
  · exact .string _
  · exact .string _
  · exact .array fun v hv => List.mem_singleton.1 hv ▸ .string "8"
  · exact .array fun v hv => List.mem_singleton.1 hv ▸ hfunction

/-- The function as it is loaded. -/
def codeFunction (code : String) : Function :=
  ⟨⟨"main", ⟨8⟩, .function, .analysis, false⟩, .ofRanges [⟨⟨8⟩, ⟨15⟩⟩], "undefined", [], some code, 0⟩

/-- The program. -/
def codeProgram (code : String) : Program :=
  ⟨"a", "x", ⟨8⟩, ⟨0⟩, none, [⟨8⟩], [codeFunction code], [], [], [], []⟩

theorem denotes_codeFunction (code : String) : (codeEntry code).Denotes ⟨8⟩ (codeFunction code) := by
  have hfirst : AddressSpace.parse ⟨8⟩ "8" = .ok ⟨8⟩ := rfl
  have hlast : AddressSpace.parse ⟨8⟩ "f" = .ok ⟨15⟩ := rfl
  exact ⟨⟨8⟩, [⟨⟨8⟩, ⟨15⟩⟩], hfirst, .cons ⟨hfirst, hlast⟩ .nil, by decide, rfl⟩

theorem load_codeSnapshot (code : String) : Program.load (codeSnapshot code) = .ok (codeProgram code) := by
  have hexact : (codeSnapshot code).HasExactTypes := nofun
  have hzero : AddressSpace.parse ⟨8⟩ "0" = .ok ⟨0⟩ := rfl
  have hpoint : AddressSpace.parse ⟨8⟩ "8" = .ok ⟨8⟩ := rfl
  exact (Program.load_eq_ok_iff_loadsTo hexact).2 {
    name := rfl
    language := rfl
    space := rfl
    imageBase := hzero
    memory := ⟨[], .nil, rfl⟩
    entryPoints := .cons hpoint .nil
    instructions := .nil
    distinct := List.nodup_nil
    functions := ⟨[codeFunction code], .cons (denotes_codeFunction code) .nil, List.Perm.refl _⟩
    ascending := List.pairwise_singleton _ _
    labels := rfl
    data := ⟨[], .nil, trivial, rfl⟩
    comments := .nil }

theorem surrounds_codeEntry (code : String) : (codeSnapshot code).Surrounds ⟨8⟩ (codeEntry code) := by
  have hfirst : AddressSpace.parse ⟨8⟩ "8" = .ok ⟨8⟩ := rfl
  have hlast : AddressSpace.parse ⟨8⟩ "f" = .ok ⟨15⟩ := rfl
  refine ⟨List.mem_singleton.2 rfl, ⟨⟨"8", "f"⟩, List.mem_singleton.2 rfl, ⟨8⟩, ⟨15⟩, hfirst, hlast,
    by decide, by decide⟩, ⟨8⟩, hfirst, fun y hy _ => ?_⟩
  obtain rfl := List.mem_singleton.1 hy
  exact ⟨⟨8⟩, hfirst, le_rfl⟩

/-- The report of the file shows the code. -/
theorem exists_reportOf_codeForm {code : String} (h : code ≠ "") :
    ∃ r, reportOf (fun _ => .ok (codeForm code).pretty) [] "p.json" none none = .ok (.whole r) ∧
      r.codeLineCount = (Text.lines code).length := by
  have hread : Json.read? (codeForm code).pretty = some (codeForm code) := by
    rw [Json.read?, Json.pretty, String.toList_ofList]
    exact Json.readChars?_prettyChars (legible_codeForm code)
  have hengine : engineOf (fun _ => .ok (codeForm code).pretty) "p.json" =
      .ok (.ofProgram (codeProgram code)) := by
    have htext : Snapshot.textOfFile (fun _ => .ok (codeForm code).pretty) "p.json" =
        .ok (codeForm code).pretty := if_neg (by decide)
    rw [engineOf, Snapshot.ofFile, htext]
    dsimp only
    rw [hread]
    dsimp only
    rw [parse_codeForm, Outcome.bind_of_ok rfl, Engine.ofSnapshot_of_load (load_codeSnapshot code)]
  have hprepare : prepare (fun _ => .ok (codeForm code).pretty) [] "p.json" =
      .ok (⟨.ofNat 8787, none, .ofNat 30, .ofNat 100⟩, .ofProgram (codeProgram code)) := by
    have hload : Config.load [] = .ok ⟨.ofNat 8787, none, .ofNat 30, .ofNat 100⟩ := by rfl
    rw [prepare, hload, Outcome.bind_of_ok rfl, hengine]
    rfl
  have hlimits : limitsOf ⟨.ofNat 8787, none, .ofNat 30, .ofNat 100⟩ none none = .standard := rfl
  obtain ⟨r, hr, hfilled⟩ :=
    Report.exists_filled (Engine.faultless_ofProgram (codeProgram code)) .standard
  have hlatency : ∀ x ∈ (codeSnapshot code).functions, 0 ≤ x.latency :=
    Snapshot.nonneg_latency (Snapshot.check_of_parse (parse_codeForm code))
  have hinTime : ¬ Decompiler.milliseconds Limits.standard.timeoutSeconds < 0 := by decide +kernel
  have hshown := (Report.entryFunction?_eq_some_iff (load_codeSnapshot code) hlatency hfilled _).2
    ⟨codeEntry code, codeFunction code, code, surrounds_codeEntry code, denotes_codeFunction code,
      ⟨rfl, h, hinTime⟩, rfl⟩
  refine ⟨r, ?_, ?_⟩
  · rw [reportOf, hprepare]
    dsimp only
    rw [hlimits, hr]
  · rw [AnalysisReport.codeLineCount, hshown]
    rfl

/-- Whatever a host takes as arguments, there is a file whose code it cannot print. -/
theorem overruns_codeForm (rt : Runtime) :
    Overruns rt (fun _ => .ok (codeForm (emptyLines (rt.maxArguments + 2))).pretty) []
      (.analyze "p.json" .code none none) := by
  have hlength := length_lines_emptyLines (Nat.succ_pos (rt.maxArguments + 1))
  have hne : emptyLines (rt.maxArguments + 2) ≠ "" := by
    intro hempty
    rw [hempty] at hlength
    have hline : (Text.lines "").length = 1 := by decide
    omega
  obtain ⟨r, hr, hcount⟩ := exists_reportOf_codeForm hne
  refine ⟨.whole r, hr, rfl, ?_⟩
  rw [hcount, hlength]
  omega

/-- On a host with a stack of the usual size the run of such a file raises a failure and writes nothing to
its output, although the arguments make sense. -/
theorem runArguments_writes_overrun :
    parse ["analyze", "p.json", "--format", "c"] = .analyze "p.json" .code none none ∧
      (runArguments .standard (fun _ => .ok (codeForm (emptyLines 125002)).pretty) []
        ["analyze", "p.json", "--format", "c"]).exit = .error (.failure Runtime.stackExceeded) ∧
      (runArguments .standard (fun _ => .ok (codeForm (emptyLines 125002)).pretty) []
        ["analyze", "p.json", "--format", "c"]).stdout = [] := by
  have hparse : parse ["analyze", "p.json", "--format", "c"] = .analyze "p.json" .code none none := by
    decide +kernel
  obtain ⟨hexit, hstdout, -⟩ := run_of_overruns (overruns_codeForm .standard)
  rw [runArguments, hparse]
  exact ⟨rfl, hexit, hstdout⟩

end Command

end BinaryReport
