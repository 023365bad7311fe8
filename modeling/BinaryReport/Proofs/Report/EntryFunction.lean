import BinaryReport.Proofs.Engine.Settlement
import BinaryReport.Proofs.Program.Surrounding
import BinaryReport.Proofs.Snapshot.Places
import BinaryReport.Proofs.Tool.Agreement

/-!
# The function that a report shows at the entry

A supervised call for a function gives the text that is listed for it, unless the function is too slow:
the backstop never comes before a timer within the time limit (`Snapshot.Stores.functionOf?_run`), also
where the limit is no number. So what a report shows at the entry of a program is read off the snapshot:
the function that surrounds the entry, if it serves its text (`Report.entryFunction?_iff_surrounds`).
-/

namespace BinaryReport

/-! ## Texts -/

/-- The function has the text, and it is not too slow for a time limit. -/
structure FunctionEntry.Serves (x : FunctionEntry) (limit : Binary64) (code : String) : Prop where
  listed : x.decompiled? = some code
  nonempty : code ≠ ""
  inTime : ¬ Decompiler.milliseconds limit < x.latency

theorem Decompilation.functionOf?_complete {code? : Option String} {f : Function}
    {d : DecompiledFunction} : (complete code?).functionOf? f = some d ↔
      ∃ code, code? = some code ∧ code ≠ "" ∧ d = .ofFunction f code := by
  cases code? with
  | none => exact iff_of_false nofun (by simp)
  | some code =>
    show (if code.isEmpty then none else some (DecompiledFunction.ofFunction f code)) = some d ↔ _
    constructor
    · intro h
      split at h
      · cases h
      · next hempty =>
        exact ⟨code, rfl, mt String.isEmpty_iff.2 hempty, (Option.some.inj h).symm⟩
    · rintro ⟨code', hcode, hne, rfl⟩
      obtain rfl := Option.some.inj hcode
      exact if_neg (mt String.isEmpty_iff.1 hne)

/-- The backstop does not come before a timer that is set to the latency. -/
theorem FunctionEntry.dueFirst_backstop {x : FunctionEntry} {limit : Binary64}
    (hlatency : 0 ≤ x.latency) (hinTime : ¬ Decompiler.milliseconds limit < x.latency) :
    Call.dueFirst (Clock.dueAt (Call.backstop .start limit).now (x.delay limit))
      (Call.backstop .start limit).timers [] = .answer := by
  have hdelay : x.delay limit = x.latency := if_neg hinTime
  have hnow : (Call.backstop .start limit).now = 0 := Call.now_backstop .start limit
  have hlater : ∀ t ∈ (Call.backstop .start limit).timers, ¬ t.due ≤ Clock.dueAt 0 x.latency := by
    by_cases hnan : Decompiler.milliseconds limit = .nan
    · -- The backstop of a limit that is no number is in no range.
      intro t ht
      have harmed := (Call.eq_of_mem_backstop ht).1
      rw [Call.backstopDelay, hnan] at harmed
      cases harmed
    · have hle := (Binary64.not_lt_iff_le hnan (Binary64.ne_nan_of_le hlatency).2).1 hinTime
      intro t ht
      exact not_le.2 (Call.mem_backstop hlatency hle ht).2
  have hnone : ¬ ((Call.backstop .start limit).timers.any (·.due ≤ Clock.dueAt 0 x.latency) ||
      ([] : List (Timer Alarm)).any (·.due < Clock.dueAt 0 x.latency)) = true := by
    simpa using hlater
  rw [hdelay, hnow]
  exact if_neg hnone

/-- A supervised call gives the text that the entry of the function serves, or nothing. -/
theorem Snapshot.Stores.functionOf?_run {s : Snapshot} {f : Function} {x : FunctionEntry}
    {limit : Binary64} (h : s.Stores f x) (hlatency : 0 ≤ x.latency) {d : DecompiledFunction} :
    (Call.begin (Call.backstop .start limit) (Decompiler.serve f limit)).run.functionOf? f = some d ↔
      ∃ code, x.Serves limit code ∧ d = .ofFunction f code := by
  have hbefore : ∀ t ∈ (Call.backstop .start limit).timers, t.label = .abort := by
    intro t ht
    rw [(Call.eq_of_mem_backstop ht).2]
  have hnew : ∀ t ∈ (⟨(Call.backstop .start limit).now, []⟩ : Clock Alarm).timers,
      t.label = .abort := by simp
  rw [h.begin_serve, Call.run_waiting hbefore hnew, Call.functionOf?,
    (Call.settledAs_fire _ _ hbefore hnew).2.result, Option.bind_some]
  by_cases hlt : Decompiler.milliseconds limit < x.latency
  · -- Neither the time limit nor the backstop gives a text.
    have hnone (alarm : Alarm) : (x.verdict limit alarm).functionOf? f = none := by
      cases alarm with
      | abort => rfl
      | answer =>
        rw [FunctionEntry.verdict_answer, if_pos hlt]
        rfl
    rw [hnone]
    constructor
    · intro h
      cases h
    · rintro ⟨code, hserves, -⟩
      exact absurd hlt hserves.inTime
  · rw [FunctionEntry.dueFirst_backstop hlatency hlt, FunctionEntry.verdict_answer, if_neg hlt,
      Decompilation.functionOf?_complete]
    constructor
    · rintro ⟨code, hlisted, hne, rfl⟩
      exact ⟨code, ⟨hlisted, hne, hlt⟩, rfl⟩
    · rintro ⟨code, hserves, rfl⟩
      exact ⟨code, hserves.listed, hserves.nonempty, rfl⟩

/-! ## The function of a report -/

namespace Report

variable {s : Snapshot} {p : Program} {limits : Limits} {r : AnalysisReport}

/-- A report shows the function around the entry if its text is served within the time limit. -/
theorem entryFunction?_eq_some_iff (h : Program.load s = .ok p)
    (hlatency : ∀ x ∈ s.functions, 0 ≤ x.latency)
    (hr : Filled { Engine.ofProgram p with isOpen := true } true limits r) (d : DecompiledFunction) :
    r.entryFunction? = some d ↔ ∃ x f code, s.Surrounds (p.entryFrom p.entryPoints) x ∧
      x.Denotes s.space f ∧ x.Serves limits.timeoutSeconds code ∧ d = .ofFunction f code := by
  obtain ⟨-, hdecompile, -⟩ := hr.entry_eq (Engine.faultless_ofProgram p)
  have hshown (f : Function) := @Program.functionContaining?_eq_some_iff s p
    (p.entryFrom p.entryPoints) f h
  cases hfound : p.functionContaining? (p.entryFrom p.entryPoints) with
  | none =>
    dsimp only [Engine.ofProgram] at hdecompile
    rw [hfound] at hdecompile hshown
    rw [← Except.ok.inj hdecompile]
    refine iff_of_false nofun ?_
    rintro ⟨x, f, code, hsurrounds, hdenotes, -, -⟩
    cases (hshown f).2 ⟨x, hsurrounds, hdenotes⟩
  | some f =>
    dsimp only [Engine.ofProgram] at hdecompile
    rw [hfound] at hdecompile hshown
    obtain ⟨x, hsurrounds, hdenotes⟩ := (hshown f).1 rfl
    obtain ⟨x', hstores⟩ := Program.exists_stores_of_load h (List.mem_of_find?_eq_some hfound)
    obtain rfl := hstores.only x hsurrounds.mem hdenotes.parse_entry
    rw [Report.decompileEntry, Engine.decompile_eq] at hdecompile
    have hanswer : (Call.begin (Call.backstop .start limits.timeoutSeconds)
        (Decompiler.serve f limits.timeoutSeconds)).run.functionOf? f = r.entryFunction? :=
      Except.ok.inj hdecompile
    rw [← hanswer, hstores.functionOf?_run (hlatency x hsurrounds.mem)]
    constructor
    · rintro ⟨code, hserves, rfl⟩
      exact ⟨x, f, code, hsurrounds, hdenotes, hserves, rfl⟩
    · rintro ⟨y, g, code, hsurrounds', hdenotes', hserves, rfl⟩
      -- The function around an address is the only one.
      obtain rfl := Option.some.inj ((hshown g).2 ⟨y, hsurrounds', hdenotes'⟩)
      obtain rfl := hstores.only y hsurrounds'.mem hdenotes'.parse_entry
      exact ⟨code, hserves, rfl⟩

/-- The function around an address is the one of least entry among those that are listed with a range that
covers it, and there is none if none is. A report shows the function around the entry of the program, with
the text that is listed for it, if that is not empty and the function is not too slow for the time
limit. -/
theorem entryFunction?_iff_surrounds {v : Json} {e : Engine} (hparse : Snapshot.parse v = .ok s)
    (h : Engine.ofSnapshot s = .ok e) :
    (∀ a, (e.functionContaining a = .ok none ↔ ∀ x ∈ s.functions, ¬ x.Covers s.space a) ∧
      ∀ f, e.functionContaining a = .ok (some f) ↔ ∃ x, s.Surrounds a x ∧ x.Denotes s.space f) ∧
    ∀ limits, ∃ r a, (build e limits).2.outcome = .ok (.whole r) ∧
      r.entryPoint = a.canonical ∧ s.EnteredAt a ∧
      (r.entryFunction?.isSome = true ↔
        ∃ x code, s.Surrounds a x ∧ x.Serves limits.timeoutSeconds code) ∧
      ∀ d, r.entryFunction? = some d ↔ ∃ x f code, s.Surrounds a x ∧ x.Denotes s.space f ∧
        x.Serves limits.timeoutSeconds code ∧ d = .ofFunction f code := by
  obtain ⟨p, hload, rfl⟩ := Engine.ofSnapshot_cases h
  have hfaultless := Engine.faultless_ofProgram p
  have hlatency := Snapshot.nonneg_latency (Snapshot.check_of_parse hparse)
  refine ⟨fun a => ?_, fun limits => ?_⟩
  · rw [hfaultless.functionContaining_eq]
    refine ⟨?_, fun f => ?_⟩
    · rw [← Program.functionContaining?_eq_none_iff hload]
      exact ⟨Except.ok.inj, congrArg _⟩
    · rw [← Program.functionContaining?_eq_some_iff hload]
      exact ⟨Except.ok.inj, congrArg _⟩
  · obtain ⟨r, hr, hfilled⟩ := exists_filled hfaultless limits
    have hsome := entryFunction?_eq_some_iff hload hlatency hfilled
    refine ⟨r, p.entryFrom p.entryPoints, hr, (hfilled.entry_eq hfaultless).1,
      Program.enteredAt_load hload, ?_, hsome⟩
    rw [Option.isSome_iff_exists]
    constructor
    · rintro ⟨d, hd⟩
      obtain ⟨x, f, code, hsurrounds, -, hserves, -⟩ := (hsome d).1 hd
      exact ⟨x, code, hsurrounds, hserves⟩
    · rintro ⟨x, code, hsurrounds, hserves⟩
      obtain ⟨f, -, hdenotes⟩ := Program.exists_function_of_load hload hsurrounds.mem
      exact ⟨_, (hsome _).2 ⟨x, f, code, hsurrounds, hdenotes, hserves, rfl⟩⟩

/-- A function that is listed inside another one, and before it. -/
def innerEntry : FunctionEntry :=
  ⟨"inner", "20", [⟨"20", "2f"⟩], "void", [], .analysis, some "return;", 0⟩

/-- The function around it, with its ranges out of order. -/
def outerEntry : FunctionEntry :=
  ⟨"outer", "10", [⟨"30", "3f"⟩, ⟨"10", "2f"⟩], "int", [], .analysis, some "return 0;", 250⟩

/-- A snapshot of both that is entered in the inner one. -/
def nestedSnapshot : Snapshot :=
  ⟨"a", "x", "0", .four, ["ram:24"], [], [], [innerEntry, outerEntry], [], [], []⟩

/-- The inner function. -/
def innerFunction : Function :=
  ⟨⟨"inner", ⟨0x20⟩, .function, .analysis, false⟩, .ofRanges [⟨⟨0x20⟩, ⟨0x2f⟩⟩], "void", [],
    some "return;", 0⟩

/-- The outer function. -/
def outerFunction : Function :=
  ⟨⟨"outer", ⟨0x10⟩, .function, .analysis, false⟩,
    .ofRanges [⟨⟨0x30⟩, ⟨0x3f⟩⟩, ⟨⟨0x10⟩, ⟨0x2f⟩⟩], "int", [], some "return 0;", 250⟩

theorem denotes_innerFunction : innerEntry.Denotes ⟨4⟩ innerFunction := by
  refine ⟨⟨0x20⟩, [⟨⟨0x20⟩, ⟨0x2f⟩⟩], rfl, ?_, by decide, rfl⟩
  exact .cons ⟨rfl, rfl⟩ .nil

theorem denotes_outerFunction : outerEntry.Denotes ⟨4⟩ outerFunction := by
  refine ⟨⟨0x10⟩, [⟨⟨0x30⟩, ⟨0x3f⟩⟩, ⟨⟨0x10⟩, ⟨0x2f⟩⟩], rfl, ?_, by decide, rfl⟩
  exact .cons ⟨rfl, rfl⟩ (.cons ⟨rfl, rfl⟩ .nil)

/-- The functions of the program ascend. -/
theorem load_nestedSnapshot : Program.load nestedSnapshot = .ok
    ⟨"a", "x", ⟨4⟩, ⟨0⟩, none, [⟨0x24⟩], [outerFunction, innerFunction], [], [], [], []⟩ := by
  have hexact : nestedSnapshot.HasExactTypes := nofun
  have hzero : nestedSnapshot.space.parse "0" = .ok ⟨0⟩ := rfl
  have hpoint : nestedSnapshot.space.parse "ram:24" = .ok ⟨0x24⟩ := rfl
  exact (Program.load_eq_ok_iff_loadsTo hexact).2 {
    name := rfl
    language := rfl
    space := rfl
    imageBase := hzero
    memory := ⟨[], .nil, rfl⟩
    entryPoints := .cons hpoint .nil
    instructions := .nil
    distinct := List.nodup_nil
    functions := ⟨[innerFunction, outerFunction],
      .cons denotes_innerFunction (.cons denotes_outerFunction .nil), List.Perm.swap _ _ _⟩
    ascending := by simp [outerFunction, innerFunction, Function.entry]
    labels := rfl
    data := ⟨[], .nil, trivial, rfl⟩
    comments := .nil }

theorem surrounds_outerEntry : nestedSnapshot.Surrounds ⟨0x24⟩ outerEntry := by
  have houter : nestedSnapshot.space.parse outerEntry.entry = .ok ⟨0x10⟩ :=
    denotes_outerFunction.parse_entry
  have hinner : nestedSnapshot.space.parse innerEntry.entry = .ok ⟨0x20⟩ :=
    denotes_innerFunction.parse_entry
  refine ⟨by simp [nestedSnapshot], ⟨⟨"10", "2f"⟩, by simp [outerEntry], ⟨0x10⟩, ⟨0x2f⟩, ?_⟩, ⟨0x10⟩,
    houter, fun y hy _ => ?_⟩
  · exact ⟨rfl, rfl, by decide, by decide⟩
  · simp only [nestedSnapshot, List.mem_cons, List.not_mem_nil, or_false] at hy
    rcases hy with rfl | rfl
    · exact ⟨⟨0x20⟩, hinner, by decide⟩
    · exact ⟨⟨0x10⟩, houter, le_rfl⟩

theorem entryFunction?_iff_surrounds_nested :
    Snapshot.parse nestedSnapshot.toJson = .ok nestedSnapshot ∧
      ∃ e r, Engine.ofSnapshot nestedSnapshot = .ok e ∧
        e.functionContaining ⟨0x24⟩ = .ok (some outerFunction) ∧
        (build e .standard).2.outcome = .ok (.whole r) ∧ r.entryPoint = "0x24" ∧
        r.entryFunction?.isSome = true := by
  have hparse : Snapshot.parse nestedSnapshot.toJson = .ok nestedSnapshot := by rfl
  have he := Engine.ofSnapshot_of_load load_nestedSnapshot
  obtain ⟨hcontaining, hreport⟩ := entryFunction?_iff_surrounds hparse he
  obtain ⟨r, a, hr, hentry, hentered, hshown, -⟩ := hreport .standard
  obtain rfl : a = ⟨0x24⟩ := by
    have hread : nestedSnapshot.space.parse "ram:24" = .ok ⟨0x24⟩ := rfl
    cases hentered with
    | entryPoint h hread' =>
      obtain ⟨rfl, -⟩ := List.cons.inj h
      exact Except.ok.inj (hread'.symm.trans hread)
    | memory hnone => cases hnone
    | imageBase hnone => cases hnone
  have hserves : outerEntry.Serves Limits.standard.timeoutSeconds "return 0;" :=
    ⟨rfl, by decide, by decide +kernel⟩
  refine ⟨hparse, _, r, he, ?_, hr, hentry, ?_⟩
  · exact ((hcontaining ⟨0x24⟩).2 _).2 ⟨outerEntry, surrounds_outerEntry, denotes_outerFunction⟩
  · exact hshown.2 ⟨outerEntry, "return 0;", surrounds_outerEntry, hserves⟩

end Report

end BinaryReport
