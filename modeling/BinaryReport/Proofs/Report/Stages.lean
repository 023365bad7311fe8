import BinaryReport.Proofs.Decompiler.Shared
import BinaryReport.Proofs.Engine.Walk
import BinaryReport.Report.Assembly

/-!
# The stages of a report

`Report.stages` is the report as one sequence of stages. Making a report is going through the stages
and then closing the session, if one was opened (`Report.build_eq_conclude`), so the first stage that
raises something decides the outcome, and the closing decides nothing (`Report.build_whole_or_failed`).

That a session is closed once, and only if it was opened, is read off a closing that raises something:
it writes a line each time it is asked for.
-/

namespace BinaryReport

open Outcome

/-! ## Sessions -/

namespace Engine

/-- The engine with another fault of closing. -/
def withClosing (e : Engine) (closing? : Option (Fault Unit)) : Engine :=
  { e with faults := { e.faults with closeProgram? := closing? } }

/-- Whether the program is opened when it is asked for. -/
def opens (e : Engine) : Bool := e.openProgram.1.toOption.getD false

/-- The lines that one closing writes, for its fault. -/
def closingLines (closing? : Option (Fault Unit)) : List String :=
  (Fault.raised? closing?).toList.map fun r => closeFailure r.summary

theorem raises_openProgram (e : Engine) :
    Raises (Fault.raised? e.faults.openProgram?) e.openProgram.1 := by
  unfold openProgram
  cases e.faults.openProgram? with
  | none => exact raises_ok true
  | some fault =>
    cases fault with
    | raise r => exact raises_error r
    | answer b => exact raises_ok b

/-- Opening changes nothing but the session. -/
theorem openProgram_snd (e : Engine) : ∃ isOpen, e.openProgram.2 = { e with isOpen := isOpen } := by
  unfold openProgram
  cases e.faults.openProgram? with
  | none => exact ⟨true, rfl⟩
  | some fault =>
    cases fault with
    | raise r => exact ⟨e.isOpen, rfl⟩
    | answer b => exact ⟨e.isOpen, rfl⟩

theorem openProgram_withClosing (e : Engine) (closing? : Option (Fault Unit)) :
    (e.withClosing closing?).openProgram = (e.openProgram.1, e.openProgram.2.withClosing closing?) := by
  have hfault : (e.withClosing closing?).faults.openProgram? = e.faults.openProgram? := rfl
  unfold openProgram
  rw [hfault]
  cases e.faults.openProgram? with
  | none => rfl
  | some fault =>
    cases fault with
    | raise r => rfl
    | answer b => rfl

theorem opens_withClosing (e : Engine) (closing? : Option (Fault Unit)) :
    (e.withClosing closing?).opens = e.opens := by
  rw [opens, e.openProgram_withClosing]
  rfl

/-- A closing whose fault has a text does not fail. -/
theorem closeProgram_eq {e : Engine}
    (h : ∀ r, Fault.raised? e.faults.closeProgram? = some r → r.message?.isSome = true) :
    e.closeProgram.2 = .ok (closingLines e.faults.closeProgram?) := by
  unfold closeProgram
  cases hfault : e.faults.closeProgram? with
  | none => rfl
  | some fault =>
    cases fault with
    | answer u => rfl
    | raise r =>
      rw [hfault] at h
      obtain ⟨m, hm⟩ := Option.isSome_iff_exists.1 (h r rfl)
      have hsummary : r.summary = m := by rw [Raised.summary, hm]; rfl
      show r.message.map (fun message => [closeFailure message]) = .ok [closeFailure r.summary]
      rw [Raised.message, hm, hsummary]
      rfl

theorem walkFrom_congr {e e' : Engine} (h : ∀ a, e'.walkStep a = e.walkStep a) (bound : Binary64)
    (fuel recorded : Nat) (cursor : Address) :
    e'.walkFrom bound fuel recorded cursor = e.walkFrom bound fuel recorded cursor := by
  induction fuel generalizing recorded cursor with
  | zero => rfl
  | succ fuel ih =>
    rw [walkFrom, walkFrom, h]
    by_cases hlt : Binary64.ofNat recorded < bound
    · rw [if_pos hlt, if_pos hlt]
      cases e.walkStep cursor with
      | error r => rfl
      | ok step =>
        cases step with
        | stop => rfl
        | last record => rfl
        | next record behind =>
          dsimp only
          rw [ih]
    · rw [if_neg hlt, if_neg hlt]

theorem raises_decompile (e : Engine) (f : Function) (limit : Binary64) :
    Raises (Fault.raised? e.faults.decompile?) (e.decompile f limit) := by
  rw [decompile_eq]
  refine Raises.map ?_ _
  refine Raises.map ?_ _
  unfold decompiler
  cases e.faults.decompile? with
  | some fault =>
    cases fault with
    | raise r => exact raises_error r
    | answer d => exact raises_ok _
  | none =>
    unfold Decompiler.stored
    cases e.isOpen with
    | false => exact raises_ok _
    | true => exact raises_ok _

end Engine

namespace Report

/-! ## The sequence of the stages -/

/-- The function around the entry decompiled, if there is one and the program is open. -/
def decompileEntry (e : Engine) (limits : Limits) :
    (opened : Bool) → Option Function → Except Raised (Option DecompiledFunction)
  | true, some f => e.decompile f limits.timeoutSeconds
  | _, _ => .ok none

/-- The stages of a report up to the closing of the session, one after the other. -/
def stages (e : Engine) (limits : Limits) : Except Raised AnalysisReport := do
  let opened ← e.openProgram.1
  let (entry, function?) ← locate e.openProgram.2
  let entryFunction? ← decompileEntry e.openProgram.2 limits opened function?
  gather e.openProgram.2 limits entry entryFunction?

theorem concludeNow_eq (e : Engine) (opened : Bool) (stages : Except Raised AnalysisReport) :
    concludeNow e opened stages =
      ((conclude e opened stages).1, .finished (conclude e opened stages).2) :=
  rfl

/-- A report is made by its stages and the closing of the session. -/
theorem build_eq_conclude (e : Engine) (limits : Limits) :
    build e limits = conclude e.openProgram.2 e.opens (stages e limits) := by
  unfold build start stages Engine.opens
  obtain ⟨opened?, o⟩ := e.openProgram
  cases opened? with
  | error r => rfl
  | ok opened =>
    have hopened : (Except.ok opened : Except Raised Bool).toOption.getD false = opened := rfl
    rw [hopened]
    show _ = conclude o opened (locate o >>= fun located =>
      decompileEntry o limits opened located.2 >>= fun entryFunction? =>
        gather o limits located.1 entryFunction?)
    unfold startWith
    dsimp only
    cases locate o with
    | error r =>
      dsimp only
      rw [concludeNow_eq]
      rfl
    | ok located =>
      obtain ⟨entry, function?⟩ := located
      cases function? with
      | none =>
        have hdecompile : decompileEntry o limits opened none = .ok none := by
          cases opened with
          | false => rfl
          | true => rfl
        show _ = conclude o opened (decompileEntry o limits opened none >>= gather o limits entry)
        rw [hdecompile]
        dsimp only
        rw [concludeNow_eq]
        rfl
      | some f =>
        show _ = conclude o opened (decompileEntry o limits opened (some f) >>= gather o limits entry)
        cases opened with
        | false =>
          dsimp only
          rw [if_neg Bool.false_ne_true, concludeNow_eq]
          rfl
        | true =>
          have hdecompile : decompileEntry o limits true (some f) =
              o.decompile f limits.timeoutSeconds := rfl
          dsimp only
          rw [if_pos rfl, hdecompile, Engine.decompile_eq]
          cases Call.supervise o.decompiler f limits.timeoutSeconds with
          | error r =>
            dsimp only
            rw [concludeNow_eq]
            rfl
          | ok call => rfl

/-- The stages do not look at the fault of closing. -/
theorem stages_withClosing (e : Engine) (closing? : Option (Fault Unit)) (limits : Limits) :
    stages (e.withClosing closing?) limits = stages e limits := by
  unfold stages
  rw [e.openProgram_withClosing]
  obtain ⟨opened?, o⟩ := e.openProgram
  have hdisassemble (entry : Address) :
      (o.withClosing closing?).disassemble entry limits.maxInstructions =
        o.disassemble entry limits.maxInstructions := by
    have hstep (a : Address) : (o.withClosing closing?).walkStep a = o.walkStep a := rfl
    exact Engine.walkFrom_congr hstep _ _ _ _
  have hgather (entry : Address) (entryFunction? : Option DecompiledFunction) :
      gather (o.withClosing closing?) limits entry entryFunction? =
        gather o limits entry entryFunction? := by
    unfold gather
    rw [Services.disassemble_own, Services.disassemble_own, hdisassemble]
    rfl
  have hdecompile (opened : Bool) (function? : Option Function) :
      decompileEntry (o.withClosing closing?) limits opened function? =
        decompileEntry o limits opened function? := by
    cases opened with
    | false => rfl
    | true =>
      cases function? with
      | none => rfl
      | some f => rfl
  have hlocate : locate (o.withClosing closing?) = locate o := rfl
  simp only [hlocate, hdecompile, hgather]

/-- A whole report holds what the engine answers, stage by stage. -/
structure Filled (e : Engine) (opened : Bool) (limits : Limits) (r : AnalysisReport) : Prop where
  name : e.name = .ok r.programName
  functions : e.functionRecords = .ok r.functions
  symbols : e.symbolRecords = .ok r.symbols
  imageBase : r.imageBase = e.program.imageBase.canonical
  language : r.language = e.program.language
  /-- The parts that depend on the entry: its text, the function around it and the disassembly. -/
  entry : ∃ entry function?, locate e = .ok (entry, function?) ∧ r.entryPoint = entry.canonical ∧
    decompileEntry e limits opened function? = .ok r.entryFunction? ∧
    e.disassemble entry limits.maxInstructions = .ok r.disassembly

theorem filled_of_stages {e : Engine} {limits : Limits} {r : AnalysisReport}
    (h : stages e limits = .ok r) : Filled e.openProgram.2 e.opens limits r := by
  obtain ⟨opened, hopened, h⟩ := bind_eq_ok h
  obtain ⟨⟨entry, function?⟩, hlocate, h⟩ := bind_eq_ok h
  obtain ⟨entryFunction?, hdecompile, h⟩ := bind_eq_ok h
  obtain ⟨functions, hfunctions, h⟩ := bind_eq_ok h
  obtain ⟨symbols, hsymbols, h⟩ := bind_eq_ok h
  obtain ⟨disassembly, hdisassembly, h⟩ := bind_eq_ok h
  obtain ⟨name, hname, h⟩ := bind_eq_ok h
  obtain rfl := Except.ok.inj h
  have hopens : e.opens = opened := by rw [Engine.opens, hopened]; rfl
  rw [hopens]
  exact ⟨hname, hfunctions, hsymbols, rfl, rfl, entry, function?, hlocate, rfl, hdecompile,
    hdisassembly⟩

/-! ## What the stages raise -/

/-- The stages of a report that can raise something. -/
inductive Stage where
  /-- Opening the program in the decompiler. -/
  | opening
  /-- Finding the entry. -/
  | entry
  /-- Finding the function around the entry. -/
  | surroundings
  /-- Decompiling that function. -/
  | decompilation
  /-- Listing the functions. -/
  | functions
  /-- Listing the symbols. -/
  | symbols
  /-- Listing the instructions. -/
  | disassembly
  /-- Reading the name of the program. -/
  | name
deriving DecidableEq

/-- The stages in their order. -/
def Stage.all : List Stage :=
  [.opening, .entry, .surroundings, .decompilation, .functions, .symbols, .disassembly, .name]

/-- The function around the entry, as far as it can be found. -/
def entryFunction? (e : Engine) : Option Function := (locate e).toOption.bind Prod.snd

/-- What a stage raises, if it comes to it and raises something. The function around the entry is
decompiled only if there is one and the program is open; the walk from the entry looks at nothing if
its bound is zero, and at the comment and the length of an instruction only if there is one. -/
def Stage.raised? (e : Engine) (limits : Limits) : Stage → Option Raised
  | .opening => Fault.raised? e.faults.openProgram?
  | .entry => Fault.raised? e.faults.entryPoints?
  | .surroundings => Fault.raised? e.faults.functionContaining?
  | .decompilation =>
    if e.opens && (entryFunction? e).isSome then Fault.raised? e.faults.decompile? else none
  | .functions => Fault.raised? e.faults.functions?
  | .symbols => Fault.raised? e.faults.symbols?
  | .disassembly =>
    e.resolveEntry.toOption.bind fun entry => e.disassemblyRaised? entry limits.maxInstructions
  | .name => Fault.raised? e.faults.name?

/-- What the first stage raises that raises something. -/
def firstRaised? (e : Engine) (limits : Limits) : Option Raised :=
  Stage.all.findSome? (Stage.raised? e limits)

theorem findSome?_cons_eq_or {α β : Type} (f : α → Option β) (a : α) (as : List α) :
    (a :: as).findSome? f = (f a).or (as.findSome? f) := by
  rw [List.findSome?_cons]
  cases f a with
  | none => rfl
  | some b => rfl

theorem raises_resolveEntry (e : Engine) :
    Raises (Fault.raised? e.faults.entryPoints?) e.resolveEntry := by
  unfold Engine.resolveEntry
  have h : Raises (Fault.raised? e.faults.entryPoints?) e.entryPoints := Fault.raises_over _ _
  rcases h with ⟨r, hraised, hpoints⟩ | ⟨hnone, points, hpoints⟩
  · rw [hraised, hpoints]
    exact raises_error r
  · rw [hnone, hpoints]
    exact raises_ok _

theorem raises_locate (e : Engine) :
    Raises ((Fault.raised? e.faults.entryPoints?).or (Fault.raised? e.faults.functionContaining?))
      (locate e) := by
  refine (raises_resolveEntry e).bind fun entry _ => ?_
  have h : Raises (Fault.raised? e.faults.functionContaining?) (e.functionContaining entry) :=
    Fault.raises_over _ _
  exact h.map fun function? => (entry, function?)

theorem raises_gather (e : Engine) (limits : Limits) (entry : Address)
    (entryFunction? : Option DecompiledFunction) :
    Raises ((Fault.raised? e.faults.functions?).or ((Fault.raised? e.faults.symbols?).or
      ((e.disassemblyRaised? entry limits.maxInstructions).or (Fault.raised? e.faults.name?))))
      (gather e limits entry entryFunction?) := by
  have hfunctions : Raises (Fault.raised? e.faults.functions?) e.functionRecords :=
    (Fault.raises_over e.faults.functions? e.program.functions).map _
  have hsymbols : Raises (Fault.raised? e.faults.symbols?) e.symbolRecords :=
    (Fault.raises_over e.faults.symbols? e.program.symbols).map _
  have hname : Raises (Fault.raised? e.faults.name?) e.name := Fault.raises_over _ _
  refine hfunctions.bind fun functions _ => ?_
  refine hsymbols.bind fun symbols _ => ?_
  refine (e.raises_disassemble entry limits.maxInstructions).bind fun disassembly _ => ?_
  exact hname.map fun name => _

/-- The stages raise what the first of them raises that raises something. -/
theorem raises_stages (e : Engine) (limits : Limits) :
    Raises (firstRaised? e limits) (stages e limits) := by
  obtain ⟨isOpen, ho⟩ := e.openProgram_snd
  have horder : firstRaised? e limits =
      (Stage.raised? e limits .opening).or
        (((Stage.raised? e limits .entry).or (Stage.raised? e limits .surroundings)).or
          ((Stage.raised? e limits .decompilation).or
            ((Stage.raised? e limits .functions).or ((Stage.raised? e limits .symbols).or
              ((Stage.raised? e limits .disassembly).or (Stage.raised? e limits .name)))))) := by
    unfold firstRaised? Stage.all
    simp only [findSome?_cons_eq_or, List.findSome?_nil, Option.or_none, Option.or_assoc]
  rw [horder]
  refine e.raises_openProgram.bind fun opened hopened => ?_
  have hopens : e.opens = opened := by rw [Engine.opens, hopened]; rfl
  have hlocate : locate e.openProgram.2 = locate e := by rw [ho]; rfl
  rw [hlocate]
  refine (raises_locate e).bind fun located hlocated => ?_
  obtain ⟨entry, function?⟩ := located
  obtain ⟨entry', hentry, hfunction⟩ := bind_eq_ok hlocated
  obtain ⟨function?', -, hfound⟩ := bind_eq_ok hfunction
  obtain ⟨rfl, rfl⟩ := Prod.mk.inj (Except.ok.inj hfound)
  have hsurroundings : entryFunction? e = function?' := by rw [entryFunction?, hlocated]; rfl
  have hdecompilation : Raises (Stage.raised? e limits .decompilation)
      (decompileEntry e.openProgram.2 limits opened function?') := by
    rw [Stage.raised?, hopens, hsurroundings]
    cases opened with
    | false => exact raises_ok none
    | true =>
      cases function?' with
      | none => exact raises_ok none
      | some f =>
        have h := e.openProgram.2.raises_decompile f limits.timeoutSeconds
        rw [ho] at h ⊢
        exact h
  refine hdecompilation.bind fun entryFunction? _ => ?_
  have hgather := raises_gather e.openProgram.2 limits entry' entryFunction?
  have hdisassembly : Stage.raised? e limits .disassembly =
      e.disassemblyRaised? entry' limits.maxInstructions := by
    rw [Stage.raised?, hentry]
    rfl
  rw [hdisassembly]
  rw [ho] at hgather ⊢
  exact hgather

/-! ## Calls of the decompiler -/

/-- The call that a report waits for comes from the decompiler, and the bounds stay those of the report. -/
theorem supervise_of_start {e e' : Engine} {limits : Limits} {call : Call} {rest : Rest}
    (h : start e limits = (e', .decompiling call rest)) :
    rest.limits = limits ∧
      ∃ o f, Call.supervise (Engine.decompiler o) f limits.timeoutSeconds = .ok call := by
  unfold start at h
  generalize e.openProgram = opened at h
  obtain ⟨opened?, o⟩ := opened
  cases opened? with
  | error r => cases h
  | ok opened =>
    dsimp only at h
    unfold startWith at h
    cases hlocate : locate o with
    | error r => rw [hlocate] at h; cases h
    | ok located =>
      obtain ⟨entry, function?⟩ := located
      rw [hlocate] at h
      cases function? with
      | none => cases h
      | some f =>
        cases opened with
        | false => cases h
        | true =>
          dsimp only at h
          rw [if_pos rfl, Services.decompiler_own] at h
          cases hcall : Call.supervise o.decompiler f limits.timeoutSeconds with
          | error r => rw [hcall] at h; cases h
          | ok call' => rw [hcall] at h; cases h; exact ⟨rfl, _, f, hcall⟩

/-- Whatever the decompiler of an engine is, a call that it takes is answered by the first timer at
the latest. -/
theorem isSome_result?_of_decompiler {e : Engine} {f : Function} {limit : Binary64} {call : Call}
    (h : Call.supervise e.decompiler f limit = .ok call) : call.step.result?.isSome = true := by
  unfold Engine.decompiler at h
  cases hfault : e.faults.decompile? with
  | none =>
    rw [hfault] at h
    exact Call.isSome_result?_of_supervise h
  | some fault =>
    rw [hfault] at h
    cases fault with
    | raise r => cases h
    | answer d =>
      obtain rfl := Except.ok.inj h
      rw [Call.step_of_settled rfl]
      rfl

/-! ## Closing -/

/-- Closing a session decides nothing but what is logged. -/
theorem conclude_eq_of_texts {e : Engine}
    (h : ∀ r, Fault.raised? e.faults.closeProgram? = some r → r.message?.isSome = true)
    (opened : Bool) (stages : Except Raised AnalysisReport) :
    conclude e opened stages = (if opened then e.closeProgram.1 else e,
      ⟨ofStages e stages, if opened then Engine.closingLines e.faults.closeProgram? else []⟩) := by
  unfold conclude
  cases opened with
  | false => rfl
  | true =>
    have hclosed := Engine.closeProgram_eq h
    rw [if_pos rfl, if_pos rfl, if_pos rfl]
    generalize e.closeProgram = concluded at hclosed
    obtain ⟨e', closed⟩ := concluded
    obtain rfl : closed = .ok (Engine.closingLines e.faults.closeProgram?) := hclosed
    rfl

/-! ## Reports -/

/-- What the sites raise that a report asks, each if it raises something. -/
def siteFaults (f : Faults) : List (Option Raised) :=
  [Fault.raised? f.openProgram?, Fault.raised? f.entryPoints?, Fault.raised? f.functionContaining?,
    Fault.raised? f.decompile?, Fault.raised? f.functions?, Fault.raised? f.symbols?,
    Fault.raised? f.instructionAt?, Fault.raised? f.commentAt?, Fault.raised? f.advance?,
    Fault.raised? f.name?, Fault.raised? f.closeProgram?]

/-- All that the sites raise has a text. -/
def HasTexts (f : Faults) : Prop := ∀ r, some r ∈ siteFaults f → r.message?.isSome = true

theorem HasTexts.of_site {f : Faults} (h : HasTexts f) {fault? : Option Raised} {r : Raised}
    (hfault : fault? = some r) (hsite : fault? ∈ siteFaults f) : r.message?.isSome = true :=
  h r (hfault ▸ hsite)

theorem raised?_of_walkRaised? {e : Engine} {a : Address} {r : Raised}
    (h : e.walkRaised? a = some r) :
    Fault.raised? e.faults.instructionAt? = some r ∨ Fault.raised? e.faults.commentAt? = some r ∨
      Fault.raised? e.faults.advance? = some r := by
  unfold Engine.walkRaised? at h
  rcases e.raises_instructionAt a with ⟨r', hraised, hinstruction⟩ | ⟨-, found?, hinstruction⟩
  · rw [hinstruction] at h
    obtain rfl := Option.some.inj h
    exact Or.inl hraised
  rw [hinstruction] at h
  cases found? with
  | none => cases h
  | some i =>
    rcases Option.or_eq_some_iff.1 h with hcomment | ⟨-, hadvance⟩
    · exact Or.inr (Or.inl hcomment)
    · exact Or.inr (Or.inr (Option.filter_eq_some_iff.1 hadvance).1)

/-- A stage raises nothing but what a site raises. -/
theorem HasTexts.of_stage {e : Engine} (h : HasTexts e.faults) {limits : Limits} {stage : Stage}
    {r : Raised} (hstage : stage.raised? e limits = some r) : r.message?.isSome = true := by
  cases stage with
  | opening =>
    have hfault : Fault.raised? e.faults.openProgram? = some r := hstage
    exact h.of_site hfault (by simp [siteFaults])
  | entry =>
    have hfault : Fault.raised? e.faults.entryPoints? = some r := hstage
    exact h.of_site hfault (by simp [siteFaults])
  | surroundings =>
    have hfault : Fault.raised? e.faults.functionContaining? = some r := hstage
    exact h.of_site hfault (by simp [siteFaults])
  | decompilation =>
    rw [Stage.raised?] at hstage
    split at hstage
    · exact h.of_site hstage (by simp [siteFaults])
    · cases hstage
  | functions =>
    have hfault : Fault.raised? e.faults.functions? = some r := hstage
    exact h.of_site hfault (by simp [siteFaults])
  | symbols =>
    have hfault : Fault.raised? e.faults.symbols? = some r := hstage
    exact h.of_site hfault (by simp [siteFaults])
  | disassembly =>
    obtain ⟨entry, -, hwalk⟩ := Option.bind_eq_some_iff.1 hstage
    unfold Engine.disassemblyRaised? at hwalk
    split at hwalk
    · rcases raised?_of_walkRaised? hwalk with hfault | hfault | hfault
      · exact h.of_site hfault (by simp [siteFaults])
      · exact h.of_site hfault (by simp [siteFaults])
      · exact h.of_site hfault (by simp [siteFaults])
    · cases hwalk
  | name =>
    have hfault : Fault.raised? e.faults.name? = some r := hstage
    exact h.of_site hfault (by simp [siteFaults])

/-- What has a message has a trace. -/
theorem exists_trace? {r : Raised} {message : String} (h : r.message? = some message) :
    ∃ trace, r.trace? = some trace := by
  cases r with
  | failure f => exact ⟨f.trace, rfl⟩
  | value v => exact ⟨message, h⟩

/-- The outcome of stages whose error has a text. -/
theorem ofStages_error {e : Engine} {r : Raised} (h : r.message?.isSome = true) :
    ∃ message trace, r.message? = some message ∧ r.trace? = some trace ∧
      ofStages e (.error r) =
        .ok (.failed ⟨message, trace, ErrorReport.programNameOf e.name⟩) := by
  obtain ⟨message, hmessage⟩ := Option.isSome_iff_exists.1 h
  obtain ⟨trace, htrace⟩ := exists_trace? hmessage
  refine ⟨message, trace, hmessage, htrace, ?_⟩
  unfold ofStages ErrorReport.ofRaised
  dsimp only
  rw [hmessage, htrace]
  rfl

theorem outcome_build {e : Engine} (h : HasTexts e.faults) (limits : Limits) :
    (build e limits).2.outcome = ofStages e.openProgram.2 (stages e limits) := by
  obtain ⟨isOpen, ho⟩ := e.openProgram_snd
  have hclosing : ∀ r, Fault.raised? e.openProgram.2.faults.closeProgram? = some r →
      r.message?.isSome = true := by
    intro r hr
    rw [ho] at hr
    have hfault : Fault.raised? e.faults.closeProgram? = some r := hr
    exact h.of_site hfault (by simp [siteFaults])
  rw [build_eq_conclude, conclude_eq_of_texts hclosing]

/-- Without a fault of closing a session that was opened is closed, and no other is. -/
theorem engine_build_withClosing (e : Engine) (limits : Limits) :
    (build (e.withClosing none) limits).1 =
      { e.withClosing none with isOpen := !e.opens && e.isOpen } := by
  have htexts : ∀ r, Fault.raised? (e.openProgram.2.withClosing none).faults.closeProgram? = some r →
      r.message?.isSome = true := by
    intro r hr
    cases hr
  rw [build_eq_conclude, e.opens_withClosing, e.openProgram_withClosing, conclude_eq_of_texts htexts]
  unfold Engine.opens Engine.openProgram
  cases e.faults.openProgram? with
  | none => rfl
  | some fault =>
    cases fault with
    | raise r => rfl
    | answer b =>
      cases b with
      | false => rfl
      | true => rfl

/-- A report is whole or an error report, whatever an engine's sites raise: the first stage that
raises something decides, and closing the session decides nothing. -/
theorem build_whole_or_failed {e : Engine} (h : HasTexts e.faults) (limits : Limits) :
    -- Without a stage that raises something the report is whole and filled with the answers.
    (match firstRaised? e limits with
      | none => ∃ r, (build e limits).2.outcome = .ok (.whole r) ∧
          Filled e.openProgram.2 e.opens limits r
      | some raised => ∃ message trace, raised.message? = some message ∧
          raised.trace? = some trace ∧ (build e limits).2.outcome =
            .ok (.failed ⟨message, trace, ErrorReport.programNameOf e.name⟩)) ∧
    -- A call of the decompiler is answered.
    (∀ e' call rest, start e limits = (e', .decompiling call rest) →
      call.run.result?.isSome = true) ∧
    -- Whatever closing raises, the outcome is the same; it is asked for once if the program was
    -- opened, else never, so it writes its line once or never.
    (∀ closing?, (∀ r, Fault.raised? closing? = some r → r.message?.isSome = true) →
      (build (e.withClosing closing?) limits).2 = ⟨(build e limits).2.outcome,
        if e.opens then Engine.closingLines closing? else []⟩) ∧
    -- Without a fault of closing no session that was opened stays open.
    (build (e.withClosing none) limits).1 =
      { e.withClosing none with isOpen := !e.opens && e.isOpen } := by
  refine ⟨?_, ?_, ?_, engine_build_withClosing e limits⟩
  · obtain ⟨isOpen, ho⟩ := e.openProgram_snd
    rw [outcome_build h]
    rcases raises_stages e limits with ⟨r, hr, hstages⟩ | ⟨hnone, r, hstages⟩
    · obtain ⟨stage, -, hstage⟩ := List.exists_of_findSome?_eq_some hr
      rw [hr, hstages, ho]
      exact ofStages_error (h.of_stage hstage)
    · rw [hnone, hstages]
      exact ⟨r, rfl, filled_of_stages hstages⟩
  · intro e' call rest hstart
    obtain ⟨-, o, f, hcall⟩ := supervise_of_start hstart
    have hanswered := isSome_result?_of_decompiler hcall
    rw [Call.run_eq_step hanswered]
    exact hanswered
  · intro closing? htexts
    rw [outcome_build h, build_eq_conclude, e.opens_withClosing, stages_withClosing,
      e.openProgram_withClosing, conclude_eq_of_texts htexts]
    rfl

/-- What the symbol table of the engine below raises. -/
def symbolsUnavailable : Raised := .ofKind .general "symbol table unavailable"

/-- What closing the session of the engine below raises: no failure, but a value with a text. -/
def sessionDied : Raised := .value (.string "decompiler died")

/-- An engine that opens and decompiles, but lists no symbols and closes no session. -/
def faultyEngine : Engine where
  program := ⟨"a", "x", ⟨4⟩, ⟨0⟩, none, [],
    [⟨⟨"f", ⟨0⟩, .function, .analysis, false⟩, ⟨[⟨⟨0⟩, ⟨3⟩⟩]⟩, "int", [], some "f();", .ofNat 5⟩],
    [], [], [], []⟩
  faults := { symbols? := some (.raise symbolsUnavailable)
              closeProgram? := some (.raise sessionDied) }

theorem build_whole_or_failed_faultyEngine :
    HasTexts faultyEngine.faults ∧ faultyEngine.opens = true ∧
      (build faultyEngine .standard).2.outcome =
        .ok (.failed ⟨"symbol table unavailable", "Error: symbol table unavailable", "a"⟩) ∧
      (build faultyEngine .standard).2.log =
        ["[report] decompiler close failed: decompiler died"] := by
  have htexts : HasTexts faultyEngine.faults := by
    intro r hr
    have hcases : r = symbolsUnavailable ∨ r = sessionDied := by
      simpa [siteFaults, Fault.raised?, faultyEngine] using hr
    rcases hcases with rfl | rfl
    · rfl
    · rfl
  have hfirst : firstRaised? faultyEngine .standard = some symbolsUnavailable := rfl
  obtain ⟨houtcome, -, hclosing, -⟩ := build_whole_or_failed htexts .standard
  rw [hfirst] at houtcome
  obtain ⟨message, trace, hmessage, htrace, houtcome⟩ := houtcome
  obtain rfl := Option.some.inj hmessage
  obtain rfl := Option.some.inj htrace
  refine ⟨htexts, rfl, houtcome, ?_⟩
  have hlog := hclosing faultyEngine.faults.closeProgram? fun r hr => by
    cases hr
    rfl
  exact congrArg Logged.log hlog

end Report

end BinaryReport
