import BinaryReport.Proofs.Decompiler.Shared
import BinaryReport.Proofs.Decompiler.Timing
import BinaryReport.Proofs.Program.Functions
import BinaryReport.Proofs.Program.WellFormed

/-!
# What a decompilation comes to

A function of an engine that a snapshot became is stored in one entry of the snapshot, with its text and
its latency, whatever was renamed (`Engine.Reached.exists_stores`). The adapter asks its decompiler in any
monad, so in one that keeps a list of questions: the decompiler is asked once
(`Decompiler.run_adaptVia_recorded`). It serves the text of the entry if the latency is within the time
limit and the text is not empty (`FunctionEntry.served?`). Nothing else matters: not the backstop, and
not what earlier calls left on the clock; and when the adapter comes back, neither a timer nor the listener
of its call is left (`Engine.decompile_eq_served`).
-/

namespace BinaryReport

/-! ## Entries -/

/-- The entry of a snapshot that a function comes from: the only one with its address. -/
structure Snapshot.Stores (s : Snapshot) (f : Function) (x : FunctionEntry) : Prop where
  mem : x ∈ s.functions
  entry : s.space.parse x.entry = .ok f.entry
  only : ∀ y ∈ s.functions, s.space.parse y.entry = .ok f.entry → y = x
  code : f.code? = x.decompiled?
  latency : f.latency = x.latency

theorem Snapshot.Stores.renamed {s : Snapshot} {f g : Function} {x : FunctionEntry}
    (h : s.Stores f x) (hfg : f.Renamed g) : s.Stores g x := by
  obtain ⟨name, source, rfl⟩ := hfg
  exact ⟨h.mem, h.entry, h.only, h.code, h.latency⟩

theorem Program.exists_stores_of_load {s : Snapshot} {p : Program} (h : load s = .ok p) {f : Function}
    (hf : f ∈ p.functions) : ∃ x, s.Stores f x := by
  obtain ⟨listed, hlisted, hperm⟩ := functions_load h
  obtain ⟨x, hx, hdenotes⟩ := Matching.exists_of_mem_right hlisted (hperm.mem_iff.1 hf)
  have hnodup : (listed.map (·.entry)).Nodup :=
    (hperm.map (·.entry)).nodup_iff.1 (hasFunctionsOf_load h).nodup_entries
  -- Functions of different entries have different addresses, so the entry is the only one.
  have hdistinct : (s.functions.map fun y => s.space.parse y.entry).Nodup :=
    List.pairwise_map.2 ((pairwise_parse_ne_iff hlisted fun _ _ hg => hg.parse_entry).2 hnodup)
  have hentry := hdenotes.parse_entry
  have honly : ∀ y ∈ s.functions, s.space.parse y.entry = .ok f.entry → y = x := fun y hy hparse =>
    List.inj_on_of_nodup_map hdistinct hy hx (hparse.trans hentry.symm)
  obtain ⟨entry, ranges, -, -, -, rfl⟩ := hdenotes
  exact ⟨x, hx, hentry, honly, rfl, rfl⟩

namespace Engine

variable {s : Snapshot} {e : Engine} {f : Function}

theorem Reached.exists_stores (h : Reached s e) (hf : f ∈ e.program.functions) :
    ∃ x, s.Stores f x := by
  have hall : ∀ g ∈ e.program.functions, ∃ x, s.Stores g x := by
    refine h.induct (P := fun p => ∀ g ∈ p.functions, ∃ x, s.Stores g x)
      (fun p hload g => Program.exists_stores_of_load hload) ?_
    intro p p' hp hchange g hg
    obtain ⟨g₀, hg₀, hrenamed⟩ := Matching.exists_of_mem_right (Program.renamed_change hchange) hg
    obtain ⟨x, hx⟩ := hp g₀ hg₀
    exact ⟨x, hx.renamed hrenamed⟩
  exact hall f hf

end Engine

/-! ## Questions -/

/-- What a decompiler is asked: a function, the time limit, and whether the call is aborted already. -/
abbrev Question := Function × Binary64 × Bool

/-- A decompiler that keeps a list of what it was asked. -/
def Decompiler.recorded (d : Decompiler) (f : Function) (limit : Binary64) (aborted : Bool) :
    StateM (List Question) (Except Raised CallResponse) := do
  modify fun asked => asked ++ [(f, limit, aborted)]
  pure (d f limit aborted)

/-- The adapter asks the decompiler once, on any clock. -/
theorem Decompiler.run_adaptVia_recorded (d : Decompiler) (others : List (Timer Unit)) (f : Function)
    (limit : Binary64) (asked : List Question) :
    (adaptVia d.recorded others f limit).run asked =
      (d.adapt? others f limit, asked ++ [(f, limit, false)]) :=
  rfl

/-! ## Answers -/

/-- The text that an entry serves within a time limit. -/
def FunctionEntry.served? (x : FunctionEntry) (limit : Binary64) : Option String :=
  if x.latency ≤ Decompiler.milliseconds limit then x.decompiled?.filter (!·.isEmpty) else none

theorem functionOf?_storedAnswer {s : Snapshot} {f : Function} {x : FunctionEntry}
    (h : s.Stores f x) (limit : Binary64) :
    (Call.storedAnswer f limit).functionOf? f =
      (x.served? limit).map (DecompiledFunction.ofFunction f) := by
  unfold Call.storedAnswer FunctionEntry.served?
  rw [h.code, h.latency]
  by_cases hle : x.latency ≤ Decompiler.milliseconds limit
  · rw [if_pos hle, if_pos hle]
    cases x.decompiled? with
    | none => rfl
    | some code =>
      show (if code.isEmpty then none else some (DecompiledFunction.ofFunction f code)) = _
      rw [Option.filter_some]
      generalize code.isEmpty = empty
      cases empty <;> rfl
  · rw [if_neg hle, if_neg hle]
    rfl

namespace Engine

variable {s : Snapshot} {e : Engine} {f : Function} {limit : Binary64}

/-- A call that is settled by its first timer comes back, whatever earlier callers left on the clock. -/
theorem exists_returned_of_answered {call : Call} {answer : Decompilation}
    (h : call.step.Answered answer) (others : List (Timer Unit)) (f : Function) :
    ∃ returned, SharedCall.returned? ⟨call, others⟩ f = some returned ∧
      returned.outcome = .ok (answer.functionOf? f) ∧ returned.abortedAt? = none ∧
      returned.clock.timers = [] ∧ returned.listening = false := by
  have hsettled : call.step.result?.isSome = true := by
    rw [h.result]
    rfl
  have hended : (SharedCall.run ⟨call, others⟩).call = call.step := by
    rw [SharedCall.call_run hsettled, Call.run_eq_step hsettled]
  unfold SharedCall.returned?
  dsimp only
  rw [hended, h.result]
  exact ⟨_, rfl, rfl, h.notAborted, h.released, h.unheard⟩

/-- The adapter asks the decompiler of an open program once for a function and comes back with the text
that the entry of the function serves within the time limit, or with nothing, whatever earlier calls left on
the clock. The call was not aborted, and neither a timer of it, the backstop included, nor its listener is
left. -/
theorem decompile_eq_served (h : Reached s e) (hopen : e.isOpen = true)
    (hf : f ∈ e.program.functions) (hlatency : 0 ≤ f.latency) (hlimit : 0 < limit)
    (past : List PastCall) (asked : List Question) :
    ∃ x returned, s.Stores f x ∧
      e.decompile f limit = .ok ((x.served? limit).map (.ofFunction f)) ∧
      (Decompiler.adaptVia e.decompiler.recorded (PastCall.leaveAll e.decompiler past) f limit).run
          asked = (some returned, asked ++ [(f, limit, false)]) ∧
      returned.outcome = .ok ((x.served? limit).map (.ofFunction f)) ∧
      returned.abortedAt? = none ∧ returned.clock.timers = [] ∧ returned.listening = false := by
  obtain ⟨x, hx⟩ := h.exists_stores hf
  obtain ⟨call, hcall, hanswered⟩ := Call.exists_answered_supervise hlatency hlimit
  have hdecompiler : e.decompiler = Decompiler.stored true := by
    rw [h.faultless.decompiler_eq, hopen]
  rw [← hdecompiler] at hcall
  -- What the adapter comes back with, on a clock of its own and on one that others have used.
  have hreturned (others : List (Timer Unit)) :
      ∃ returned, e.decompiler.adapt? others f limit = some returned ∧
        returned.outcome = .ok ((x.served? limit).map (.ofFunction f)) ∧
        returned.abortedAt? = none ∧ returned.clock.timers = [] ∧ returned.listening = false := by
    obtain ⟨response, hresponse, rfl⟩ := Outcome.map_eq_ok hcall
    obtain ⟨returned, hback, houtcome, hleft⟩ := exists_returned_of_answered hanswered others f
    rw [functionOf?_storedAnswer hx] at houtcome
    refine ⟨returned, ?_, houtcome, hleft⟩
    rw [Decompiler.adapt?_eq, hresponse]
    exact hback
  obtain ⟨alone, halone, houtcome, -⟩ := hreturned []
  obtain ⟨returned, hshared, hleft⟩ := hreturned (PastCall.leaveAll e.decompiler past)
  refine ⟨x, returned, hx, ?_, ?_, hleft⟩
  · rw [decompile, halone]
    exact houtcome
  · rw [Decompiler.run_adaptVia_recorded, hshared]

/-- A snapshot with a function that takes a fifth of a second. -/
def slowSnapshot : Snapshot :=
  ⟨"a", "x", "0", .four, [], [], [], [⟨"entry", "1000", [⟨"1000", "1009"⟩], "int", [], .analysis,
    some "return 42;", 200⟩], [], [], []⟩

/-- The function. -/
def slowFunction : Function :=
  ⟨⟨"entry", ⟨4096⟩, .function, .analysis, false⟩, ⟨[⟨⟨4096⟩, ⟨4105⟩⟩]⟩, "int", [],
    some "return 42;", 200⟩

/-- The engine of the snapshot with its program open. -/
def slowEngine : Engine :=
  ⟨⟨"a", "x", ⟨4⟩, ⟨0⟩, none, [], [slowFunction], [], [], [], []⟩, true, {}⟩

/-- Calls of which one timed out, one was aborted, and one ended before its caller's timer. -/
def slowPast : List PastCall :=
  [.adapted slowFunction (.finite (1 / 20)), .direct slowFunction 1 (some 50),
    .direct slowFunction 1 (some 5000)]

/-- A limit below the latency gives nothing, and one above it the text, although a timer is left. -/
theorem decompile_eq_served_slow :
    Reached slowSnapshot slowEngine ∧ slowEngine.isOpen = true ∧
      slowFunction ∈ slowEngine.program.functions ∧ 0 ≤ slowFunction.latency ∧
      (PastCall.leaveAll slowEngine.decompiler slowPast).length = 1 ∧
      slowEngine.decompile slowFunction (.finite (1 / 20)) = .ok none ∧
      ∃ returned, slowEngine.decompiler.adapt? (PastCall.leaveAll slowEngine.decompiler slowPast)
          slowFunction 1 = some returned ∧
        returned.outcome = .ok (some (.ofFunction slowFunction "return 42;")) ∧
        returned.clock.timers = [] ∧ returned.listening = false := by
  have hreached : Reached slowSnapshot slowEngine := by
    have hload : Program.load slowSnapshot = .ok slowEngine.program := by decide +kernel
    exact ⟨ofProgram slowEngine.program, [], true, ofSnapshot_of_load hload, rfl⟩
  have hf : slowFunction ∈ slowEngine.program.functions := List.mem_singleton.2 rfl
  have hlatency : 0 ≤ slowFunction.latency := by decide +kernel
  have hstored {x : FunctionEntry} (hx : slowSnapshot.Stores slowFunction x) :
      x.served? (.finite (1 / 20)) = none ∧ x.served? 1 = some "return 42;" := by
    obtain rfl := List.mem_singleton.1 hx.mem
    constructor
    all_goals decide +kernel
  have hbelow : 0 < Binary64.finite (1 / 20) := by decide +kernel
  have habove : 0 < (1 : Binary64) := by decide +kernel
  obtain ⟨x, -, hx, hshort, -⟩ :=
    decompile_eq_served hreached rfl hf hlatency hbelow slowPast []
  obtain ⟨y, returned, hy, -, hrun, hlong, -, htimers, hlistening⟩ :=
    decompile_eq_served hreached rfl hf hlatency habove slowPast []
  have hreturned := congrArg Prod.fst hrun
  rw [(hstored hx).1] at hshort
  rw [(hstored hy).2] at hlong
  exact ⟨hreached, rfl, hf, hlatency, by decide +kernel, hshort, returned, hreturned, hlong, htimers,
    hlistening⟩

end Engine

end BinaryReport
