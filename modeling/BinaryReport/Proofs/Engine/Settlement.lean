import BinaryReport.Proofs.Decompiler.Settlement
import BinaryReport.Proofs.Engine.Decompilation

/-!
# Which event settles a decompilation

A call of an open program that is not aborted beforehand waits for one timer. It is set to the latency of
the function or, if that is shorter, to the time limit; which of the two it was decides what the timer
answers (`FunctionEntry.verdict`). From there on the call is one that waits, so the first alarm settles it
(`Engine.decompiler_settles_once`). Otherwise there is an answer at once and no timer.
-/

namespace BinaryReport

/-! ## Answers -/

namespace Decompilation

theorem timedOut_ne_cancelled (limit : Binary64) : timedOut limit ≠ cancelled := by
  intro h
  have htext := congrArg (fun d => d.errorMessage.toList[14]?) h
  simp [timedOut, cancelled, incomplete] at htext

theorem timedOut_ne_notOpen (limit : Binary64) : timedOut limit ≠ notOpen := by
  intro h
  have htext := congrArg (fun d => d.errorMessage.toList[0]?) h
  simp [timedOut, notOpen, incomplete] at htext

theorem notOpen_ne_cancelled : notOpen ≠ cancelled := by decide

theorem complete_ne_incomplete (code? : Option String) (reason : String) :
    complete code? ≠ incomplete reason := by
  simp [complete, incomplete]

end Decompilation

namespace FunctionEntry

variable (x : FunctionEntry) (limit : Binary64) (isOpen aborted : Bool)

/-- The delay of the timer for the code of an entry. -/
def delay : Binary64 :=
  if Decompiler.milliseconds limit < x.latency then Decompiler.milliseconds limit else x.latency

/-- The answer to the alarm that comes first. -/
def verdict : Alarm → Decompilation
  | .abort => .cancelled
  | .answer =>
    if Decompiler.milliseconds limit < x.latency then .timedOut limit else .complete x.decompiled?

/-- The first alarm that reaches a call for the code of an entry, begun on a clock. -/
def firstAlarm? (clock : Clock Alarm) (events : List CallEvent) : Option Alarm :=
  Call.firstAlarm? (Clock.dueAt clock.now (x.delay limit)) clock.timers ⟨clock.now, []⟩ events

/-- How a call for the code of an entry ends, from whether the program is open, whether the call is
aborted beforehand, and the alarm that reaches it first. -/
def outcome? (first? : Option Alarm) : Option Decompilation :=
  if isOpen then if aborted then some .cancelled else first?.map (x.verdict limit) else some .notOpen

variable {x limit isOpen aborted} {first? : Option Alarm}

theorem verdict_answer :
    x.verdict limit .answer =
      if Decompiler.milliseconds limit < x.latency then .timedOut limit else .complete x.decompiled? :=
  rfl

theorem verdict_ne_notOpen (alarm : Alarm) : x.verdict limit alarm ≠ .notOpen := by
  cases alarm with
  | abort => exact Decompilation.notOpen_ne_cancelled.symm
  | answer =>
    rw [verdict_answer]
    split
    · exact Decompilation.timedOut_ne_notOpen limit
    · exact Decompilation.complete_ne_incomplete _ _

theorem verdict_eq_cancelled_iff {alarm : Alarm} :
    x.verdict limit alarm = .cancelled ↔ alarm = .abort := by
  cases alarm with
  | abort => exact iff_of_true rfl rfl
  | answer =>
    refine iff_of_false ?_ nofun
    rw [verdict_answer]
    split
    · exact Decompilation.timedOut_ne_cancelled limit
    · exact Decompilation.complete_ne_incomplete _ _

theorem verdict_eq_timedOut_iff {alarm : Alarm} :
    x.verdict limit alarm = .timedOut limit ↔
      alarm = .answer ∧ Decompiler.milliseconds limit < x.latency := by
  cases alarm with
  | abort => exact iff_of_false (Decompilation.timedOut_ne_cancelled limit).symm nofun
  | answer =>
    rw [verdict_answer]
    by_cases hlt : Decompiler.milliseconds limit < x.latency
    · simp [hlt]
    · simp only [hlt, if_false, and_false, iff_false]
      exact Decompilation.complete_ne_incomplete _ _

theorem verdict_eq_complete_iff {alarm : Alarm} :
    x.verdict limit alarm = .complete x.decompiled? ↔
      alarm = .answer ∧ ¬ Decompiler.milliseconds limit < x.latency := by
  cases alarm with
  | abort => exact iff_of_false (Decompilation.complete_ne_incomplete _ _).symm nofun
  | answer =>
    rw [verdict_answer]
    by_cases hlt : Decompiler.milliseconds limit < x.latency
    · simp only [hlt, if_true, not_true, and_false, iff_false]
      exact (Decompilation.complete_ne_incomplete _ _).symm
    · simp [hlt]

theorem outcome?_eq_notOpen_iff :
    x.outcome? limit isOpen aborted first? = some .notOpen ↔ isOpen = false := by
  cases isOpen with
  | false => exact iff_of_true rfl rfl
  | true =>
    cases aborted
    · simp [outcome?, verdict_ne_notOpen]
    · simp [outcome?, Decompilation.notOpen_ne_cancelled.symm]

theorem outcome?_eq_cancelled_iff :
    x.outcome? limit isOpen aborted first? = some .cancelled ↔
      isOpen = true ∧ (aborted = true ∨ first? = some .abort) := by
  cases isOpen with
  | false => simp [outcome?, Decompilation.notOpen_ne_cancelled]
  | true => cases aborted <;> simp [outcome?, verdict_eq_cancelled_iff]

theorem outcome?_eq_timedOut_iff :
    x.outcome? limit isOpen aborted first? = some (.timedOut limit) ↔
      isOpen = true ∧ aborted = false ∧ first? = some .answer ∧
        Decompiler.milliseconds limit < x.latency := by
  cases isOpen with
  | false => simp [outcome?, (Decompilation.timedOut_ne_notOpen limit).symm]
  | true =>
    cases aborted
    · cases first? <;> simp [outcome?, verdict_eq_timedOut_iff]
    · simp [outcome?, (Decompilation.timedOut_ne_cancelled limit).symm]

theorem outcome?_eq_complete_iff :
    x.outcome? limit isOpen aborted first? = some (.complete x.decompiled?) ↔
      isOpen = true ∧ aborted = false ∧ first? = some .answer ∧
        ¬ Decompiler.milliseconds limit < x.latency := by
  have hincomplete (reason : String) :
      some (Decompilation.incomplete reason) ≠ some (Decompilation.complete x.decompiled?) :=
    fun h => Decompilation.complete_ne_incomplete _ _ (Option.some.inj h).symm
  cases isOpen with
  | false => exact iff_of_false (hincomplete _) nofun
  | true =>
    cases aborted
    · cases first? <;> simp [outcome?, verdict_eq_complete_iff]
    · exact iff_of_false (hincomplete _) (by simp)

theorem outcome?_eq_none_iff :
    x.outcome? limit isOpen aborted first? = none ↔
      isOpen = true ∧ aborted = false ∧ first? = none := by
  cases isOpen <;> cases aborted <;> simp [outcome?]

end FunctionEntry

/-! ## Calls -/

/-- There is at most one answer, and with it the call is over. -/
structure Call.SettlesOnce (c : Call) (events : List CallEvent) (outcome? : Option Decompilation) :
    Prop where
  result : (c.afterAll events).result? = outcome?
  /-- All answers, the one at once and those along the way. -/
  once : c.result?.toList ++ c.answers events = outcome?.toList
  settled : ∀ d, outcome? = some d → (c.afterAll events).SettledAs d

theorem Call.settlesOnce_answered {clock : Clock Alarm}
    (hclock : ∀ t ∈ clock.timers, t.label = .abort) (d : Decompilation) (events : List CallEvent) :
    (begin clock (.answered d)).SettlesOnce events (some d) := by
  have hsettled : (begin clock (.answered d)).SettledAs d := ⟨rfl, rfl, hclock⟩
  obtain ⟨hlater, hnone⟩ := hsettled.afterAll events
  refine ⟨hlater.result, by rw [hnone]; rfl, fun d' hd' => ?_⟩
  obtain rfl := Option.some.inj hd'
  exact hlater

theorem Call.run_answered (clock : Clock Alarm) (d : Decompilation) :
    (begin clock (.answered d)).run = begin clock (.answered d) :=
  steps_of_step_eq (step_of_settled rfl) _

namespace Snapshot.Stores

variable {s : Snapshot} {f : Function} {x : FunctionEntry}

theorem begin_serve (h : s.Stores f x) (limit : Binary64) (clock : Clock Alarm) :
    Call.begin clock (Decompiler.serve f limit) =
      Call.waiting (x.verdict limit) (Clock.dueAt clock.now (x.delay limit)) clock.timers
        ⟨clock.now, []⟩ := by
  unfold Decompiler.serve FunctionEntry.delay Call.waiting FunctionEntry.verdict
  rw [h.latency, h.code]
  by_cases hlt : Decompiler.milliseconds limit < x.latency
  · simp only [hlt, if_true]
    rfl
  · simp only [hlt, if_false]
    rfl

end Snapshot.Stores

/-- How a call for the code of an entry goes on: it has set its timer if it has to wait, what happens
to it settles it once, and a run on its own is one timer that fires. -/
structure FunctionEntry.Settles (x : FunctionEntry) (limit : Binary64) (isOpen aborted : Bool)
    (clock : Clock Alarm) (c : Call) : Prop where
  start : c.clock = if isOpen && !aborted then clock.schedule (x.delay limit) .answer else clock
  settles (events : List CallEvent) :
    c.SettlesOnce events (x.outcome? limit isOpen aborted (x.firstAlarm? limit clock events))
  run : c.run.result? = x.outcome? limit isOpen aborted (x.firstAlarm? limit clock [.fire])

theorem Snapshot.Stores.settles_serve {s : Snapshot} {f : Function} {x : FunctionEntry}
    (h : s.Stores f x) (limit : Binary64) {clock : Clock Alarm}
    (hclock : ∀ t ∈ clock.timers, t.label = .abort) :
    x.Settles limit true false clock (Call.begin clock (Decompiler.serve f limit)) := by
  have hnew : ∀ t ∈ (⟨clock.now, []⟩ : Clock Alarm).timers, t.label = .abort := nofun
  rw [h.begin_serve]
  refine ⟨rfl, fun events => ?_, ?_⟩
  · obtain ⟨honce, hresult, hsettled⟩ := Call.settles_waiting (x.verdict limit)
      (Clock.dueAt clock.now (x.delay limit)) hclock hnew events
    refine ⟨hresult, honce, fun d hd => ?_⟩
    obtain ⟨alarm, hfirst, rfl⟩ := Option.map_eq_some_iff.1 hd
    exact hsettled alarm hfirst
  · rw [Call.run_waiting hclock hnew]
    exact (Call.settledAs_fire _ _ hclock hnew).2.result

theorem FunctionEntry.settles_answered {x : FunctionEntry} {limit : Binary64} {isOpen aborted : Bool}
    {clock : Clock Alarm} {d : Decompilation} (hclock : ∀ t ∈ clock.timers, t.label = .abort)
    (hstart : (isOpen && !aborted) = false)
    (houtcome : ∀ first?, x.outcome? limit isOpen aborted first? = some d) :
    x.Settles limit isOpen aborted clock (Call.begin clock (.answered d)) := by
  refine ⟨?_, fun events => ?_, ?_⟩
  · rw [hstart]
    rfl
  · rw [houtcome]
    exact Call.settlesOnce_answered hclock d events
  · rw [houtcome, Call.run_answered]
    rfl

namespace Engine

variable {s : Snapshot} {e : Engine} {f : Function}

theorem exists_settles (h : Reached s e) (hf : f ∈ e.program.functions) (limit : Binary64)
    (aborted : Bool) {clock : Clock Alarm} (hclock : ∀ t ∈ clock.timers, t.label = .abort) :
    ∃ x c, s.Stores f x ∧ (e.decompiler f limit aborted).map (Call.begin clock) = .ok c ∧
      x.Settles limit e.isOpen aborted clock c := by
  obtain ⟨x, hx⟩ := h.exists_stores hf
  rw [h.faultless.decompiler_eq]
  unfold Decompiler.stored
  cases e.isOpen with
  | false => exact ⟨x, _, hx, rfl, FunctionEntry.settles_answered hclock rfl fun _ => rfl⟩
  | true =>
    cases aborted with
    | true => exact ⟨x, _, hx, rfl, FunctionEntry.settles_answered hclock rfl fun _ => rfl⟩
    | false => exact ⟨x, _, hx, rfl, hx.settles_serve limit hclock⟩

/-- A call for a function settles once, whatever happens to it and when: it is cancelled if it was aborted
before or if an abort comes before its timer, else its timer tells the time limit and the stored code
apart, and nothing is left of it. A program that is not open answers at once and sets no timer. -/
theorem decompiler_settles_once (h : Reached s e) (hf : f ∈ e.program.functions) (limit : Binary64)
    (aborted : Bool) {clock : Clock Alarm} (hclock : ∀ t ∈ clock.timers, t.label = .abort) :
    ∃ x c, s.Stores f x ∧ (e.decompiler f limit aborted).map (Call.begin clock) = .ok c ∧
      x.Settles limit e.isOpen aborted clock c ∧
      ∀ events,
        ((c.afterAll events).result? = some .notOpen ↔ e.isOpen = false) ∧
        ((c.afterAll events).result? = some .cancelled ↔
          e.isOpen = true ∧ (aborted = true ∨ x.firstAlarm? limit clock events = some .abort)) ∧
        ((c.afterAll events).result? = some (.timedOut limit) ↔
          e.isOpen = true ∧ aborted = false ∧ x.firstAlarm? limit clock events = some .answer ∧
            Decompiler.milliseconds limit < x.latency) ∧
        ((c.afterAll events).result? = some (.complete x.decompiled?) ↔
          e.isOpen = true ∧ aborted = false ∧ x.firstAlarm? limit clock events = some .answer ∧
            ¬ Decompiler.milliseconds limit < x.latency) ∧
        ((c.afterAll events).result? = none ↔
          e.isOpen = true ∧ aborted = false ∧ .fire ∉ events ∧ .abort ∉ events) := by
  obtain ⟨x, c, hx, hbegin, hsettles⟩ := exists_settles h hf limit aborted hclock
  refine ⟨x, c, hx, hbegin, hsettles, fun events => ?_⟩
  rw [(hsettles.settles events).result]
  refine ⟨FunctionEntry.outcome?_eq_notOpen_iff, FunctionEntry.outcome?_eq_cancelled_iff,
    FunctionEntry.outcome?_eq_timedOut_iff, FunctionEntry.outcome?_eq_complete_iff, ?_⟩
  rw [FunctionEntry.outcome?_eq_none_iff, FunctionEntry.firstAlarm?, Call.firstAlarm?_eq_none_iff]

/-- Abort and timer are due together: the one that was set first settles the call, and the other one finds
it settled. -/
theorem decompiler_settles_once_slow :
    Reached slowSnapshot slowEngine ∧ slowFunction ∈ slowEngine.program.functions ∧
      ∃ c c' : Call,
        (slowEngine.decompiler slowFunction 1 false).map (Call.begin ⟨0, [⟨200, .abort⟩]⟩) =
          .ok c ∧
        (c.afterAll [.fire, .fire]).result? = some .cancelled ∧
        c.answers [.fire, .fire] = [.cancelled] ∧
        (slowEngine.decompiler slowFunction 1 false).map (Call.begin .start) = .ok c' ∧
        (c'.afterAll [.arm 200, .fire, .fire]).result? = some (.complete (some "return 42;")) ∧
        (c'.afterAll [.arm 200, .fire, .fire]).SettledAs (.complete (some "return 42;")) := by
  have hreached : Reached slowSnapshot slowEngine := by
    have hload : Program.load slowSnapshot = .ok slowEngine.program := by decide +kernel
    exact ⟨ofProgram slowEngine.program, [], true, ofSnapshot_of_load hload, rfl⟩
  have hf : slowFunction ∈ slowEngine.program.functions := List.mem_singleton.2 rfl
  have harmed : ∀ t ∈ (⟨0, [⟨200, .abort⟩]⟩ : Clock Alarm).timers, t.label = .abort := by simp
  have hfresh : ∀ t ∈ (Clock.start : Clock Alarm).timers, t.label = .abort := nofun
  obtain ⟨x, c, hx, hbegin, hsettles, hends⟩ := decompiler_settles_once hreached hf 1 false harmed
  obtain ⟨x', c', hx', hbegin', hsettles', hends'⟩ :=
    decompiler_settles_once hreached hf 1 false hfresh
  obtain rfl := List.mem_singleton.1 hx.mem
  obtain rfl := List.mem_singleton.1 hx'.mem
  have hcancelled := (hends [.fire, .fire]).2.1.2 ⟨rfl, Or.inr (by decide +kernel)⟩
  have hcomplete := (hends' [.arm 200, .fire, .fire]).2.2.2.1.2
    ⟨rfl, rfl, by decide +kernel, by decide +kernel⟩
  have hsettled := hsettles.settles [.fire, .fire]
  have hsettled' := hsettles'.settles [.arm 200, .fire, .fire]
  rw [← hsettled.result, hcancelled] at hsettled
  rw [← hsettled'.result, hcomplete] at hsettled'
  refine ⟨hreached, hf, c, c', hbegin, hcancelled, ?_, hbegin', hcomplete, hsettled'.settled _ rfl⟩
  have hlater : c.result? = none := by
    obtain rfl := Except.ok.inj hbegin
    decide +kernel
  have honce := hsettled.once
  rw [hlater] at honce
  exact honce

end Engine

end BinaryReport
