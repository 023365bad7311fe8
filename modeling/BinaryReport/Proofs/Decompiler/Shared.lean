import BinaryReport.Engine.Adapter
import BinaryReport.Proofs.Decompiler.Call

/-!
# Calls on one clock

Calls are made one after another, and a caller who sets a timer of his own to abort a call may leave it
behind on the clock when the call has ended (`PastCall.leave`).

What earlier calls left behind does not matter to a call that its first timer settles
(`SharedCall.call_run`): the call ends as it does alone.
-/

namespace BinaryReport

namespace Call

theorem timers_ne_nil {c : Call} (hwaits : c.result? = none) (h : c.step.result?.isSome = true) :
    c.clock.timers ≠ [] := by
  intro hnone
  have hnext : c.clock.next? = none := by
    unfold Clock.next?
    rw [hnone]
    rfl
  unfold step at h
  rw [hwaits, hnext] at h
  dsimp only at h
  rw [hwaits] at h
  cases h

/-- The time does not matter to a step that settles a call. -/
theorem step_atTime {c : Call} (now : Rat) (hwaits : c.result? = none)
    (h : c.step.result?.isSome = true) : (c.atTime now).step = c.step := by
  obtain ⟨alarm, clock, hnext⟩ := exists_next? (timers_ne_nil hwaits h)
  have hnext' : (c.atTime now).clock.next? = some (alarm, clock) := hnext
  have hwaits' : (c.atTime now).result? = none := hwaits
  unfold step
  rw [hnext, hnext', hwaits, hwaits']
  rfl

end Call

namespace SharedCall

variable {s : SharedCall}

/-! ## Runs -/

/-- A step is one of the call, or it uses up a timer of an earlier caller while the call waits. -/
theorem step_cases (s : SharedCall) :
    s.step = { s with call := s.call.step } ∨
      ∃ now others, others.length < s.others.length ∧ s.step = ⟨s.call.atTime now, others⟩ := by
  unfold step
  split
  · next other others _ hearliest =>
    split
    · have hlength := Clock.length_takeEarliest hearliest
      exact Or.inr ⟨other.due, others, by omega, rfl⟩
    · exact Or.inl rfl
  · exact Or.inl rfl

theorem step_of_settled (h : s.call.result?.isSome = true) : s.step = s := by
  obtain ⟨result, hresult⟩ := Option.isSome_iff_exists.1 h
  unfold step
  rw [hresult]
  dsimp only
  rw [Call.step_of_settled h]

theorem steps_of_settled (h : s.call.result?.isSome = true) (n : Nat) : s.steps n = s := by
  induction n with
  | zero => rfl
  | succ n ih => rw [steps, step_of_settled h, ih]

/-- When the timers of earlier callers that come before it are used up, the call takes its step. -/
theorem call_steps {n : Nat} (hwaits : s.call.result? = none)
    (hsettles : s.call.step.result?.isSome = true) (hle : s.others.length ≤ n) :
    (s.steps (n + 1)).call = s.call.step := by
  induction n generalizing s with
  | zero =>
    rcases step_cases s with hstep | ⟨now, others, hlt, -⟩
    · rw [steps, hstep]
      rfl
    · omega
  | succ n ih =>
    rcases step_cases s with hstep | ⟨now, others, hlt, hstep⟩
    · rw [steps, hstep, steps_of_settled hsettles]
    · -- Time has passed, but the call stands where it stood, with one timer less before it.
      have hsame := Call.step_atTime now hwaits hsettles
      have hle' : others.length ≤ n := by omega
      have hcall := ih (s := ⟨s.call.atTime now, others⟩) hwaits (hsame ▸ hsettles) hle'
      rw [steps, hstep, hcall]
      exact hsame

/-- A call that its first timer settles, if nothing did before, ends as it does alone. -/
theorem call_run (h : s.call.step.result?.isSome = true) : s.run.call = s.call.run := by
  rw [Call.run_eq_step h]
  cases hresult : s.call.result? with
  | some result =>
    have hsettled : s.call.result?.isSome = true := by
      rw [hresult]
      rfl
    rw [run, steps_of_settled hsettled, Call.step_of_settled hsettled]
  | none =>
    obtain ⟨k, hk⟩ := Nat.exists_eq_succ_of_ne_zero
      (mt List.length_eq_zero_iff.1 (Call.timers_ne_nil hresult h))
    rw [run, hk, Nat.add_succ]
    exact call_steps hresult h (Nat.le_add_right _ k)

/-- Without timers of earlier callers a call runs as it does alone. -/
theorem call_steps_alone (c : Call) (n : Nat) :
    (SharedCall.steps n ⟨c, []⟩).call = c.steps n ∧ (SharedCall.steps n ⟨c, []⟩).others = [] := by
  induction n generalizing c with
  | zero => exact ⟨rfl, rfl⟩
  | succ n ih =>
    have hstep : SharedCall.step ⟨c, []⟩ = ⟨c.step, []⟩ := by
      unfold step
      cases c.result? <;> rfl
    rw [steps, hstep, Call.steps]
    exact ih c.step

theorem call_run_alone (c : Call) : (SharedCall.run ⟨c, []⟩).call = c.run := by
  have hlength : (⟨c, []⟩ : SharedCall).others.length + c.clock.timers.length =
      c.clock.timers.length := Nat.zero_add _
  rw [run, hlength, Call.run]
  exact (call_steps_alone c c.clock.timers.length).1

end SharedCall

/-! ## The adapter -/

theorem Decompiler.adapt?_eq (d : Decompiler) (others : List (Timer Unit)) (f : Function)
    (limit : Binary64) : d.adapt? others f limit = Returned.of? others f limit (d f limit false) := rfl

/-- What the adapter gives is what the supervised call comes to when it runs alone. -/
theorem Engine.decompile_eq (e : Engine) (f : Function) (limit : Binary64) :
    e.decompile f limit =
      (Call.supervise e.decompiler f limit).map fun call => call.run.functionOf? f := by
  unfold decompile Call.supervise
  rw [Decompiler.adapt?_eq]
  cases e.decompiler f limit false with
  | error r => rfl
  | ok response =>
    unfold Returned.of? SharedCall.returned?
    dsimp only [Except.map]
    rw [SharedCall.call_run_alone, Call.functionOf?]
    cases (Call.begin (Call.backstop .start limit) response).run.result? with
    | none => rfl
    | some d => rfl

/-! ## Earlier calls -/

/-- A call that was made earlier. -/
inductive PastCall where
  /-- A call of the adapter. -/
  | adapted (f : Function) (limit : Binary64)
  /-- A call of the decompiler itself. Its caller aborts it after a delay, or has aborted it before if
  that is zero, or does not abort it. -/
  | direct (f : Function) (limit : Binary64) (abort? : Option Binary64)

namespace PastCall

/-- The clock with the timer of a caller who aborts a call. -/
def callerClock : Option Binary64 → Clock Alarm
  | none => .start
  | some delay => if delay.isZero then .start else Clock.start.schedule delay .abort

/-- What is left on a clock, with the time counted from now on. -/
def remaining (others : List (Timer Unit)) (clock : Clock Alarm) : List (Timer Unit) :=
  others.map (fun t => ⟨t.due - clock.now, ()⟩) ++
    clock.timers.map fun t => ⟨t.due - clock.now, ()⟩

/-- What is left on the clock after a call, among the timers that were left before. A call that does not
come back has waited for all of them. -/
def leave (d : Decompiler) (others : List (Timer Unit)) : PastCall → List (Timer Unit)
  | .adapted f limit =>
    match d.adapt? others f limit with
    | some returned => remaining returned.others returned.clock
    | none => []
  | .direct f limit abort? =>
    match d f limit (abort?.any Binary64.isZero) with
    | .error _ => others
    | .ok response =>
      let ended := SharedCall.run ⟨Call.begin (callerClock abort?) response, others⟩
      remaining ended.others ended.call.clock

/-- What calls that were made one after another leave on the clock. -/
def leaveAll (d : Decompiler) (past : List PastCall) : List (Timer Unit) := past.foldl (leave d) []

end PastCall

end BinaryReport
