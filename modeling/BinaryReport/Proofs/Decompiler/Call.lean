import BinaryReport.Decompiler.Call

/-!
# Runs of calls

A call that is settled stays as it is (`Call.step_of_settled`), and every alarm uses a timer up, so
a run ends after as many steps as there are timers. Whoever lets the timers of a call fire one at a
time, until it is settled, gets the result of the run (`Call.steps_eq_run`). The decompiler of a
loaded program leaves no call without an answer (`Call.isSome_result?_of_supervise`).
-/

namespace BinaryReport

theorem Clock.length_takeEarliest {α : Type} {timers rest : List (Timer α)} {t : Timer α}
    (h : takeEarliest timers = some (t, rest)) : rest.length + 1 = timers.length := by
  induction timers generalizing t rest with
  | nil => cases h
  | cons u timers ih =>
    rw [takeEarliest] at h
    cases hearliest : takeEarliest timers with
    | none =>
      rw [hearliest] at h
      obtain ⟨-, rfl⟩ := Prod.mk.inj (Option.some.inj h)
      cases timers with
      | nil => rfl
      | cons w timers =>
        rw [takeEarliest] at hearliest
        split at hearliest
        · cases hearliest
        · split at hearliest
          · cases hearliest
          · cases hearliest
    | some found =>
      obtain ⟨v, others⟩ := found
      rw [hearliest] at h
      dsimp only at h
      have hlength := ih hearliest
      split at h
      · obtain ⟨-, rfl⟩ := Prod.mk.inj (Option.some.inj h)
        simp only [List.length_cons]
        omega
      · obtain ⟨-, rfl⟩ := Prod.mk.inj (Option.some.inj h)
        rfl

theorem Clock.length_next? {α : Type} {c c' : Clock α} {label : α}
    (h : c.next? = some (label, c')) : c'.timers.length < c.timers.length := by
  unfold next? at h
  rw [Option.map_eq_some_iff] at h
  obtain ⟨⟨t, rest⟩, hearliest, heq⟩ := h
  obtain ⟨-, rfl⟩ := Prod.mk.inj heq
  have hlength := length_takeEarliest hearliest
  show rest.length < c.timers.length
  omega

namespace Call

theorem length_disarm (c : Call) (alarm : Alarm) :
    (c.disarm alarm).clock.timers.length ≤ c.clock.timers.length := by
  unfold disarm
  cases alarm with
  | answer => exact Nat.le_refl _
  | abort =>
    dsimp only
    split
    · exact Nat.le_refl _
    · dsimp only
      split
      · exact List.length_filter_le _ _
      · exact Nat.le_refl _

theorem length_handle (c : Call) (alarm : Alarm) :
    (c.handle alarm).clock.timers.length ≤ c.clock.timers.length := by
  unfold handle
  split
  · exact c.length_disarm alarm
  · exact c.length_disarm alarm

/-- A step has no effect, or it uses a timer up. -/
theorem step_cases (c : Call) :
    c.step = c ∨ c.step.clock.timers.length < c.clock.timers.length := by
  unfold step
  split
  · next alarm clock _ hnext =>
    right
    have hfired := Clock.length_next? hnext
    have hhandled := length_handle { c with clock := clock } alarm
    exact Nat.lt_of_le_of_lt hhandled hfired
  · exact Or.inl rfl

theorem step_of_settled {c : Call} (h : c.result?.isSome = true) : c.step = c := by
  unfold step
  split
  · next hresult _ =>
    rw [hresult] at h
    cases h
  · rfl

theorem steps_of_step_eq {c : Call} (h : c.step = c) (n : Nat) : c.steps n = c := by
  induction n with
  | zero => rfl
  | succ n ih => rw [steps, h, ih]

theorem steps_add (c : Call) (m n : Nat) : c.steps (m + n) = (c.steps m).steps n := by
  induction m generalizing c with
  | zero => rw [Nat.zero_add, steps]
  | succ m ih => rw [Nat.succ_add, steps, steps, ih]

theorem steps_succ (c : Call) (n : Nat) : c.steps (n + 1) = (c.steps n).step :=
  steps_add c n 1

/-- After as many steps as there are timers nothing happens any more. -/
theorem step_run (c : Call) : c.run.step = c.run := by
  have hgeneral : ∀ n, ∀ c : Call, c.clock.timers.length ≤ n → (c.steps n).step = c.steps n := by
    intro n
    induction n with
    | zero =>
      intro c hle
      rcases step_cases c with heq | hlt
      · exact heq
      · omega
    | succ n ih =>
      intro c hle
      rcases step_cases c with heq | hlt
      · rw [steps_of_step_eq heq, heq]
      · rw [steps]
        exact ih c.step (by omega)
  exact hgeneral _ c (Nat.le_refl _)

/-- A call that stays as it is after any number of steps is where its run ends. -/
theorem steps_eq_run_of_step_eq {c : Call} {n : Nat} (hstep : (c.steps n).step = c.steps n) :
    c.steps n = c.run := by
  rcases Nat.le_total n c.clock.timers.length with hle | hle
  · obtain ⟨m, hm⟩ := Nat.exists_eq_add_of_le hle
    unfold run
    rw [hm, steps_add, steps_of_step_eq hstep]
  · obtain ⟨m, rfl⟩ := Nat.exists_eq_add_of_le hle
    rw [steps_add]
    exact steps_of_step_eq (step_run c) m

/-- A call that is settled after any number of steps is where its run ends. -/
theorem steps_eq_run {c : Call} {n : Nat} (h : (c.steps n).result?.isSome = true) :
    c.steps n = c.run :=
  steps_eq_run_of_step_eq (step_of_settled h)

/-- It does not matter how many timers have fired before. -/
theorem run_steps (c : Call) (n : Nat) : (c.steps n).run = c.run := by
  have hsame : (c.steps n).run = c.steps (n + (c.steps n).clock.timers.length) := by
    rw [steps_add]
    rfl
  have hstep := step_run (c.steps n)
  rw [hsame] at hstep ⊢
  exact steps_eq_run_of_step_eq hstep

/-! ## Answers -/

theorem exists_next? {α : Type} {c : Clock α} (h : c.timers ≠ []) :
    ∃ label c', c.next? = some (label, c') := by
  have hsome : ∃ found, Clock.takeEarliest c.timers = some found := by
    cases htimers : c.timers with
    | nil => exact absurd htimers h
    | cons t timers =>
      rw [Clock.takeEarliest]
      cases Clock.takeEarliest timers with
      | none => exact ⟨_, rfl⟩
      | some found =>
        obtain ⟨u, others⟩ := found
        dsimp only
        split
        · exact ⟨_, rfl⟩
        · exact ⟨_, rfl⟩
  obtain ⟨⟨t, rest⟩, hfound⟩ := hsome
  refine ⟨t.label, ⟨t.due, rest⟩, ?_⟩
  rw [Clock.next?, hfound]
  rfl

/-- The call waits for a timer or an abort, and has an answer to either. -/
structure Awaits (c : Call) (call : PendingCall) (answer : Decompilation) : Prop where
  handlers : c.handlers? = some call
  onAbort : call.onAbort? = some answer
  listening : c.listening = true
  notAborted : c.abortedAt? = none

theorem awaits_begin {call : PendingCall} {answer : Decompilation} (h : call.onAbort? = some answer)
    (clock : Clock Alarm) (delay? : Option Binary64) :
    (begin clock (.pending delay? call)).Awaits call answer := by
  cases delay? with
  | none => exact ⟨rfl, h, rfl, rfl⟩
  | some delay => exact ⟨rfl, h, rfl, rfl⟩

theorem isSome_result?_handle {c : Call} {alarm : Alarm} {answer : Decompilation}
    (h : c.answer? alarm = some answer) : (c.handle alarm).result?.isSome = true := by
  unfold handle
  rw [h]
  rfl

/-- Either alarm settles a call that waits. -/
theorem Awaits.exists_answer? {c : Call} {call : PendingCall} {answer : Decompilation}
    (h : c.Awaits call answer) (alarm : Alarm) : ∃ d, c.answer? alarm = some d := by
  cases alarm with
  | answer =>
    refine ⟨call.answer, ?_⟩
    rw [answer?, h.handlers]
    rfl
  | abort =>
    refine ⟨answer, ?_⟩
    rw [answer?, h.listening, h.notAborted, h.handlers]
    exact h.onAbort

/-- A call that waits is settled by the next timer. -/
theorem Awaits.isSome_result?_step {c : Call} {call : PendingCall} {answer : Decompilation}
    (h : c.Awaits call answer) (hresult : c.result? = none) (htimers : c.clock.timers ≠ []) :
    c.step.result?.isSome = true := by
  obtain ⟨alarm, clock, hnext⟩ := exists_next? htimers
  have hwaits : ({ c with clock := clock } : Call).Awaits call answer :=
    ⟨h.handlers, h.onAbort, h.listening, h.notAborted⟩
  obtain ⟨d, hd⟩ := hwaits.exists_answer? alarm
  unfold step
  rw [hresult, hnext]
  rw [hresult] at hd
  exact isSome_result?_handle hd

/-- The decompiler of a loaded program answers a supervised call with the first timer at the
latest. -/
theorem isSome_result?_of_supervise {isOpen : Bool} {f : Function} {limit : Binary64} {call : Call}
    (h : supervise (Decompiler.stored isOpen) f limit = .ok call) :
    call.step.result?.isSome = true := by
  unfold supervise Decompiler.stored at h
  cases isOpen with
  | false =>
    obtain rfl := Except.ok.inj h
    rw [step_of_settled rfl]
    rfl
  | true =>
    obtain rfl := Except.ok.inj h
    unfold Decompiler.serve
    dsimp only
    split
    · exact (awaits_begin rfl _ _).isSome_result?_step rfl
        (List.append_ne_nil_of_right_ne_nil _ nofun)
    · exact (awaits_begin rfl _ _).isSome_result?_step rfl
        (List.append_ne_nil_of_right_ne_nil _ nofun)

theorem run_eq_step {c : Call} (h : c.step.result?.isSome = true) : c.run = c.step :=
  (steps_eq_run (n := 1) h).symm

end Call

end BinaryReport
