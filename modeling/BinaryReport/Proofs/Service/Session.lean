import BinaryReport.Proofs.Service.Answers
import Mathlib.Logic.Relation

/-!
# Sessions of the service

A session is the queue of the service with the number of requests that have arrived. It moves when a
request arrives, when a timer of the decompiler's call fires, and when the next job is done
(`Session.Move`). Jobs run in the order in which they arose until none is left, before anything else
happens.

`Session.Phase` lists the six states in which the queue of a session can be, with what is known in
each. A task that has settled leaves two jobs behind, to advance the queue and to deliver the
outcome; what the outcome says of the program is still true when it is delivered, since the next
task is only started after that (`Session.Awaits`).
-/

namespace BinaryReport

/-- The queue of a service and the number of requests that have arrived. -/
structure Session where
  /-- The queue. -/
  queue : AppQueue
  /-- The number of requests. -/
  arrived : Nat

namespace Session

/-- The session of a service that has not been asked anything. -/
def start (e : Engine) (key : String) (limits : Limits) : Session :=
  ⟨.empty (App.start e key limits), 0⟩

/-- The state of the service. -/
def app (s : Session) : App := s.queue.world

/-- The program. -/
def program (s : Session) : Program := s.app.engine.program

/-- The jobs that are left to do. -/
def jobs (s : Session) : List (QueueJob AppTask WorkOutcome) := s.queue.jobs

/-- The session after a request has arrived. -/
def arrive (s : Session) (r : Request) : Session :=
  ⟨s.queue.receive s.arrived r, s.arrived + 1⟩

/-- The session after a timer of the decompiler's call has fired. -/
def fire (s : Session) : Session := ⟨s.queue.wake App.host, s.arrived⟩

/-- What a session can do. All jobs are done before a request arrives or a timer fires. -/
inductive Move : Session → Session → Prop where
  /-- A request arrives. -/
  | arrive {s : Session} (h : s.jobs = []) (r : Request) : Move s (s.arrive r)
  /-- A timer fires. -/
  | fire {s : Session} (h : s.jobs = []) : Move s s.fire
  /-- The next job is done. -/
  | job {s : Session} {q : AppQueue} (h : s.queue.step? App.host = some q) : Move s ⟨q, s.arrived⟩

/-- A session that comes after another, by any number of moves. -/
abbrev Reaches : Session → Session → Prop := Relation.ReflTransGen Move

/-! ## Phases -/

/-- The kept report, if there is one, is the report of the program. -/
def Fresh (app : App) : Prop :=
  ∀ r, app.cached? = some r → app.engine.program.HasReport app.defaults r

/-- What is known while an outcome waits for its delivery. -/
structure Awaits (app : App) (task : AppTask) (o : WorkOutcome) : Prop where
  /-- The kept report is that of the program, unless a change was made. -/
  fresh : o.isChange = false → Fresh app
  /-- A whole report is the report of the program. -/
  report : ∀ r, o = .report (.ok (.whole r)) → app.engine.program.HasReport app.defaults r
  /-- The outcome of a report is a whole report. -/
  whole : task.work = .report → ∃ r, o = .report (.ok (.whole r))

/-- The states of the queue. -/
inductive Phase : AppQueue → Prop where
  /-- There is nothing to do. -/
  | idle {app : App} (h : app.engine.Faultless) (hfresh : Fresh app) :
    Phase ⟨app, true, [], none, []⟩
  /-- A task waits for the decompiler. -/
  | decompiling {app : App} {waiting : List AppTask} {task : AppTask} {call : Call}
    {rest : WorkRest} (h : app.engine.Faultless) (hfresh : Fresh app)
    (hunderway : task.work.Underway app.defaults app.engine (app.engine, .decompiling call rest)) :
    Phase ⟨app, false, waiting, some (task, (call, rest)), []⟩
  /-- A task is about to be started. -/
  | starting {app : App} {waiting : List AppTask} {task : AppTask} (h : app.engine.Faultless)
    (hfresh : Fresh app) : Phase ⟨app, false, waiting, none, [.start task]⟩
  /-- A task has settled. -/
  | settled {app : App} {waiting : List AppTask} {task : AppTask} {o : WorkOutcome}
    (h : app.engine.Faultless) (hawaits : Awaits app task o) :
    Phase ⟨app, false, waiting, none, [.advance, .deliver task o]⟩
  /-- The queue has advanced, and no task is left. -/
  | last {app : App} {task : AppTask} {o : WorkOutcome} (h : app.engine.Faultless)
    (hawaits : Awaits app task o) : Phase ⟨app, true, [], none, [.deliver task o]⟩
  /-- The queue has advanced, and the next task is about to be started after the delivery. -/
  | passing {app : App} {waiting : List AppTask} {task next : AppTask} {o : WorkOutcome}
    (h : app.engine.Faultless) (hawaits : Awaits app task o) :
    Phase ⟨app, false, waiting, none, [.deliver task o, .start next]⟩

/-! ## Turns -/

/-- Nothing is sent, and the settings and the kept report stay. -/
structure Quiet (app app' : App) : Prop where
  programKey : app'.programKey = app.programKey
  defaults : app'.defaults = app.defaults
  cached : app'.cached? = app.cached?
  responses : app'.responses = app.responses

/-- The effect of a turn of a task on an engine without faults. -/
inductive TurnEffect (app : App) (w : Work) :
    Effect App AppTask (Call × WorkRest) WorkOutcome → Prop where
  /-- The task has settled. -/
  | settled {app' : App} {o : WorkOutcome} (h : Quiet app app')
    (hdone : w.Done app.defaults app.engine app'.engine o) : TurnEffect app w ⟨app', [], .settled o⟩
  /-- The task waits for the decompiler. -/
  | suspended {app' : App} {call : Call} {rest : WorkRest} (h : Quiet app app')
    (hfaultless : app'.engine.Faultless) (hprogram : app'.engine.program = app.engine.program)
    (hunderway : w.Underway app.defaults app.engine (app'.engine, .decompiling call rest)) :
    TurnEffect app w ⟨app', [], .suspended (call, rest)⟩

theorem turnEffect_effectOf {app : App} {w : Work} {part : Engine × Begun WorkRest WorkOutcome}
    (h : w.Underway app.defaults app.engine part) : TurnEffect app w (app.effectOf part) := by
  cases h with
  | finished hdone => exact .settled ⟨rfl, rfl, rfl, rfl⟩ hdone
  | @decompiling after call n rest hfaultless hprogram hrest hchange =>
    unfold App.effectOf
    dsimp only
    by_cases hsettled : (call.steps n).result?.isSome = true
    · rw [if_pos hsettled, Call.steps_eq_run hsettled]
      exact .settled ⟨rfl, rfl, rfl, rfl⟩ hrest
    · rw [if_neg hsettled]
      have hunderway := Work.Underway.decompiling (n := n) hfaultless hprogram hrest hchange
      exact .suspended ⟨rfl, rfl, rfl, rfl⟩ hfaultless hprogram hunderway

/-- A task that has waited for the decompiler makes no change any more. -/
theorem isChange_of_resumed {app app' : App} {w : Work} {before : Engine} {call : Call}
    {rest : WorkRest} {o : WorkOutcome}
    (h : w.Underway app.defaults before (app.engine, .decompiling call rest))
    (heffect : app.effectOf (app.engine, .decompiling call rest) = ⟨app', [], .settled o⟩) :
    o.isChange = false := by
  cases h with
  | @decompiling _ call n _ hfaultless hprogram hrest hchange =>
    unfold App.effectOf at heffect
    dsimp only at heffect
    by_cases hsettled : (call.steps n).result?.isSome = true
    · rw [if_pos hsettled, Call.steps_eq_run hsettled] at heffect
      cases heffect
      exact hchange
    · rw [if_neg hsettled] at heffect
      cases heffect

theorem Quiet.fresh {app app' : App} (h : Quiet app app') (hfresh : Fresh app)
    (hprogram : app'.engine.program = app.engine.program) : Fresh app' := by
  intro r hr
  rw [hprogram, h.defaults]
  rw [h.cached] at hr
  exact hfresh r hr

theorem Quiet.awaits {app app' : App} {task : AppTask} {o : WorkOutcome} (h : Quiet app app')
    (hfresh : Fresh app) (hdone : task.work.Done app.defaults app.engine app'.engine o) :
    Awaits app' task o := by
  constructor
  · intro ho
    exact h.fresh hfresh (hdone.program ho)
  · intro r hr
    rw [h.defaults]
    exact hdone.report r hr
  · exact hdone.whole

/-- A queue that takes over the effect of a turn is in a phase again. -/
theorem phase_absorb {app : App} {waiting : List AppTask} {task : AppTask}
    {effect : Effect App AppTask (Call × WorkRest) WorkOutcome} (hfresh : Fresh app)
    (h : TurnEffect app task.work effect) :
    Phase (SerialQueue.absorb ⟨app, false, waiting, none, []⟩ task effect) := by
  cases h with
  | settled hquiet hdone =>
    have hawaits := hquiet.awaits hfresh hdone
    exact .settled hdone.faultless hawaits
  | suspended hquiet hfaultless hprogram hunderway =>
    have hrebased := hunderway.rebase hprogram
    rw [← hquiet.defaults] at hrebased
    exact .decompiling hfaultless (hquiet.fresh hfresh hprogram) hrebased

end Session

end BinaryReport
