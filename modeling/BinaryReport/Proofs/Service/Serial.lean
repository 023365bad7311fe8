import BinaryReport.Proofs.Report.Coherence
import BinaryReport.Proofs.Service.Moves

/-!
# Serial equivalence

Requests may overlap in any way: they arrive while others wait for the decompiler, and timers fire
late or early. What a task comes to is nevertheless what it would come to if all tasks were done one
after another in the order of their submission, each alone (`Session.outcomes_serial`).

`Session.Run` is a part of a session with the tasks that were submitted in it and the outcomes that
were delivered. `Session.InTurn` is what keeps the queue in step with the sequential order: the queue
serves its tasks in turn, and between its parts the first of them finds the engine as it left it. It
says this of every engine, with faults or without; that a task which waits is answered needs the
decompiler of a loaded program (`Work.opens_start`).
-/

namespace BinaryReport.Session

variable {limits : Limits}

/-! ## One after another -/

/-- The engine after tasks that are done one after another, each alone. -/
def engineAfter (limits : Limits) (e : Engine) (tasks : List AppTask) : Engine :=
  tasks.foldl (fun e task => (task.work.run e limits).1) e

/-- What tasks come to that are done one after another, each alone. -/
def outcomesAlone (limits : Limits) : Engine → List AppTask → List (AppTask × WorkOutcome)
  | _, [] => []
  | e, task :: tasks =>
    (task, (task.work.run e limits).2.outcome) ::
      outcomesAlone limits (task.work.run e limits).1 tasks

theorem engineAfter_append (e : Engine) (tasks tasks' : List AppTask) :
    engineAfter limits e (tasks ++ tasks') = engineAfter limits (engineAfter limits e tasks) tasks' :=
  List.foldl_append

theorem outcomesAlone_append (e : Engine) (tasks tasks' : List AppTask) :
    outcomesAlone limits e (tasks ++ tasks') =
      outcomesAlone limits e tasks ++ outcomesAlone limits (engineAfter limits e tasks) tasks' := by
  induction tasks generalizing e with
  | nil => rfl
  | cons task tasks ih =>
    rw [List.cons_append, outcomesAlone, ih, outcomesAlone]
    rfl

theorem faultless_engineAfter (limits : Limits) {e : Engine} (h : e.Faultless)
    (tasks : List AppTask) :
    (engineAfter limits e tasks).Faultless := by
  induction tasks generalizing e with
  | nil => exact h
  | cons task tasks ih => exact ih (task.work.faultless_run h limits)

/-! ## Runs -/

/-- The tasks that a request submits as it arrives: one or none. -/
def submittedBy (s : Session) (r : Request) : List AppTask :=
  match (s.app.reactAny r).2 with
  | .submit work format => [⟨⟨s.arrived, r.wantsNoBody⟩, work, format, r.client⟩]
  | _ => []

/-- What the next job delivers: the outcome of a task, or nothing. -/
def deliveredNext (s : Session) : List (AppTask × WorkOutcome) :=
  match s.jobs with
  | .deliver task o :: _ => [(task, o)]
  | _ => []

/-- A part of a session, from `s` on, with the tasks that were submitted and the outcomes that were
delivered, either in their order. A request may arrive and a timer may fire at any time. -/
inductive Run (s : Session) : Session → List AppTask → List (AppTask × WorkOutcome) → Prop where
  /-- Nothing has happened. -/
  | refl : Run s s [] []
  /-- A request arrives. -/
  | arrive {s' : Session} {tasks : List AppTask} {outcomes : List (AppTask × WorkOutcome)}
    (h : Run s s' tasks outcomes) (r : Request) :
    Run s (s'.arrive r) (tasks ++ s'.submittedBy r) outcomes
  /-- A timer fires. -/
  | fire {s' : Session} {tasks : List AppTask} {outcomes : List (AppTask × WorkOutcome)}
    (h : Run s s' tasks outcomes) : Run s s'.fire tasks outcomes
  /-- The next job is done. -/
  | job {s' : Session} {tasks : List AppTask} {outcomes : List (AppTask × WorkOutcome)} {q : AppQueue}
    (h : Run s s' tasks outcomes) (hstep : s'.queue.step? App.host = some q) :
    Run s ⟨q, s'.arrived⟩ tasks (outcomes ++ s'.deliveredNext)

theorem Run.trans {s s' s'' : Session} {tasks tasks' : List AppTask}
    {outcomes outcomes' : List (AppTask × WorkOutcome)} (h : Run s s' tasks outcomes)
    (h' : Run s' s'' tasks' outcomes') : Run s s'' (tasks ++ tasks') (outcomes ++ outcomes') := by
  induction h' with
  | refl =>
    rw [List.append_nil, List.append_nil]
    exact h
  | arrive _ r ih =>
    rw [← List.append_assoc]
    exact ih.arrive r
  | fire _ ih => exact ih.fire
  | job _ hstep ih =>
    rw [← List.append_assoc]
    exact ih.job hstep

/-- Every session that is reached is reached by a run. -/
theorem exists_run {s s' : Session} (h : Reaches s s') :
    ∃ tasks outcomes, Run s s' tasks outcomes := by
  induction h with
  | refl => exact ⟨[], [], .refl⟩
  | tail _ hmove ih =>
    obtain ⟨tasks, outcomes, hrun⟩ := ih
    cases hmove with
    | arrive _ r => exact ⟨_, _, hrun.arrive r⟩
    | fire _ => exact ⟨_, _, hrun.fire⟩
    | job hstep => exact ⟨_, _, hrun.job hstep⟩

/-! ## Tasks in turn -/

/-- The queue serves tasks in turn, on an engine that was `before` when the first of them started or
is to start. -/
inductive InTurn (limits : Limits) (before : Engine) : AppQueue → List AppTask → Prop where
  /-- There is no task. -/
  | idle {app : App} (h : app.engine = before) : InTurn limits before ⟨app, true, [], none, []⟩ []
  /-- The first task is about to be started. -/
  | starting {app : App} {waiting : List AppTask} {task : AppTask} (h : app.engine = before) :
    InTurn limits before ⟨app, false, waiting, none, [.start task]⟩ (task :: waiting)
  /-- The first task waits for the decompiler; some timers have fired. -/
  | decompiling {app : App} {waiting : List AppTask} {task : AppTask} {call : Call} {n : Nat}
    {rest : WorkRest}
    (hstart : task.work.start before limits = (app.engine, .decompiling call rest)) :
    InTurn limits before ⟨app, false, waiting, some (task, (call.steps n, rest)), []⟩
      (task :: waiting)
  /-- The first task has settled. -/
  | settled {app : App} {waiting : List AppTask} {task : AppTask}
    (h : app.engine = (task.work.run before limits).1) :
    InTurn limits before ⟨app, false, waiting, none,
      [.advance, .deliver task (task.work.run before limits).2.outcome]⟩ (task :: waiting)
  /-- The queue has advanced, and there is no other task. -/
  | last {app : App} {task : AppTask} (h : app.engine = (task.work.run before limits).1) :
    InTurn limits before ⟨app, true, [], none,
      [.deliver task (task.work.run before limits).2.outcome]⟩ [task]
  /-- The queue has advanced, and the next task is about to be started after the delivery. -/
  | passing {app : App} {waiting : List AppTask} {task next : AppTask}
    (h : app.engine = (task.work.run before limits).1) :
    InTurn limits before ⟨app, false, waiting, none,
      [.deliver task (task.work.run before limits).2.outcome, .start next]⟩ (task :: next :: waiting)

/-! ## Turns -/

/-- What work that is done alone leads to, some timers later. -/
inductive Leads (limits : Limits) (before : Engine) (w : Work) :
    Engine × Begun WorkRest WorkOutcome → Prop where
  /-- It is done. -/
  | finished {e : Engine} {r : Logged WorkOutcome} (h : w.start before limits = (e, .finished r)) :
    Leads limits before w (e, .finished r)
  /-- It waits for a call of the decompiler. -/
  | decompiling {e : Engine} {call : Call} {n : Nat} {rest : WorkRest}
    (h : w.start before limits = (e, .decompiling call rest)) :
    Leads limits before w (e, .decompiling (call.steps n) rest)

theorem leads_start (limits : Limits) (before : Engine) (w : Work) :
    Leads limits before w (w.start before limits) := by
  cases hstart : w.start before limits with
  | mk e begun =>
    cases begun with
    | finished r => exact .finished hstart
    | decompiling call rest => exact .decompiling (n := 0) hstart

theorem run_of_finished {before e : Engine} {w : Work} {r : Logged WorkOutcome}
    (h : w.start before limits = (e, .finished r)) : w.run before limits = (e, r) := by
  rw [Work.run, h]

theorem run_of_settled {before e : Engine} {w : Work} {call : Call} {n : Nat} {rest : WorkRest}
    (h : w.start before limits = (e, .decompiling call rest))
    (hsettled : (call.steps n).result?.isSome = true) :
    w.run before limits = rest.finish e (call.steps n) := by
  rw [Work.run, h, Call.steps_eq_run hsettled]

/-- A turn of the first task settles it with what it comes to alone, or it goes on waiting. -/
theorem effectOf_cases (app : App) {before : Engine} {w : Work}
    {part : Engine × Begun WorkRest WorkOutcome} (h : Leads limits before w part) :
    (∃ app', app'.engine = (w.run before limits).1 ∧ app'.defaults = app.defaults ∧
      app.effectOf part = ⟨app', [], .settled (w.run before limits).2.outcome⟩) ∨
    ∃ e call n rest, w.start before limits = (e, .decompiling call rest) ∧
      part = (e, .decompiling (call.steps n) rest) ∧ (call.steps n).result?.isSome = false ∧
      app.effectOf part = ⟨{ app with engine := e }, [], .suspended (call.steps n, rest)⟩ := by
  cases h with
  | @finished e r hstart =>
    left
    rw [run_of_finished hstart]
    exact ⟨{ app with engine := e, log := app.log ++ r.log }, rfl, rfl, rfl⟩
  | @decompiling e call n rest hstart =>
    unfold App.effectOf
    dsimp only
    cases hsettled : (call.steps n).result?.isSome with
    | true =>
      left
      rw [run_of_settled hstart hsettled, if_pos rfl]
      exact ⟨{ app with engine := (rest.finish e (call.steps n)).1,
                        log := app.log ++ (rest.finish e (call.steps n)).2.log }, rfl, rfl, rfl⟩
    | false =>
      right
      rw [if_neg Bool.false_ne_true]
      exact ⟨e, call, n, rest, hstart, rfl, hsettled, rfl⟩

/-- The first timer settles a task that waits for the decompiler: it is late enough for the call, since an
engine without faults has the program open. -/
theorem effectOf_of_decompiling (app : App) {before : Engine} (hfaultless : before.Faultless) {w : Work}
    {call : Call} {rest : WorkRest} (n : Nat)
    (hstart : w.start before limits = (app.engine, .decompiling call rest)) :
    ∃ app', app'.engine = (w.run before limits).1 ∧ app'.defaults = app.defaults ∧
      app.effectOf (app.engine, .decompiling (call.steps (n + 1)) rest) =
        ⟨app', [], .settled (w.run before limits).2.outcome⟩ := by
  have hanswered : (call.steps (n + 1)).result?.isSome = true := by
    have hopens := Work.opens_start hfaultless limits w
    rw [hstart] at hopens
    have hstep := (hopens call rest rfl).2
    rw [Call.steps, Call.steps_of_step_eq (Call.step_of_settled hstep)]
    exact hstep
  rcases effectOf_cases app (.decompiling hstart) with
    hsettled | ⟨e, call', n', rest', -, hpart, hpending, -⟩
  · exact hsettled
  · have hcall := (Begun.decompiling.inj (Prod.mk.inj hpart).2).1
    rw [← hcall, hanswered] at hpending
    cases hpending

theorem inTurn_absorb (app : App) (waiting : List AppTask) {before : Engine} {task : AppTask}
    {part : Engine × Begun WorkRest WorkOutcome} (h : Leads limits before task.work part) :
    InTurn limits before
        (SerialQueue.absorb ⟨app, false, waiting, none, []⟩ task (app.effectOf part))
        (task :: waiting) ∧
      (SerialQueue.absorb ⟨app, false, waiting, none, []⟩ task
        (app.effectOf part)).world.defaults = app.defaults := by
  rcases effectOf_cases app h with
    ⟨app', hengine, hdefaults, heffect⟩ | ⟨e, call, n, rest, hstart, -, -, heffect⟩
  · rw [heffect]
    exact ⟨.settled hengine, hdefaults⟩
  · rw [heffect]
    exact ⟨.decompiling hstart, rfl⟩

/-! ## Events -/

/-- What the arrival of a request does: the engine and the settings stay, and the task that the
request submits, if it submits one, is added to the queue. -/
theorem receive_cases (s : Session) (r : Request) :
    ∃ app, App.SameSetup s.app app ∧
      ((s.submittedBy r = [] ∧ (s.arrive r).queue = { s.queue with world := app }) ∨
        ∃ task, s.submittedBy r = [task] ∧
          (s.arrive r).queue = SerialQueue.submit { s.queue with world := app } task) := by
  have hsetup := (App.reacted s.app r).setup
  unfold arrive submittedBy AppQueue.receive
  dsimp only
  have hworld : s.queue.world = s.app := rfl
  rw [hworld]
  generalize s.app.reactAny r = reacted at hsetup
  obtain ⟨app, reaction⟩ := reacted
  cases reaction with
  | answer response =>
    have hsent := App.responded_respond app ⟨s.arrived, r.wantsNoBody⟩ response
    exact ⟨_, hsetup.trans hsent.setup, Or.inl ⟨rfl, rfl⟩⟩
  | raise raised =>
    obtain ⟨response, hsent⟩ :=
      App.exists_responded_raised app ⟨s.arrived, r.wantsNoBody⟩ raised
    exact ⟨_, hsetup.trans hsent.setup, Or.inl ⟨rfl, rfl⟩⟩
  | submit work format => exact ⟨app, hsetup, Or.inr ⟨_, rfl, rfl⟩⟩

section Events

variable {before : Engine} {q : AppQueue} {pending : List AppTask}

theorem InTurn.withWorld (h : InTurn limits before q pending) {app : App}
    (hengine : app.engine = q.world.engine) : InTurn limits before { q with world := app } pending := by
  cases h with
  | idle h => exact .idle (hengine.trans h)
  | starting h => exact .starting (hengine.trans h)
  | decompiling hstart =>
    rw [← hengine] at hstart
    exact .decompiling hstart
  | settled h => exact .settled (hengine.trans h)
  | last h => exact .last (hengine.trans h)
  | passing h => exact .passing (hengine.trans h)

theorem InTurn.submit (h : InTurn limits before q pending) (task : AppTask) :
    InTurn limits before (q.submit task) (pending ++ [task]) := by
  cases h with
  | idle h => exact .starting h
  | starting h => exact .starting h
  | decompiling hstart => exact .decompiling hstart
  | settled h => exact .settled h
  | last h => exact .passing h
  | passing h => exact .passing h

theorem InTurn.arrive {s : Session} (h : InTurn limits before s.queue pending) (r : Request) :
    InTurn limits before (s.arrive r).queue (pending ++ s.submittedBy r) ∧
      (s.arrive r).app.defaults = s.app.defaults := by
  obtain ⟨app, hsetup, ⟨htasks, hqueue⟩ | ⟨task, htasks, hqueue⟩⟩ := receive_cases s r
  · unfold Session.app
    rw [htasks, hqueue, List.append_nil]
    exact ⟨h.withWorld hsetup.engine, hsetup.defaults⟩
  · unfold Session.app
    rw [htasks, hqueue, world_submit]
    exact ⟨(h.withWorld hsetup.engine).submit task, hsetup.defaults⟩

theorem InTurn.fire {s : Session} (h : InTurn limits before s.queue pending) :
    InTurn limits before s.fire.queue pending ∧ s.fire.app.defaults = s.app.defaults := by
  obtain ⟨q, arrived⟩ := s
  cases (h : InTurn limits before q pending) with
  | idle h => exact ⟨.idle h, rfl⟩
  | starting h => exact ⟨.starting h, rfl⟩
  | @decompiling app waiting task call n rest hstart =>
    have hleads : Leads limits before task.work
        (app.engine, .decompiling (call.steps n).step rest) := by
      rw [← Call.steps_succ]
      exact .decompiling hstart
    exact inTurn_absorb app waiting hleads
  | settled h => exact ⟨.settled h, rfl⟩
  | last h => exact ⟨.last h, rfl⟩
  | passing h => exact ⟨.passing h, rfl⟩

/-- A job delivers the outcome of the first task and leaves the others, or it delivers nothing. -/
theorem InTurn.job {s : Session} (h : InTurn limits before s.queue pending)
    (hdefaults : s.app.defaults = limits) (hstep : s.queue.step? App.host = some q) :
    q.world.defaults = limits ∧
      ((s.deliveredNext = [] ∧ InTurn limits before q pending) ∨
        ∃ task rest, pending = task :: rest ∧
          s.deliveredNext = [(task, (task.work.run before limits).2.outcome)] ∧
          InTurn limits (task.work.run before limits).1 q rest) := by
  obtain ⟨q₀, arrived⟩ := s
  cases (h : InTurn limits before q₀ pending) with
  | idle => cases hstep
  | decompiling => cases hstep
  | @starting app waiting task h =>
    cases hstep
    have hleads := leads_start limits before task.work
    have hstart : App.host.start app task = app.effectOf (task.work.start before limits) := by
      show app.effectOf (task.work.start app.engine app.defaults) = _
      rw [h, show app.defaults = limits from hdefaults]
    obtain ⟨hturn, hsame⟩ := inTurn_absorb app waiting hleads
    rw [← hstart] at hturn hsame
    exact ⟨hsame.trans hdefaults, Or.inl ⟨rfl, hturn⟩⟩
  | @settled app waiting task h =>
    cases hstep
    cases waiting with
    | nil => exact ⟨hdefaults, Or.inl ⟨rfl, .last h⟩⟩
    | cons next waiting => exact ⟨hdefaults, Or.inl ⟨rfl, .passing h⟩⟩
  | @last app task h =>
    cases hstep
    have hsetup := (App.delivered app task (task.work.run before limits).2.outcome).setup
    refine ⟨hsetup.defaults.trans hdefaults, Or.inr ⟨task, [], rfl, rfl, ?_⟩⟩
    exact .idle (hsetup.engine.trans h)
  | @passing app waiting task next h =>
    cases hstep
    have hsetup := (App.delivered app task (task.work.run before limits).2.outcome).setup
    refine ⟨hsetup.defaults.trans hdefaults, Or.inr ⟨task, next :: waiting, rfl, rfl, ?_⟩⟩
    exact .starting (hsetup.engine.trans h)

end Events

/-! ## The sequential order -/

/-- A run keeps to the sequential order: some of the tasks are done, with what they come to one after
another, and the others are served in turn. -/
def InOrder (limits : Limits) (e : Engine) (s : Session) (tasks : List AppTask)
    (outcomes : List (AppTask × WorkOutcome)) : Prop :=
  ∃ done pending, tasks = done ++ pending ∧ outcomes = outcomesAlone limits e done ∧
    s.app.defaults = limits ∧ InTurn limits (engineAfter limits e done) s.queue pending

theorem inOrder_of_run {e : Engine} {key : String} {s : Session} {tasks : List AppTask}
    {outcomes : List (AppTask × WorkOutcome)} (h : Run (start e key limits) s tasks outcomes) :
    InOrder limits e s tasks outcomes := by
  induction h with
  | refl => exact ⟨[], [], rfl, rfl, rfl, .idle rfl⟩
  | @arrive s tasks outcomes h r ih =>
    obtain ⟨done, pending, rfl, hdone, hdefaults, hturn⟩ := ih
    obtain ⟨harrived, hsame⟩ := hturn.arrive r
    exact ⟨done, pending ++ s.submittedBy r, List.append_assoc _ _ _, hdone,
      hsame.trans hdefaults, harrived⟩
  | fire h ih =>
    obtain ⟨done, pending, rfl, hdone, hdefaults, hturn⟩ := ih
    obtain ⟨hfired, hsame⟩ := hturn.fire
    exact ⟨done, pending, rfl, hdone, hsame.trans hdefaults, hfired⟩
  | @job s tasks outcomes q h hstep ih =>
    obtain ⟨done, pending, rfl, hdone, hdefaults, hturn⟩ := ih
    obtain ⟨hsame, ⟨hnone, hnext⟩ | ⟨task, rest, rfl, hdelivered, hnext⟩⟩ :=
      hturn.job hdefaults hstep
    · rw [hnone, List.append_nil]
      exact ⟨done, pending, rfl, hdone, hsame, hnext⟩
    · refine ⟨done ++ [task], rest, ?_, ?_, hsame, ?_⟩
      · rw [List.append_assoc]
        rfl
      · rw [hdelivered, hdone, outcomesAlone_append]
        rfl
      · rw [engineAfter_append]
        exact hnext

/-! ## While a task waits -/

theorem suspended?_submit (q : AppQueue) (task : AppTask) :
    (q.submit task).suspended? = q.suspended? := by
  unfold SerialQueue.submit
  by_cases hidle : q.idle = true
  · rw [if_pos hidle]
    rfl
  · rw [if_neg hidle]

/-- Only the first task waits for the decompiler, and the engine is as it left it. -/
theorem InTurn.suspended {before : Engine} {q : AppQueue} {pending : List AppTask} {task : AppTask}
    {call : Call} {rest : WorkRest} (h : InTurn limits before q pending)
    (hsuspended : q.suspended? = some (task, (call, rest))) :
    q.jobs = [] ∧ q.idle = false ∧ ∃ call₀ n, call = call₀.steps n ∧
      task.work.start before limits = (q.world.engine, .decompiling call₀ rest) := by
  cases h with
  | decompiling hstart =>
    cases hsuspended
    exact ⟨rfl, rfl, _, _, rfl, hstart⟩
  | idle | starting | settled | last | passing => cases hsuspended

/-- A request that arrives while a task waits neither reaches the engine nor starts a task. -/
theorem arrive_of_busy {s : Session} (hidle : s.queue.idle = false) (r : Request) :
    (s.arrive r).queue.suspended? = s.queue.suspended? ∧ (s.arrive r).jobs = s.jobs ∧
      (s.arrive r).app.engine = s.app.engine := by
  obtain ⟨app, hsetup, ⟨-, hqueue⟩ | ⟨task, -, hqueue⟩⟩ := receive_cases s r
  · unfold jobs Session.app
    rw [hqueue]
    exact ⟨rfl, rfl, hsetup.engine⟩
  · have hbusy : ¬ ({ s.queue with world := app } : AppQueue).idle = true := by
      rw [hidle]
      exact Bool.false_ne_true
    unfold jobs Session.app
    rw [hqueue, suspended?_submit, world_submit]
    refine ⟨rfl, ?_, hsetup.engine⟩
    unfold SerialQueue.submit
    rw [if_neg hbusy]

/-! ## The end of a run -/

/-- The first task is delivered, and the queue goes on with the others. -/
def ServesFirst (limits : Limits) (before : Engine) (s : Session) (task : AppTask)
    (rest : List AppTask) : Prop :=
  ∃ s', Run s s' [] [(task, (task.work.run before limits).2.outcome)] ∧
    s'.app.defaults = limits ∧ InTurn limits (task.work.run before limits).1 s'.queue rest

section End

variable {before : Engine} {app : App} {waiting : List AppTask} {task : AppTask} {arrived : Nat}

theorem ServesFirst.of_run {s s' : Session} {rest : List AppTask} (h : Run s s' [] [])
    (hserves : ServesFirst limits before s' task rest) : ServesFirst limits before s task rest := by
  obtain ⟨s'', hrun, hdefaults, hturn⟩ := hserves
  exact ⟨s'', h.trans hrun, hdefaults, hturn⟩

theorem servesFirst_of_delivering {s : Session} {rest : List AppTask}
    (h : InTurn limits before s.queue (task :: rest)) (hdefaults : s.app.defaults = limits)
    (hdelivers : s.deliveredNext ≠ []) : ServesFirst limits before s task rest := by
  cases hjobs : s.queue.jobs with
  | nil =>
    unfold deliveredNext jobs at hdelivers
    rw [hjobs] at hdelivers
    exact absurd rfl hdelivers
  | cons job jobs =>
    have hstep : ∃ q, s.queue.step? App.host = some q := by
      unfold SerialQueue.step?
      rw [hjobs]
      exact ⟨_, rfl⟩
    obtain ⟨q, hstep⟩ := hstep
    obtain ⟨hsame, ⟨hnone, -⟩ | ⟨task', rest', heq, hdelivered, hturn⟩⟩ := h.job hdefaults hstep
    · exact absurd hnone hdelivers
    · obtain ⟨rfl, rfl⟩ := List.cons.inj heq
      have hrun := Run.refl.job hstep
      rw [hdelivered] at hrun
      exact ⟨_, hrun, hsame, hturn⟩

theorem servesFirst_of_settled (h : app.engine = (task.work.run before limits).1)
    (hdefaults : app.defaults = limits) :
    ServesFirst limits before ⟨⟨app, false, waiting, none,
      [.advance, .deliver task (task.work.run before limits).2.outcome]⟩, arrived⟩ task waiting := by
  have hadvance := Run.refl.job (s := ⟨⟨app, false, waiting, none,
    [.advance, .deliver task (task.work.run before limits).2.outcome]⟩, arrived⟩) rfl
  refine .of_run hadvance ?_
  cases waiting with
  | nil => exact servesFirst_of_delivering (.last h) hdefaults (List.cons_ne_nil _ _)
  | cons next waiting => exact servesFirst_of_delivering (.passing h) hdefaults (List.cons_ne_nil _ _)

theorem servesFirst_of_decompiling (hfaultless : before.Faultless) {call : Call} {n : Nat}
    {rest : WorkRest} (hstart : task.work.start before limits = (app.engine, .decompiling call rest))
    (hdefaults : app.defaults = limits) :
    ServesFirst limits before
      ⟨⟨app, false, waiting, some (task, (call.steps n, rest)), []⟩, arrived⟩ task waiting := by
  obtain ⟨app', hengine, hsame, heffect⟩ := effectOf_of_decompiling app hfaultless n hstart
  have hfire := Run.refl.fire (s := ⟨⟨app, false, waiting,
    some (task, (call.steps n, rest)), []⟩, arrived⟩)
  refine .of_run hfire ?_
  have hqueue : (fire ⟨⟨app, false, waiting, some (task, (call.steps n, rest)), []⟩, arrived⟩) =
      ⟨SerialQueue.absorb ⟨app, false, waiting, none, []⟩ task
        (app.effectOf (app.engine, .decompiling (call.steps (n + 1)) rest)), arrived⟩ := by
    rw [Call.steps_succ]
    rfl
  rw [hqueue, heffect]
  exact servesFirst_of_settled hengine (hsame.trans hdefaults)

theorem servesFirst_of_starting (hfaultless : before.Faultless) (h : app.engine = before)
    (hdefaults : app.defaults = limits) :
    ServesFirst limits before ⟨⟨app, false, waiting, none, [.start task]⟩, arrived⟩ task waiting := by
  have hstart := Run.refl.job (s := ⟨⟨app, false, waiting, none, [.start task]⟩, arrived⟩) rfl
  refine .of_run hstart ?_
  have hqueue : SerialQueue.perform App.host ⟨app, false, waiting, none, []⟩ (.start task) =
      SerialQueue.absorb ⟨app, false, waiting, none, []⟩ task
        (app.effectOf (task.work.start before limits)) := by
    rw [← h, ← hdefaults]
    rfl
  rw [hqueue]
  rcases effectOf_cases app (leads_start limits before task.work) with
    ⟨app', hengine, hsame, heffect⟩ | ⟨e, call, n, rest, hpart, -, -, heffect⟩
  · rw [heffect]
    exact servesFirst_of_settled hengine (hsame.trans hdefaults)
  · rw [heffect]
    exact servesFirst_of_decompiling hfaultless hpart hdefaults

theorem InTurn.servesFirst {s : Session} {rest : List AppTask} (hfaultless : before.Faultless)
    (h : InTurn limits before s.queue (task :: rest)) (hdefaults : s.app.defaults = limits) :
    ServesFirst limits before s task rest := by
  obtain ⟨q, arrived⟩ := s
  cases (h : InTurn limits before q (task :: rest)) with
  | starting h => exact servesFirst_of_starting hfaultless h hdefaults
  | decompiling hstart => exact servesFirst_of_decompiling hfaultless hstart hdefaults
  | settled h => exact servesFirst_of_settled h hdefaults
  | last h => exact servesFirst_of_delivering (.last h) hdefaults (List.cons_ne_nil _ _)
  | passing h => exact servesFirst_of_delivering (.passing h) hdefaults (List.cons_ne_nil _ _)

/-- Timers and jobs alone lead to a session in which all tasks are delivered. -/
theorem InTurn.exists_end {s : Session} {pending : List AppTask} (hfaultless : before.Faultless)
    (h : InTurn limits before s.queue pending) (hdefaults : s.app.defaults = limits) :
    ∃ s', Run s s' [] (outcomesAlone limits before pending) ∧ s'.jobs = [] ∧
      s'.queue.suspended? = none := by
  induction pending generalizing s before with
  | nil =>
    obtain ⟨q, arrived⟩ := s
    cases (h : InTurn limits before q []) with
    | idle h => exact ⟨_, .refl, rfl, rfl⟩
  | cons task pending ih =>
    obtain ⟨s', hrun, hsame, hturn⟩ := h.servesFirst hfaultless hdefaults
    obtain ⟨s'', hrest, hend⟩ := ih (task.work.faultless_run hfaultless limits) hturn hsame
    exact ⟨s'', hrun.trans hrest, hend⟩

end End

/-! ## Serial equivalence -/

theorem map_fst_outcomesAlone (e : Engine) (tasks : List AppTask) :
    (outcomesAlone limits e tasks).map Prod.fst = tasks := by
  induction tasks generalizing e with
  | nil => rfl
  | cons task tasks ih => rw [outcomesAlone, List.map_cons, ih]

/-- Whatever requests overlap, every task comes to what it would come to if all tasks were done one
after another in the order of their submission, each alone, from the loaded program on. -/
theorem outcomes_serial {snapshot : Snapshot} {e : Engine} {key : String} {s : Session}
    {tasks : List AppTask} {outcomes : List (AppTask × WorkOutcome)}
    (hload : Engine.ofSnapshot snapshot = .ok e)
    (hrun : Run (start e key limits) s tasks outcomes) :
    -- What was delivered is what the first tasks come to one after another.
    outcomes <+: outcomesAlone limits e tasks ∧
    -- When nothing is left to do, everything was delivered, and the engine is where the tasks lead.
    (s.jobs = [] → s.queue.suspended? = none →
      outcomes = outcomesAlone limits e tasks ∧ s.app.engine = engineAfter limits e tasks) ∧
    -- A task that waits for the decompiler has the engine to itself: the program is open, the engine
    -- is as the task alone would have left it, no job is pending, and no request changes that.
    (∀ task call rest, s.queue.suspended? = some (task, (call, rest)) →
      s.app.engine.isOpen = true ∧ s.jobs = [] ∧
      (∃ call₀ n, call = call₀.steps n ∧
        task.work.start (engineAfter limits e (outcomes.map Prod.fst)) limits =
          (s.app.engine, .decompiling call₀ rest)) ∧
      ∀ r, (s.arrive r).queue.suspended? = s.queue.suspended? ∧ (s.arrive r).jobs = [] ∧
        (s.arrive r).app.engine = s.app.engine) ∧
    -- Timers and jobs are enough for the rest to be delivered.
    ∃ s' rest, Run s s' [] rest ∧ s'.jobs = [] ∧ s'.queue.suspended? = none ∧
      outcomes ++ rest = outcomesAlone limits e tasks := by
  have he := Engine.faultless_ofSnapshot hload
  obtain ⟨done, pending, rfl, rfl, hdefaults, hturn⟩ := inOrder_of_run hrun
  have hbefore := faultless_engineAfter limits he done
  refine ⟨?_, ?_, ?_, ?_⟩
  · rw [outcomesAlone_append]
    exact List.prefix_append _ _
  · intro hjobs hsuspended
    obtain ⟨q, arrived⟩ := s
    cases (hturn : InTurn limits _ q pending) with
    | idle h =>
      rw [List.append_nil]
      exact ⟨rfl, h⟩
    | decompiling => cases hsuspended
    | starting | settled | last | passing => cases hjobs
  · intro task call rest hsuspended
    obtain ⟨hjobs, hidle, call₀, n, hcall, hstart⟩ := hturn.suspended hsuspended
    have hopens := Work.opens_start hbefore limits task.work
    rw [hstart] at hopens
    refine ⟨(hopens call₀ rest rfl).1, hjobs, ⟨call₀, n, hcall, ?_⟩, fun r => ?_⟩
    · rw [map_fst_outcomesAlone]
      exact hstart
    · obtain ⟨hsame, hnone, hengine⟩ := arrive_of_busy hidle r
      exact ⟨hsame, hnone.trans hjobs, hengine⟩
  · obtain ⟨s', hrest, hend⟩ := hturn.exists_end hbefore hdefaults
    refine ⟨s', _, hrest, hend.1, hend.2, ?_⟩
    rw [outcomesAlone_append]

/-- The code that an outcome shows, if it shows any. -/
def shownCode? : WorkOutcome → Option String
  | .report (.ok (.whole r)) => r.entryFunction?.map (·.code)
  | .tool _ (.ok (.answered (.function r?))) => r?.map (·.code)
  | _ => none

/-- A request for the report. -/
def overlappingReport : Request := ⟨"GET", "/report", none, none, "x"⟩

/-- A request for the code of a function. -/
def overlappingDecompile : Request :=
  ⟨"POST", "/tools/decompile_function", some "\x7b\"address\":\"8\"\x7d", some "application/json", "x"⟩

/-- The session before the requests. -/
def overlappingStart : Session :=
  start (Engine.ofProgram Report.labelledProgram) "k" .standard

/-- The session after both requests have arrived at the same moment. -/
def overlapping : Session :=
  (overlappingStart.arrive overlappingReport).arrive overlappingDecompile

theorem outcomes_serial_overlapping :
    ∃ s outcomes, Run overlapping s [] outcomes ∧ s.jobs = [] ∧
      outcomes.map (fun delivered => shownCode? delivered.2) =
        [some "return 0;", some "return 0;"] := by
  have hload : Engine.ofSnapshot Report.labelledSnapshot =
      .ok (Engine.ofProgram Report.labelledProgram) := by
    rw [Engine.ofSnapshot, Report.load_labelledSnapshot]
  have hrun := (Run.refl.arrive (s := overlappingStart) overlappingReport).arrive
    overlappingDecompile
  obtain ⟨-, -, -, s, rest, hrest, hjobs, -, houtcomes⟩ := outcomes_serial hload hrun
  refine ⟨s, rest, hrest, hjobs, ?_⟩
  rw [List.nil_append] at houtcomes
  rw [houtcomes]
  decide +kernel

end BinaryReport.Session
