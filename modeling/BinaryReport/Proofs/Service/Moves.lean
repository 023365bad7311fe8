import BinaryReport.Proofs.Service.Session

/-!
# Moves of a session

Every move leads from a phase to a phase and does no more to the tasks, the responses and the kept
report than `Session.Follows` says (`Session.Phase.move`). The proof goes through the phases one by
one; a request finds the queue idle or with a task that waits for the decompiler, and every job
belongs to one phase. What the service does with an event, `AppQueue.handle`, is a run of moves
(`Session.reaches_handle_arrival`, `Session.reaches_handle_timer`).
-/

namespace BinaryReport.Session

/-! ## Tasks -/

/-- The task that a job is about. -/
def taskOf? : QueueJob AppTask WorkOutcome → Option AppTask
  | .start task => some task
  | .advance => none
  | .deliver task _ => some task

/-- The tasks that have no response yet. -/
def tasks (q : AppQueue) : List AppTask :=
  q.jobs.filterMap taskOf? ++ q.waiting ++ (q.suspended?.map Prod.fst).toList

theorem mem_tasks {q : AppQueue} {task : AppTask} :
    task ∈ tasks q ↔ task ∈ q.jobs.filterMap taskOf? ∨ task ∈ q.waiting ∨
      task ∈ (q.suspended?.map Prod.fst).toList := by
  unfold tasks
  rw [List.mem_append, List.mem_append, or_assoc]

/-- All that a move does to the tasks, the responses and the kept report. -/
structure Follows (s s' : Session) : Prop where
  /-- Requests only add up. -/
  arrived : s.arrived ≤ s'.arrived
  /-- The key is the same. -/
  programKey : s'.app.programKey = s.app.programKey
  /-- The defaults are the same. -/
  defaults : s'.app.defaults = s.app.defaults
  /-- A new task belongs to a request that arrives. -/
  tasks : ∀ task ∈ tasks s'.queue, task ∈ tasks s.queue ∨
    (task.ticket.number = s.arrived ∧ s.arrived < s'.arrived)
  /-- A new response answers a request that arrives, or it delivers an outcome. -/
  responses : ∀ sent ∈ s'.app.responses, sent ∈ s.app.responses ∨
    (sent.1 = s.arrived ∧ s.arrived < s'.arrived) ∨
    ∃ task o r, .deliver task o ∈ s.jobs ∧ sent = task.ticket.sent r ∧
      ∀ report, o = .report (.ok (.whole report)) → r = App.reportResponse report task.format
  /-- A report that is newly kept is the report of the program. -/
  stored : ∀ r, s'.app.cached? = some r → s.app.cached? = some r ∨
    s'.program.HasReport s'.app.defaults r
  /-- An outcome that says the program was changed comes from a task that was just started, or from
  the session before, about the same program. -/
  changes : ∀ task o, .deliver task o ∈ s'.jobs → o.isChange = true →
    (.deliver task o ∈ s.jobs ∧ s'.program = s.program) ∨ s.jobs.head? = some (.start task)

/-- What a quiet move can do. -/
theorem Quiet.follows {s s' : Session} (h : Quiet s.app s'.app) (harrived : s'.arrived = s.arrived)
    (htasks : ∀ task ∈ tasks s'.queue, task ∈ tasks s.queue)
    (hchanges : ∀ task o, .deliver task o ∈ s'.jobs → o.isChange = true →
      (.deliver task o ∈ s.jobs ∧ s'.program = s.program) ∨ s.jobs.head? = some (.start task)) :
    Follows s s' := by
  constructor
  · exact Nat.le_of_eq harrived.symm
  · exact h.programKey
  · exact h.defaults
  · intro task htask
    exact Or.inl (htasks task htask)
  · intro sent hsent
    rw [h.responses] at hsent
    exact Or.inl hsent
  · intro r hcached
    rw [h.cached] at hcached
    exact Or.inl hcached
  · exact hchanges

/-! ## Requests -/

theorem world_submit (q : AppQueue) (task : AppTask) : (q.submit task).world = q.world := by
  unfold SerialQueue.submit
  by_cases h : q.idle = true
  · rw [if_pos h]
    rfl
  · rw [if_neg h]

theorem deliver_mem_submit {q : AppQueue} {task task' : AppTask} {o : WorkOutcome}
    (h : .deliver task' o ∈ (q.submit task).jobs) : .deliver task' o ∈ q.jobs := by
  unfold SerialQueue.submit at h
  by_cases hidle : q.idle = true
  · rw [if_pos hidle] at h
    rcases List.mem_append.1 h with hmem | hmem
    · exact hmem
    · cases List.mem_singleton.1 hmem
  · rw [if_neg hidle] at h
    exact h

theorem mem_tasks_submit {q : AppQueue} {task task' : AppTask}
    (h : task' ∈ tasks (q.submit task)) : task' ∈ tasks q ∨ task' = task := by
  unfold SerialQueue.submit at h
  rw [mem_tasks] at h ⊢
  by_cases hidle : q.idle = true
  · rw [if_pos hidle] at h
    rcases h with hjob | hwaiting | hsuspended
    · have hjob' : task' ∈ (q.jobs ++ [QueueJob.start task]).filterMap taskOf? := hjob
      rw [List.filterMap_append, List.mem_append] at hjob'
      rcases hjob' with hold | hnew
      · exact Or.inl (Or.inl hold)
      · exact Or.inr (List.mem_singleton.1 hnew)
    · exact Or.inl (Or.inr (Or.inl hwaiting))
    · exact Or.inl (Or.inr (Or.inr hsuspended))
  · rw [if_neg hidle] at h
    rcases h with hjob | hwaiting | hsuspended
    · exact Or.inl (Or.inl hjob)
    · rcases List.mem_append.1 hwaiting with hold | hnew
      · exact Or.inl (Or.inr (Or.inl hold))
      · exact Or.inr (List.mem_singleton.1 hnew)
    · exact Or.inl (Or.inr (Or.inr hsuspended))

section Received

variable {q q' : AppQueue} {number : Nat} {r : Request}

theorem setup_of_received (h : AppQueue.Received q number r q') :
    App.SameSetup q.world q'.world := by
  cases h with
  | answered hsetup _ _ _ => exact hsetup
  | submitted hsetup _ _ _ =>
    rw [world_submit]
    exact hsetup

theorem cached_of_received (h : AppQueue.Received q number r q') {report : AnalysisReport}
    (hcached : q'.world.cached? = some report) : q.world.cached? = some report := by
  cases h with
  | answered _ hcache _ _ => exact hcache report hcached
  | submitted _ hcache _ _ =>
    rw [world_submit] at hcached
    exact hcache report hcached

theorem responses_of_received (h : AppQueue.Received q number r q') {sent : Nat × Response}
    (hsent : sent ∈ q'.world.responses) : sent ∈ q.world.responses ∨ sent.1 = number := by
  cases h with
  | answered _ _ hresponses _ =>
    have hsent' := hresponses ▸ hsent
    rcases List.mem_append.1 hsent' with hold | hnew
    · exact Or.inl hold
    · right
      rw [List.mem_singleton.1 hnew]
      rfl
  | submitted _ _ hresponses _ =>
    rw [world_submit] at hsent
    exact Or.inl (hresponses ▸ hsent)

theorem tasks_of_received (h : AppQueue.Received q number r q') {task : AppTask}
    (htask : task ∈ tasks q') : task ∈ tasks q ∨ task.ticket.number = number := by
  cases h with
  | answered => exact Or.inl htask
  | submitted =>
    rcases mem_tasks_submit htask with hold | rfl
    · exact Or.inl hold
    · exact Or.inr rfl

theorem deliver_of_received (h : AppQueue.Received q number r q') {task : AppTask}
    {o : WorkOutcome} (hmem : .deliver task o ∈ q'.jobs) : .deliver task o ∈ q.jobs := by
  cases h with
  | answered => exact hmem
  | submitted =>
    have hold := deliver_mem_submit hmem
    exact hold

end Received

theorem follows_arrive (s : Session) (r : Request) : Follows s (s.arrive r) := by
  have hreceived := AppQueue.received s.queue s.arrived r
  have hsetup := setup_of_received hreceived
  have hlt : s.arrived < (s.arrive r).arrived := Nat.lt_succ_self s.arrived
  constructor
  · exact Nat.le_of_lt hlt
  · exact hsetup.programKey
  · exact hsetup.defaults
  · intro task htask
    rcases tasks_of_received hreceived htask with hold | hnew
    · exact Or.inl hold
    · exact Or.inr ⟨hnew, hlt⟩
  · intro sent hsent
    rcases responses_of_received hreceived hsent with hold | hnew
    · exact Or.inl hold
    · exact Or.inr (Or.inl ⟨hnew, hlt⟩)
  · intro report hcached
    exact Or.inl (cached_of_received hreceived hcached)
  · intro task o hmem _
    have hprogram := congrArg Engine.program hsetup.engine
    exact Or.inl ⟨deliver_of_received hreceived hmem, hprogram⟩

/-! ## Turns -/

/-- A turn leaves the task that it is for among the tasks, and no new one. -/
theorem mem_tasks_absorb {app : App} {waiting : List AppTask} {task other : AppTask} {w : Work}
    {effect : Effect App AppTask (Call × WorkRest) WorkOutcome} (h : TurnEffect app w effect)
    (hother : other ∈ tasks (SerialQueue.absorb ⟨app, false, waiting, none, []⟩ task effect)) :
    other = task ∨ other ∈ waiting := by
  cases h with
  | settled =>
    have hother' : other ∈ task :: waiting ++ [] := hother
    rw [List.append_nil] at hother'
    exact List.mem_cons.1 hother'
  | suspended =>
    have hother' : other ∈ waiting ++ [task] := hother
    rcases List.mem_append.1 hother' with hmem | hmem
    · exact Or.inr hmem
    · exact Or.inl (List.mem_singleton.1 hmem)

theorem follows_absorb {s : Session} {waiting : List AppTask} {task : AppTask}
    {effect : Effect App AppTask (Call × WorkRest) WorkOutcome} (htask : task ∈ tasks s.queue)
    (hwaiting : ∀ other ∈ waiting, other ∈ tasks s.queue) (h : TurnEffect s.app task.work effect)
    (hchange : ∀ app o, effect = ⟨app, [], .settled o⟩ → o.isChange = true →
      s.jobs.head? = some (.start task)) :
    Follows s ⟨SerialQueue.absorb ⟨s.app, false, waiting, none, []⟩ task effect, s.arrived⟩ := by
  have htasks : ∀ other ∈ tasks (SerialQueue.absorb ⟨s.app, false, waiting, none, []⟩ task effect),
      other ∈ tasks s.queue := by
    intro other hother
    rcases mem_tasks_absorb h hother with rfl | hmem
    · exact htask
    · exact hwaiting other hmem
  cases h with
  | @settled app o hquiet hdone =>
    refine hquiet.follows rfl htasks ?_
    intro other o' hmem ho
    have hmem' : .deliver other o' ∈ [QueueJob.advance, .deliver task o] := hmem
    rcases List.mem_cons.1 hmem' with heq | hlast
    · cases heq
    · cases List.mem_singleton.1 hlast
      exact Or.inr (hchange app o rfl ho)
  | suspended hquiet hfaultless hprogram hunderway =>
    refine hquiet.follows rfl htasks ?_
    intro other o' hmem
    cases hmem

/-! ## Advances -/

section Advance

variable {app : App} {waiting : List AppTask} {task : AppTask} {o : WorkOutcome}

theorem phase_advance (hfaultless : app.engine.Faultless) (hawaits : Awaits app task o) :
    Phase (SerialQueue.advance ⟨app, false, waiting, none, [.deliver task o]⟩) := by
  cases waiting with
  | nil => exact .last hfaultless hawaits
  | cons next waiting => exact .passing hfaultless hawaits

theorem follows_advance (n : Nat) :
    Follows ⟨⟨app, false, waiting, none, [.advance, .deliver task o]⟩, n⟩
      ⟨SerialQueue.advance ⟨app, false, waiting, none, [.deliver task o]⟩, n⟩ := by
  cases waiting with
  | nil =>
    refine Quiet.follows ⟨rfl, rfl, rfl, rfl⟩ rfl (fun _ hother => hother) ?_
    intro other o' hmem _
    exact Or.inl ⟨List.mem_cons_of_mem _ hmem, rfl⟩
  | cons next waiting =>
    refine Quiet.follows ⟨rfl, rfl, rfl, rfl⟩ rfl (fun _ hother => hother) ?_
    intro other o' hmem _
    left
    have hmem' : QueueJob.deliver other o' ∈ [.deliver task o, .start next] := hmem
    rcases List.mem_cons.1 hmem' with heq | hnext
    · rw [heq]
      exact ⟨List.mem_cons_of_mem _ List.mem_cons_self, rfl⟩
    · cases List.mem_singleton.1 hnext

end Advance

/-! ## Deliveries -/

theorem Awaits.fresh_of_delivered {app app' : App} {task : AppTask} {o : WorkOutcome}
    (h : Awaits app task o) (hdelivered : App.Delivered app task o app') : Fresh app' := by
  intro r hr
  rw [hdelivered.setup.engine, hdelivered.setup.defaults]
  rcases hdelivered.same r hr with hold | hnew
  · by_cases ho : o.isChange = true
    · -- What was kept before the change is not kept any more.
      rw [hdelivered.cleared ho] at hr
      cases hr
    · exact h.fresh (eq_false_of_ne_true ho) r hold
  · exact h.report r hnew

/-- A job that is done adds no task. -/
theorem mem_tasks_of_rest {q : AppQueue} {job : QueueJob AppTask WorkOutcome}
    {rest : List (QueueJob AppTask WorkOutcome)} (hjobs : q.jobs = job :: rest) {app : App}
    {task : AppTask} (h : task ∈ tasks { q with world := app, jobs := rest }) :
    task ∈ tasks q := by
  rw [mem_tasks] at h ⊢
  rcases h with hjob | hwaiting | hsuspended
  · left
    obtain ⟨other, hother, htask⟩ := List.mem_filterMap.1 hjob
    refine List.mem_filterMap.2 ⟨other, ?_, htask⟩
    rw [hjobs]
    exact List.mem_cons_of_mem job hother
  · exact Or.inr (Or.inl hwaiting)
  · exact Or.inr (Or.inr hsuspended)

theorem follows_deliver {s : Session} {task : AppTask} {o : WorkOutcome}
    (rest : List (QueueJob AppTask WorkOutcome)) (hjobs : s.jobs = .deliver task o :: rest)
    (hawaits : Awaits s.app task o) :
    Follows s ⟨{ s.queue with world := s.app.deliver task o, jobs := rest }, s.arrived⟩ := by
  have hdelivered := App.delivered s.app task o
  constructor
  · exact Nat.le_refl s.arrived
  · exact hdelivered.setup.programKey
  · exact hdelivered.setup.defaults
  · intro other hother
    exact Or.inl (mem_tasks_of_rest hjobs hother)
  · intro sent hsent
    obtain ⟨r, hresponses, hreport⟩ := hdelivered.responses
    have hsent' : sent ∈ (s.app.deliver task o).responses := hsent
    rw [hresponses] at hsent'
    rcases List.mem_append.1 hsent' with hold | hnew
    · exact Or.inl hold
    · right
      right
      refine ⟨task, o, r, ?_, List.mem_singleton.1 hnew, hreport⟩
      rw [hjobs]
      exact List.mem_cons_self
  · intro r hcached
    rcases hdelivered.same r hcached with hold | hnew
    · exact Or.inl hold
    · right
      show (s.app.deliver task o).engine.program.HasReport (s.app.deliver task o).defaults r
      rw [hdelivered.setup.engine, hdelivered.setup.defaults]
      exact hawaits.report r hnew
  · intro other o' hother _
    left
    refine ⟨?_, congrArg Engine.program hdelivered.setup.engine⟩
    rw [hjobs]
    exact List.mem_cons_of_mem _ hother

/-! ## Moves -/

theorem Fresh.of_setup {app app' : App} (h : Fresh app) (hsetup : App.SameSetup app app')
    (hcache : ∀ r, app'.cached? = some r → app.cached? = some r) : Fresh app' := by
  intro r hr
  rw [hsetup.engine, hsetup.defaults]
  exact h r (hcache r hr)

theorem Phase.arrive {s : Session} (h : Phase s.queue) (hjobs : s.jobs = []) (r : Request) :
    Phase (s.arrive r).queue := by
  obtain ⟨q, n⟩ := s
  have hreceived := AppQueue.received q n r
  show Phase (q.receive n r)
  generalize q.receive n r = q' at hreceived
  cases (h : Phase q) with
  | idle hfaultless hfresh =>
    cases hreceived with
    | answered hsetup hcache _ _ =>
      exact .idle (hsetup.engine ▸ hfaultless) (hfresh.of_setup hsetup hcache)
    | submitted hsetup hcache _ _ =>
      exact .starting (hsetup.engine ▸ hfaultless) (hfresh.of_setup hsetup hcache)
  | decompiling hfaultless hfresh hunderway =>
    cases hreceived with
    | answered hsetup hcache _ _ =>
      rw [← hsetup.engine, ← hsetup.defaults] at hunderway
      exact .decompiling (hsetup.engine ▸ hfaultless) (hfresh.of_setup hsetup hcache) hunderway
    | submitted hsetup hcache _ _ =>
      rw [← hsetup.engine, ← hsetup.defaults] at hunderway
      exact .decompiling (hsetup.engine ▸ hfaultless) (hfresh.of_setup hsetup hcache) hunderway
  | starting | settled | last | passing => cases hjobs

theorem Phase.fire {s : Session} (h : Phase s.queue) (hjobs : s.jobs = []) :
    Phase s.fire.queue ∧ Follows s s.fire := by
  obtain ⟨q, n⟩ := s
  cases (h : Phase q) with
  | @idle app hfaultless hfresh =>
    refine ⟨.idle hfaultless hfresh, ?_⟩
    refine Quiet.follows ⟨rfl, rfl, rfl, rfl⟩ rfl (fun _ htask => htask) ?_
    intro task o hmem
    cases hmem
  | @decompiling app waiting task call rest hfaultless hfresh hunderway =>
    have heffect := turnEffect_effectOf hunderway.step
    refine ⟨phase_absorb hfresh heffect, ?_⟩
    refine follows_absorb ?_ ?_ heffect ?_
    · exact mem_tasks.2 (Or.inr (Or.inr List.mem_cons_self))
    · intro other hother
      exact mem_tasks.2 (Or.inr (Or.inl hother))
    · intro app' o hsettled ho
      rw [isChange_of_resumed hunderway.step hsettled] at ho
      cases ho
  | starting | settled | last | passing => cases hjobs

theorem Phase.job {s : Session} (h : Phase s.queue) {q : AppQueue}
    (hstep : s.queue.step? App.host = some q) : Phase q ∧ Follows s ⟨q, s.arrived⟩ := by
  obtain ⟨q₀, n⟩ := s
  cases (h : Phase q₀) with
  | idle => cases hstep
  | decompiling => cases hstep
  | @starting app waiting task hfaultless hfresh =>
    cases hstep
    have heffect := turnEffect_effectOf (Work.underway_start hfaultless task.work)
    refine ⟨phase_absorb hfresh heffect, ?_⟩
    refine follows_absorb ?_ ?_ heffect ?_
    · exact mem_tasks.2 (Or.inl List.mem_cons_self)
    · intro other hother
      exact mem_tasks.2 (Or.inr (Or.inl hother))
    · intro app' o _ _
      rfl
  | settled hfaultless hawaits =>
    cases hstep
    exact ⟨phase_advance hfaultless hawaits, follows_advance n⟩
  | @last app task o hfaultless hawaits =>
    cases hstep
    have hdelivered := App.delivered app task o
    refine ⟨.idle ?_ (hawaits.fresh_of_delivered hdelivered), ?_⟩
    · exact hdelivered.setup.engine ▸ hfaultless
    · exact follows_deliver [] rfl hawaits
  | @passing app waiting task next o hfaultless hawaits =>
    cases hstep
    have hdelivered := App.delivered app task o
    refine ⟨.starting ?_ (hawaits.fresh_of_delivered hdelivered), ?_⟩
    · exact hdelivered.setup.engine ▸ hfaultless
    · exact follows_deliver [.start next] rfl hawaits

/-- Every move leads from a phase to a phase and keeps to `Session.Follows`. -/
theorem Phase.move {s s' : Session} (h : Phase s.queue) (hmove : Move s s') :
    Phase s'.queue ∧ Follows s s' := by
  cases hmove with
  | arrive hjobs r => exact ⟨h.arrive hjobs r, follows_arrive s r⟩
  | fire hjobs => exact h.fire hjobs
  | job hstep => exact h.job hstep

/-! ## Runs -/

section Runs

variable {e : Engine} {key : String} {limits : Limits} {s : Session}

/-- The queue of a session is always in a phase. -/
theorem phase_of_reaches (he : e.Faultless) (h : Reaches (start e key limits) s) :
    Phase s.queue := by
  induction h with
  | refl =>
    refine .idle he ?_
    intro r hr
    cases hr
  | tail _ hmove ih => exact (ih.move hmove).1

theorem follows_of_reaches (he : e.Faultless) (h : Reaches (start e key limits) s) {s' : Session}
    (hmove : Move s s') : Follows s s' :=
  ((phase_of_reaches he h).move hmove).2

theorem settings_of_reaches (he : e.Faultless) (h : Reaches (start e key limits) s) :
    s.app.programKey = key ∧ s.app.defaults = limits := by
  induction h with
  | refl => exact ⟨rfl, rfl⟩
  | tail hreach hmove ih =>
    have hfollows := follows_of_reaches he hreach hmove
    exact ⟨hfollows.programKey.trans ih.1, hfollows.defaults.trans ih.2⟩

/-- Doing jobs is a run. -/
theorem reaches_drainFor (q : AppQueue) (arrived n : Nat) :
    Reaches ⟨q, arrived⟩ ⟨q.drainFor App.host n, arrived⟩ := by
  induction n generalizing q with
  | zero => exact .refl
  | succ n ih =>
    rw [SerialQueue.drainFor]
    cases hstep : q.step? App.host with
    | none => exact .refl
    | some q' => exact (ih q').head (.job hstep)

/-- A request that arrives on its own, with all jobs that arise from it. -/
theorem reaches_handle_of_arrive (s : Session) (r : Request) :
    Reaches (s.arrive r) ⟨s.queue.handle (.arrival s.arrived [r]), s.arrived + 1⟩ :=
  reaches_drainFor (s.arrive r).queue (s.arrived + 1) ((s.arrive r).queue.load App.host)

theorem reaches_handle_arrival (h : s.jobs = []) (r : Request) :
    Reaches s ⟨s.queue.handle (.arrival s.arrived [r]), s.arrived + 1⟩ :=
  (reaches_handle_of_arrive s r).head (.arrive h r)

/-- A timer that fires, with all jobs that arise from it. -/
theorem reaches_handle_timer (h : s.jobs = []) :
    Reaches s ⟨s.queue.handle .timer, s.arrived⟩ := by
  have hjobs := reaches_drainFor s.fire.queue s.arrived (s.fire.queue.load App.host)
  exact hjobs.head (.fire h)

end Runs

/-! ## Jobs of a phase -/

theorem Phase.fresh {q : AppQueue} (h : Phase q) (hjobs : q.jobs = []) : Fresh q.world := by
  cases h with
  | idle _ hfresh => exact hfresh
  | decompiling _ hfresh _ => exact hfresh
  | starting | settled | last | passing => cases hjobs

theorem Phase.awaits {q : AppQueue} (h : Phase q) {task : AppTask} {o : WorkOutcome}
    (hmem : .deliver task o ∈ q.jobs) : Awaits q.world task o := by
  cases h with
  | idle | decompiling => cases hmem
  | starting => cases List.mem_singleton.1 hmem
  | settled _ hawaits =>
    rcases List.mem_cons.1 hmem with heq | hmem'
    · cases heq
    · cases List.mem_singleton.1 hmem'
      exact hawaits
  | last _ hawaits =>
    cases List.mem_singleton.1 hmem
    exact hawaits
  | passing _ hawaits =>
    rcases List.mem_cons.1 hmem with heq | hmem'
    · cases heq
      exact hawaits
    · cases List.mem_singleton.1 hmem'

end BinaryReport.Session
