import BinaryReport.Proofs.Queue.Record

/-!
# The discipline of serial queues

Tasks may be submitted at any time, by anyone: from outside, from a running task, from the delivery
of an outcome. Whatever they do and however long they take, a serial queue starts them in the order
of submission and one at a time, and delivers to each submitter what its own task has settled with.

`SerialQueue.Run` is a part of the life of a queue with the events that are seen of it. The proof
is one invariant, `SerialQueue.Serving`: it lists the six states of a queue with the record that goes
with each.
-/

namespace BinaryReport

variable {σ τ κ ρ : Type}

/-- What the turns of a task can lead to: its first turn starts it, every other one goes on where the
one before has left it. -/
inductive Host.LeadsTo (h : Host σ τ κ ρ) (task : τ) : Turn κ ρ → Prop where
  /-- The first turn. -/
  | start (world : σ) : LeadsTo h task (h.start world task).turn
  /-- A turn after another one. -/
  | resume {rest : κ} (hrest : LeadsTo h task (.suspended rest)) (world : σ) :
    LeadsTo h task (h.resume world task rest).turn

namespace SerialQueue

variable {h : Host σ τ κ ρ} {q q' : SerialQueue σ τ κ ρ} {r : QueueRecord τ ρ}
  {es es' : List (QueueEvent τ ρ)}

/-! ## Runs -/

/-- What is seen of a turn of a task: the tasks that it submits, and the outcome if it settles. -/
def turnEvents (task : τ) (effect : Effect σ τ κ ρ) : List (QueueEvent τ ρ) :=
  effect.submitted.map .submitted ++
    match effect.turn with
    | .settled o => [.settled task o]
    | .suspended _ => []

/-- What is seen of a job. -/
def jobEvents (h : Host σ τ κ ρ) (world : σ) : QueueJob τ ρ → List (QueueEvent τ ρ)
  | .start task => .started task :: turnEvents task (h.start world task)
  | .advance => [.advanced]
  | .deliver task o => .delivered task o :: (h.deliver world task o).2.map .submitted

/-- A part of the life of a queue, from `q` on, with the events that are seen of it. A task may be
submitted, the task that waits may go on, and the world may change at any time. -/
inductive Run (h : Host σ τ κ ρ) (q : SerialQueue σ τ κ ρ) :
    SerialQueue σ τ κ ρ → List (QueueEvent τ ρ) → Prop where
  /-- Nothing has happened. -/
  | refl : Run h q q []
  /-- The world changes. -/
  | change {q' : SerialQueue σ τ κ ρ} {es : List (QueueEvent τ ρ)} (hrun : Run h q q' es)
    (world : σ) : Run h q { q' with world := world } es
  /-- A task is submitted from outside. -/
  | submit {q' : SerialQueue σ τ κ ρ} {es : List (QueueEvent τ ρ)} (hrun : Run h q q' es)
    (task : τ) : Run h q (q'.submit task) (es ++ [.submitted task])
  /-- The task that waits goes on. -/
  | wake {q' : SerialQueue σ τ κ ρ} {es : List (QueueEvent τ ρ)} {task : τ} {rest : κ}
    (hrun : Run h q q' es) (hsuspended : q'.suspended? = some (task, rest)) :
    Run h q (q'.wake h) (es ++ turnEvents task (h.resume q'.world task rest))
  /-- The next job is done. -/
  | job {q' q'' : SerialQueue σ τ κ ρ} {es : List (QueueEvent τ ρ)} {job : QueueJob τ ρ}
    (hrun : Run h q q' es) (hjob : q'.jobs.head? = some job) (hstep : q'.step? h = some q'') :
    Run h q q'' (es ++ jobEvents h q'.world job)

theorem Run.trans {q'' : SerialQueue σ τ κ ρ} (hrun : Run h q q' es) (hrun' : Run h q' q'' es') :
    Run h q q'' (es ++ es') := by
  induction hrun' with
  | refl =>
    rw [List.append_nil]
    exact hrun
  | change _ world ih => exact ih.change world
  | submit _ task ih =>
    rw [← List.append_assoc]
    exact ih.submit task
  | wake _ hsuspended ih =>
    rw [← List.append_assoc]
    exact ih.wake hsuspended
  | job _ hjob hstep ih =>
    rw [← List.append_assoc]
    exact ih.job hjob hstep

/-- A run of one job. -/
theorem run_job {job : QueueJob τ ρ} {jobs : List (QueueJob τ ρ)} (hjobs : q.jobs = job :: jobs) :
    Run h q (perform h { q with jobs := jobs } job) (jobEvents h q.world job) := by
  have hhead : q.jobs.head? = some job := by rw [hjobs, List.head?_cons]
  have hstep : q.step? h = some (perform h { q with jobs := jobs } job) := by rw [step?, hjobs]
  exact Run.refl.job hhead hstep

/-! ## The states of a queue -/

/-- The six states of a queue, each with the record that goes with it. -/
inductive Serving (h : Host σ τ κ ρ) : SerialQueue σ τ κ ρ → QueueRecord τ ρ → Prop where
  /-- There is nothing to do. -/
  | idle {world : σ} {done : List (τ × ρ)} :
    Serving h ⟨world, true, [], none, []⟩ ⟨done.map Prod.fst, done.map Prod.fst, done, done⟩
  /-- A task is about to be started. -/
  | starting {world : σ} {waiting : List τ} {task : τ} {done : List (τ × ρ)} :
    Serving h ⟨world, false, waiting, none, [.start task]⟩
      ⟨done.map Prod.fst ++ task :: waiting, done.map Prod.fst, done, done⟩
  /-- A task waits for something outside. -/
  | suspended {world : σ} {waiting : List τ} {task : τ} {rest : κ} {done : List (τ × ρ)}
    (hleads : h.LeadsTo task (.suspended rest)) :
    Serving h ⟨world, false, waiting, some (task, rest), []⟩
      ⟨done.map Prod.fst ++ task :: waiting, done.map Prod.fst ++ [task], done, done⟩
  /-- A task has settled. -/
  | settled {world : σ} {waiting : List τ} {task : τ} {o : ρ} {done : List (τ × ρ)} :
    Serving h ⟨world, false, waiting, none, [.advance, .deliver task o]⟩
      ⟨done.map Prod.fst ++ task :: waiting, done.map Prod.fst ++ [task], done ++ [(task, o)], done⟩
  /-- The queue has advanced, and no task is left. -/
  | last {world : σ} {task : τ} {o : ρ} {done : List (τ × ρ)} :
    Serving h ⟨world, true, [], none, [.deliver task o]⟩
      ⟨done.map Prod.fst ++ [task], done.map Prod.fst ++ [task], done ++ [(task, o)], done⟩
  /-- The queue has advanced, and the next task is about to be started after the delivery. -/
  | passing {world : σ} {waiting : List τ} {task next : τ} {o : ρ} {done : List (τ × ρ)} :
    Serving h ⟨world, false, waiting, none, [.deliver task o, .start next]⟩
      ⟨done.map Prod.fst ++ task :: next :: waiting, done.map Prod.fst ++ [task],
        done ++ [(task, o)], done⟩

/-- The record holds no outcome that its task did not lead to. -/
def OwnOutcomes (h : Host σ τ κ ρ) (es : List (QueueEvent τ ρ)) : Prop :=
  ∀ task o, .settled task o ∈ es → h.LeadsTo task (.settled o)

/-- What events lead to: a state with its record, through events that were allowed. -/
structure Follows (h : Host σ τ κ ρ) (r : QueueRecord τ ρ) (q : SerialQueue σ τ κ ρ)
    (es : List (QueueEvent τ ρ)) : Prop where
  serving : Serving h q (r.addAll es)
  allowed : r.AllowsAll es
  own : OwnOutcomes h es

/-! ## Submitting -/

theorem Serving.change (hserving : Serving h q r) (world : σ) :
    Serving h { q with world := world } r := by
  cases hserving with
  | idle => exact .idle
  | starting => exact .starting
  | suspended hleads => exact .suspended hleads
  | settled => exact .settled
  | last => exact .last
  | passing => exact .passing

theorem Serving.submit (hserving : Serving h q r) (task : τ) :
    Serving h (q.submit task) (r.add (.submitted task)) := by
  cases hserving with
  | idle => exact .starting
  | @starting world waiting first done =>
    show Serving h ⟨world, false, waiting ++ [task], none, [.start first]⟩
      ⟨(done.map Prod.fst ++ first :: waiting) ++ [task], _, _, _⟩
    rw [List.append_assoc]
    exact .starting
  | @suspended world waiting first rest done hleads =>
    show Serving h ⟨world, false, waiting ++ [task], some (first, rest), []⟩
      ⟨(done.map Prod.fst ++ first :: waiting) ++ [task], _, _, _⟩
    rw [List.append_assoc]
    exact .suspended hleads
  | @settled world waiting first o done =>
    show Serving h ⟨world, false, waiting ++ [task], none, [.advance, .deliver first o]⟩
      ⟨(done.map Prod.fst ++ first :: waiting) ++ [task], _, _, _⟩
    rw [List.append_assoc]
    exact .settled
  | @last world first o done =>
    show Serving h ⟨world, false, [], none, [.deliver first o, .start task]⟩
      ⟨(done.map Prod.fst ++ [first]) ++ [task], _, _, _⟩
    rw [List.append_assoc]
    exact .passing
  | @passing world waiting first next o done =>
    show Serving h ⟨world, false, waiting ++ [task], none, [.deliver first o, .start next]⟩
      ⟨(done.map Prod.fst ++ first :: next :: waiting) ++ [task], _, _, _⟩
    rw [List.append_assoc]
    exact .passing

theorem Serving.submitAll (hserving : Serving h q r) (tasks : List τ) :
    Serving h (q.submitAll tasks) (r.addAll (tasks.map .submitted)) := by
  induction tasks generalizing q r with
  | nil => exact hserving
  | cons task tasks ih => exact ih (hserving.submit task)

theorem submitAll_of_busy (hidle : q.idle = false) (tasks : List τ) :
    q.submitAll tasks = { q with waiting := q.waiting ++ tasks } := by
  induction tasks generalizing q with
  | nil =>
    rw [List.append_nil]
    rfl
  | cons task tasks ih =>
    have hsubmit : q.submit task = { q with waiting := q.waiting ++ [task] } := by
      unfold submit
      rw [hidle]
      rfl
    have hrest : (q.submit task).submitAll tasks =
        { q.submit task with waiting := (q.submit task).waiting ++ tasks } := by
      refine ih ?_
      rw [hsubmit]
      exact hidle
    show (q.submit task).submitAll tasks = _
    rw [hrest, hsubmit]
    simp only [List.append_assoc, List.singleton_append]

theorem follows_submitted (hserving : Serving h q r) (tasks : List τ) :
    Follows h r (q.submitAll tasks) (tasks.map .submitted) := by
  refine ⟨hserving.submitAll tasks, r.allowsAll_submitted tasks, ?_⟩
  intro task o hmem
  obtain ⟨other, -, heq⟩ := List.mem_map.1 hmem
  cases heq

/-! ## Turns -/

/-- The record while a task is running. -/
def runningRecord (done : List (τ × ρ)) (task : τ) (waiting : List τ) : QueueRecord τ ρ :=
  ⟨done.map Prod.fst ++ task :: waiting, done.map Prod.fst ++ [task], done, done⟩

/-- The record when a task has settled and its outcome was not delivered yet. -/
def settledRecord (done : List (τ × ρ)) (task : τ) (o : ρ) (waiting : List τ) : QueueRecord τ ρ :=
  ⟨done.map Prod.fst ++ task :: waiting, done.map Prod.fst ++ [task], done ++ [(task, o)], done⟩

section Turn

variable (world : σ) (waiting : List τ) (done : List (τ × ρ)) {task : τ} {effect : Effect σ τ κ ρ}
  {rest : κ} {o : ρ}

/-- The tasks that the running task submits wait. -/
theorem addAll_submitted_running (tasks : List τ) :
    (runningRecord done task waiting).addAll (tasks.map .submitted) =
      runningRecord done task (waiting ++ tasks) := by
  rw [QueueRecord.addAll_submitted]
  unfold runningRecord
  rw [List.append_assoc, List.cons_append]

theorem turnEvents_suspended (hturn : effect.turn = .suspended rest) :
    turnEvents task effect = effect.submitted.map .submitted := by
  rw [turnEvents, hturn]
  exact List.append_nil _

theorem turnEvents_settled (hturn : effect.turn = .settled o) :
    turnEvents task effect = effect.submitted.map .submitted ++ [.settled task o] := by
  rw [turnEvents, hturn]

theorem addAll_turnEvents_suspended (hturn : effect.turn = .suspended rest) :
    (runningRecord done task waiting).addAll (turnEvents task effect) =
      runningRecord done task (waiting ++ effect.submitted) := by
  rw [turnEvents_suspended hturn, addAll_submitted_running]

theorem addAll_turnEvents_settled (hturn : effect.turn = .settled o) :
    (runningRecord done task waiting).addAll (turnEvents task effect) =
      settledRecord done task o (waiting ++ effect.submitted) := by
  rw [turnEvents_settled hturn, QueueRecord.addAll_append, addAll_submitted_running]
  rfl

theorem absorb_suspended (hturn : effect.turn = .suspended rest) :
    absorb ⟨world, false, waiting, none, []⟩ task effect =
      ⟨effect.world, false, waiting ++ effect.submitted, some (task, rest), []⟩ := by
  unfold absorb
  rw [hturn]
  dsimp only
  rw [submitAll_of_busy rfl]

theorem absorb_settled (hturn : effect.turn = .settled o) :
    absorb ⟨world, false, waiting, none, []⟩ task effect =
      ⟨effect.world, false, waiting ++ effect.submitted, none, [.advance, .deliver task o]⟩ := by
  unfold absorb
  rw [hturn]
  dsimp only
  rw [submitAll_of_busy rfl]
  rfl

/-- A turn of the task that is running: the tasks it submits wait, and it settles or waits itself. -/
theorem follows_turn (hleads : h.LeadsTo task effect.turn) :
    Follows h (runningRecord done task waiting)
      (absorb ⟨world, false, waiting, none, []⟩ task effect) (turnEvents task effect) := by
  have hallowed := (runningRecord done task waiting).allowsAll_submitted effect.submitted
  have hsubmitted (other : τ) (o : ρ) :
      .settled other o ∉ effect.submitted.map (.submitted : τ → QueueEvent τ ρ) := by
    intro hmem
    obtain ⟨_, -, heq⟩ := List.mem_map.1 hmem
    cases heq
  cases hturn : effect.turn with
  | suspended rest =>
    rw [hturn] at hleads
    constructor
    · rw [absorb_suspended world waiting hturn, addAll_turnEvents_suspended waiting done hturn]
      exact .suspended hleads
    · rw [turnEvents_suspended hturn]
      exact hallowed
    · rw [turnEvents_suspended hturn]
      exact fun other o hmem => absurd hmem (hsubmitted other o)
  | settled o =>
    rw [hturn] at hleads
    constructor
    · rw [absorb_settled world waiting hturn, addAll_turnEvents_settled waiting done hturn]
      exact .settled
    · rw [turnEvents_settled hturn, QueueRecord.allowsAll_append]
      refine ⟨hallowed, ?_⟩
      rw [addAll_submitted_running]
      exact ⟨rfl, trivial⟩
    · rw [turnEvents_settled hturn]
      intro other o' hmem
      rcases List.mem_append.1 hmem with hmem | hmem
      · exact absurd hmem (hsubmitted other o')
      · cases List.mem_singleton.1 hmem
        exact hleads

end Turn

theorem Follows.cons {e : QueueEvent τ ρ} (he : r.Allows e) (hown : OwnOutcomes h [e])
    (hfollows : Follows h (r.add e) q es) : Follows h r q (e :: es) := by
  refine ⟨hfollows.serving, ⟨he, hfollows.allowed⟩, ?_⟩
  intro task o hmem
  rcases List.mem_cons.1 hmem with heq | hmem
  · refine hown task o ?_
    rw [heq]
    exact List.mem_singleton_self e
  · exact hfollows.own task o hmem

theorem Follows.append (hfollows : Follows h r q es) (hmore : Follows h (r.addAll es) q' es') :
    Follows h r q' (es ++ es') := by
  constructor
  · rw [QueueRecord.addAll_append]
    exact hmore.serving
  · exact QueueRecord.allowsAll_append.2 ⟨hfollows.allowed, hmore.allowed⟩
  · intro task o hmem
    rcases List.mem_append.1 hmem with hmem | hmem
    · exact hfollows.own task o hmem
    · exact hmore.own task o hmem

/-! ## Steps -/

theorem Serving.wake (hserving : Serving h q r) {task : τ} {rest : κ}
    (hsuspended : q.suspended? = some (task, rest)) :
    Follows h r (q.wake h) (turnEvents task (h.resume q.world task rest)) := by
  cases hserving with
  | @suspended world waiting first rest' done hleads =>
    cases hsuspended
    exact follows_turn world waiting done (hleads.resume world)
  | idle | starting | settled | last | passing => cases hsuspended

/-- The last outcome was delivered. -/
theorem serving_deliver_last {world : σ} {task : τ} {o : ρ} {done : List (τ × ρ)} :
    Serving h ⟨world, true, [], none, []⟩
      ⟨done.map Prod.fst ++ [task], done.map Prod.fst ++ [task], done ++ [(task, o)],
        done ++ [(task, o)]⟩ := by
  show Serving h ⟨_, true, [], none, []⟩
    ⟨done.map Prod.fst ++ [(task, o)].map Prod.fst, done.map Prod.fst ++ [(task, o)].map Prod.fst,
      done ++ [(task, o)], done ++ [(task, o)]⟩
  rw [← List.map_append]
  exact .idle

/-- An outcome was delivered, and the next task is about to be started. -/
theorem serving_deliver_passing {world : σ} {waiting : List τ} {task next : τ} {o : ρ}
    {done : List (τ × ρ)} :
    Serving h ⟨world, false, waiting, none, [.start next]⟩
      ⟨done.map Prod.fst ++ task :: next :: waiting, done.map Prod.fst ++ [task],
        done ++ [(task, o)], done ++ [(task, o)]⟩ := by
  have hsplit : done.map Prod.fst ++ task :: next :: waiting =
      (done ++ [(task, o)]).map Prod.fst ++ next :: waiting := by
    rw [List.map_append, List.append_assoc]
    rfl
  have hstarted : done.map Prod.fst ++ [task] = (done ++ [(task, o)]).map Prod.fst := by
    rw [List.map_append]
    rfl
  rw [hsplit, hstarted]
  exact .starting

theorem Serving.job (hserving : Serving h q r) {job : QueueJob τ ρ}
    (hjob : q.jobs.head? = some job) (hstep : q.step? h = some q') :
    Follows h r q' (jobEvents h q.world job) := by
  have hnone {e : QueueEvent τ ρ} (hne : ∀ task o, e ≠ .settled task o) : OwnOutcomes h [e] := by
    intro task o hmem
    exact absurd (List.mem_singleton.1 hmem).symm (hne task o)
  cases hserving with
  | idle | suspended => cases hjob
  | @starting world waiting task done =>
    cases hjob
    cases hstep
    refine .cons ?_ (hnone nofun) (follows_turn world waiting done (.start world))
    refine ⟨rfl, waiting, ?_⟩
    show (done.map Prod.fst ++ [task]) ++ waiting = _
    rw [List.append_assoc]
    rfl
  | @settled world waiting task o done =>
    cases hjob
    cases hstep
    have hadvanced : Serving h
        (advance ⟨world, false, waiting, none, [.deliver task o]⟩)
        ⟨done.map Prod.fst ++ task :: waiting, done.map Prod.fst ++ [task], done ++ [(task, o)],
          done⟩ := by
      cases waiting with
      | nil => exact .last
      | cons next waiting => exact .passing
    exact ⟨hadvanced, ⟨trivial, trivial⟩, hnone nofun⟩
  | @last world task o done =>
    cases hjob
    cases hstep
    exact .cons List.prefix_rfl (hnone nofun) (follows_submitted serving_deliver_last _)
  | @passing world waiting task next o done =>
    cases hjob
    cases hstep
    exact .cons List.prefix_rfl (hnone nofun) (follows_submitted serving_deliver_passing _)

theorem Serving.run (hserving : Serving h q r) (hrun : Run h q q' es) : Follows h r q' es := by
  induction hrun with
  | refl => exact ⟨hserving, trivial, nofun⟩
  | change _ world ih => exact ⟨ih.serving.change world, ih.allowed, ih.own⟩
  | submit _ task ih => exact ih.append (follows_submitted ih.serving [task])
  | wake _ hsuspended ih => exact ih.append (ih.serving.wake hsuspended)
  | job _ hjob hstep ih => exact ih.append (ih.serving.job hjob hstep)

theorem serving_empty (h : Host σ τ κ ρ) (world : σ) :
    Serving h (.empty world) QueueRecord.empty :=
  @Serving.idle σ τ κ ρ h world []

end SerialQueue

end BinaryReport
