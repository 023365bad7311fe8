/-!
# Serial queues

A serial queue runs tasks one at a time in the order of their submission. It is a machine that
reacts to what happens from outside (a task is submitted, what a task waits for has happened) by
jobs, which run in the order in which they arose until none is left.

When a task settles, two jobs arise: one lets the queue advance to the next task, one delivers the
outcome to who submitted the task. A task that is next is started by a job of its own, so an
outcome is always delivered before the next task starts.

Such a queue is made of a chain of promises, and every run of the chain is a run of this machine
(`PromiseQueue`).

What tasks are is described by a `Host`: how a task starts and goes on, what is done with its
outcome, and which tasks are submitted on the way. The host has a state of its own, the world.
-/

namespace BinaryReport

/-- What a turn of a task leads to. -/
inductive Turn (κ ρ : Type) where
  /-- The task has settled. -/
  | settled (outcome : ρ)
  /-- The task waits for something outside. -/
  | suspended (rest : κ)

/-- The effect of a turn: the new world, the tasks that were submitted, and where the task stands. -/
structure Effect (σ τ κ ρ : Type) where
  /-- The new world. -/
  world : σ
  /-- The tasks that were submitted, in order. -/
  submitted : List τ
  /-- Where the task stands. -/
  turn : Turn κ ρ

/-- What the tasks of a queue are: `σ` is the world, `τ` a task, `κ` what is left of a task that
waits, and `ρ` an outcome. -/
structure Host (σ τ κ ρ : Type) where
  /-- Starts a task. -/
  start : σ → τ → Effect σ τ κ ρ
  /-- Goes on with a task when what it waited for has happened. -/
  resume : σ → τ → κ → Effect σ τ κ ρ
  /-- Delivers an outcome to who submitted the task; this may submit tasks. -/
  deliver : σ → τ → ρ → σ × List τ
  /-- Bounds the number of jobs and turns that a task needs, with those of the tasks it submits. -/
  weight : τ → Nat
  /-- The same for the delivery of a task's outcome. -/
  deliveryWeight : τ → Nat

/-- A job of a queue. -/
inductive QueueJob (τ ρ : Type) where
  /-- To start a task. -/
  | start (task : τ)
  /-- To go on to the next task. -/
  | advance
  /-- To deliver the outcome of a task. -/
  | deliver (task : τ) (outcome : ρ)

/-- A serial queue with the world of its host. -/
structure SerialQueue (σ τ κ ρ : Type) where
  /-- The world. -/
  world : σ
  /-- Whether no task is started or about to be started. -/
  idle : Bool
  /-- The tasks that wait for their start, in the order of submission. -/
  waiting : List τ
  /-- The task that waits for something outside, with what is left of it. -/
  suspended? : Option (τ × κ)
  /-- The jobs, in the order in which they arose. -/
  jobs : List (QueueJob τ ρ)

namespace SerialQueue

variable {σ τ κ ρ : Type}

/-- The queue without tasks. -/
def empty (world : σ) : SerialQueue σ τ κ ρ := ⟨world, true, [], none, []⟩

/-! ## Submitting and settling -/

/-- Adds a job. -/
def enqueue (q : SerialQueue σ τ κ ρ) (job : QueueJob τ ρ) : SerialQueue σ τ κ ρ :=
  { q with jobs := q.jobs ++ [job] }

/-- Submits a task: on an idle queue it is about to be started, otherwise it waits. -/
def submit (q : SerialQueue σ τ κ ρ) (task : τ) : SerialQueue σ τ κ ρ :=
  if q.idle then { q with idle := false }.enqueue (.start task)
  else { q with waiting := q.waiting ++ [task] }

/-- Submits tasks in order. -/
def submitAll (q : SerialQueue σ τ κ ρ) (tasks : List τ) : SerialQueue σ τ κ ρ :=
  tasks.foldl submit q

/-- Settles a task: the queue is to advance, and the outcome is to be delivered. -/
def settle (q : SerialQueue σ τ κ ρ) (task : τ) (outcome : ρ) : SerialQueue σ τ κ ρ :=
  (q.enqueue .advance).enqueue (.deliver task outcome)

/-- Takes over the effect of a turn of a task. -/
def absorb (q : SerialQueue σ τ κ ρ) (task : τ) (effect : Effect σ τ κ ρ) :
    SerialQueue σ τ κ ρ :=
  let q := submitAll { q with world := effect.world } effect.submitted
  match effect.turn with
  | .settled outcome => q.settle task outcome
  | .suspended rest => { q with suspended? := some (task, rest) }

/-! ## Jobs -/

/-- Goes on to the next task. -/
def advance (q : SerialQueue σ τ κ ρ) : SerialQueue σ τ κ ρ :=
  match q.waiting with
  | [] => { q with idle := true }
  | task :: rest => { q with waiting := rest }.enqueue (.start task)

/-- Does a job. -/
def perform (h : Host σ τ κ ρ) (q : SerialQueue σ τ κ ρ) : QueueJob τ ρ → SerialQueue σ τ κ ρ
  | .start task => q.absorb task (h.start q.world task)
  | .advance => q.advance
  | .deliver task outcome =>
    let (world, tasks) := h.deliver q.world task outcome
    { q with world := world }.submitAll tasks

/-- Does the next job, if there is one. -/
def step? (h : Host σ τ κ ρ) (q : SerialQueue σ τ κ ρ) : Option (SerialQueue σ τ κ ρ) :=
  match q.jobs with
  | [] => none
  | job :: rest => some (perform h { q with jobs := rest } job)

/-- Lets the task that waits go on. -/
def wake (h : Host σ τ κ ρ) (q : SerialQueue σ τ κ ρ) : SerialQueue σ τ κ ρ :=
  match q.suspended? with
  | none => q
  | some (task, rest) =>
    { q with suspended? := none }.absorb task (h.resume q.world task rest)

/-! ## Runs -/

/-- Bounds the number of jobs and turns that a job leads to. -/
def jobWeight (h : Host σ τ κ ρ) : QueueJob τ ρ → Nat
  | .start task => h.weight task
  | .advance => 1
  | .deliver task _ => h.deliveryWeight task

/-- Bounds the number of jobs and turns that are left. -/
def load (h : Host σ τ κ ρ) (q : SerialQueue σ τ κ ρ) : Nat :=
  (q.jobs.map (jobWeight h)).foldl (· + ·) 0 + (q.waiting.map h.weight).foldl (· + ·) 0
    + (q.suspended?.map fun s => h.weight s.1).getD 0

/-- Does up to `n` jobs. -/
def drainFor (h : Host σ τ κ ρ) : (n : Nat) → SerialQueue σ τ κ ρ → SerialQueue σ τ κ ρ
  | 0, q => q
  | n + 1, q =>
    match step? h q with
    | none => q
    | some q => drainFor h n q

/-- Does jobs until none is left. -/
def drain (h : Host σ τ κ ρ) (q : SerialQueue σ τ κ ρ) : SerialQueue σ τ κ ρ :=
  drainFor h (load h q) q

/-- Lets tasks go on up to `n` times, doing all jobs in between. -/
def finishFor (h : Host σ τ κ ρ) : (n : Nat) → SerialQueue σ τ κ ρ → SerialQueue σ τ κ ρ
  | 0, q => q
  | n + 1, q =>
    match q.suspended? with
    | none => q
    | some _ => finishFor h n (drain h (wake h q))

/-- Does all jobs and lets tasks go on until no task waits for anything. -/
def finish (h : Host σ τ κ ρ) (q : SerialQueue σ τ κ ρ) : SerialQueue σ τ κ ρ :=
  finishFor h (load h q) (drain h q)

end SerialQueue

end BinaryReport
