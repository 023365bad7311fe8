import BinaryReport.Queue.Serial

/-!
# Promises

A serial queue is a chain of promises, and this is the chain itself: its promises with what is registered
with them, and the jobs that arise when they settle (`PromiseQueue`).

Submitting a task registers it with the tail of the chain, which gives the result of the task, and
registers with the result for the new tail, which is fulfilled whatever the result comes to
(`PromiseQueue.submit`). A task that returns a promise is not over when it returns: its result follows the
promise, by a job that registers with it and a job that takes over its outcome.
-/

namespace BinaryReport

/-- The promises of a chain. -/
inductive PromiseName where
  /-- The tail of the chain of the first `n` tasks. -/
  | tail (n : Nat)
  /-- The result of the task `n`. -/
  | result (n : Nat)
  /-- The promise that the task `n` returns, if it returns one. -/
  | own (n : Nat)
deriving DecidableEq

/-- What is called with the outcome of a promise. -/
inductive Handler (τ : Type) where
  /-- The task `n`, which does not look at the outcome. -/
  | task (n : Nat) (task : τ)
  /-- A function that returns nothing. -/
  | discard
  /-- What the submitter of a task does with its outcome. -/
  | report (task : τ)
  /-- What settles a promise with the outcome. -/
  | settle (p : PromiseName)

/-- What was registered with a promise. -/
structure Reaction (τ : Type) where
  /-- What is called with a value. Without it the value is passed on. -/
  onValue? : Option (Handler τ)
  /-- What is called with an error. Without it the error is passed on. -/
  onError? : Option (Handler τ)
  /-- The promise for what is returned or passed on, if somebody has it. -/
  derived? : Option PromiseName

namespace Reaction

variable {τ ε α : Type}

/-- What is called with an outcome. -/
def handler? (r : Reaction τ) : Except ε α → Option (Handler τ)
  | .ok _ => r.onValue?
  | .error _ => r.onError?

/-- The task `n` is called once the tail in front of it is fulfilled, and its result is derived. -/
def call (n : Nat) (task : τ) : Reaction τ := ⟨some (.task n task), none, some (.result n)⟩

/-- The tail behind the task `n` is derived from its result, whatever that comes to. -/
def swallow (n : Nat) : Reaction τ := ⟨some .discard, some .discard, some (.tail (n + 1))⟩

/-- The submitter of a task waits for its result. -/
def await (task : τ) : Reaction τ := ⟨some (.report task), some (.report task), none⟩

/-- A promise is settled as the one that it follows. -/
def adopt (p : PromiseName) : Reaction τ := ⟨some (.settle p), some (.settle p), none⟩

end Reaction

/-- A promise. -/
inductive Promise (τ ε α : Type) where
  /-- It has not settled, and this is registered with it. -/
  | pending (reactions : List (Reaction τ))
  /-- It has settled. -/
  | settled (outcome : Except ε α)

/-- A job of a chain. -/
inductive PromiseJob (τ ε α : Type) where
  /-- To react to an outcome. -/
  | react (r : Reaction τ) (outcome : Except ε α)
  /-- To let a promise follow another one. -/
  | follow (p other : PromiseName)

/-- What the tasks of a chain are: those of a queue, with outcomes that are values or errors. A task that
waits has returned a promise. -/
structure PromiseHost (σ τ κ ε α : Type) extends Host σ τ κ (Except ε α) where
  /-- The value of a function that returns nothing. -/
  nothing : α
  /-- Whether a task that settles in its first turn has returned a promise, too. -/
  returnsPromise : σ → τ → Bool

/-- A task that waits for something outside. -/
structure TaskBody (τ κ : Type) where
  /-- Its number. -/
  index : Nat
  /-- The task. -/
  task : τ
  /-- What is left of it. -/
  rest : κ

/-- A chain of promises with the world of its host. -/
structure PromiseQueue (σ τ κ ε α : Type) where
  /-- The world. -/
  world : σ
  /-- The number of tasks that were submitted. -/
  count : Nat
  /-- The tail of the chain. -/
  tail : PromiseName
  /-- The promises. -/
  promises : PromiseName → Promise τ ε α
  /-- The tasks that wait for something outside. -/
  bodies : List (TaskBody τ κ)
  /-- The jobs, in the order in which they arose. -/
  jobs : List (PromiseJob τ ε α)

namespace PromiseQueue

variable {σ τ κ ε α : Type}

/-- The chain without tasks. Its tail is fulfilled. -/
def empty (h : PromiseHost σ τ κ ε α) (world : σ) : PromiseQueue σ τ κ ε α :=
  ⟨world, 0, .tail 0, fun p => if p = .tail 0 then .settled (.ok h.nothing) else .pending [], [], []⟩

/-! ## Promises -/

/-- Adds a job. -/
def enqueue (q : PromiseQueue σ τ κ ε α) (job : PromiseJob τ ε α) : PromiseQueue σ τ κ ε α :=
  { q with jobs := q.jobs ++ [job] }

/-- Changes a promise. -/
def put (q : PromiseQueue σ τ κ ε α) (p : PromiseName) (promise : Promise τ ε α) :
    PromiseQueue σ τ κ ε α :=
  { q with promises := fun other => if other = p then promise else q.promises other }

/-- Registers with a promise. If it has settled there is a job at once. -/
def attach (q : PromiseQueue σ τ κ ε α) (p : PromiseName) (r : Reaction τ) :
    PromiseQueue σ τ κ ε α :=
  match q.promises p with
  | .pending reactions => q.put p (.pending (reactions ++ [r]))
  | .settled outcome => q.enqueue (.react r outcome)

/-- Settles a promise, unless it has settled. There is a job for each that is registered. -/
def settle (q : PromiseQueue σ τ κ ε α) (p : PromiseName) (outcome : Except ε α) :
    PromiseQueue σ τ κ ε α :=
  match q.promises p with
  | .pending reactions =>
    { q.put p (.settled outcome) with jobs := q.jobs ++ reactions.map fun r => .react r outcome }
  | .settled _ => q

/-- Settles a derived promise, if somebody has it. -/
def settle? (q : PromiseQueue σ τ κ ε α) (p? : Option PromiseName) (outcome : Except ε α) :
    PromiseQueue σ τ κ ε α :=
  match p? with
  | none => q
  | some p => q.settle p outcome

/-- Lets a derived promise follow another one, if somebody has it. -/
def follow? (q : PromiseQueue σ τ κ ε α) (p? : Option PromiseName) (other : PromiseName) :
    PromiseQueue σ τ κ ε α :=
  match p? with
  | none => q
  | some p => q.enqueue (.follow p other)

/-! ## Tasks -/

/-- Submits a task: it is registered with the tail, the new tail with its result, and then the submitter
waits for the result. -/
def submit (q : PromiseQueue σ τ κ ε α) (task : τ) : PromiseQueue σ τ κ ε α :=
  let n := q.count
  let q := q.attach q.tail (.call n task)
  let q := q.attach (.result n) (.swallow n)
  let q := { q with count := n + 1, tail := .tail (n + 1) }
  q.attach (.result n) (.await task)

/-- Submits tasks in order. -/
def submitAll (q : PromiseQueue σ τ κ ε α) (tasks : List τ) : PromiseQueue σ τ κ ε α :=
  tasks.foldl submit q

/-- Takes over the world after a turn of a task, and then the tasks that were submitted in it. -/
def take (q : PromiseQueue σ τ κ ε α) (effect : Effect σ τ κ (Except ε α)) :
    PromiseQueue σ τ κ ε α :=
  submitAll { q with world := effect.world } effect.submitted

/-- Takes over what the first turn of the task `n` has come to, with the derived promise for its result. A
value or an error that the task ends with at once is the outcome of the result; a promise that it returns
is followed. -/
def returned (q : PromiseQueue σ τ κ ε α) (n : Nat) (task : τ) (derived? : Option PromiseName)
    (returnsPromise : Bool) : Turn κ (Except ε α) → PromiseQueue σ τ κ ε α
  | .suspended rest => follow? { q with bodies := q.bodies ++ [⟨n, task, rest⟩] } derived? (.own n)
  | .settled outcome =>
    if returnsPromise then (q.settle (.own n) outcome).follow? derived? (.own n)
    else q.settle? derived? outcome

/-- Calls the task `n`. -/
def call (h : PromiseHost σ τ κ ε α) (q : PromiseQueue σ τ κ ε α) (n : Nat) (task : τ)
    (derived? : Option PromiseName) : PromiseQueue σ τ κ ε α :=
  (q.take (h.start q.world task)).returned n task derived? (h.returnsPromise q.world task)
    (h.start q.world task).turn

/-- Takes over what another turn of the waiting task at `i` has come to. When the task ends, the promise
that it has returned settles. -/
def wentOn (q : PromiseQueue σ τ κ ε α) (i : Nat) (body : TaskBody τ κ) :
    Turn κ (Except ε α) → PromiseQueue σ τ κ ε α
  | .suspended rest => { q with bodies := q.bodies.set i ⟨body.index, body.task, rest⟩ }
  | .settled outcome => settle { q with bodies := q.bodies.eraseIdx i } (.own body.index) outcome

/-- Lets one of the tasks go on that wait. -/
def resume (h : PromiseHost σ τ κ ε α) (q : PromiseQueue σ τ κ ε α) (i : Nat) :
    PromiseQueue σ τ κ ε α :=
  match q.bodies[i]? with
  | none => q
  | some body =>
    (q.take (h.resume q.world body.task body.rest)).wentOn i body
      (h.resume q.world body.task body.rest).turn

/-! ## Jobs -/

/-- Reacts to an outcome. -/
def react (h : PromiseHost σ τ κ ε α) (q : PromiseQueue σ τ κ ε α) (r : Reaction τ)
    (outcome : Except ε α) : PromiseQueue σ τ κ ε α :=
  match r.handler? outcome with
  | none => q.settle? r.derived? outcome
  | some (.task n task) => q.call h n task r.derived?
  | some .discard => q.settle? r.derived? (.ok h.nothing)
  | some (.report task) =>
    let (world, tasks) := h.deliver q.world task outcome
    (submitAll { q with world := world } tasks).settle? r.derived? (.ok h.nothing)
  | some (.settle p) => (q.settle p outcome).settle? r.derived? (.ok h.nothing)

/-- Does a job. -/
def perform (h : PromiseHost σ τ κ ε α) (q : PromiseQueue σ τ κ ε α) :
    PromiseJob τ ε α → PromiseQueue σ τ κ ε α
  | .react r outcome => q.react h r outcome
  | .follow p other => q.attach other (.adopt p)

/-- Does the next job, if there is one. -/
def step? (h : PromiseHost σ τ κ ε α) (q : PromiseQueue σ τ κ ε α) :
    Option (PromiseQueue σ τ κ ε α) :=
  match q.jobs with
  | [] => none
  | job :: rest => some (perform h { q with jobs := rest } job)

end PromiseQueue

end BinaryReport
