import BinaryReport.Proofs.Queue.Discipline
import BinaryReport.Queue.Promises

/-!
# Runs of a chain of promises

What the operations of a chain leave alone, and its runs (`PromiseQueue.Run`) with what is seen of them:
the same events as of a serial queue, and the number of jobs that were done. Whatever happens, a promise
that has settled keeps its outcome (`PromiseQueue.Keeps`).
-/

namespace BinaryReport

namespace PromiseQueue

variable {σ τ κ ε α : Type} {h : PromiseHost σ τ κ ε α} {q q' q'' : PromiseQueue σ τ κ ε α}
  {p other : PromiseName} {r : Reaction τ} {o : Except ε α} {rs : List (Reaction τ)}

/-! ## Promises -/

theorem promises_put_self (q : PromiseQueue σ τ κ ε α) (p : PromiseName) (promise : Promise τ ε α) :
    (q.put p promise).promises p = promise := if_pos rfl

theorem promises_put_of_ne (promise : Promise τ ε α) (hne : other ≠ p) :
    (q.put p promise).promises other = q.promises other := if_neg hne

theorem attach_of_pending (hp : q.promises p = .pending rs) :
    q.attach p r = q.put p (.pending (rs ++ [r])) := by
  rw [attach, hp]

theorem attach_of_settled (hp : q.promises p = .settled o) :
    q.attach p r = q.enqueue (.react r o) := by
  rw [attach, hp]

theorem settle_of_pending (hp : q.promises p = .pending rs) (o : Except ε α) :
    q.settle p o =
      { q.put p (.settled o) with jobs := q.jobs ++ rs.map fun r => .react r o } := by
  rw [settle, hp]

/-! ## What stays -/

/-- The world and the tasks that wait stay as they are. -/
structure Passive (q q' : PromiseQueue σ τ κ ε α) : Prop where
  world : q'.world = q.world
  bodies : q'.bodies = q.bodies

theorem Passive.trans (hq : Passive q q') (hq' : Passive q' q'') : Passive q q'' :=
  ⟨hq'.world.trans hq.world, hq'.bodies.trans hq.bodies⟩

theorem passive_attach (q : PromiseQueue σ τ κ ε α) (p : PromiseName) (r : Reaction τ) :
    Passive q (q.attach p r) := by
  unfold attach
  cases q.promises p with
  | pending reactions => exact ⟨rfl, rfl⟩
  | settled outcome => exact ⟨rfl, rfl⟩

theorem passive_settle (q : PromiseQueue σ τ κ ε α) (p : PromiseName) (o : Except ε α) :
    Passive q (q.settle p o) := by
  unfold settle
  cases q.promises p with
  | pending reactions => exact ⟨rfl, rfl⟩
  | settled outcome => exact ⟨rfl, rfl⟩

/-- The chain with a task at its end, before the submitter waits for its result. -/
def linked (q : PromiseQueue σ τ κ ε α) (task : τ) : PromiseQueue σ τ κ ε α :=
  { (q.attach q.tail (.call q.count task)).attach (.result q.count) (.swallow q.count) with
    count := q.count + 1
    tail := .tail (q.count + 1) }

theorem submit_eq (q : PromiseQueue σ τ κ ε α) (task : τ) :
    q.submit task = (q.linked task).attach (.result q.count) (.await task) := rfl

theorem passive_submit (q : PromiseQueue σ τ κ ε α) (task : τ) : Passive q (q.submit task) := by
  have hfirst := passive_attach q q.tail (.call q.count task)
  have hsecond := passive_attach (q.attach q.tail (.call q.count task)) (.result q.count)
    (.swallow q.count)
  have hlinked : Passive q (q.linked task) :=
    ⟨(hfirst.trans hsecond).world, (hfirst.trans hsecond).bodies⟩
  exact hlinked.trans (passive_attach (q.linked task) (.result q.count) (.await task))

theorem passive_submitAll (q : PromiseQueue σ τ κ ε α) (tasks : List τ) :
    Passive q (q.submitAll tasks) := by
  induction tasks generalizing q with
  | nil => exact ⟨rfl, rfl⟩
  | cons task tasks ih => exact (passive_submit q task).trans (ih (q.submit task))

/-- A promise that has settled keeps its outcome. -/
def Keeps (q q' : PromiseQueue σ τ κ ε α) : Prop :=
  ∀ p o, q.promises p = .settled o → q'.promises p = .settled o

theorem Keeps.trans (hq : Keeps q q') (hq' : Keeps q' q'') : Keeps q q'' :=
  fun p o hp => hq' p o (hq p o hp)

theorem keeps_of_eq (hpromises : q'.promises = q.promises) : Keeps q q' := by
  intro p o hp
  rw [hpromises]
  exact hp

/-- A promise that has not settled may change. -/
theorem keeps_put (hp : q.promises p = .pending rs) (promise : Promise τ ε α) :
    Keeps q (q.put p promise) := by
  intro other o hother
  have hne : other ≠ p := by
    rintro rfl
    rw [hp] at hother
    cases hother
  rw [promises_put_of_ne promise hne]
  exact hother

theorem keeps_attach (q : PromiseQueue σ τ κ ε α) (p : PromiseName) (r : Reaction τ) :
    Keeps q (q.attach p r) := by
  cases hp : q.promises p with
  | pending reactions =>
    rw [attach_of_pending hp]
    exact keeps_put hp _
  | settled outcome =>
    rw [attach_of_settled hp]
    exact keeps_of_eq rfl

theorem keeps_settle (q : PromiseQueue σ τ κ ε α) (p : PromiseName) (o : Except ε α) :
    Keeps q (q.settle p o) := by
  cases hp : q.promises p with
  | pending reactions =>
    rw [settle_of_pending hp]
    exact keeps_put hp _
  | settled outcome =>
    rw [settle, hp]
    exact keeps_of_eq rfl

theorem keeps_settle? (q : PromiseQueue σ τ κ ε α) (p? : Option PromiseName) (o : Except ε α) :
    Keeps q (q.settle? p? o) := by
  cases p? with
  | none => exact keeps_of_eq rfl
  | some p => exact keeps_settle q p o

theorem keeps_follow? (q : PromiseQueue σ τ κ ε α) (p? : Option PromiseName) (other : PromiseName) :
    Keeps q (q.follow? p? other) := by
  cases p? with
  | none => exact keeps_of_eq rfl
  | some p => exact keeps_of_eq rfl

theorem keeps_submit (q : PromiseQueue σ τ κ ε α) (task : τ) : Keeps q (q.submit task) := by
  have hlinked : Keeps q (q.linked task) :=
    (keeps_attach q q.tail (.call q.count task)).trans (keeps_attach _ (.result q.count) _)
  exact hlinked.trans (keeps_attach (q.linked task) (.result q.count) (.await task))

theorem keeps_submitAll (q : PromiseQueue σ τ κ ε α) (tasks : List τ) :
    Keeps q (q.submitAll tasks) := by
  induction tasks generalizing q with
  | nil => exact keeps_of_eq rfl
  | cons task tasks ih => exact (keeps_submit q task).trans (ih (q.submit task))

theorem keeps_take (q : PromiseQueue σ τ κ ε α) (effect : Effect σ τ κ (Except ε α)) :
    Keeps q (q.take effect) :=
  keeps_submitAll { q with world := effect.world } effect.submitted

theorem keeps_returned (q : PromiseQueue σ τ κ ε α) (n : Nat) (task : τ)
    (derived? : Option PromiseName) (returnsPromise : Bool) (turn : Turn κ (Except ε α)) :
    Keeps q (q.returned n task derived? returnsPromise turn) := by
  cases turn with
  | suspended rest =>
    exact keeps_follow? { q with bodies := q.bodies ++ [⟨n, task, rest⟩] } derived? (.own n)
  | settled o =>
    cases returnsPromise with
    | true => exact (keeps_settle q (.own n) o).trans (keeps_follow? _ derived? (.own n))
    | false => exact keeps_settle? q derived? o

theorem keeps_call (h : PromiseHost σ τ κ ε α) (q : PromiseQueue σ τ κ ε α) (n : Nat) (task : τ)
    (derived? : Option PromiseName) : Keeps q (q.call h n task derived?) :=
  (keeps_take q (h.start q.world task)).trans (keeps_returned _ n task derived? _ _)

theorem keeps_wentOn (q : PromiseQueue σ τ κ ε α) (i : Nat) (body : TaskBody τ κ)
    (turn : Turn κ (Except ε α)) : Keeps q (q.wentOn i body turn) := by
  cases turn with
  | suspended rest => exact keeps_of_eq rfl
  | settled o => exact keeps_settle { q with bodies := q.bodies.eraseIdx i } (.own body.index) o

theorem keeps_resume (h : PromiseHost σ τ κ ε α) (q : PromiseQueue σ τ κ ε α) (i : Nat) :
    Keeps q (q.resume h i) := by
  unfold resume
  cases q.bodies[i]? with
  | none => exact keeps_of_eq rfl
  | some body => exact (keeps_take q _).trans (keeps_wentOn _ i body _)

theorem keeps_perform (h : PromiseHost σ τ κ ε α) (q : PromiseQueue σ τ κ ε α)
    (job : PromiseJob τ ε α) : Keeps q (q.perform h job) := by
  cases job with
  | follow p other => exact keeps_attach q other (.adopt p)
  | react r o =>
    show Keeps q (q.react h r o)
    unfold react
    cases r.handler? o with
    | none => exact keeps_settle? q r.derived? o
    | some handler =>
      cases handler with
      | task n task => exact keeps_call h q n task r.derived?
      | discard => exact keeps_settle? q r.derived? _
      | report task =>
        exact (keeps_submitAll { q with world := (h.deliver q.world task o).1 } _).trans
          (keeps_settle? _ r.derived? _)
      | settle p => exact (keeps_settle q p o).trans (keeps_settle? _ r.derived? _)

/-! ## Runs -/

/-- What is seen of a job. To pass an outcome on and to follow a promise is not seen. -/
def jobEvents (h : PromiseHost σ τ κ ε α) (world : σ) :
    PromiseJob τ ε α → List (QueueEvent τ (Except ε α))
  | .follow _ _ => []
  | .react r o =>
    match r.handler? o with
    | some (.task _ task) => .started task :: SerialQueue.turnEvents task (h.start world task)
    | some .discard => [.advanced]
    | some (.report task) => .delivered task o :: (h.deliver world task o).2.map .submitted
    | _ => []

/-- A part of the life of a chain, from `q` on, with the events that are seen of it and the number of jobs
that are done. A task may be submitted, any of the tasks that wait may go on, and the world may change at
any time. -/
inductive Run (h : PromiseHost σ τ κ ε α) (q : PromiseQueue σ τ κ ε α) :
    PromiseQueue σ τ κ ε α → List (QueueEvent τ (Except ε α)) → Nat → Prop where
  /-- Nothing has happened. -/
  | refl : Run h q q [] 0
  /-- The world changes. -/
  | change {q' : PromiseQueue σ τ κ ε α} {es : List (QueueEvent τ (Except ε α))} {k : Nat}
    (hrun : Run h q q' es k) (world : σ) : Run h q { q' with world := world } es k
  /-- A task is submitted from outside. -/
  | submit {q' : PromiseQueue σ τ κ ε α} {es : List (QueueEvent τ (Except ε α))} {k : Nat}
    (hrun : Run h q q' es k) (task : τ) : Run h q (q'.submit task) (es ++ [.submitted task]) k
  /-- A task that waits goes on. -/
  | resume {q' : PromiseQueue σ τ κ ε α} {es : List (QueueEvent τ (Except ε α))} {k i : Nat}
    {body : TaskBody τ κ} (hrun : Run h q q' es k) (hbody : q'.bodies[i]? = some body) :
    Run h q (q'.resume h i)
      (es ++ SerialQueue.turnEvents body.task (h.resume q'.world body.task body.rest)) k
  /-- The next job is done. -/
  | job {q' : PromiseQueue σ τ κ ε α} {es : List (QueueEvent τ (Except ε α))} {k : Nat}
    {job : PromiseJob τ ε α} {jobs : List (PromiseJob τ ε α)} (hrun : Run h q q' es k)
    (hjobs : q'.jobs = job :: jobs) :
    Run h q (perform h { q' with jobs := jobs } job) (es ++ jobEvents h q'.world job) (k + 1)

theorem Run.keeps {es : List (QueueEvent τ (Except ε α))} {k : Nat} (hrun : Run h q q' es k) :
    Keeps q q' := by
  induction hrun with
  | refl => exact keeps_of_eq rfl
  | change _ world ih => exact ih.trans (keeps_of_eq rfl)
  | submit _ task ih => exact ih.trans (keeps_submit _ task)
  | resume _ hbody ih => exact ih.trans (keeps_resume h _ _)
  | @job q' _ _ job jobs _ hjobs ih => exact ih.trans (keeps_perform h { q' with jobs := jobs } job)

end PromiseQueue

end BinaryReport
