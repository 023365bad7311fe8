import BinaryReport.Proofs.Queue.Chain

/-!
# The stages of a chain

Where a chain stands while it serves a task, and the serial queue that stands alike
(`PromiseQueue.Mirrors`). There is a case for each stage of the task: a task that has returned a promise
passes two stages more than the serial queue knows of, in which its outcome is on its way to the result.
With each stage goes the number of jobs until the next task starts.

Each step of a chain leads from one of these stages to another one, and the serial queue takes the step
that is seen in the same way, or none if nothing is seen.
-/

namespace BinaryReport

namespace PromiseQueue

open SerialQueue (runningRecord settledRecord turnEvents)

variable {σ τ κ ε α : Type} {h : PromiseHost σ τ κ ε α} {q : PromiseQueue σ τ κ ε α}
  {world : σ} {tasks waiting : List τ} {t c n i d : Nat} {outs done : List (τ × Except ε α)}
  {bodies : List (TaskBody τ κ)} {body : TaskBody τ κ} {jobs : List (PromiseJob τ ε α)}
  {task next : τ} {rest : κ} {o : Except ε α} {rs : List (Reaction τ)}
  {m : SerialQueue σ τ κ (Except ε α)} {r : QueueRecord τ (Except ε α)}

/-! ## Where a chain stands -/

/-- Where a chain stands: its world, its promises, the tasks that wait for something outside, and the
jobs. -/
structure Stands (h : PromiseHost σ τ κ ε α) (world : σ) (tasks : List τ) (t : Nat)
    (outs : List (τ × Except ε α)) (c : Nat) (bodies : List (TaskBody τ κ))
    (jobs : List (PromiseJob τ ε α)) (q : PromiseQueue σ τ κ ε α) : Prop where
  world : q.world = world
  chain : Chain h tasks t outs c q
  bodies : q.bodies = bodies
  jobs : q.jobs = jobs

section Stands

variable (hq : Stands h world tasks t outs c bodies jobs q)
include hq

theorem Stands.change (world' : σ) :
    Stands h world' tasks t outs c bodies jobs { q with world := world' } :=
  ⟨rfl, hq.chain.of_eq rfl rfl rfl, hq.bodies, hq.jobs⟩

theorem Stands.later : Stands h world tasks t outs (c + 1) bodies jobs q :=
  ⟨hq.world, hq.chain.later, hq.bodies, hq.jobs⟩

theorem Stands.withJobs (jobs' : List (PromiseJob τ ε α)) :
    Stands h world tasks t outs c bodies jobs' { q with jobs := jobs' } :=
  ⟨hq.world, hq.chain.of_eq rfl rfl rfl, hq.bodies, rfl⟩

theorem Stands.changeBodies (f : List (TaskBody τ κ) → List (TaskBody τ κ)) :
    Stands h world tasks t outs c (f bodies) jobs { q with bodies := f q.bodies } :=
  ⟨hq.world, hq.chain.of_eq rfl rfl rfl, congrArg f hq.bodies, hq.jobs⟩

theorem Stands.enqueue (job : PromiseJob τ ε α) :
    Stands h world tasks t outs c bodies (jobs ++ [job]) (q.enqueue job) := by
  refine ⟨hq.world, hq.chain.of_eq rfl rfl rfl, hq.bodies, ?_⟩
  rw [← hq.jobs, PromiseQueue.enqueue]

theorem Stands.submitAll (houts : outs.length ≤ tasks.length) (ht : t ≤ tasks.length)
    (more : List τ) : Stands h world (tasks ++ more) t outs c bodies jobs (q.submitAll more) := by
  obtain ⟨hchain, hjobs, -⟩ := hq.chain.submitAll houts ht more
  have hpassive := passive_submitAll q more
  exact ⟨hpassive.world.trans hq.world, hchain, hpassive.bodies.trans hq.bodies,
    hjobs.trans hq.jobs⟩

/-- A task that is submitted behind a tail that is fulfilled is about to be called. -/
theorem Stands.submit_next (houts : outs.length ≤ tasks.length) (ht : tasks.length < t) (task : τ) :
    Stands h world (tasks ++ [task]) t outs c bodies
      (jobs ++ [.react (.call tasks.length task) (.ok h.nothing)]) (q.submit task) := by
  have hjobs := hq.chain.jobs_submit houts task
  rw [if_pos ht, hq.jobs] at hjobs
  have hpassive := passive_submit q task
  exact ⟨hpassive.world.trans hq.world, hq.chain.submit houts task,
    hpassive.bodies.trans hq.bodies, hjobs⟩

theorem Stands.take (houts : outs.length ≤ tasks.length) (ht : t ≤ tasks.length)
    (effect : Effect σ τ κ (Except ε α)) :
    Stands h effect.world (tasks ++ effect.submitted) t outs c bodies jobs (q.take effect) :=
  (hq.change effect.world).submitAll houts ht effect.submitted

theorem Stands.own_take (houts : outs.length ≤ tasks.length) (ht : t ≤ tasks.length)
    (effect : Effect σ τ κ (Except ε α)) (n : Nat) :
    (q.take effect).promises (.own n) = q.promises (.own n) := by
  obtain ⟨-, -, howns⟩ := (hq.change effect.world).chain.submitAll houts ht effect.submitted
  exact howns n

theorem Stands.own_submit (next : τ) (n : Nat) :
    (q.submit next).promises (.own n) = q.promises (.own n) :=
  hq.chain.promises_submit_of_ne next (PromiseName.own_ne_result n _) (PromiseName.own_ne_tail n _)

theorem Stands.settle_result (htask : tasks[outs.length]? = some task) (o : Except ε α) :
    Stands h world tasks t (outs ++ [(task, o)]) c bodies
      (jobs ++ [.react (.swallow outs.length) o, .react (.await task) o])
      (q.settle (.result outs.length) o) := by
  obtain ⟨hchain, hjobs⟩ := hq.chain.settle_result htask o
  have hpassive := passive_settle q (.result outs.length) o
  rw [hq.jobs] at hjobs
  exact ⟨hpassive.world.trans hq.world, hchain, hpassive.bodies.trans hq.bodies, hjobs⟩

theorem Stands.settle_tail :
    Stands h world tasks (t + 1) outs c bodies
      (jobs ++ tasks[t]?.toList.map fun task => .react (.call t task) (.ok h.nothing))
      (q.settle (.tail t) (.ok h.nothing)) := by
  obtain ⟨hchain, hjobs⟩ := hq.chain.settle_tail
  have hpassive := passive_settle q (.tail t) (.ok h.nothing)
  rw [hq.jobs] at hjobs
  exact ⟨hpassive.world.trans hq.world, hchain, hpassive.bodies.trans hq.bodies, hjobs⟩

theorem Stands.settle_own (hn : n < c) (hown : q.promises (.own n) = .pending rs)
    (o : Except ε α) :
    Stands h world tasks t outs c bodies (jobs ++ rs.map fun r => .react r o)
      (q.settle (.own n) o) ∧ (q.settle (.own n) o).promises (.own n) = .settled o := by
  rw [settle_of_pending hown, hq.jobs]
  have hput : Stands h world tasks t outs c bodies jobs (q.put (.own n) (.settled o)) :=
    ⟨hq.world, hq.chain.put_own hn _, hq.bodies, hq.jobs⟩
  exact ⟨hput.withJobs _, promises_put_self q _ _⟩

theorem Stands.attach_own (hn : n < c) (hown : q.promises (.own n) = .pending rs) (r : Reaction τ) :
    Stands h world tasks t outs c bodies jobs (q.attach (.own n) r) ∧
      (q.attach (.own n) r).promises (.own n) = .pending (rs ++ [r]) := by
  rw [attach_of_pending hown]
  exact ⟨⟨hq.world, hq.chain.put_own hn _, hq.bodies, hq.jobs⟩, promises_put_self q _ _⟩

theorem Stands.wentOn_suspended (hbodies : bodies = [body]) (rest : κ) :
    Stands h world tasks t outs c [⟨body.index, body.task, rest⟩] jobs
      (q.wentOn 0 body (.suspended rest)) := by
  have hset := hq.changeBodies (·.set 0 ⟨body.index, body.task, rest⟩)
  rw [hbodies] at hset
  exact hset

/-- The promise of a task that settles is one that its result may follow already. -/
theorem Stands.wentOn_settled (hbodies : bodies = [body]) (hn : body.index < c)
    (hown : q.promises (.own body.index) = .pending rs) (o : Except ε α) :
    Stands h world tasks t outs c [] (jobs ++ rs.map fun r => .react r o)
      (q.wentOn 0 body (.settled o)) ∧
      (q.wentOn 0 body (.settled o)).promises (.own body.index) = .settled o := by
  have herased := hq.changeBodies (·.eraseIdx 0)
  rw [hbodies] at herased
  exact herased.settle_own hn hown o

end Stands

/-! ## The stages of the task that is served -/

/-- How a chain relates to a serial queue with its record, by the stage of the task that is served, and how
many jobs there are until the next task starts. While a task is running that number is zero. -/
inductive Mirrors (h : PromiseHost σ τ κ ε α) (q : PromiseQueue σ τ κ ε α) :
    SerialQueue σ τ κ (Except ε α) → QueueRecord τ (Except ε α) → Nat → Prop where
  /-- There is nothing to do. -/
  | idle {world : σ} {done : List (τ × Except ε α)}
    (hq : Stands h world (done.map Prod.fst) (done.length + 1) done done.length [] [] q) :
    Mirrors h q ⟨world, true, [], none, []⟩ ⟨done.map Prod.fst, done.map Prod.fst, done, done⟩ 1
  /-- A task is about to be called. -/
  | starting {world : σ} {waiting : List τ} {task : τ} {done : List (τ × Except ε α)}
    (hq : Stands h world (done.map Prod.fst ++ task :: waiting) (done.length + 1) done done.length []
      [.react (.call done.length task) (.ok h.nothing)] q) :
    Mirrors h q ⟨world, false, waiting, none, [.start task]⟩
      ⟨done.map Prod.fst ++ task :: waiting, done.map Prod.fst, done, done⟩ 1
  /-- A task waits, and its result is about to follow the promise that it has returned. -/
  | returned {world : σ} {waiting : List τ} {task : τ} {rest : κ} {done : List (τ × Except ε α)}
    (hq : Stands h world (done.map Prod.fst ++ task :: waiting) (done.length + 1) done done.length
      [⟨done.length, task, rest⟩] [.follow (.result done.length) (.own done.length)] q) :
    Mirrors h q ⟨world, false, waiting, some (task, rest), []⟩ (runningRecord done task waiting) 0
  /-- A task waits, and its result follows its promise. -/
  | suspended {world : σ} {waiting : List τ} {task : τ} {rest : κ} {done : List (τ × Except ε α)}
    (hq : Stands h world (done.map Prod.fst ++ task :: waiting) (done.length + 1) done
      (done.length + 1) [⟨done.length, task, rest⟩] [] q)
    (hown : q.promises (.own done.length) = .pending [.adopt (.result done.length)]) :
    Mirrors h q ⟨world, false, waiting, some (task, rest), []⟩ (runningRecord done task waiting) 0
  /-- A task has settled, and its result is about to follow its promise. -/
  | following {world : σ} {waiting : List τ} {task : τ} {o : Except ε α}
    {done : List (τ × Except ε α)}
    (hq : Stands h world (done.map Prod.fst ++ task :: waiting) (done.length + 1) done
      (done.length + 1) [] [.follow (.result done.length) (.own done.length)] q)
    (hown : q.promises (.own done.length) = .settled o) :
    Mirrors h q ⟨world, false, waiting, none, [.advance, .deliver task o]⟩
      (settledRecord done task o waiting) 5
  /-- A task has settled, and its result is about to settle with its outcome. -/
  | adopting {world : σ} {waiting : List τ} {task : τ} {o : Except ε α}
    {done : List (τ × Except ε α)}
    (hq : Stands h world (done.map Prod.fst ++ task :: waiting) (done.length + 1) done
      (done.length + 1) [] [.react (.adopt (.result done.length)) o] q) :
    Mirrors h q ⟨world, false, waiting, none, [.advance, .deliver task o]⟩
      (settledRecord done task o waiting) 4
  /-- The result of a task has settled. -/
  | settled {world : σ} {waiting : List τ} {task : τ} {o : Except ε α}
    {done : List (τ × Except ε α)}
    (hq : Stands h world (done.map Prod.fst ++ task :: waiting) (done.length + 1)
      (done ++ [(task, o)]) (done.length + 1) []
      [.react (.swallow done.length) o, .react (.await task) o] q) :
    Mirrors h q ⟨world, false, waiting, none, [.advance, .deliver task o]⟩
      (settledRecord done task o waiting) 3
  /-- The tail behind the last task is fulfilled. -/
  | last {world : σ} {task : τ} {o : Except ε α} {done : List (τ × Except ε α)}
    (hq : Stands h world (done.map Prod.fst ++ [task]) (done.length + 1 + 1) (done ++ [(task, o)])
      (done.length + 1) [] [.react (.await task) o] q) :
    Mirrors h q ⟨world, true, [], none, [.deliver task o]⟩ (settledRecord done task o []) 2
  /-- The tail behind a task is fulfilled, and the next one is about to be called after the delivery. -/
  | passing {world : σ} {waiting : List τ} {task next : τ} {o : Except ε α}
    {done : List (τ × Except ε α)}
    (hq : Stands h world (done.map Prod.fst ++ task :: next :: waiting) (done.length + 1 + 1)
      (done ++ [(task, o)]) (done.length + 1) []
      [.react (.await task) o, .react (.call (done.length + 1) next) (.ok h.nothing)] q) :
    Mirrors h q ⟨world, false, waiting, none, [.deliver task o, .start next]⟩
      (settledRecord done task o (next :: waiting)) 2

theorem mirrors_empty (h : PromiseHost σ τ κ ε α) (world : σ) :
    Mirrors h (empty h world) (.empty world) .empty 1 :=
  @Mirrors.idle σ τ κ ε α h _ world [] ⟨rfl, chain_empty h world, rfl, rfl⟩

theorem Mirrors.change (hq : Mirrors h q m r d) (world : σ) :
    Mirrors h { q with world := world } { m with world := world } r d := by
  cases hq with
  | idle hq => exact .idle (hq.change world)
  | starting hq => exact .starting (hq.change world)
  | returned hq => exact .returned (hq.change world)
  | suspended hq hown => exact .suspended (hq.change world) hown
  | following hq hown => exact .following (hq.change world) hown
  | adopting hq => exact .adopting (hq.change world)
  | settled hq => exact .settled (hq.change world)
  | last hq => exact .last (hq.change world)
  | passing hq => exact .passing (hq.change world)

/-! ## Submitting -/

theorem length_served (done : List (τ × Except ε α)) (tasks : List τ) :
    (done.map Prod.fst ++ tasks).length = done.length + tasks.length := by
  rw [List.length_append, List.length_map]

theorem succ_length_le_served (done : List (τ × Except ε α)) (task : τ) (waiting : List τ) :
    done.length + 1 ≤ (done.map Prod.fst ++ task :: waiting).length := by
  rw [length_served, List.length_cons]
  omega

theorem getElem?_served (done : List (τ × Except ε α)) (task : τ) (waiting : List τ) :
    (done.map Prod.fst ++ task :: waiting)[done.length]? = some task := by
  have hlength : done.length = (done.map Prod.fst).length := (List.length_map _).symm
  rw [hlength, List.getElem?_append_right (Nat.le_refl _), Nat.sub_self]
  rfl

/-- A task is submitted behind the one that is served. -/
theorem Stands.submit_behind
    (hq : Stands h world (done.map Prod.fst ++ task :: waiting) t outs c bodies jobs q)
    (houts : outs.length ≤ done.length + 1) (ht : t ≤ done.length + 1 + waiting.length) (next : τ) :
    Stands h world (done.map Prod.fst ++ task :: (waiting ++ [next])) t outs c bodies jobs
      (q.submit next) := by
  have hlength : (done.map Prod.fst ++ task :: waiting).length = done.length + 1 + waiting.length := by
    rw [length_served, List.length_cons, Nat.add_comm waiting.length, Nat.add_assoc]
  have hnext := hq.submitAll (by omega) (by omega) [next]
  rw [List.append_assoc] at hnext
  exact hnext

theorem add_submitted_running (done : List (τ × Except ε α)) (task : τ) (waiting : List τ)
    (next : τ) :
    (runningRecord done task waiting).add (.submitted next) =
      runningRecord done task (waiting ++ [next]) :=
  SerialQueue.addAll_submitted_running waiting done [next]

theorem add_submitted_settled (done : List (τ × Except ε α)) (task : τ) (o : Except ε α)
    (waiting : List τ) (next : τ) :
    (settledRecord done task o waiting).add (.submitted next) =
      settledRecord done task o (waiting ++ [next]) := by
  show QueueRecord.mk ((done.map Prod.fst ++ task :: waiting) ++ [next]) _ _ _ = _
  rw [List.append_assoc]
  rfl

theorem Mirrors.submit (hq : Mirrors h q m r d) (next : τ) :
    Mirrors h (q.submit next) (m.submit next) (r.add (.submitted next)) d := by
  cases hq with
  | @idle world done hq =>
    have hlength : (done.map Prod.fst).length = done.length := List.length_map _
    have hnext := hq.submit_next (Nat.le_of_eq hlength.symm) (by omega) next
    rw [hlength] at hnext
    exact .starting hnext
  | @starting world waiting task done hq =>
    have hnext := hq.submit_behind (Nat.le_succ _) (Nat.le_add_right _ _) next
    show Mirrors h _ ⟨world, false, waiting ++ [next], none, [.start task]⟩
      ⟨(done.map Prod.fst ++ task :: waiting) ++ [next], _, _, _⟩ 1
    rw [List.append_assoc]
    exact .starting hnext
  | @returned world waiting task rest done hq =>
    have hnext := hq.submit_behind (Nat.le_succ _) (Nat.le_add_right _ _) next
    rw [add_submitted_running]
    exact .returned hnext
  | @suspended world waiting task rest done hq hown =>
    have hnext := hq.submit_behind (Nat.le_succ _) (Nat.le_add_right _ _) next
    rw [add_submitted_running]
    exact .suspended hnext ((hq.own_submit next _).trans hown)
  | @following world waiting task o done hq hown =>
    have hnext := hq.submit_behind (Nat.le_succ _) (Nat.le_add_right _ _) next
    rw [add_submitted_settled]
    exact .following hnext ((hq.own_submit next _).trans hown)
  | @adopting world waiting task o done hq =>
    have hnext := hq.submit_behind (Nat.le_succ _) (Nat.le_add_right _ _) next
    rw [add_submitted_settled]
    exact .adopting hnext
  | @settled world waiting task o done hq =>
    have hnext := hq.submit_behind (Nat.le_of_eq List.length_append) (Nat.le_add_right _ _) next
    rw [add_submitted_settled]
    exact .settled hnext
  | @last world task o done hq =>
    have hlength : (done.map Prod.fst ++ [task]).length = done.length + 1 := length_served done [task]
    have hnext := hq.submit_next (Nat.le_of_eq (List.length_append.trans hlength.symm))
      (Nat.lt_succ_of_le (Nat.le_of_eq hlength)) next
    rw [hlength, List.append_assoc] at hnext
    rw [add_submitted_settled]
    exact .passing hnext
  | @passing world waiting task next' o done hq =>
    have hnext := hq.submit_behind (Nat.le_of_eq List.length_append)
      (Nat.add_le_add_left (Nat.succ_pos _) _) next
    rw [add_submitted_settled]
    exact .passing hnext

theorem Mirrors.submitAll (hq : Mirrors h q m r d) (tasks : List τ) :
    Mirrors h (q.submitAll tasks) (m.submitAll tasks) (r.addAll (tasks.map .submitted)) d := by
  induction tasks generalizing q m r with
  | nil => exact hq
  | cons task tasks ih => exact ih (hq.submit task)

/-! ## Turns -/

/-- The tasks that the one that is served submits are behind it. -/
theorem Stands.take_behind
    (hq : Stands h world (done.map Prod.fst ++ task :: waiting) (done.length + 1) done c bodies jobs q)
    (effect : Effect σ τ κ (Except ε α)) :
    Stands h effect.world (done.map Prod.fst ++ task :: (waiting ++ effect.submitted))
      (done.length + 1) done c bodies jobs (q.take effect) := by
  have hle := succ_length_le_served done task waiting
  have htaken := hq.take (Nat.le_of_succ_le hle) hle effect
  rw [List.append_assoc] at htaken
  exact htaken

/-- The first turn of a task, with the promise for its result. -/
theorem Stands.returned
    (hq : Stands h world (done.map Prod.fst ++ task :: waiting) (done.length + 1) done done.length []
      [] q) (effect : Effect σ τ κ (Except ε α)) (returnsPromise : Bool) :
    ∃ d, Mirrors h
      ((q.take effect).returned done.length task (some (.result done.length)) returnsPromise effect.turn)
      (SerialQueue.absorb ⟨world, false, waiting, none, []⟩ task effect)
      ((runningRecord done task waiting).addAll (turnEvents task effect)) d := by
  have htaken := hq.take_behind effect
  cases hturn : effect.turn with
  | suspended rest =>
    rw [SerialQueue.absorb_suspended world waiting hturn,
      SerialQueue.addAll_turnEvents_suspended waiting done hturn]
    have hwaits := htaken.changeBodies (· ++ [⟨done.length, task, rest⟩])
    exact ⟨0, .returned (hwaits.enqueue _)⟩
  | settled o =>
    rw [SerialQueue.absorb_settled world waiting hturn,
      SerialQueue.addAll_turnEvents_settled waiting done hturn]
    cases returnsPromise with
    | true =>
      have hpending := htaken.chain.owns done.length (Nat.le_refl _)
      obtain ⟨hsettled, hown⟩ := htaken.later.settle_own (Nat.lt_succ_self _) hpending o
      exact ⟨5, .following (hsettled.enqueue _) hown⟩
    | false => exact ⟨3, .settled (htaken.later.settle_result (getElem?_served done task _) o)⟩

/-- Another turn of a task before its result follows its promise. -/
theorem Stands.resume_returned
    (hq : Stands h world (done.map Prod.fst ++ task :: waiting) (done.length + 1) done done.length
      [⟨done.length, task, rest⟩] [.follow (.result done.length) (.own done.length)] q)
    (effect : Effect σ τ κ (Except ε α)) :
    ∃ d, Mirrors h ((q.take effect).wentOn 0 ⟨done.length, task, rest⟩ effect.turn)
      (SerialQueue.absorb ⟨world, false, waiting, none, []⟩ task effect)
      ((runningRecord done task waiting).addAll (turnEvents task effect)) d := by
  have htaken := hq.take_behind effect
  cases hturn : effect.turn with
  | suspended rest' =>
    rw [SerialQueue.absorb_suspended world waiting hturn,
      SerialQueue.addAll_turnEvents_suspended waiting done hturn]
    exact ⟨0, .returned (htaken.wentOn_suspended rfl rest')⟩
  | settled o =>
    rw [SerialQueue.absorb_settled world waiting hturn,
      SerialQueue.addAll_turnEvents_settled waiting done hturn]
    have hpending := htaken.chain.owns done.length (Nat.le_refl _)
    obtain ⟨hsettled, hown⟩ := htaken.later.wentOn_settled rfl (Nat.lt_succ_self _) hpending o
    exact ⟨5, .following hsettled hown⟩

/-- Another turn of a task when its result follows its promise. -/
theorem Stands.resume_suspended
    (hq : Stands h world (done.map Prod.fst ++ task :: waiting) (done.length + 1) done
      (done.length + 1) [⟨done.length, task, rest⟩] [] q)
    (hown : q.promises (.own done.length) = .pending [.adopt (.result done.length)])
    (effect : Effect σ τ κ (Except ε α)) :
    ∃ d, Mirrors h ((q.take effect).wentOn 0 ⟨done.length, task, rest⟩ effect.turn)
      (SerialQueue.absorb ⟨world, false, waiting, none, []⟩ task effect)
      ((runningRecord done task waiting).addAll (turnEvents task effect)) d := by
  have htaken := hq.take_behind effect
  have hle := succ_length_le_served done task waiting
  rw [← hq.own_take (Nat.le_of_succ_le hle) hle effect] at hown
  cases hturn : effect.turn with
  | suspended rest' =>
    rw [SerialQueue.absorb_suspended world waiting hturn,
      SerialQueue.addAll_turnEvents_suspended waiting done hturn]
    exact ⟨0, .suspended (htaken.wentOn_suspended rfl rest') hown⟩
  | settled o =>
    rw [SerialQueue.absorb_settled world waiting hturn,
      SerialQueue.addAll_turnEvents_settled waiting done hturn]
    obtain ⟨hsettled, -⟩ := htaken.wentOn_settled rfl (Nat.lt_succ_self _) hown o
    exact ⟨4, .adopting hsettled⟩

/-- A task that waits goes on. -/
theorem Mirrors.resume (hq : Mirrors h q m r d) (hbody : q.bodies[i]? = some body) :
    m.suspended? = some (body.task, body.rest) ∧ d = 0 ∧
      ∃ d', Mirrors h (q.resume h i) (m.wake h.toHost)
        (r.addAll (turnEvents body.task (h.resume q.world body.task body.rest))) d' := by
  -- Only the task that is served can wait, so it is the one that goes on.
  have hfirst {n : Nat} {task : τ} {rest : κ} (hbodies : q.bodies = [⟨n, task, rest⟩]) :
      i = 0 ∧ body = ⟨n, task, rest⟩ := by
    rw [hbodies] at hbody
    cases i with
    | zero => exact ⟨rfl, (Option.some.inj hbody).symm⟩
    | succ i => cases hbody
  have hnone (hbodies : q.bodies = []) : False := by
    rw [hbodies] at hbody
    cases hbody
  cases hq with
  | idle hq => exact (hnone hq.bodies).elim
  | starting hq => exact (hnone hq.bodies).elim
  | @returned world waiting task rest done hq =>
    obtain ⟨rfl, rfl⟩ := hfirst hq.bodies
    obtain rfl := hq.world
    rw [PromiseQueue.resume, hbody]
    exact ⟨rfl, rfl, hq.resume_returned _⟩
  | @suspended world waiting task rest done hq hown =>
    obtain ⟨rfl, rfl⟩ := hfirst hq.bodies
    obtain rfl := hq.world
    rw [PromiseQueue.resume, hbody]
    exact ⟨rfl, rfl, hq.resume_suspended hown _⟩
  | following hq => exact (hnone hq.bodies).elim
  | adopting hq => exact (hnone hq.bodies).elim
  | settled hq => exact (hnone hq.bodies).elim
  | last hq => exact (hnone hq.bodies).elim
  | passing hq => exact (hnone hq.bodies).elim

/-! ## Jobs -/

theorem handler?_swallow (n : Nat) (o : Except ε α) :
    (Reaction.swallow n : Reaction τ).handler? o = some .discard := by
  cases o with
  | ok _ => rfl
  | error _ => rfl

theorem handler?_await (task : τ) (o : Except ε α) :
    (Reaction.await task).handler? o = some (.report task) := by
  cases o with
  | ok _ => rfl
  | error _ => rfl

theorem handler?_adopt (p : PromiseName) (o : Except ε α) :
    (Reaction.adopt p : Reaction τ).handler? o = some (.settle p) := by
  cases o with
  | ok _ => rfl
  | error _ => rfl

section Kinds

variable (h : PromiseHost σ τ κ ε α) (q : PromiseQueue σ τ κ ε α) (world : σ) (n : Nat) (task : τ)
  (p : PromiseName) (o : Except ε α)

theorem perform_swallow :
    perform h q (.react (.swallow n) o) = q.settle (.tail (n + 1)) (.ok h.nothing) := by
  rw [perform, react, handler?_swallow]
  rfl

theorem perform_await :
    perform h q (.react (.await task) o) =
      submitAll { q with world := (h.deliver q.world task o).1 } (h.deliver q.world task o).2 := by
  rw [perform, react, handler?_await]
  rfl

theorem perform_adopt : perform h q (.react (.adopt p) o) = q.settle p o := by
  rw [perform, react, handler?_adopt]
  rfl

theorem jobEvents_swallow : jobEvents h world (.react (.swallow n) o) = [.advanced] := by
  rw [jobEvents, handler?_swallow]

theorem jobEvents_await :
    jobEvents h world (.react (.await task) o) =
      .delivered task o :: (h.deliver world task o).2.map .submitted := by
  rw [jobEvents, handler?_await]

theorem jobEvents_adopt : jobEvents h world (.react (.adopt p) o) = [] := by
  rw [jobEvents, handler?_adopt]

end Kinds

/-- The outcome of the last task was delivered. -/
theorem Stands.delivered_last
    (hq : Stands h world (done.map Prod.fst ++ [task]) (done.length + 1 + 1) (done ++ [(task, o)])
      (done.length + 1) [] [] q) :
    Mirrors h q ⟨world, true, [], none, []⟩ ((settledRecord done task o []).add (.delivered task o))
      1 := by
  have hmap : (done ++ [(task, o)]).map Prod.fst = done.map Prod.fst ++ [task] := List.map_append
  have hlength : (done ++ [(task, o)]).length = done.length + 1 := List.length_append
  show Mirrors h q _ ⟨done.map Prod.fst ++ [task], done.map Prod.fst ++ [task], done ++ [(task, o)],
    done ++ [(task, o)]⟩ 1
  rw [← hmap, ← hlength] at hq
  rw [← hmap]
  exact .idle hq

/-- The outcome of a task was delivered, and the next one is about to be called. -/
theorem Stands.delivered_passing
    (hq : Stands h world (done.map Prod.fst ++ task :: next :: waiting) (done.length + 1 + 1)
      (done ++ [(task, o)]) (done.length + 1) []
      [.react (.call (done.length + 1) next) (.ok h.nothing)] q) :
    Mirrors h q ⟨world, false, waiting, none, [.start next]⟩
      ((settledRecord done task o (next :: waiting)).add (.delivered task o)) 1 := by
  have hmap : (done ++ [(task, o)]).map Prod.fst = done.map Prod.fst ++ [task] := List.map_append
  have hlength : (done ++ [(task, o)]).length = done.length + 1 := List.length_append
  have hsplit : done.map Prod.fst ++ task :: next :: waiting =
      (done ++ [(task, o)]).map Prod.fst ++ next :: waiting := by
    rw [hmap, List.append_assoc]
    rfl
  show Mirrors h q _ ⟨done.map Prod.fst ++ task :: next :: waiting, done.map Prod.fst ++ [task],
    done ++ [(task, o)], done ++ [(task, o)]⟩ 1
  rw [hsplit, ← hlength] at hq
  rw [hsplit, ← hmap]
  exact .starting hq

/-- The tail behind the task that is served is fulfilled. -/
theorem Stands.swallowed
    (hq : Stands h world (done.map Prod.fst ++ task :: waiting) (done.length + 1)
      (done ++ [(task, o)]) (done.length + 1) [] [.react (.await task) o] q) :
    Mirrors h (q.settle (.tail (done.length + 1)) (.ok h.nothing))
      (SerialQueue.advance ⟨world, false, waiting, none, [.deliver task o]⟩)
      (settledRecord done task o waiting) 2 := by
  have hnext := hq.settle_tail
  have hlength : done.length + 1 = (done.map Prod.fst ++ [task]).length :=
    (length_served done [task]).symm
  have hwaiting : (done.map Prod.fst ++ task :: waiting)[done.length + 1]? = waiting[0]? := by
    rw [List.append_cons, hlength, List.getElem?_append_right (Nat.le_refl _), Nat.sub_self]
  rw [hwaiting] at hnext
  cases waiting with
  | nil => exact .last hnext
  | cons next waiting => exact .passing hnext

/-- A job of a chain is one of the serial queue, or it is not seen. -/
theorem Mirrors.job {job : PromiseJob τ ε α} (hq : Mirrors h q m r d)
    (hjobs : q.jobs = job :: jobs) :
    ∃ m' d', SerialQueue.Run h.toHost m m' (jobEvents h q.world job) ∧
      Mirrors h (perform h { q with jobs := jobs } job) m' (r.addAll (jobEvents h q.world job)) d' ∧
      (2 ≤ d → d' + 1 = d) ∧
      (d = 1 → r.settled.length < (r.addAll (jobEvents h q.world job)).started.length) := by
  cases hq with
  | idle hq =>
    rw [hq.jobs] at hjobs
    cases hjobs
  | @starting world waiting task done hq =>
    obtain ⟨rfl, rfl⟩ := List.cons.inj (hjobs.symm.trans hq.jobs)
    obtain rfl := hq.world
    have hrun := SerialQueue.run_job (h := h.toHost)
      (q := ⟨q.world, false, waiting, none, [.start task]⟩) rfl
    obtain ⟨d', hnext⟩ := (hq.withJobs []).returned (h.start q.world task)
      (h.returnsPromise q.world task)
    refine ⟨_, d', hrun, hnext, by omega, fun _ => ?_⟩
    have hstarted := (QueueRecord.extends_addAll
      (QueueRecord.add ⟨done.map Prod.fst ++ task :: waiting, done.map Prod.fst, done, done⟩
        (.started task)) (turnEvents task (h.start q.world task))).started.length_le
    refine Nat.lt_of_lt_of_le ?_ hstarted
    show done.length < (done.map Prod.fst ++ [task]).length
    rw [length_served]
    exact Nat.lt_succ_self done.length
  | @returned world waiting task rest done hq =>
    obtain ⟨rfl, rfl⟩ := List.cons.inj (hjobs.symm.trans hq.jobs)
    obtain ⟨hnext, hown⟩ := (hq.withJobs []).later.attach_own (Nat.lt_succ_self _)
      (hq.chain.owns _ (Nat.le_refl _)) (.adopt (.result done.length))
    exact ⟨_, 0, .refl, .suspended hnext hown, by omega, by omega⟩
  | @suspended world waiting task rest done hq hown =>
    rw [hq.jobs] at hjobs
    cases hjobs
  | @following world waiting task o done hq hown =>
    obtain ⟨rfl, rfl⟩ := List.cons.inj (hjobs.symm.trans hq.jobs)
    have hnext := (hq.withJobs []).enqueue (.react (.adopt (.result done.length)) o)
    have hattach := attach_of_settled (q := { q with jobs := [] }) (r := .adopt (.result done.length)) hown
    rw [perform, hattach]
    exact ⟨_, 4, .refl, .adopting hnext, by omega, by omega⟩
  | @adopting world waiting task o done hq =>
    obtain ⟨rfl, rfl⟩ := List.cons.inj (hjobs.symm.trans hq.jobs)
    have hnext := (hq.withJobs []).settle_result (getElem?_served done task waiting) o
    rw [jobEvents_adopt, perform_adopt]
    exact ⟨_, 3, .refl, .settled hnext, by omega, by omega⟩
  | @settled world waiting task o done hq =>
    obtain ⟨rfl, rfl⟩ := List.cons.inj (hjobs.symm.trans hq.jobs)
    obtain rfl := hq.world
    have hrun := SerialQueue.run_job (h := h.toHost)
      (q := ⟨q.world, false, waiting, none, [.advance, .deliver task o]⟩) rfl
    have hnext := (hq.withJobs [.react (.await task) o]).swallowed
    rw [jobEvents_swallow, perform_swallow]
    exact ⟨_, 2, hrun, hnext, by omega, by omega⟩
  | @last world task o done hq =>
    obtain ⟨rfl, rfl⟩ := List.cons.inj (hjobs.symm.trans hq.jobs)
    obtain rfl := hq.world
    have hrun := SerialQueue.run_job (h := h.toHost)
      (q := ⟨q.world, true, [], none, [.deliver task o]⟩) rfl
    have hnext := ((hq.withJobs []).change (h.deliver q.world task o).1).delivered_last.submitAll
      (h.deliver q.world task o).2
    rw [jobEvents_await, perform_await]
    exact ⟨_, 1, hrun, hnext, by omega, by omega⟩
  | @passing world waiting task next o done hq =>
    obtain ⟨rfl, rfl⟩ := List.cons.inj (hjobs.symm.trans hq.jobs)
    obtain rfl := hq.world
    have hrun := SerialQueue.run_job (h := h.toHost)
      (q := ⟨q.world, false, waiting, none, [.deliver task o, .start next]⟩) rfl
    have hnext := ((hq.withJobs [.react (.call (done.length + 1) next) (.ok h.nothing)]).change
      (h.deliver q.world task o).1).delivered_passing.submitAll (h.deliver q.world task o).2
    rw [jobEvents_await, perform_await]
    exact ⟨_, 1, hrun, hnext, by omega, by omega⟩

end PromiseQueue

end BinaryReport
