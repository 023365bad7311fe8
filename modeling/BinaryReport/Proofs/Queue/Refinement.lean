import BinaryReport.Proofs.Queue.Stages

/-!
# A chain of promises is a serial queue

Every run of a chain is a run of a serial queue that shows the same events (`PromiseQueue.Mirrors.run`). So
a chain starts its tasks in the order of submission and one at a time, because a serial queue does, and the
rest is read off the stages: which results have settled, that no tail is ever rejected, and how many jobs
it takes until the next task starts.
-/

namespace BinaryReport

namespace PromiseQueue

variable {σ τ κ ε α : Type} {h : PromiseHost σ τ κ ε α} {q q' : PromiseQueue σ τ κ ε α} {n d k : Nat}
  {task : τ} {o : Except ε α} {m : SerialQueue σ τ κ (Except ε α)} {r : QueueRecord τ (Except ε α)}
  {es : List (QueueEvent τ (Except ε α))}

/-! ## Runs -/

theorem Mirrors.world_eq (hq : Mirrors h q m r d) : m.world = q.world := by
  cases hq with
  | idle hq | starting hq | returned hq | suspended hq | following hq | adopting hq | settled hq
  | last hq | passing hq => exact hq.world.symm

/-- While no task is running the next start is some jobs away. -/
theorem Mirrors.pos_or_running (hq : Mirrors h q m r d) :
    0 < d ∨ r.settled.length < r.started.length := by
  cases hq with
  | idle | starting | following | adopting | settled | last | passing => exact Or.inl (by omega)
  | @returned _ _ task _ done | @suspended _ _ task _ done =>
    right
    show done.length < (done.map Prod.fst ++ [task]).length
    rw [length_served]
    exact Nat.lt_succ_self done.length

/-- A run of a chain is one of the serial queue. Each of its jobs brings the next start nearer, until one
more task has started. -/
theorem Mirrors.run (hq : Mirrors h q m r d) (hrun : Run h q q' es k) :
    ∃ m' d', SerialQueue.Run h.toHost m m' es ∧ Mirrors h q' m' (r.addAll es) d' ∧
      (0 < d' ∧ d' + k = d ∨ r.settled.length < (r.addAll es).started.length) := by
  -- If a task is running when the run begins, more tasks have started than settled from then on.
  induction hrun with
  | refl =>
    refine ⟨m, d, .refl, hq, ?_⟩
    rcases hq.pos_or_running with hpos | hrunning
    · exact Or.inl ⟨hpos, rfl⟩
    · exact Or.inr hrunning
  | change _ world ih =>
    obtain ⟨m', d', hm, hq', hnear⟩ := ih
    exact ⟨_, d', hm.change world, hq'.change world, hnear⟩
  | submit _ task ih =>
    obtain ⟨m', d', hm, hq', hnear⟩ := ih
    rw [QueueRecord.addAll_append]
    exact ⟨_, d', hm.submit task, hq'.submit task, hnear⟩
  | resume _ hbody ih =>
    obtain ⟨m', d', hm, hq', hnear⟩ := ih
    obtain ⟨hsuspended, hd, d'', hq''⟩ := hq'.resume hbody
    have hwake := hm.wake hsuspended
    rw [hq'.world_eq] at hwake
    rw [QueueRecord.addAll_append]
    refine ⟨_, d'', hwake, hq'', Or.inr ?_⟩
    rcases hnear with ⟨hpos, -⟩ | hstarted
    · omega
    · exact Nat.lt_of_lt_of_le hstarted (QueueRecord.extends_addAll _ _).started.length_le
  | @job q' es k job jobs _ hjobs ih =>
    obtain ⟨m', d', hm, hq', hnear⟩ := ih
    obtain ⟨m'', d'', hjob, hq'', hnext, hstart⟩ := hq'.job hjobs
    rw [QueueRecord.addAll_append]
    refine ⟨m'', d'', hm.trans hjob, hq'', ?_⟩
    rcases hnear with ⟨hpos, hsum⟩ | hstarted
    · by_cases hone : d' = 1
      · -- The job is the one that calls the next task.
        right
        exact Nat.lt_of_le_of_lt (r.extends_addAll es).settled.length_le (hstart hone)
      · left
        have hless := hnext (by omega)
        omega
    · right
      exact Nat.lt_of_lt_of_le hstarted (QueueRecord.extends_addAll _ _).started.length_le

theorem Mirrors.le_five (hq : Mirrors h q m r d) : d ≤ 5 := by
  cases hq with
  | idle | starting | returned | suspended | following | adopting | settled | last | passing => omega

/-! ## The discipline -/

/-- The results that have settled are those of tasks that have settled. None is missing when the next start
is at most three jobs away, and only that of the last task may be missing before. -/
theorem Mirrors.exists_chain (hq : Mirrors h q m r d) :
    ∃ t outs c, Chain h r.submitted t outs c q ∧ outs <+: r.settled ∧ (d ≤ 3 → outs = r.settled) ∧
      r.started.length ≤ outs.length + 1 := by
  have hstarted (done : List (τ × Except ε α)) (task : τ) :
      (done.map Prod.fst ++ [task]).length ≤ done.length + 1 :=
    Nat.le_of_eq (length_served done [task])
  have hless (done : List (τ × Except ε α)) (task : τ) (o : Except ε α) :
      (done.map Prod.fst ++ [task]).length ≤ (done ++ [(task, o)]).length + 1 := by
    rw [length_served, List.length_append]
    exact Nat.le_succ _
  have hnone (done : List (τ × Except ε α)) : (done.map Prod.fst).length ≤ done.length + 1 := by
    rw [List.length_map]
    exact Nat.le_succ _
  cases hq with
  | idle hq | starting hq =>
    exact ⟨_, _, _, hq.chain, List.prefix_rfl, fun _ => rfl, hnone _⟩
  | returned hq | suspended hq =>
    exact ⟨_, _, _, hq.chain, List.prefix_rfl, fun _ => rfl, hstarted _ _⟩
  | following hq | adopting hq =>
    exact ⟨_, _, _, hq.chain, List.prefix_append _ _, by omega, hstarted _ _⟩
  | settled hq | last hq | passing hq =>
    exact ⟨_, _, _, hq.chain, List.prefix_rfl, fun _ => rfl, hless _ _ _⟩

theorem Mirrors.settled_of_result (hq : Mirrors h q m r d)
    (hresult : q.promises (.result n) = .settled o) : ∃ task, r.settled[n]? = some (task, o) := by
  obtain ⟨t, outs, c, hchain, houts, -, -⟩ := hq.exists_chain
  rw [hchain.results, resultOf] at hresult
  cases hout : outs[n]? with
  | none =>
    rw [hout] at hresult
    cases hresult
  | some out =>
    rw [hout] at hresult
    cases hresult
    exact ⟨out.1, getElem?_of_isPrefix houts hout⟩

theorem Mirrors.result_of_settled (hq : Mirrors h q m r d) (hnear : d ≤ 3 ∨ n + 1 < r.started.length)
    (hn : r.settled[n]? = some (task, o)) : q.promises (.result n) = .settled o := by
  obtain ⟨t, outs, c, hchain, houts, hall, hlength⟩ := hq.exists_chain
  have hout : outs[n]? = some (task, o) := by
    rcases hnear with hnear | hnear
    · rw [hall hnear]
      exact hn
    · obtain ⟨more, hmore⟩ := houts
      rw [← hmore, List.getElem?_append_left (by omega)] at hn
      exact hn
  rw [hchain.results, resultOf, hout]

/-- The results in front of a task that has started have settled. -/
theorem Mirrors.exists_result (hq : Mirrors h q m r d) (hn : n + 1 < r.started.length) :
    ∃ o, q.promises (.result n) = .settled o := by
  obtain ⟨t, outs, c, hchain, -, -, hlength⟩ := hq.exists_chain
  have hlt : n < outs.length := by omega
  rw [hchain.results, resultOf, List.getElem?_eq_getElem hlt]
  exact ⟨_, rfl⟩

theorem Mirrors.tail_fulfilled (hq : Mirrors h q m r d) (htail : q.promises (.tail n) = .settled o) :
    o = .ok h.nothing := by
  obtain ⟨t, outs, c, hchain, -⟩ := hq.exists_chain
  rw [hchain.tails, tailOf] at htail
  by_cases hlt : n < t
  · rw [if_pos hlt] at htail
    cases htail
    rfl
  · rw [if_neg hlt] at htail
    cases htail

theorem Mirrors.length_bodies_le (hq : Mirrors h q m r d) : q.bodies.length ≤ 1 := by
  cases hq with
  | returned hq | suspended hq =>
    rw [hq.bodies]
    exact Nat.le_refl 1
  | idle hq | starting hq | following hq | adopting hq | settled hq | last hq | passing hq =>
    rw [hq.bodies]
    exact Nat.zero_le 1

/-- When no job is left there is nothing to do, or a task waits for something outside. -/
theorem Mirrors.at_rest (hq : Mirrors h q m r d) (hjobs : q.jobs = []) :
    d ≤ 3 ∧ r.delivered = r.settled ∧
      ∀ n, n < r.submitted.length → n ≤ r.settled.length → n < r.started.length := by
  cases hq with
  | idle hq => exact ⟨by omega, rfl, fun n hn _ => hn⟩
  | @suspended _ _ task _ done hq hown =>
    refine ⟨by omega, rfl, fun n _ hn => ?_⟩
    show n < (done.map Prod.fst ++ [task]).length
    rw [length_served]
    exact Nat.lt_succ_of_le hn
  | starting hq | returned hq | following hq | adopting hq | settled hq | last hq | passing hq =>
    rw [hq.jobs] at hjobs
    cases hjobs

/-- Whatever tasks are submitted to a chain, wherever and whenever, and whether they end with a value, with
an error at once or with a promise that is rejected, the chain runs them in the order of submission, one
at a time, and each exactly once, and the promise that a submitter is given settles as its own task. -/
theorem tasks_settle_in_turn {world : σ} (hrun : Run h (empty h world) q es k) :
    -- A task starts as the next one in the order of submission, after all that were started have
    -- settled; the task that settles is the one that was started last; the outcome that is delivered
    -- is the next one in the order of settling.
    (∀ before e after, es = before ++ e :: after → (QueueRecord.of before).Allows e) ∧
    -- So at every moment the tasks that were started are the first ones, and one at most is running.
    (∀ before after, es = before ++ after → (QueueRecord.of before).InTurn) ∧
    q.bodies.length ≤ 1 ∧
    -- When a task has started, the promises for all tasks before it have settled.
    (∀ n, n + 1 < (QueueRecord.of es).started.length → ∃ o, q.promises (.result n) = .settled o) ∧
    -- A task settles with what its own turns lead to.
    (∀ task o, .settled task o ∈ es → h.LeadsTo task (.settled o)) ∧
    -- The promise for a task settles with the outcome of this task only, with the second job after the
    -- task at the latest, and it keeps that outcome.
    (∀ n o, q.promises (.result n) = .settled o →
      ∃ task, (QueueRecord.of es).submitted[n]? = some task ∧
        (QueueRecord.of es).settled[n]? = some (task, o)) ∧
    (∀ n task o, (QueueRecord.of es).settled[n]? = some (task, o) →
      ∀ q' es' k', Run h q q' es' k' → 2 ≤ k' → q'.promises (.result n) = .settled o) ∧
    (∀ p o, q.promises p = .settled o →
      ∀ q' es' k', Run h q q' es' k' → q'.promises p = .settled o) ∧
    -- No error reaches a tail.
    (∀ n o, q.promises (.tail n) = .settled o → o = .ok h.nothing) ∧
    -- Once all tasks before it have settled, a task starts with the fifth job at the latest.
    (∀ q' es' k', Run h q q' es' k' → 5 ≤ k' →
      (QueueRecord.of es).settled.length < (QueueRecord.of (es ++ es')).started.length) ∧
    -- When no job is left, all such tasks have started, all outcomes are delivered, and the promises of
    -- all tasks that have settled have settled.
    (q.jobs = [] →
      (∀ n, n < (QueueRecord.of es).submitted.length → n ≤ (QueueRecord.of es).settled.length →
        n < (QueueRecord.of es).started.length) ∧
      (QueueRecord.of es).delivered = (QueueRecord.of es).settled ∧
      ∀ n task o, (QueueRecord.of es).settled[n]? = some (task, o) →
        q.promises (.result n) = .settled o) := by
  obtain ⟨m, d, hm, hq, -⟩ := (mirrors_empty h world).run hrun
  have hfollows := (SerialQueue.serving_empty h.toHost world).run hm
  have hturn (before after : List (QueueEvent τ (Except ε α))) (heq : es = before ++ after) :
      (QueueRecord.of before).InTurn := by
    have hallowed := hfollows.allowed
    rw [heq] at hallowed
    exact QueueRecord.inTurn_empty.addAll (QueueRecord.allowsAll_append.1 hallowed).1
  have hall := hturn es [] (List.append_nil es).symm
  refine ⟨?_, hturn, hq.length_bodies_le, fun n => hq.exists_result, hfollows.own, ?_, ?_, ?_,
    fun n o => hq.tail_fulfilled, ?_, ?_⟩
  · intro before e after heq
    have hallowed := hfollows.allowed
    rw [heq] at hallowed
    exact hallowed.allows
  · intro n o hresult
    obtain ⟨task, hn⟩ := hq.settled_of_result hresult
    exact ⟨task, hall.submitted_of_settled hn, hn⟩
  · intro n task o hn q' es' k' hrun' hk'
    obtain ⟨m', d', -, hq', hnear⟩ := hq.run hrun'
    have hlt : n < (QueueRecord.of es).settled.length := (List.getElem?_eq_some_iff.1 hn).1
    refine hq'.result_of_settled ?_
      (getElem?_of_isPrefix (QueueRecord.extends_addAll _ es').settled hn)
    rcases hnear with ⟨-, hsum⟩ | hstarted
    · have hbound := hq.le_five
      exact Or.inl (by omega)
    · exact Or.inr (Nat.lt_of_le_of_lt hlt hstarted)
  · intro p o hp q' es' k' hrun'
    exact hrun'.keeps p o hp
  · intro q' es' k' hrun' hk'
    obtain ⟨m', d', -, -, hnear⟩ := hq.run hrun'
    have hbound := hq.le_five
    rcases hnear with ⟨hpos, hsum⟩ | hstarted
    · omega
    · unfold QueueRecord.of
      rw [QueueRecord.addAll_append]
      exact hstarted
  · intro hjobs
    obtain ⟨hnear, hdelivered, hstarted⟩ := hq.at_rest hjobs
    exact ⟨hstarted, hdelivered, fun n task o => hq.result_of_settled (Or.inl hnear)⟩

/-- Tasks of which the first one submits another one, waits and is rejected, the second one throws an error
at once, and the third one is an asynchronous function that fails in its first turn. The delivery of the
first rejection submits one more. -/
def failingHost : PromiseHost Unit Nat Unit String Nat where
  start _ task :=
    match task with
    | 0 => ⟨(), [2], .suspended ()⟩
    | 1 => ⟨(), [], .settled (.error "thrown")⟩
    | 2 => ⟨(), [], .settled (.error "rejected")⟩
    | n => ⟨(), [], .settled (.ok n)⟩
  resume _ _ _ := ⟨(), [], .settled (.error "failed")⟩
  deliver _ task _ := ((), if task = 0 then [3] else [])
  weight _ := 0
  deliveryWeight _ := 0
  nothing := 0
  returnsPromise _ task := task == 2

theorem tasks_settle_in_turn_failing :
    ∃ q es, Run failingHost (empty failingHost ()) q es 16 ∧ q.jobs = [] ∧
      (QueueRecord.of es).submitted = [0, 1, 2, 3] ∧
      (QueueRecord.of es).delivered =
        [(0, .error "failed"), (1, .error "thrown"), (2, .error "rejected"), (3, .ok 3)] ∧
      (QueueRecord.of es).InTurn ∧ q.promises (.result 2) = .settled (.error "rejected") := by
  have hwaits := (((Run.refl.submit 0).submit 1).job (h := failingHost)
    (q := empty failingHost ()) rfl).job rfl
  have hfailed := (((hwaits.resume (i := 0) rfl).job rfl).job rfl).job rfl
  have hthrown := ((hfailed.job rfl).job rfl).job rfl
  have hrejected := ((((hthrown.job rfl).job rfl).job rfl).job rfl).job rfl
  have hdone := ((hrejected.job rfl).job rfl).job rfl
  obtain ⟨-, hturn, -, -, -, -, -, -, -, -, hrest⟩ := tasks_settle_in_turn hdone
  obtain ⟨-, hdelivered, hresults⟩ := hrest rfl
  exact ⟨_, _, hdone, rfl, rfl, hdelivered.trans rfl, hturn _ [] (List.append_nil _).symm,
    hresults 2 2 _ rfl⟩

end PromiseQueue

end BinaryReport
