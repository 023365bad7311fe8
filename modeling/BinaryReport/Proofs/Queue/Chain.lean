import BinaryReport.Proofs.Queue.Promises

/-!
# The chain of a serial queue

What the promises of a chain are at any moment (`PromiseQueue.Chain`). The tails up to one of them are
fulfilled, and none is ever rejected; the results up to one of them have settled, and they come in the
order of submission. Behind that every tail waits with the task that is next, and every result with the
tail behind it and with who submitted the task.

Each operation moves one of these borders by one, or adds a task at the end.
-/

namespace BinaryReport

theorem getElem?_concat_of_ne {β : Type} {l : List β} {n : Nat} (hne : n ≠ l.length) (a : β) :
    (l ++ [a])[n]? = l[n]? := by
  rcases Nat.lt_or_gt_of_ne hne with hlt | hgt
  · exact List.getElem?_append_left hlt
  · rw [List.getElem?_eq_none (Nat.le_of_lt hgt), List.getElem?_eq_none]
    rw [List.length_append, List.length_singleton]
    exact hgt

namespace PromiseName

theorem tail_ne_result (m n : Nat) : tail m ≠ result n := nofun

theorem result_ne_tail (m n : Nat) : result m ≠ tail n := nofun

theorem own_ne_tail (m n : Nat) : own m ≠ tail n := nofun

theorem own_ne_result (m n : Nat) : own m ≠ result n := nofun

theorem tail_ne_own (m n : Nat) : tail m ≠ own n := nofun

theorem result_ne_own (m n : Nat) : result m ≠ own n := nofun

end PromiseName

namespace PromiseQueue

open PromiseName

variable {σ τ κ ε α : Type} {h : PromiseHost σ τ κ ε α} {q : PromiseQueue σ τ κ ε α}
  {p other : PromiseName} {r : Reaction τ} {o : Except ε α} {rs : List (Reaction τ)}
  {tasks : List τ} {t c n : Nat} {outs : List (τ × Except ε α)} {task : τ}

/-! ## Registering -/

theorem promises_attach_of_ne (r : Reaction τ) (hne : other ≠ p) :
    (q.attach p r).promises other = q.promises other := by
  cases hp : q.promises p with
  | pending reactions => rw [attach_of_pending hp, promises_put_of_ne _ hne]
  | settled outcome => rw [attach_of_settled hp, enqueue]

theorem promises_attach_of_pending (hp : q.promises p = .pending rs) (r : Reaction τ) :
    (q.attach p r).promises p = .pending (rs ++ [r]) := by
  rw [attach_of_pending hp, promises_put_self]

theorem promises_attach_of_settled (hp : q.promises p = .settled o) (r : Reaction τ) :
    (q.attach p r).promises p = .settled o := by
  rw [attach_of_settled hp, enqueue, hp]

theorem jobs_attach_of_pending (hp : q.promises p = .pending rs) (r : Reaction τ) :
    (q.attach p r).jobs = q.jobs := by
  rw [attach_of_pending hp, put]

theorem jobs_attach_of_settled (hp : q.promises p = .settled o) (r : Reaction τ) :
    (q.attach p r).jobs = q.jobs ++ [.react r o] := by
  rw [attach_of_settled hp, enqueue]

theorem ends_attach (q : PromiseQueue σ τ κ ε α) (p : PromiseName) (r : Reaction τ) :
    (q.attach p r).count = q.count ∧ (q.attach p r).tail = q.tail := by
  cases hp : q.promises p with
  | pending reactions =>
    rw [attach_of_pending hp]
    exact ⟨rfl, rfl⟩
  | settled outcome =>
    rw [attach_of_settled hp]
    exact ⟨rfl, rfl⟩

/-! ## The chain -/

/-- The tail of the first `n` tasks. Those in front of the tail `t` are fulfilled; another one waits with
the task behind it, if there is one. -/
def tailOf (h : PromiseHost σ τ κ ε α) (tasks : List τ) (t n : Nat) : Promise τ ε α :=
  if n < t then .settled (.ok h.nothing) else .pending (tasks[n]?.toList.map (.call n))

/-- The result of the task `n`: its outcome, if it is one of those that have settled; another one waits
with the tail behind it and with the submitter. -/
def resultOf (tasks : List τ) (outs : List (τ × Except ε α)) (n : Nat) : Promise τ ε α :=
  match outs[n]? with
  | some out => .settled out.2
  | none => .pending (tasks[n]?.toList.flatMap fun task => [.swallow n, .await task])

/-- The chain of some tasks: the first `t` tails are fulfilled, the first results have settled with the
outcomes `outs`, and no task from the task `c` on has returned a promise. -/
structure Chain (h : PromiseHost σ τ κ ε α) (tasks : List τ) (t : Nat)
    (outs : List (τ × Except ε α)) (c : Nat) (q : PromiseQueue σ τ κ ε α) : Prop where
  count : q.count = tasks.length
  tail : q.tail = .tail tasks.length
  tails : ∀ n, q.promises (.tail n) = tailOf h tasks t n
  results : ∀ n, q.promises (.result n) = resultOf tasks outs n
  owns : ∀ n, c ≤ n → q.promises (.own n) = .pending []

theorem chain_empty (h : PromiseHost σ τ κ ε α) (world : σ) :
    Chain h [] 1 [] 0 (empty h world) where
  count := rfl
  tail := rfl
  tails n := by
    cases n with
    | zero => rfl
    | succ n => rfl
  results _ := rfl
  owns _ _ := rfl

/-- The chain does not depend on the world, the waiting tasks and the jobs. -/
theorem Chain.of_eq {q' : PromiseQueue σ τ κ ε α} (hchain : Chain h tasks t outs c q)
    (hcount : q'.count = q.count) (htail : q'.tail = q.tail) (hpromises : q'.promises = q.promises) :
    Chain h tasks t outs c q' := by
  refine ⟨hcount.trans hchain.count, htail.trans hchain.tail, ?_, ?_, ?_⟩
  all_goals rw [hpromises]
  · exact hchain.tails
  · exact hchain.results
  · exact hchain.owns

theorem Chain.later (hchain : Chain h tasks t outs c q) : Chain h tasks t outs (c + 1) q :=
  ⟨hchain.count, hchain.tail, hchain.tails, hchain.results,
    fun n hn => hchain.owns n (Nat.le_of_succ_le hn)⟩

/-! ## Submitting -/

theorem tailOf_concat_of_ne (h : PromiseHost σ τ κ ε α) (t : Nat) (hne : n ≠ tasks.length)
    (task : τ) : tailOf h (tasks ++ [task]) t n = tailOf h tasks t n := by
  rw [tailOf, tailOf, getElem?_concat_of_ne hne]

theorem resultOf_concat_of_ne (outs : List (τ × Except ε α)) (hne : n ≠ tasks.length) (task : τ) :
    resultOf (tasks ++ [task]) outs n = resultOf tasks outs n := by
  rw [resultOf, resultOf, getElem?_concat_of_ne hne]

theorem getElem?_length (l : List τ) : l[l.length]? = none :=
  List.getElem?_eq_none (Nat.le_refl l.length)

/-- The result of the next task that is submitted. -/
theorem resultOf_length (houts : outs.length ≤ tasks.length) :
    (resultOf tasks outs tasks.length : Promise τ ε α) = .pending [] := by
  rw [resultOf, List.getElem?_eq_none houts, getElem?_length]
  rfl

/-- The tail that a task is submitted behind. -/
theorem tailOf_length (h : PromiseHost σ τ κ ε α) (tasks : List τ) (t : Nat) :
    tailOf h tasks t tasks.length =
      if tasks.length < t then .settled (.ok h.nothing) else .pending [] := by
  rw [tailOf, getElem?_length]
  rfl

section Submit

variable (hchain : Chain h tasks t outs c q) (houts : outs.length ≤ tasks.length) (task : τ)
include hchain

theorem Chain.promises_submit_of_ne (hresult : p ≠ .result tasks.length)
    (htail : p ≠ .tail tasks.length) : (q.submit task).promises p = q.promises p := by
  have hcount := hchain.count
  rw [submit_eq, hcount, promises_attach_of_ne _ hresult]
  show ((q.attach q.tail (.call q.count task)).attach (.result q.count) _).promises p = _
  rw [hcount, promises_attach_of_ne _ hresult, hchain.tail, promises_attach_of_ne _ htail]

theorem Chain.promises_submit_tail :
    (q.submit task).promises (.tail tasks.length) = tailOf h (tasks ++ [task]) t tasks.length := by
  have hcount := hchain.count
  have hne := tail_ne_result tasks.length tasks.length
  have hbefore := hchain.tails tasks.length
  rw [tailOf_length] at hbefore
  rw [submit_eq, hcount, promises_attach_of_ne _ hne]
  show ((q.attach q.tail (.call q.count task)).attach (.result q.count) _).promises _ = _
  rw [hcount, promises_attach_of_ne _ hne, hchain.tail, tailOf, List.getElem?_concat_length]
  by_cases hlt : tasks.length < t
  · rw [if_pos hlt] at hbefore ⊢
    exact promises_attach_of_settled hbefore _
  · rw [if_neg hlt] at hbefore ⊢
    exact promises_attach_of_pending hbefore _

include houts in
/-- Nothing is registered with the result of a task that is registered with the tail. -/
theorem Chain.result_called :
    (q.attach q.tail (.call q.count task)).promises (.result q.count) = .pending [] := by
  rw [hchain.tail, promises_attach_of_ne _ (result_ne_tail _ _), hchain.count, hchain.results,
    resultOf_length houts]

include houts in
theorem Chain.result_linked :
    (q.linked task).promises (.result q.count) = .pending [.swallow q.count] :=
  promises_attach_of_pending (hchain.result_called houts task) _

include houts in
/-- A task is submitted at the end of a chain. -/
theorem Chain.submit : Chain h (tasks ++ [task]) t outs c (q.submit task) := by
  have hends := ends_attach (q.linked task) (.result q.count) (.await task)
  rw [← submit_eq] at hends
  refine ⟨?_, ?_, fun n => ?_, fun n => ?_, fun n hn => ?_⟩
  · rw [hends.1, List.length_append, ← hchain.count]
    rfl
  · rw [hends.2, List.length_append, ← hchain.count]
    rfl
  · by_cases heq : n = tasks.length
    · rw [heq, hchain.promises_submit_tail]
    · have hne : PromiseName.tail n ≠ .tail tasks.length := fun hn => heq (PromiseName.tail.inj hn)
      rw [hchain.promises_submit_of_ne task (tail_ne_result n _) hne, hchain.tails,
        tailOf_concat_of_ne h t heq]
  · by_cases heq : n = tasks.length
    · have hlinked := hchain.result_linked houts task
      have hresult := promises_attach_of_pending hlinked (.await task)
      rw [← submit_eq, hchain.count] at hresult
      rw [heq, hresult, resultOf, List.getElem?_eq_none houts, List.getElem?_concat_length]
      rfl
    · have hne : result n ≠ result tasks.length := fun hn => heq (result.inj hn)
      rw [hchain.promises_submit_of_ne task hne (result_ne_tail n _), hchain.results,
        resultOf_concat_of_ne outs heq]
  · rw [hchain.promises_submit_of_ne task (own_ne_result n _) (own_ne_tail n _)]
    exact hchain.owns n hn

include houts in
/-- A task that is submitted behind a tail that is fulfilled is about to be called. -/
theorem Chain.jobs_submit : (q.submit task).jobs =
    if tasks.length < t then q.jobs ++ [.react (.call tasks.length task) (.ok h.nothing)]
    else q.jobs := by
  have hbefore := hchain.tails tasks.length
  rw [tailOf_length] at hbefore
  rw [submit_eq, jobs_attach_of_pending (hchain.result_linked houts task)]
  show ((q.attach q.tail (.call q.count task)).attach (.result q.count) (.swallow q.count)).jobs = _
  rw [jobs_attach_of_pending (hchain.result_called houts task), hchain.tail, hchain.count]
  by_cases hlt : tasks.length < t
  · rw [if_pos hlt] at hbefore ⊢
    exact jobs_attach_of_settled hbefore _
  · rw [if_neg hlt] at hbefore ⊢
    exact jobs_attach_of_pending hbefore _

end Submit

/-- Behind a tail that is not fulfilled any number of tasks can be submitted without a job. -/
theorem Chain.submitAll (hchain : Chain h tasks t outs c q) (houts : outs.length ≤ tasks.length)
    (ht : t ≤ tasks.length) (more : List τ) :
    Chain h (tasks ++ more) t outs c (q.submitAll more) ∧ (q.submitAll more).jobs = q.jobs ∧
      ∀ n, (q.submitAll more).promises (.own n) = q.promises (.own n) := by
  induction more generalizing q tasks with
  | nil =>
    rw [List.append_nil]
    exact ⟨hchain, rfl, fun _ => rfl⟩
  | cons task more ih =>
    have hlonger : tasks.length ≤ (tasks ++ [task]).length := by
      rw [List.length_append]
      exact Nat.le_add_right _ _
    obtain ⟨hnext, hjobs, howns⟩ := ih (hchain.submit houts task) (Nat.le_trans houts hlonger)
      (Nat.le_trans ht hlonger)
    rw [List.append_assoc, List.singleton_append] at hnext
    rw [hchain.jobs_submit houts task, if_neg (Nat.not_lt.2 ht)] at hjobs
    refine ⟨hnext, hjobs, fun n => ?_⟩
    rw [← hchain.promises_submit_of_ne task (own_ne_result n _) (own_ne_tail n _)]
    exact howns n

/-! ## Settling -/

/-- The next tail is fulfilled: the task behind it is about to be called. -/
theorem Chain.settle_tail (hchain : Chain h tasks t outs c q) :
    Chain h tasks (t + 1) outs c (q.settle (.tail t) (.ok h.nothing)) ∧
      (q.settle (.tail t) (.ok h.nothing)).jobs = q.jobs ++
        tasks[t]?.toList.map fun task => .react (.call t task) (.ok h.nothing) := by
  have hpending : q.promises (.tail t) = .pending (tasks[t]?.toList.map (.call t)) := by
    rw [hchain.tails, tailOf, if_neg (Nat.lt_irrefl t)]
  rw [settle_of_pending hpending, List.map_map]
  refine ⟨⟨hchain.count, hchain.tail, fun n => ?_, fun n => ?_, fun n hn => ?_⟩, rfl⟩
  · by_cases heq : n = t
    · rw [heq, tailOf, if_pos (Nat.lt_succ_self t)]
      exact promises_put_self q _ _
    · have hne : PromiseName.tail n ≠ .tail t := fun hn => heq (PromiseName.tail.inj hn)
      have hsame : n < t + 1 ↔ n < t := by omega
      have htail : tailOf h tasks (t + 1) n = tailOf h tasks t n := by simp only [tailOf, hsame]
      rw [htail, ← hchain.tails]
      exact promises_put_of_ne (.settled (.ok h.nothing)) hne
  · rw [← hchain.results]
    exact promises_put_of_ne (.settled (.ok h.nothing)) (result_ne_tail n t)
  · rw [← hchain.owns n hn]
    exact promises_put_of_ne (.settled (.ok h.nothing)) (own_ne_tail n t)

/-- The next result settles: the tail behind it is to be fulfilled, and the submitter to go on. -/
theorem Chain.settle_result (hchain : Chain h tasks t outs c q)
    (htask : tasks[outs.length]? = some task) (o : Except ε α) :
    Chain h tasks t (outs ++ [(task, o)]) c (q.settle (.result outs.length) o) ∧
      (q.settle (.result outs.length) o).jobs =
        q.jobs ++ [.react (.swallow outs.length) o, .react (.await task) o] := by
  have hpending : q.promises (.result outs.length) =
      .pending [.swallow outs.length, .await task] := by
    rw [hchain.results, resultOf, List.getElem?_eq_none (Nat.le_refl _), htask]
    rfl
  rw [settle_of_pending hpending]
  refine ⟨⟨hchain.count, hchain.tail, fun n => ?_, fun n => ?_, fun n hn => ?_⟩, rfl⟩
  · rw [← hchain.tails]
    exact promises_put_of_ne (.settled o) (tail_ne_result n outs.length)
  · by_cases heq : n = outs.length
    · rw [heq, resultOf, List.getElem?_concat_length]
      exact promises_put_self q _ _
    · have hne : result n ≠ result outs.length := fun hn => heq (result.inj hn)
      have hresult : (resultOf tasks (outs ++ [(task, o)]) n : Promise τ ε α) =
          resultOf tasks outs n := by
        rw [resultOf, resultOf, getElem?_concat_of_ne heq]
      rw [hresult, ← hchain.results]
      exact promises_put_of_ne (.settled o) hne
  · rw [← hchain.owns n hn]
    exact promises_put_of_ne (.settled o) (own_ne_result n outs.length)

/-- The promise that a task has returned may change. -/
theorem Chain.put_own (hchain : Chain h tasks t outs c q) (hn : n < c) (promise : Promise τ ε α) :
    Chain h tasks t outs c (q.put (.own n) promise) := by
  refine ⟨hchain.count, hchain.tail, fun m => ?_, fun m => ?_, fun m hm => ?_⟩
  · exact (promises_put_of_ne _ (tail_ne_own m n)).trans (hchain.tails m)
  · exact (promises_put_of_ne _ (result_ne_own m n)).trans (hchain.results m)
  · have hne : own m ≠ own n := fun heq => absurd (own.inj heq) (by omega)
    exact (promises_put_of_ne _ hne).trans (hchain.owns m hm)

end PromiseQueue

end BinaryReport
