import BinaryReport.Proofs.Service.Serial
import Mathlib.Data.List.Range

/-!
# The account of responses

However requests overlap, none of them gets lost and none is answered twice: of the requests that have
arrived every one has either its response or a task that is left, and not both (`Session.Accounted`).

`Session.Books` is all that an event does to the tasks that are left and to the responses: a request is
answered at once or submits a task, a job delivers the first task or nothing, and nothing else happens.
What every event keeps holds along every run (`Session.Orderly.induct`).
-/

namespace BinaryReport.Session

variable {limits : Limits} {s s' : Session} {pending : List AppTask}

/-! ## Events -/

/-- What an event does to the tasks that are left and to the responses. -/
inductive Books (s : Session) : List AppTask → Session → List AppTask → Prop where
  /-- A request arrives and is answered. -/
  | answered {s' : Session} {pending : List AppTask} {ticket : Ticket} {response : Response}
    (harrived : s'.arrived = s.arrived + 1) (hnumber : ticket.number = s.arrived)
    (hresponses : s'.app.responses = s.app.responses ++ [ticket.sent response]) :
    Books s pending s' pending
  /-- A request arrives and submits a task. -/
  | submitted {s' : Session} {pending : List AppTask} {task : AppTask}
    (harrived : s'.arrived = s.arrived + 1) (hnumber : task.ticket.number = s.arrived)
    (hresponses : s'.app.responses = s.app.responses) :
    Books s pending s' (pending ++ [task])
  /-- Nothing is sent. -/
  | silent {s' : Session} {pending : List AppTask} (harrived : s'.arrived = s.arrived)
    (hresponses : s'.app.responses = s.app.responses) :
    Books s pending s' pending
  /-- The first task is delivered. A task that makes the report delivers a whole one. -/
  | delivered {s' : Session} {task : AppTask} {rest : List AppTask} {response : Response}
    (harrived : s'.arrived = s.arrived)
    (hresponses : s'.app.responses = s.app.responses ++ [task.ticket.sent response])
    (hreport : task.work = .report →
      ∃ report, response = App.reportResponse report task.format) :
    Books s (task :: rest) s' rest

theorem Books.arrived_le {pending' : List AppTask} (h : Books s pending s' pending') :
    s.arrived ≤ s'.arrived := by
  cases h with
  | answered harrived | submitted harrived => exact harrived ▸ Nat.le_succ s.arrived
  | silent harrived | delivered harrived => exact Nat.le_of_eq harrived.symm

/-- The queue serves tasks in turn, on an engine that had no faults before the first of them. -/
structure Orderly (limits : Limits) (s : Session) (pending : List AppTask) : Prop where
  /-- The tasks are served in turn. -/
  inTurn : ∃ before : Engine, before.Faultless ∧ InTurn limits before s.queue pending
  /-- The bounds are those of the service. -/
  defaults : s.app.defaults = limits

theorem orderly_start {e : Engine} (he : e.Faultless) (key : String) (limits : Limits) :
    Orderly limits (start e key limits) [] :=
  ⟨⟨e, he, .idle rfl⟩, rfl⟩

/-! ## Responses -/

theorem responses_absorb (q : AppQueue) (app : App) (task : AppTask)
    (part : Engine × Begun WorkRest WorkOutcome) :
    (SerialQueue.absorb q task (app.effectOf part)).world.responses = app.responses := by
  obtain ⟨e, begun⟩ := part
  cases begun with
  | finished result => rfl
  | decompiling call rest =>
    unfold App.effectOf
    dsimp only
    by_cases hsettled : call.result?.isSome = true
    · rw [if_pos hsettled]
      rfl
    · rw [if_neg hsettled]
      rfl

theorem responses_fire (s : Session) : s.fire.app.responses = s.app.responses := by
  unfold fire app SerialQueue.wake
  dsimp only
  cases s.queue.suspended? with
  | none => rfl
  | some suspended =>
    obtain ⟨task, call, rest⟩ := suspended
    exact responses_absorb _ _ task _

theorem responses_job {q : AppQueue} (hstep : s.queue.step? App.host = some q) :
    (s.deliveredNext = [] ∧ q.world.responses = s.app.responses) ∨
      ∃ task o response, s.deliveredNext = [(task, o)] ∧
        q.world.responses = s.app.responses ++ [task.ticket.sent response] ∧
        ∀ report, o = .report (.ok (.whole report)) →
          response = App.reportResponse report task.format := by
  unfold SerialQueue.step? at hstep
  unfold deliveredNext jobs
  cases hjobs : s.queue.jobs with
  | nil => rw [hjobs] at hstep; cases hstep
  | cons job rest =>
    rw [hjobs] at hstep
    obtain rfl := Option.some.inj hstep
    cases job with
    | start task => exact Or.inl ⟨rfl, responses_absorb _ _ task _⟩
    | advance =>
      refine Or.inl ⟨rfl, ?_⟩
      unfold SerialQueue.perform SerialQueue.advance
      dsimp only
      split
      · rfl
      · rfl
    | deliver task o =>
      obtain ⟨response, hresponses, hreport⟩ := (App.delivered s.app task o).responses
      exact Or.inr ⟨task, o, response, rfl, hresponses, hreport⟩

section Arrive

variable {r : Request}

/-- The service after a request has arrived, by what becomes of the request. -/
theorem app_arrive (s : Session) (r : Request) :
    (s.arrive r).app =
      match (s.app.reactAny r).2 with
      | .answer response => (s.app.reactAny r).1.respond ⟨s.arrived, r.wantsNoBody⟩ response
      | .raise raised => (s.app.reactAny r).1.respondRaised ⟨s.arrived, r.wantsNoBody⟩ raised
      | .submit _ _ => (s.app.reactAny r).1 := by
  unfold arrive AppQueue.receive app
  dsimp only
  cases (s.queue.world.reactAny r).2 with
  | answer | raise => rfl
  | submit work format => exact world_submit _ _

theorem arrive_of_answer {response : Response} (h : (s.app.reactAny r).2 = .answer response) :
    s.submittedBy r = [] ∧ (s.arrive r).app.responses =
      s.app.responses ++ [Ticket.sent ⟨s.arrived, r.wantsNoBody⟩ response] := by
  have hkept := (App.reacted s.app r).responses
  have hsent := (App.responded_respond (s.app.reactAny r).1 ⟨s.arrived, r.wantsNoBody⟩
    response).responses
  rw [hkept] at hsent
  rw [app_arrive, submittedBy, h]
  exact ⟨rfl, hsent⟩

theorem arrive_of_raise {raised : Raised} {response : Response}
    (h : (s.app.reactAny r).2 = .raise raised)
    (hresponse : App.Responded (s.app.reactAny r).1 ⟨s.arrived, r.wantsNoBody⟩ response
      ((s.app.reactAny r).1.respondRaised ⟨s.arrived, r.wantsNoBody⟩ raised)) :
    s.submittedBy r = [] ∧ (s.arrive r).app.responses =
      s.app.responses ++ [Ticket.sent ⟨s.arrived, r.wantsNoBody⟩ response] := by
  have hkept := (App.reacted s.app r).responses
  have hsent := hresponse.responses
  rw [hkept] at hsent
  rw [app_arrive, submittedBy, h]
  exact ⟨rfl, hsent⟩

theorem arrive_of_submit {work : Work} {format : ReportFormat}
    (h : (s.app.reactAny r).2 = .submit work format) :
    s.submittedBy r = [⟨⟨s.arrived, r.wantsNoBody⟩, work, format, r.client⟩] ∧
      (s.arrive r).app.responses = s.app.responses := by
  have hkept := (App.reacted s.app r).responses
  rw [app_arrive, submittedBy, h]
  exact ⟨rfl, hkept⟩

/-- A request is answered at once or submits its task. -/
theorem arrive_cases (s : Session) (r : Request) :
    (s.submittedBy r = [] ∧ ∃ response, (s.arrive r).app.responses =
        s.app.responses ++ [Ticket.sent ⟨s.arrived, r.wantsNoBody⟩ response]) ∨
      ∃ work format, s.submittedBy r = [⟨⟨s.arrived, r.wantsNoBody⟩, work, format, r.client⟩] ∧
        (s.arrive r).app.responses = s.app.responses := by
  cases hreaction : (s.app.reactAny r).2 with
  | answer response =>
    obtain ⟨hnone, hsent⟩ := arrive_of_answer hreaction
    exact Or.inl ⟨hnone, response, hsent⟩
  | raise raised =>
    obtain ⟨response, hresponse⟩ := App.exists_responded_raised (s.app.reactAny r).1
      ⟨s.arrived, r.wantsNoBody⟩ raised
    obtain ⟨hnone, hsent⟩ := arrive_of_raise hreaction hresponse
    exact Or.inl ⟨hnone, response, hsent⟩
  | submit work format =>
    obtain ⟨htask, hsame⟩ := arrive_of_submit hreaction
    exact Or.inr ⟨work, format, htask, hsame⟩

end Arrive

/-! ## The books of an event -/

theorem Orderly.arrive (h : Orderly limits s pending) (r : Request) :
    Orderly limits (s.arrive r) (pending ++ s.submittedBy r) ∧
      Books s pending (s.arrive r) (pending ++ s.submittedBy r) := by
  obtain ⟨⟨before, hfaultless, hturn⟩, hdefaults⟩ := h
  obtain ⟨hturn', hsame⟩ := hturn.arrive r
  refine ⟨⟨⟨before, hfaultless, hturn'⟩, hsame.trans hdefaults⟩, ?_⟩
  rcases arrive_cases s r with ⟨hnone, response, hsent⟩ | ⟨work, format, htask, hsame⟩
  · rw [hnone, List.append_nil]
    exact .answered rfl rfl hsent
  · rw [htask]
    exact .submitted rfl rfl hsame

theorem Orderly.fire (h : Orderly limits s pending) :
    Orderly limits s.fire pending ∧ Books s pending s.fire pending := by
  obtain ⟨⟨before, hfaultless, hturn⟩, hdefaults⟩ := h
  obtain ⟨hturn', hsame⟩ := hturn.fire
  exact ⟨⟨⟨before, hfaultless, hturn'⟩, hsame.trans hdefaults⟩, .silent rfl (responses_fire s)⟩

theorem Orderly.job (h : Orderly limits s pending) {q : AppQueue}
    (hstep : s.queue.step? App.host = some q) :
    ∃ pending', Orderly limits ⟨q, s.arrived⟩ pending' ∧
      Books s pending ⟨q, s.arrived⟩ pending' := by
  obtain ⟨⟨before, hfaultless, hturn⟩, hdefaults⟩ := h
  obtain ⟨hsame, ⟨hnone, hturn'⟩ | ⟨task, rest, rfl, hdelivered, hturn'⟩⟩ :=
    hturn.job hdefaults hstep
  · refine ⟨pending, ⟨⟨before, hfaultless, hturn'⟩, hsame⟩, ?_⟩
    rcases responses_job hstep with ⟨-, hresponses⟩ | ⟨task, o, response, hsome, -⟩
    · exact .silent rfl hresponses
    · rw [hnone] at hsome
      cases hsome
  · -- The engine that the next task meets is the one that this task leaves.
    have hdone := task.work.done_run hfaultless limits
    refine ⟨rest, ⟨⟨_, hdone.faultless, hturn'⟩, hsame⟩, ?_⟩
    rcases responses_job hstep with ⟨hnone, -⟩ | ⟨task', o, response, hsome, hresponses, hreport⟩
    · rw [hdelivered] at hnone
      cases hnone
    · rw [hdelivered] at hsome
      obtain ⟨rfl, rfl⟩ := Prod.mk.inj (List.cons.inj hsome).1
      refine .delivered rfl hresponses fun hwork => ?_
      obtain ⟨report, ho⟩ := hdone.whole hwork
      exact ⟨report, hreport report ho⟩

/-- What every event keeps holds along every run. -/
theorem Orderly.induct {P : Session → List AppTask → Prop} (h : Orderly limits s pending)
    (hstart : P s pending)
    (hbooks : ∀ a pending b pending', P a pending → Books a pending b pending' → P b pending')
    {tasks : List AppTask} {outcomes : List (AppTask × WorkOutcome)}
    (hrun : Run s s' tasks outcomes) : ∃ pending', Orderly limits s' pending' ∧ P s' pending' := by
  induction hrun with
  | refl => exact ⟨pending, h, hstart⟩
  | arrive _ r ih =>
    obtain ⟨pending', horderly, hp⟩ := ih
    obtain ⟨hnext, hstep⟩ := horderly.arrive r
    exact ⟨_, hnext, hbooks _ _ _ _ hp hstep⟩
  | fire _ ih =>
    obtain ⟨pending', horderly, hp⟩ := ih
    obtain ⟨hnext, hstep⟩ := horderly.fire
    exact ⟨_, hnext, hbooks _ _ _ _ hp hstep⟩
  | job _ hdone ih =>
    obtain ⟨pending', horderly, hp⟩ := ih
    obtain ⟨pending'', hnext, hstep⟩ := horderly.job hdone
    exact ⟨pending'', hnext, hbooks _ _ _ _ hp hstep⟩

/-! ## The account -/

/-- The tasks that are left and the responses have the numbers of the requests that have arrived, each
of them once. -/
def Accounted (s : Session) (pending : List AppTask) : Prop :=
  (pending.map (·.ticket.number) ++ s.app.responses.map Prod.fst).Perm (List.range s.arrived)

theorem accounted_start (e : Engine) (key : String) (limits : Limits) :
    Accounted (start e key limits) [] := .refl []

theorem Accounted.books {pending' : List AppTask} (h : Accounted s pending)
    (hbooks : Books s pending s' pending') : Accounted s' pending' := by
  unfold Accounted at h ⊢
  cases hbooks with
  | @answered _ _ ticket response harrived hnumber hresponses =>
    rw [harrived, hresponses, List.map_append, ← List.append_assoc, List.range_succ, ← hnumber]
    exact (hnumber ▸ h).append_right [ticket.number]
  | @submitted _ _ task harrived hnumber hresponses =>
    rw [harrived, hresponses, List.map_append, List.range_succ, ← hnumber]
    -- The number of the request stands at the end of the tasks, before those of the responses.
    refine List.Perm.trans ?_ ((hnumber ▸ h).append_right [task.ticket.number])
    rw [List.append_assoc, List.append_assoc]
    exact List.perm_append_comm.append_left _
  | silent harrived hresponses =>
    rw [harrived, hresponses]
    exact h
  | @delivered _ task rest response harrived hresponses hreport =>
    -- The number of the first task moves to the end of the responses.
    rw [harrived, hresponses, List.map_append, ← List.append_assoc]
    exact (List.perm_append_singleton task.ticket.number _).trans h

theorem Accounted.nodup (h : Accounted s pending) : (s.app.responses.map Prod.fst).Nodup :=
  (List.nodup_append.1 (h.nodup_iff.2 List.nodup_range)).2.1

/-- A request whose task is left is not answered yet. -/
theorem Accounted.ne_of_mem (h : Accounted s pending) {task : AppTask} (htask : task ∈ pending)
    {sent : Nat × Response} (hsent : sent ∈ s.app.responses) : task.ticket.number ≠ sent.1 :=
  (List.nodup_append.1 (h.nodup_iff.2 List.nodup_range)).2.2 _ (List.mem_map_of_mem htask) _
    (List.mem_map_of_mem hsent)

/-- A request that has arrived is answered if no task is left. -/
theorem Accounted.exists_response (h : Accounted s []) {number : Nat} (hnumber : number < s.arrived) :
    ∃ response, (number, response) ∈ s.app.responses := by
  have hmem : number ∈ s.app.responses.map Prod.fst := h.mem_iff.2 (List.mem_range.2 hnumber)
  obtain ⟨⟨n, response⟩, hsent, rfl⟩ := List.mem_map.1 hmem
  exact ⟨response, hsent⟩

/-- No task is left when there is nothing to do. -/
theorem Orderly.pending_eq_nil (h : Orderly limits s pending) (hjobs : s.jobs = [])
    (hsuspended : s.queue.suspended? = none) : pending = [] := by
  obtain ⟨⟨before, -, hturn⟩, -⟩ := h
  obtain ⟨q, arrived⟩ := s
  cases (hturn : InTurn limits before q pending) with
  | idle => rfl
  | decompiling => cases hsuspended
  | starting | settled | last | passing => cases hjobs

end BinaryReport.Session
