import BinaryReport.Proofs.Service.Moves

/-!
# Freshness of reports

However requests and timers are interleaved, the service never hands out a report of a program that
has changed in the meantime (`Session.reports_current`). Whenever no job is left, the kept report is
the report of the program; a change is made before the response that tells of it is sent; and a
request for the report is answered with what was the report of the program at some time after the
request had arrived.

Which response answers a request is told by its number: every task and every response has the number
of a request that has arrived (`Session.Numbered`), and the task of a request is the only one with
its number (`Session.Serving`).
-/

namespace BinaryReport.Session

variable {e : Engine} {key : String} {limits : Limits} {s s' : Session}

/-! ## Numbers -/

theorem mem_tasks_of_deliver {q : AppQueue} {task : AppTask} {o : WorkOutcome}
    (h : .deliver task o ∈ q.jobs) : task ∈ tasks q :=
  mem_tasks.2 (Or.inl (List.mem_filterMap.2 ⟨.deliver task o, h, rfl⟩))

/-- Tasks and responses have the numbers of requests that have arrived. -/
structure Numbered (s : Session) : Prop where
  tasks : ∀ task ∈ tasks s.queue, task.ticket.number < s.arrived
  responses : ∀ sent ∈ s.app.responses, sent.1 < s.arrived

theorem Numbered.follows (h : Numbered s) (hfollows : Follows s s') : Numbered s' := by
  have harrived := hfollows.arrived
  constructor
  · intro task htask
    rcases hfollows.tasks task htask with hold | ⟨hnumber, hnew⟩
    · have hlt := h.tasks task hold
      omega
    · omega
  · intro sent hsent
    rcases hfollows.responses sent hsent with hold | ⟨hnumber, hnew⟩ | ⟨task, o, r, hmem, rfl, _⟩
    · have hlt := h.responses sent hold
      omega
    · omega
    · have hlt : task.ticket.number < s.arrived := h.tasks task (mem_tasks_of_deliver hmem)
      show task.ticket.number < s'.arrived
      omega

theorem numbered_of_reaches (he : e.Faultless) (h : Reaches (start e key limits) s) :
    Numbered s := by
  induction h with
  | refl =>
    constructor
    · intro task htask
      cases htask
    · intro sent hsent
      cases hsent
  | tail hreach hmove ih => exact ih.follows (follows_of_reaches he hreach hmove)

/-! ## Requests for the report -/

/-- What becomes of a request for the report, from the session `a` on in which it has arrived: its
task makes a report, and what it is answered with was the report of the program at some time. -/
structure Serving (a : Session) (limits : Limits) (ticket : Ticket) (format : ReportFormat)
    (s : Session) : Prop where
  arrived : ticket.number < s.arrived
  tasks : ∀ task ∈ tasks s.queue, task.ticket.number = ticket.number →
    task.ticket = ticket ∧ task.work = .report ∧ task.format = format
  responses : ∀ sent ∈ s.app.responses, sent.1 = ticket.number → ∃ s'' report,
    Reaches a s'' ∧ Reaches s'' s ∧ s''.program.HasReport limits report ∧
      sent = ticket.sent (App.reportResponse report format)

theorem serving_arrive (he : e.Faultless) (h : Reaches (start e key limits) s) (hjobs : s.jobs = [])
    {r : Request} {format : ReportFormat} (hformat : r.reportFormat? = some format) :
    Serving (s.arrive r) limits ⟨s.arrived, r.wantsNoBody⟩ format (s.arrive r) := by
  have hnumbered := numbered_of_reaches he h
  -- No task and no response has the number of the request yet.
  have htasks : ∀ task ∈ tasks s.queue, task.ticket.number ≠ s.arrived := by
    intro task htask
    exact Nat.ne_of_lt (hnumbered.tasks task htask)
  have hresponses : ∀ sent ∈ s.app.responses, sent.1 ≠ s.arrived := by
    intro sent hsent
    exact Nat.ne_of_lt (hnumbered.responses sent hsent)
  have hfresh : Fresh s.app := (phase_of_reaches he h).fresh hjobs
  have hlimits := (settings_of_reaches he h).2
  have hreceived := AppQueue.received s.queue s.arrived r
  unfold arrive
  generalize s.queue.receive s.arrived r = q at hreceived ⊢
  cases hreceived with
  | @answered app response hsetup _ hsent hreport =>
    constructor
    · exact Nat.lt_succ_self s.arrived
    · intro task htask hnumber
      exact absurd hnumber (htasks task htask)
    · intro sent hmem hnumber
      have hmem' : sent ∈ app.responses := hmem
      rw [hsent] at hmem'
      rcases List.mem_append.1 hmem' with hold | hnew
      · exact absurd hnumber (hresponses sent hold)
      · obtain ⟨report, hcached, rfl⟩ := hreport format hformat
        refine ⟨_, report, .refl, .refl, ?_, List.mem_singleton.1 hnew⟩
        show app.engine.program.HasReport limits report
        rw [hsetup.engine, ← hlimits]
        exact hfresh report hcached
  | @submitted app work format' _ _ hsent hreport =>
    obtain ⟨hwork, hformat'⟩ := hreport format hformat
    constructor
    · exact Nat.lt_succ_self s.arrived
    · intro task htask hnumber
      rcases mem_tasks_submit htask with hold | rfl
      · exact absurd hnumber (htasks task hold)
      · exact ⟨rfl, hwork, hformat'⟩
    · intro sent hmem hnumber
      have hworld := world_submit { s.queue with world := app }
        ⟨⟨s.arrived, r.wantsNoBody⟩, work, format', r.client⟩
      have hmem' : sent ∈ app.responses := congrArg App.responses hworld ▸ hmem
      rw [hsent] at hmem'
      exact absurd hnumber (hresponses sent hmem')

/-- The task of the request is settled with a whole report, and that is the report of the program
when it is delivered. -/
theorem Serving.move {a : Session} {ticket : Ticket} {format : ReportFormat}
    (h : Serving a limits ticket format s) (hphase : Phase s.queue)
    (hlimits : s.app.defaults = limits) (hreach : Reaches a s) (hmove : Move s s') :
    Serving a limits ticket format s' := by
  have hfollows := (hphase.move hmove).2
  have harrived := hfollows.arrived
  have hlt := h.arrived
  constructor
  · omega
  · intro task htask hnumber
    rcases hfollows.tasks task htask with hold | ⟨hnew, _⟩
    · exact h.tasks task hold hnumber
    · omega
  · intro sent hsent hnumber
    rcases hfollows.responses sent hsent with hold | ⟨hnew, _⟩ | ⟨task, o, r, hmem, rfl, hreport⟩
    · obtain ⟨s'', report, hbefore, hafter, hcurrent, hsame⟩ := h.responses sent hold hnumber
      exact ⟨s'', report, hbefore, hafter.tail hmove, hcurrent, hsame⟩
    · omega
    · obtain ⟨rfl, hwork, rfl⟩ := h.tasks task (mem_tasks_of_deliver hmem) hnumber
      have hawaits := hphase.awaits hmem
      obtain ⟨report, ho⟩ := hawaits.whole hwork
      have hcurrent := hawaits.report report ho
      rw [hreport report ho]
      refine ⟨s, report, hreach, .single hmove, ?_, rfl⟩
      rw [← hlimits]
      exact hcurrent

theorem serving_of_reaches (he : e.Faultless) (h : Reaches (start e key limits) s)
    (hjobs : s.jobs = []) {r : Request} {format : ReportFormat}
    (hformat : r.reportFormat? = some format) (hrun : Reaches (s.arrive r) s') :
    Serving (s.arrive r) limits ⟨s.arrived, r.wantsNoBody⟩ format s' := by
  induction hrun with
  | refl => exact serving_arrive he h hjobs hformat
  | tail hreach hmove ih =>
    have hbefore := (h.tail (.arrive hjobs r)).trans hreach
    exact ih.move (phase_of_reaches he hbefore) (settings_of_reaches he hbefore).2 hreach hmove

/-! ## Changes -/

/-- An outcome that tells of a change is there only after the change was made. -/
theorem exists_change_of_deliver (he : e.Faultless) (h : Reaches (start e key limits) s)
    {task : AppTask} {o : WorkOutcome} (hmem : .deliver task o ∈ s.jobs)
    (ho : o.isChange = true) : ∃ a b, Reaches (start e key limits) a ∧
      a.jobs.head? = some (.start task) ∧ Move a b ∧ Reaches b s ∧ b.program = s.program := by
  induction h with
  | refl => cases hmem
  | @tail s s' hreach hmove ih =>
    have hfollows := follows_of_reaches he hreach hmove
    rcases hfollows.changes task o hmem ho with ⟨hold, hprogram⟩ | hstart
    · obtain ⟨a, b, ha, hhead, hab, hb, hsame⟩ := ih hold
      exact ⟨a, b, ha, hhead, hab, hb.tail hmove, hsame.trans hprogram.symm⟩
    · exact ⟨s, s', hreach, hstart, hmove, .refl, rfl⟩

/-! ## Freshness -/

/-- Freshness of reports, along every run of the service on a snapshot that was accepted. A request
that arrives after the response to a change is answered with a report from after the change. -/
theorem reports_current {v : Json} (hsnapshot : Engine.ofJson v = .ok e)
    (hrun : Reaches (start e key limits) s) :
    -- When no job is left the kept report is the report of the program.
    (s.jobs = [] → ∀ r, s.app.cache.get? key = some r → s.program.HasReport limits r) ∧
    -- A report that comes to be kept is the report of the program at that time.
    (∀ s' r, Move s s' → s'.app.cache.get? key = some r →
      s.app.cache.get? key = some r ∨ s'.program.HasReport limits r) ∧
    -- A change is made before its outcome is delivered.
    (∀ task o, .deliver task o ∈ s.jobs → o.isChange = true →
      ∃ a b, Reaches (start e key limits) a ∧ a.jobs.head? = some (.start task) ∧ Move a b ∧
        Reaches b s ∧ b.program = s.program) ∧
    -- A request is answered with the report of the program at some time after its arrival.
    (s.jobs = [] → ∀ r format, r.reportFormat? = some format → ∀ s' response,
      Reaches (s.arrive r) s' → (s.arrived, response) ∈ s'.app.responses →
        ∃ s'' report, Reaches (s.arrive r) s'' ∧ Reaches s'' s' ∧
          s''.program.HasReport limits report ∧
          (s.arrived, response) =
            Ticket.sent ⟨s.arrived, r.wantsNoBody⟩ (App.reportResponse report format)) := by
  have he := Engine.faultless_ofJson hsnapshot
  obtain ⟨hkey, hlimits⟩ := settings_of_reaches he hrun
  refine ⟨?_, ?_, ?_, ?_⟩
  · intro hjobs r hr
    have hfresh : Fresh s.app := (phase_of_reaches he hrun).fresh hjobs
    rw [← hkey] at hr
    rw [← hlimits]
    exact hfresh r hr
  · intro s' r hmove hr
    obtain ⟨hkey', hlimits'⟩ := settings_of_reaches he (hrun.tail hmove)
    rw [← hkey'] at hr
    rcases (follows_of_reaches he hrun hmove).stored r hr with hold | hnew
    · left
      rw [← hkey]
      exact hold
    · right
      rw [← hlimits']
      exact hnew
  · intro task o hmem ho
    exact exists_change_of_deliver he hrun hmem ho
  · intro hjobs r format hformat s' response hafter hsent
    exact (serving_of_reaches he hrun hjobs hformat hafter).responses _ hsent rfl

/-- The snapshot of a program with one function. -/
def inFlightSnapshot : Json :=
  .object [("name", .string "a"), ("language", .string "x"), ("imageBase", .string "0"),
    ("pointerSize", .number (.ofNat 4)),
    ("functions", .array [.object [("name", .string "f"), ("entry", .string "0"),
      ("body", .array [.object [("start", .string "0"), ("end", .string "3")]])]])]

/-- The program of the snapshot. -/
def inFlightProgram : Program :=
  ⟨"a", "x", ⟨4⟩, ⟨0⟩, none, [],
    [⟨⟨"f", ⟨0⟩, .function, .analysis, false⟩, ⟨[⟨⟨0⟩, ⟨3⟩⟩]⟩, "undefined", [], none, .ofNat 0⟩],
    [], [], [], []⟩

/-- A request for the report. -/
def inFlightReport : Request := ⟨"GET", "/report?format=c", none, none, "x"⟩

/-- A request that names the function `g`. -/
def inFlightRename : Request :=
  ⟨"POST", "/tools/rename_symbol", some "\x7b\"address\":\"0\",\"name\":\"g\"\x7d",
    some "application/json", "x"⟩

/-- The session on the program. -/
def inFlightStart : Session := start (Engine.ofProgram inFlightProgram) "k" .standard

/-- The session after the function has been given its name while a report was in flight. -/
def inFlightRenamed : Session :=
  ⟨((inFlightStart.queue.handle (.arrival 0 [inFlightReport])).handle
    (.arrival 1 [inFlightRename])).handle .timer, 2⟩

/-- The session after another report. -/
def inFlightEnd : Session :=
  ⟨(inFlightRenamed.queue.handle (.arrival 2 [inFlightReport])).handle .timer, 3⟩

theorem reports_current_inFlight :
    Engine.ofJson inFlightSnapshot = .ok (Engine.ofProgram inFlightProgram) ∧
      Reaches inFlightStart inFlightRenamed ∧ inFlightRenamed.jobs = [] ∧
      Reaches inFlightRenamed inFlightEnd ∧ inFlightEnd.jobs = [] ∧
      -- The kept report has the new name.
      (∃ r, inFlightEnd.app.cache.get? "k" = some r ∧ r.functions.map (·.name) = ["g"] ∧
        inFlightEnd.program.HasReport .standard r) ∧
      -- The last request is answered with a report from after the change.
      inFlightReport.reportFormat? = some .code ∧
      ∃ response s report, (2, response) ∈ inFlightEnd.app.responses ∧ Reaches inFlightRenamed s ∧
        s.program.HasReport .standard report ∧ response = App.reportResponse report .code := by
  have hsnapshot : Engine.ofJson inFlightSnapshot = .ok (Engine.ofProgram inFlightProgram) := by
    have hprogram : (Engine.ofJson inFlightSnapshot).toOption.map Engine.program =
        some inFlightProgram := by decide +kernel
    cases hjson : Engine.ofJson inFlightSnapshot with
    | error r =>
      rw [hjson] at hprogram
      cases hprogram
    | ok e =>
      rw [hjson] at hprogram
      rw [Engine.eq_ofProgram_of_ofJson hjson, Option.some.inj hprogram]
  have hjobs {q : AppQueue} (h : q.jobs.isEmpty = true) : q.jobs = [] := List.isEmpty_iff.1 h
  have hrenamed : Reaches inFlightStart inFlightRenamed := by
    refine (reaches_handle_arrival rfl inFlightReport).trans ?_
    refine (reaches_handle_arrival (hjobs (by decide +kernel)) inFlightRename).trans ?_
    exact reaches_handle_timer (hjobs (by decide +kernel))
  have hidle : inFlightRenamed.jobs = [] := hjobs (by decide +kernel)
  have hanswered : Reaches (inFlightRenamed.arrive inFlightReport) inFlightEnd := by
    refine (reaches_handle_of_arrive inFlightRenamed inFlightReport).trans ?_
    exact reaches_handle_timer (hjobs (by decide +kernel))
  have hend : Reaches inFlightRenamed inFlightEnd := hanswered.head (.arrive hidle inFlightReport)
  have hidleEnd : inFlightEnd.jobs = [] := hjobs (by decide +kernel)
  have hnames : (inFlightEnd.app.cache.get? "k").map (fun r => r.functions.map (·.name)) =
      some ["g"] := by decide +kernel
  obtain ⟨r, hkept, hname⟩ := Option.map_eq_some_iff.1 hnames
  have hcurrent := (reports_current hsnapshot (hrenamed.trans hend)).1 hidleEnd r hkept
  have hformat : inFlightReport.reportFormat? = some .code := by decide +kernel
  have hnumber : 2 ∈ inFlightEnd.app.responses.map Prod.fst := by decide +kernel
  obtain ⟨⟨number, response⟩, hsent, rfl⟩ := List.mem_map.1 hnumber
  obtain ⟨s, report, hafter, -, hreport, hsame⟩ := (reports_current hsnapshot hrenamed).2.2.2 hidle
    inFlightReport .code hformat inFlightEnd response hanswered hsent
  refine ⟨hsnapshot, hrenamed, hidle, hend, hidleEnd, ⟨r, hkept, hname, hcurrent⟩, hformat,
    response, s, report, hsent, hafter.head (.arrive hidle inFlightReport), hreport, ?_⟩
  exact (Prod.mk.inj hsame).2

end BinaryReport.Session
