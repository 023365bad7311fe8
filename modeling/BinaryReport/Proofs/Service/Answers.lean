import BinaryReport.Proofs.Service.Work
import BinaryReport.Service.App

/-!
# Answers of the service

What taking a request and delivering an outcome do to the state of the service. Either leaves the
engine alone, and answers a request at most once. A request never fills the cache (`App.reacted`).
Of the outcomes only a whole report fills it, with that report, and a change that was made empties
it (`App.delivered`). A request is answered as it arrives or submits a task (`AppQueue.received`).
-/

namespace BinaryReport

/-- The response as it is sent for a ticket. -/
def Ticket.sent (t : Ticket) (r : Response) : Nat × Response :=
  (t.number, if t.bodiless then r.bodiless else r)

/-- The format of the report that a request asks for, if that is what it is for. -/
def Request.reportFormat? (r : Request) : Option ReportFormat :=
  match r.target? with
  | none => none
  | some target =>
    if r.hasMethod "OPTIONS" then none
    else
      match r.arguments with
      | .error _ => none
      | .ok _ =>
        if Route.ofPath r target.path = .report then
          (App.formatOf (Query.parse target.query)).toOption
        else none

namespace Cache

variable {α : Type}

theorem get?_erase_self (c : Cache α) (key : String) : (c.erase key).get? key = none := by
  unfold get? erase
  rw [List.lookup_eq_none_iff]
  intro entry hentry
  have hne : entry.1 ≠ key := of_decide_eq_true (List.mem_filter.1 hentry).2
  exact bne_iff_ne.2 hne.symm

theorem get?_insert_self (c : Cache α) (key : String) (value : α) :
    (c.insert key value).get? key = some value := by
  unfold get? insert
  rw [List.lookup_cons_self]

end Cache

namespace App

variable {app app' : App}

/-- The report that is kept. -/
def cached? (app : App) : Option AnalysisReport := app.cache.get? app.programKey

/-- The new state is about the same program under the same settings. -/
structure SameSetup (app app' : App) : Prop where
  /-- The engine is the same. -/
  engine : app'.engine = app.engine
  /-- The key is the same. -/
  programKey : app'.programKey = app.programKey
  /-- The defaults are the same. -/
  defaults : app'.defaults = app.defaults

theorem SameSetup.refl (app : App) : SameSetup app app := ⟨rfl, rfl, rfl⟩

theorem SameSetup.trans {app'' : App} (h : SameSetup app app') (h' : SameSetup app' app'') :
    SameSetup app app'' :=
  ⟨h'.engine.trans h.engine, h'.programKey.trans h.programKey, h'.defaults.trans h.defaults⟩

/-! ## Responses -/

/-- The state after one response, which leaves all else but the log as it was. -/
structure Responded (app : App) (ticket : Ticket) (r : Response) (app' : App) : Prop where
  /-- The engine and the settings are the same. -/
  setup : SameSetup app app'
  /-- The cache is the same. -/
  cache : app'.cache = app.cache
  /-- The response is sent. -/
  responses : app'.responses = app.responses ++ [ticket.sent r]

theorem responded_respond (app : App) (ticket : Ticket) (r : Response) :
    Responded app ticket r (app.respond ticket r) :=
  ⟨⟨rfl, rfl, rfl⟩, rfl, rfl⟩

theorem responded_write {ticket : Ticket} {r : Response} {line : String}
    (h : Responded (app.write line) ticket r app') : Responded app ticket r app' :=
  ⟨⟨h.setup.engine, h.setup.programKey, h.setup.defaults⟩, h.cache, h.responses⟩

theorem exists_responded_message (app : App) (ticket : Ticket) (status : Binary64)
    (message : String) : ∃ r, Responded app ticket r (app.respondMessage ticket status message) := by
  unfold respondMessage respondBroken
  dsimp only
  split
  · split
    · exact ⟨_, responded_write (responded_respond _ ticket _)⟩
    · exact ⟨_, responded_respond _ ticket _⟩
  · split
    · exact ⟨_, responded_write (responded_write (responded_respond _ ticket _))⟩
    · exact ⟨_, responded_write (responded_respond _ ticket _)⟩

theorem exists_responded_raised (app : App) (ticket : Ticket) (raised : Raised) :
    ∃ r, Responded app ticket r (app.respondRaised ticket raised) := by
  unfold respondRaised
  split
  · exact ⟨_, responded_respond app ticket _⟩
  · split
    · exact exists_responded_message app ticket _ _
    · exact ⟨_, responded_write (responded_respond _ ticket _)⟩

theorem Responded.cached?_eq {ticket : Ticket} {r : Response} (h : Responded app ticket r app') :
    app'.cached? = app.cached? := by
  unfold cached?
  rw [h.cache, h.setup.programKey]

/-! ## Delivery -/

/-- What delivering an outcome does. -/
structure Delivered (app : App) (task : AppTask) (o : WorkOutcome) (app' : App) : Prop where
  /-- The engine and the settings are the same. -/
  setup : SameSetup app app'
  /-- One response is sent to the client of the task. -/
  responses : ∃ r, app'.responses = app.responses ++ [task.ticket.sent r] ∧
    ∀ report, o = .report (.ok (.whole report)) → r = reportResponse report task.format
  /-- A whole report is kept. -/
  kept : ∀ report, o = .report (.ok (.whole report)) → app'.cached? = some report
  /-- A change that was made empties the cache. -/
  cleared : o.isChange = true → app'.cached? = none
  /-- The cache is filled with a whole report only. -/
  same : ∀ report, app'.cached? = some report →
    app.cached? = some report ∨ o = .report (.ok (.whole report))

/-- Delivering an outcome that has nothing to do with the cache. -/
theorem delivered_of_responded {task : AppTask} {o : WorkOutcome} {r : Response}
    (h : Responded app task.ticket r app') (hreport : ∀ report, o ≠ .report (.ok (.whole report)))
    (hchange : o.isChange = false) : Delivered app task o app' where
  setup := h.setup
  responses := ⟨r, h.responses, fun report ho => absurd ho (hreport report)⟩
  kept report ho := absurd ho (hreport report)
  cleared ho := by rw [hchange] at ho; cases ho
  same report hcached := Or.inl (h.cached?_eq ▸ hcached)

theorem delivered_report (app : App) (task : AppTask) (r : Report) :
    Delivered app task (.report (.ok r)) (app.deliverReport task r) := by
  cases r with
  | failed report =>
    exact delivered_of_responded (responded_write (responded_respond _ task.ticket _)) nofun rfl
  | whole report =>
    have hcached : (app.deliverReport task (.whole report)).cached? = some report :=
      Cache.get?_insert_self app.cache app.programKey report
    refine ⟨⟨rfl, rfl, rfl⟩, ⟨_, rfl, fun report' ho => ?_⟩, fun report' ho => ?_, nofun,
      fun report' hsome => ?_⟩
    · cases ho
      rfl
    · cases ho
      exact hcached
    · rw [hcached] at hsome
      cases hsome
      exact Or.inr rfl

/-- The state with an empty cache for the program. -/
def cleared (app : App) : App := { app with cache := app.cache.erase app.programKey }

theorem cached?_cleared (app : App) : app.cleared.cached? = none :=
  Cache.get?_erase_self app.cache app.programKey

/-- Taking note of an answer empties the cache if a change was made, and may log a line. -/
theorem noteChange_cases (app : App) (t : Tool) (client : String) (r : ToolResult) :
    if (t.mutates && r.isSuccess) = true then
      ∃ line, app.noteChange t client r = app.cleared.write line
    else app.noteChange t client r = app ∨ ∃ line, app.noteChange t client r = app.write line := by
  unfold noteChange
  by_cases ht : t.mutates = true
  · rw [if_pos ht, ht, Bool.true_and]
    by_cases hr : r.isSuccess = true
    · rw [if_pos hr, if_pos hr]
      exact ⟨_, rfl⟩
    · rw [if_neg hr, if_neg hr]
      exact Or.inr ⟨_, rfl⟩
  · have hfalse : ¬ (t.mutates && r.isSuccess) = true := fun h => ht (Bool.and_eq_true_iff.1 h).1
    rw [if_neg ht, if_neg hfalse]
    exact Or.inl rfl

/-- The answer of a tool empties the cache exactly if it says that a change was made. -/
theorem delivered_answered (app : App) (task : AppTask) (t : Tool) (result : ToolResult) :
    Delivered app task (.tool t (.ok (.answered result)))
      (app.deliverTool task t (.ok (.answered result))) := by
  have hnote := noteChange_cases app t task.client result
  unfold deliverTool
  dsimp only
  by_cases hchange : (t.mutates && result.isSuccess) = true
  · rw [if_pos hchange] at hnote
    obtain ⟨line, heq⟩ := hnote
    rw [heq]
    have hnone := cached?_cleared app
    constructor
    · exact ⟨rfl, rfl, rfl⟩
    · exact ⟨_, rfl, nofun⟩
    · exact nofun
    · exact fun _ => hnone
    · intro report hsome
      have hsome' : app.cleared.cached? = some report := hsome
      rw [hnone] at hsome'
      cases hsome'
  · rw [if_neg hchange] at hnote
    refine delivered_of_responded (r := .json 200 result.toJson) ?_ nofun
      (eq_false_of_ne_true hchange)
    rcases hnote with heq | ⟨line, heq⟩
    · rw [heq]
      exact responded_write (responded_respond _ task.ticket _)
    · rw [heq]
      exact responded_write (responded_write (responded_respond _ task.ticket _))

theorem delivered_tool (app : App) (task : AppTask) (t : Tool) (r : ToolReply) :
    Delivered app task (.tool t r) (app.deliverTool task t r) := by
  cases r with
  | error raised =>
    obtain ⟨response, h⟩ := exists_responded_raised app task.ticket raised
    exact delivered_of_responded h nofun rfl
  | ok outcome =>
    cases outcome with
    | refused issues =>
      exact delivered_of_responded (responded_respond app task.ticket _) nofun rfl
    | answered result => exact delivered_answered app task t result

theorem delivered (app : App) (task : AppTask) (o : WorkOutcome) :
    Delivered app task o (app.deliver task o) := by
  cases o with
  | tool t r => exact delivered_tool app task t r
  | report r? =>
    cases r? with
    | ok r => exact delivered_report app task r
    | error raised =>
      obtain ⟨response, h⟩ := exists_responded_raised app task.ticket raised
      exact delivered_of_responded h nofun rfl

/-! ## Requests -/

/-- What taking a request does: the cache is emptied or left alone, and a request for the report is
answered with the kept report or submits the task of making one. -/
structure Reacted (app : App) (r : Request) (app' : App) (reaction : Reaction) : Prop where
  /-- The engine and the settings are the same. -/
  setup : SameSetup app app'
  /-- Nothing is sent yet. -/
  responses : app'.responses = app.responses
  /-- The cache is not filled. -/
  cache : ∀ report, app'.cached? = some report → app.cached? = some report
  /-- What becomes of a request for the report. -/
  report : ∀ format, r.reportFormat? = some format →
    (∃ report, app.cached? = some report ∧ reaction = .answer (reportResponse report format)) ∨
      reaction = .submit .report format

theorem reacted_of_answered {r : Request} {reaction : Reaction} (h : r.reportFormat? = none) :
    Reacted app r app reaction where
  setup := SameSetup.refl app
  responses := rfl
  cache _ hcached := hcached
  report format hformat := by rw [h] at hformat; cases hformat

theorem reacted_report {r : Request} {query : QueryValue}
    (h : r.reportFormat? = (formatOf query).toOption) :
    Reacted app r (app.reactReport query).1 (app.reactReport query).2 := by
  unfold reactReport
  cases hformat : formatOf query with
  | error v =>
    rw [hformat] at h
    exact reacted_of_answered h
  | ok format =>
    rw [hformat] at h
    dsimp only
    by_cases hrefresh : Query.isText "refresh" "1" query = true
    · -- A fresh report is asked for, so none is at hand.
      have hnone : (app.cache.erase app.programKey).get? app.programKey = none :=
        Cache.get?_erase_self app.cache app.programKey
      simp only [if_pos hrefresh, hnone]
      refine ⟨⟨rfl, rfl, rfl⟩, rfl, fun report hcached => ?_, fun format' hformat' => ?_⟩
      · have hcleared : app.cleared.cached? = some report := hcached
        rw [cached?_cleared] at hcleared
        cases hcleared
      · rw [h] at hformat'
        cases hformat'
        exact Or.inr rfl
    · rw [if_neg hrefresh]
      cases hcached : app.cache.get? app.programKey with
      | none =>
        refine ⟨SameSetup.refl app, rfl, fun _ hsome => hsome, fun format' hformat' => ?_⟩
        rw [h] at hformat'
        cases hformat'
        exact Or.inr rfl
      | some report =>
        refine ⟨SameSetup.refl app, rfl, fun _ hsome => hsome, fun format' hformat' => ?_⟩
        rw [h] at hformat'
        cases hformat'
        exact Or.inl ⟨report, hcached, rfl⟩

theorem reacted (app : App) (r : Request) :
    Reacted app r (app.reactAny r).1 (app.reactAny r).2 := by
  have hformat := Request.reportFormat?.eq_def r
  unfold reactAny
  cases htarget : r.target? with
  | none =>
    rw [htarget] at hformat
    exact reacted_of_answered hformat
  | some target =>
    rw [htarget] at hformat
    dsimp only at hformat ⊢
    by_cases hoptions : r.hasMethod "OPTIONS" = true
    · rw [if_pos hoptions] at hformat ⊢
      exact reacted_of_answered hformat
    · rw [if_neg hoptions] at hformat ⊢
      cases harguments : r.arguments with
      | error p =>
        rw [harguments] at hformat
        exact reacted_of_answered hformat
      | ok arguments =>
        rw [harguments] at hformat
        unfold react
        dsimp only at hformat ⊢
        cases hroute : Route.ofPath r target.path with
        | report =>
          rw [hroute, if_pos rfl] at hformat
          exact reacted_report hformat
        | health | tools | undecodable | unknown =>
          rw [hroute, if_neg nofun] at hformat
          exact reacted_of_answered hformat
        | tool name =>
          rw [hroute, if_neg nofun] at hformat
          dsimp only
          split
          · exact reacted_of_answered hformat
          · exact reacted_of_answered hformat

end App

/-! ## Arrival -/

namespace AppQueue

/-- What the arrival of a request does to the queue. -/
inductive Received (q : AppQueue) (number : Nat) (r : Request) : AppQueue → Prop where
  /-- It is answered; a request for the report is answered with the kept report. -/
  | answered {app : App} {response : Response} (hsetup : App.SameSetup q.world app)
    (hcache : ∀ report, app.cached? = some report → q.world.cached? = some report)
    (hresponses : app.responses =
      q.world.responses ++ [Ticket.sent ⟨number, r.wantsNoBody⟩ response])
    (hreport : ∀ format, r.reportFormat? = some format →
      ∃ report, q.world.cached? = some report ∧ response = App.reportResponse report format) :
    Received q number r { q with world := app }
  /-- It submits a task; a request for the report submits the task of making one. -/
  | submitted {app : App} {work : Work} {format : ReportFormat}
    (hsetup : App.SameSetup q.world app)
    (hcache : ∀ report, app.cached? = some report → q.world.cached? = some report)
    (hresponses : app.responses = q.world.responses)
    (hreport : ∀ format', r.reportFormat? = some format' → work = .report ∧ format = format') :
    Received q number r
      (SerialQueue.submit { q with world := app } ⟨⟨number, r.wantsNoBody⟩, work, format, r.client⟩)

theorem received (q : AppQueue) (number : Nat) (r : Request) :
    Received q number r (q.receive number r) := by
  have h := App.reacted q.world r
  unfold receive
  dsimp only
  generalize q.world.reactAny r = reacted at h
  obtain ⟨app, reaction⟩ := reacted
  cases reaction with
  | answer response =>
    have hsent := App.responded_respond app ⟨number, r.wantsNoBody⟩ response
    have hresponses := hsent.responses
    rw [h.responses] at hresponses
    refine .answered (h.setup.trans hsent.setup) h.cache hresponses fun format hformat => ?_
    rcases h.report format hformat with ⟨report, hcached, hanswer⟩ | hsubmit
    · exact ⟨report, hcached, App.Reaction.answer.inj hanswer⟩
    · cases hsubmit
  | raise raised =>
    obtain ⟨response, hsent⟩ :=
      App.exists_responded_raised app ⟨number, r.wantsNoBody⟩ raised
    have hresponses := hsent.responses
    rw [h.responses] at hresponses
    refine .answered (h.setup.trans hsent.setup) (fun report hcached => ?_) hresponses
      fun format hformat => ?_
    · rw [hsent.cached?_eq] at hcached
      exact h.cache report hcached
    · rcases h.report format hformat with ⟨report, hcached, hanswer⟩ | hsubmit
      · cases hanswer
      · cases hsubmit
  | submit work format =>
    refine .submitted h.setup h.cache h.responses fun format' hformat => ?_
    rcases h.report format' hformat with ⟨report, hcached, hanswer⟩ | hsubmit
    · cases hanswer
    · cases hsubmit
      exact ⟨rfl, rfl⟩

end AppQueue

end BinaryReport
