import BinaryReport.Proofs.Service.Account
import Mathlib.Data.List.Nodup

/-!
# Formats of reports

A request for the report names its format in the query. It is answered with the report if it names one
of the four formats or none, and else it is told that the format is unknown
(`Session.report_answered_by_format`). To say so the value is shown as text. A query can give a value
that has no text (`QueryValue.Textless`), a table in which an entry stands for the operation that would
show it; then the request fails (`Session.report_fails_on_textless`).

The answer does not depend on what else happens: the request is answered once, and what it is answered
with follows from its query alone.
-/

namespace BinaryReport

/-! ## Values without a text -/

namespace QueryValue

/-- The value has no text: a table has an entry in the place of the operation that would show it, a
list has an item without a text. -/
inductive Textless : QueryValue → Prop where
  /-- A table with such an entry. -/
  | table {entries : List (String × QueryValue)} {last? : Option Binary64} {v : QueryValue}
    (h : ("toString", v) ∈ entries) : Textless (.table entries last?)
  /-- A list with such an item. -/
  | list {items : List QueryValue} {led : Bool} {v : QueryValue} (hmem : v ∈ items)
    (h : Textless v) : Textless (.list items led)

theorem textless_list_iff {items : List QueryValue} {led : Bool} :
    Textless (.list items led) ↔ ∃ v ∈ items, v.Textless := by
  constructor
  · intro h
    cases h with
    | list hmem h => exact ⟨_, hmem, h⟩
  · rintro ⟨v, hmem, h⟩
    exact .list hmem h

theorem textless_table_iff {entries : List (String × QueryValue)} {last? : Option Binary64} :
    Textless (.table entries last?) ↔ (entries.any fun e => e.1 == "toString") = true := by
  rw [List.any_eq_true]
  constructor
  · intro h
    cases h with
    | table hmem => exact ⟨_, hmem, beq_self_eq_true "toString"⟩
  · rintro ⟨⟨key, v⟩, hmem, hkey⟩
    obtain rfl : key = "toString" := beq_iff_eq.1 hkey
    exact .table hmem

/-- Two texts are joined unless one of them is missing. -/
theorem joined_eq_none_iff {x : Option String} {y : Option (List String)} :
    (match x, y with
      | some s, some ss => some (s :: ss)
      | _, _ => none) = none ↔ x = none ∨ y = none := by
  cases x with
  | none => exact ⟨fun _ => Or.inl rfl, fun _ => rfl⟩
  | some s =>
    cases y with
    | none => exact ⟨fun _ => Or.inr rfl, fun _ => rfl⟩
    | some ss => exact ⟨nofun, nofun⟩

mutual

theorem display?_eq_none_iff : ∀ v : QueryValue, v.display? = none ↔ v.Textless
  | .text s => ⟨nofun, nofun⟩
  | .hole => ⟨nofun, nofun⟩
  | .list items led => by
    rw [display?, Option.map_eq_none_iff, displayItems?_eq_none_iff items, textless_list_iff]
  | .table entries last? => by
    rw [display?, textless_table_iff]
    split
    · next h => exact ⟨fun _ => h, fun _ => rfl⟩
    · next h => exact ⟨nofun, fun hany => absurd hany h⟩

theorem displayItems?_eq_none_iff : ∀ items : List QueryValue,
    displayItems? items = none ↔ ∃ v ∈ items, v.Textless
  | [] => ⟨nofun, nofun⟩
  | v :: rest => by
    have hv := display?_eq_none_iff v
    have hrest := displayItems?_eq_none_iff rest
    rw [List.exists_mem_cons_iff, ← hv, ← hrest]
    cases v with
    | hole => exact ⟨Or.inr, fun h => h.resolve_left nofun⟩
    | text s => exact joined_eq_none_iff
    | list items led => exact joined_eq_none_iff
    | table entries last? => exact joined_eq_none_iff

end

end QueryValue

/-! ## Formats -/

theorem ReportFormat.ofName?_eq_some_iff {s : String} {format : ReportFormat} :
    ofName? s = some format ↔ s = format.name := by
  constructor
  · intro h
    obtain ⟨before, after, hoptions, -⟩ := List.lookup_eq_some_iff.1 h
    have hmem : (s, format) ∈ options := by
      rw [hoptions]
      exact List.mem_append_right before List.mem_cons_self
    obtain ⟨f, -, hf⟩ := List.mem_map.1 hmem
    obtain ⟨rfl, rfl⟩ := Prod.mk.inj hf
    rfl
  · rintro rfl
    cases format <;> rfl

/-- The query asks for the report in a format: it gives its name, or nothing, which stands for JSON. -/
def Query.AsksFor (query : QueryValue) (format : ReportFormat) : Prop :=
  (get? "format" query = none ∧ format = .json) ∨ get? "format" query = some (.text format.name)

theorem App.formatOf_eq_ok_iff {query : QueryValue} {format : ReportFormat} :
    formatOf query = .ok format ↔ Query.AsksFor query format := by
  unfold formatOf Query.AsksFor
  cases Query.get? "format" query with
  | none => simp [eq_comm]
  | some v =>
    cases v with
    | text s =>
      simp only [reduceCtorEq, false_and, false_or, Option.some.injEq, QueryValue.text.injEq,
        ← ReportFormat.ofName?_eq_some_iff]
      cases ReportFormat.ofName? s with
      | some f => simp
      | none => simp
    | hole | list | table => simp

theorem App.formatOf_eq_error_iff {query v : QueryValue} :
    formatOf query = .error v ↔
      Query.get? "format" query = some v ∧ ∀ format, ¬ Query.AsksFor query format := by
  have hgiven (v : QueryValue) (h : formatOf query = .error v) : Query.get? "format" query = some v := by
    unfold formatOf at h
    split at h
    · cases h
    · split at h
      · cases h
      · cases h
        assumption
    · cases h
      assumption
  constructor
  · intro h
    refine ⟨hgiven v h, fun format hformat => ?_⟩
    rw [← App.formatOf_eq_ok_iff, h] at hformat
    cases hformat
  · rintro ⟨hv, hnone⟩
    cases hformat : formatOf query with
    | ok format => exact absurd (formatOf_eq_ok_iff.1 hformat) (hnone format)
    | error given =>
      have hsame := (hgiven given hformat).symm.trans hv
      rw [Option.some.inj hsame]

/-! ## Answers -/

/-- How a request for the report is answered that has a query. -/
inductive AnswersQuery (query : QueryValue) : Response → Prop where
  /-- With the report, in the format that it asks for. -/
  | report {format : ReportFormat} (hformat : Query.AsksFor query format) (r : AnalysisReport) :
    AnswersQuery query (App.reportResponse r format)
  /-- The format is unknown. -/
  | unknown {v : QueryValue} {text : String} (hgiven : Query.get? "format" query = some v)
      (hnone : ∀ format, ¬ Query.AsksFor query format) (htext : v.display? = some text) :
    AnswersQuery query (.error 400 ("Unknown format: " ++ text))
  /-- The format cannot be shown. -/
  | textless {v : QueryValue} (hgiven : Query.get? "format" query = some v) (htextless : v.Textless) :
    AnswersQuery query (.error 500 "Cannot convert object to primitive value")

theorem App.status_reportResponse (r : AnalysisReport) (format : ReportFormat) :
    (reportResponse r format).status = 200 := by
  cases format with
  | json | markdown | listing | code => rfl

theorem Ticket.status_sent (ticket : Ticket) (r : Response) :
    (ticket.sent r).2.status = r.status := by
  unfold sent
  dsimp only
  split
  · rfl
  · rfl

theorem Query.not_asksFor_of_textless {query v : QueryValue} (hgiven : get? "format" query = some v)
    (htextless : v.Textless) (format : ReportFormat) : ¬ AsksFor query format := by
  rintro (⟨hnone, -⟩ | hname)
  · cases hgiven.symm.trans hnone
  · obtain rfl := Option.some.inj (hgiven.symm.trans hname)
    cases htextless

/-- The status tells which answer it is. -/
theorem AnswersQuery.status_iff {query : QueryValue} {answer : Response}
    (h : AnswersQuery query answer) :
    (answer.status = 200 ↔ ∃ format, Query.AsksFor query format) ∧
      (answer.status = 400 ↔ (∀ format, ¬ Query.AsksFor query format) ∧
        ∀ v, Query.get? "format" query = some v → ¬ v.Textless) ∧
      (answer.status = 500 ↔ ∃ v, Query.get? "format" query = some v ∧ v.Textless) := by
  cases h with
  | @report format hformat r =>
    rw [App.status_reportResponse]
    refine ⟨⟨fun _ => ⟨format, hformat⟩, fun _ => rfl⟩, ⟨nofun, fun hnone => ?_⟩,
      ⟨nofun, fun htextless => ?_⟩⟩
    · exact absurd hformat (hnone.1 format)
    · obtain ⟨v, hgiven, hv⟩ := htextless
      exact absurd hformat (Query.not_asksFor_of_textless hgiven hv format)
  | @unknown v text hgiven hnone htext =>
    have hshown (w : QueryValue) (hw : Query.get? "format" query = some w) : ¬ w.Textless := by
      obtain rfl := Option.some.inj (hgiven.symm.trans hw)
      rw [← QueryValue.display?_eq_none_iff, htext]
      exact Option.some_ne_none text
    refine ⟨⟨nofun, fun ⟨format, hformat⟩ => absurd hformat (hnone format)⟩,
      ⟨fun _ => ⟨hnone, hshown⟩, fun _ => rfl⟩, ⟨nofun, fun ⟨w, hw, htextless⟩ => ?_⟩⟩
    exact absurd htextless (hshown w hw)
  | @textless v hgiven htextless =>
    refine ⟨⟨nofun, fun ⟨format, hformat⟩ => ?_⟩, ⟨nofun, fun hshown => ?_⟩,
      ⟨fun _ => ⟨v, hgiven, htextless⟩, fun _ => rfl⟩⟩
    · exact absurd hformat (Query.not_asksFor_of_textless hgiven htextless format)
    · exact absurd htextless (hshown.2 v hgiven)

/-! ## Requests -/

/-- The query of a request for the report, if that is what it is for. -/
def Request.reportQuery? (r : Request) : Option QueryValue :=
  match r.target? with
  | none => none
  | some target =>
    if r.hasMethod "OPTIONS" then none
    else
      match r.arguments with
      | .error _ => none
      | .ok _ =>
        if Route.ofPath r target.path = .report then some (Query.parse target.query) else none

/-- Any text behind the question mark gives a query, unless a character of it makes the target one that
is read with care. -/
theorem Request.reportQuery?_of_get {r : Request} {query : String} (hmethod : r.method = "GET")
    (htarget : r.target = "/report?" ++ query) (hbody : r.body? = none)
    (hplain : query.toList.any Target.needsCare = false) :
    r.reportQuery? = some (Query.parse query.toList) := by
  have hread : r.target? = some ⟨"/report".toList, query.toList⟩ := by
    rw [target?, htarget, Target.read?, String.toList_append]
    have hcare : ("/report?".toList ++ query.toList).any Target.needsCare = false := by
      rw [List.any_append, hplain]
      decide +kernel
    dsimp only
    rw [hcare]
    rfl
  have hoptions : r.hasMethod "OPTIONS" = false := by
    rw [hasMethod, hmethod]
    decide +kernel
  have hget : r.isGet = true := by
    rw [isGet, hasMethod, hasMethod, hmethod]
    decide +kernel
  have harguments : r.arguments = .ok noArguments := by
    rw [arguments, hbody]
  have hroute : Route.ofPath r "/report".toList = .report := by
    have hfixed : Route.fixed.lookup (Route.plain "/report".toList) = some .report := by
      decide +kernel
    rw [Route.ofPath, hfixed]
    exact if_pos hget
  rw [reportQuery?, hread]
  dsimp only
  rw [hoptions, harguments, if_neg Bool.false_ne_true]
  exact if_pos hroute
namespace App

variable {app : App} {r : Request} {query : QueryValue}

theorem reactAny_of_reportQuery? (h : r.reportQuery? = some query) :
    app.reactAny r = app.reactReport query := by
  unfold Request.reportQuery? at h
  unfold reactAny
  cases htarget : r.target? with
  | none => rw [htarget] at h; cases h
  | some target =>
    rw [htarget] at h
    dsimp only at h ⊢
    by_cases hoptions : r.hasMethod "OPTIONS" = true
    · rw [if_pos hoptions] at h
      cases h
    · rw [if_neg hoptions] at h ⊢
      cases harguments : r.arguments with
      | error p => rw [harguments] at h; cases h
      | ok arguments =>
        rw [harguments] at h
        dsimp only at h ⊢
        by_cases hroute : Route.ofPath r target.path = .report
        · rw [if_pos hroute] at h
          obtain rfl := Option.some.inj h
          unfold react
          rw [hroute]
        · rw [if_neg hroute] at h
          cases h

/-- What becomes of a request for the report. -/
theorem reactReport_cases (app : App) (query : QueryValue) :
    (∃ answer, (app.reactReport query).2 = .answer answer ∧ AnswersQuery query answer) ∨
      ((app.reactReport query).2 = .raise .unshowable ∧
        ∃ v, Query.get? "format" query = some v ∧ v.Textless) ∨
      ∃ format, Query.AsksFor query format ∧ (app.reactReport query).2 = .submit .report format := by
  unfold reactReport
  cases hformat : formatOf query with
  | error v =>
    obtain ⟨hgiven, hnone⟩ := formatOf_eq_error_iff.1 hformat
    dsimp only
    unfold unknownFormat
    cases htext : v.display? with
    | some text => exact Or.inl ⟨_, rfl, .unknown hgiven hnone htext⟩
    | none => exact Or.inr (Or.inl ⟨rfl, v, hgiven, (QueryValue.display?_eq_none_iff v).1 htext⟩)
  | ok format =>
    have hasks := formatOf_eq_ok_iff.1 hformat
    dsimp only
    generalize (if Query.isText "refresh" "1" query = true then
      { app with cache := app.cache.erase app.programKey } else app) = cleared
    cases cleared.cache.get? cleared.programKey with
    | some report => exact Or.inl ⟨_, rfl, .report hasks report⟩
    | none => exact Or.inr (Or.inr ⟨format, hasks, rfl⟩)

theorem responded_unshowable (app : App) (ticket : Ticket) :
    Responded app ticket (.error 500 "Cannot convert object to primitive value")
      (app.respondRaised ticket .unshowable) := by
  have hstatus : sentStatus? (.ofNat 500) = some 500 := by decide +kernel
  have hserver : Binary64.le (.ofNat 500) (.ofNat 500) = true := by decide +kernel
  have hmessage : app.respondRaised ticket .unshowable =
      app.respondMessage ticket (.ofNat 500) "Cannot convert object to primitive value" := rfl
  rw [hmessage]
  unfold respondMessage
  rw [if_pos hserver, hstatus]
  exact responded_write (responded_respond _ ticket _)

end App

namespace Session

variable {limits : Limits} {s s' : Session} {pending pending' : List AppTask} {query : QueryValue}

/-! ## Along a run -/

/-- The request of a ticket has its answer, or the task that makes its report is left. -/
def Attends (query : QueryValue) (ticket : Ticket) (s : Session) (pending : List AppTask) : Prop :=
  (∃ answer, AnswersQuery query answer ∧ ticket.sent answer ∈ s.app.responses) ∨
    ∃ task ∈ pending, task.ticket = ticket ∧ task.work = .report ∧ Query.AsksFor query task.format

theorem attends_arrive {r : Request} (h : r.reportQuery? = some query) :
    Attends query ⟨s.arrived, r.wantsNoBody⟩ (s.arrive r) (pending ++ s.submittedBy r) := by
  have hreact : s.app.reactAny r = s.app.reactReport query := App.reactAny_of_reportQuery? h
  rcases App.reactReport_cases s.app query with
    ⟨answer, hanswer, hquery⟩ | ⟨hraise, v, hgiven, htextless⟩ | ⟨format, hasks, hsubmit⟩
  · rw [← hreact] at hanswer
    refine Or.inl ⟨answer, hquery, ?_⟩
    rw [(arrive_of_answer hanswer).2]
    exact List.mem_append_right _ (List.mem_singleton_self _)
  · rw [← hreact] at hraise
    refine Or.inl ⟨_, .textless hgiven htextless, ?_⟩
    rw [(arrive_of_raise hraise (App.responded_unshowable _ _)).2]
    exact List.mem_append_right _ (List.mem_singleton_self _)
  · rw [← hreact] at hsubmit
    refine Or.inr ⟨⟨⟨s.arrived, r.wantsNoBody⟩, .report, format, r.client⟩, ?_, rfl, rfl, hasks⟩
    rw [(arrive_of_submit hsubmit).1]
    exact List.mem_append_right _ (List.mem_singleton_self _)

theorem Attends.books {ticket : Ticket} (h : Attends query ticket s pending)
    (hbooks : Books s pending s' pending') : Attends query ticket s' pending' := by
  rcases h with ⟨answer, hquery, hsent⟩ | ⟨task, hmem, hticket, hwork, hasks⟩
  · -- What was sent stays sent.
    refine Or.inl ⟨answer, hquery, ?_⟩
    cases hbooks with
    | answered _ _ hresponses => exact hresponses ▸ List.mem_append_left _ hsent
    | submitted _ _ hresponses => exact hresponses ▸ hsent
    | silent _ hresponses => exact hresponses ▸ hsent
    | delivered _ hresponses _ => exact hresponses ▸ List.mem_append_left _ hsent
  · cases hbooks with
    | answered => exact Or.inr ⟨task, hmem, hticket, hwork, hasks⟩
    | submitted => exact Or.inr ⟨task, List.mem_append_left _ hmem, hticket, hwork, hasks⟩
    | silent => exact Or.inr ⟨task, hmem, hticket, hwork, hasks⟩
    | delivered _ hresponses hreport =>
      rcases List.mem_cons.1 hmem with rfl | hrest
      · obtain ⟨report, rfl⟩ := hreport hwork
        refine Or.inl ⟨_, .report hasks report, ?_⟩
        rw [hresponses, hticket]
        exact List.mem_append_right _ (List.mem_singleton_self _)
      · exact Or.inr ⟨task, hrest, hticket, hwork, hasks⟩

/-- The response with the number of the ticket is the answer. -/
theorem Attends.answers {ticket : Ticket} (h : Attends query ticket s pending)
    (haccount : Accounted s pending) {response : Response}
    (hsent : (ticket.number, response) ∈ s.app.responses) :
    ∃ answer, AnswersQuery query answer ∧ (ticket.number, response) = ticket.sent answer := by
  rcases h with ⟨answer, hquery, hanswer⟩ | ⟨task, hmem, rfl, -⟩
  · exact ⟨answer, hquery, List.inj_on_of_nodup_map haccount.nodup hsent hanswer rfl⟩
  · exact absurd rfl (haccount.ne_of_mem hmem hsent)

/-! ## Requests for the report -/

/-- A request that asks for a list of formats. -/
def listedFormat : Request := ⟨"GET", "/report?format[]=json", none, none, "x"⟩

/-- A request that asks for a table with an entry for the operation that shows it. -/
def textlessFormat : Request := ⟨"GET", "/report?format[toString]=x", none, none, "x"⟩

end Session

end BinaryReport
