import BinaryReport.Cache
import BinaryReport.Digest
import BinaryReport.Queue.Serial
import BinaryReport.Report.Format
import BinaryReport.Service.Route
import BinaryReport.Service.Work

/-!
# The service

The service answers requests about one program. Reports are kept until something changes; what is
not at hand is made by the serial queue, which all reports and all tools share, so no change ever
falls into the middle of a report.

A request is answered at once, or it submits a task. The outcome of a task is delivered before the
next task starts: a report that was made is kept, a change that was made clears the kept report,
and the client gets its response.
-/

namespace BinaryReport

/-- The state of the service. -/
structure App where
  /-- The engine. -/
  engine : Engine
  /-- The last good report of each program. -/
  cache : Cache AnalysisReport
  /-- The key of the program. -/
  programKey : String
  /-- The bounds of reports and of tools that are given none. -/
  defaults : Limits
  /-- The lines that have been logged, in order. -/
  log : List String
  /-- The responses that have been sent, in order, with the numbers of their requests. -/
  responses : List (Nat × Response)

/-- Where a response goes. -/
structure Ticket where
  /-- The number of the request. -/
  number : Nat
  /-- Whether the response is sent without its body. -/
  bodiless : Bool
deriving DecidableEq

/-- A task of the service. -/
structure AppTask where
  /-- Where the response goes. -/
  ticket : Ticket
  /-- What is to be done. -/
  work : Work
  /-- The format of the response to a report. -/
  format : ReportFormat
  /-- The address of the client. -/
  client : String

/-- The queue of the service, with its state. -/
abbrev AppQueue := SerialQueue App AppTask (Call × WorkRest) WorkOutcome

namespace App

/-- The state of a service that has not been asked anything. -/
def start (engine : Engine) (programKey : String) (defaults : Limits) : App :=
  ⟨engine, .empty, programKey, defaults, [], []⟩

/-- Logs a line. -/
def write (app : App) (line : String) : App := { app with log := app.log ++ [line] }

/-- Sends a response. -/
def respond (app : App) (ticket : Ticket) (r : Response) : App :=
  { app with responses := app.responses ++
    [(ticket.number, if ticket.bodiless then r.bodiless else r)] }

/-! ## Errors -/

/-- Whether what was raised only passes the request on: an empty value reports no error, and two
words ask for the next route and for the next router. There is none, so nothing is found. -/
def passesOn : Raised → Bool
  | .failure _ => false
  | .value .null => true
  | .value (.bool b) => !b
  | .value (.number x) => x.isZero || x = .nan
  | .value (.string s) => s.isEmpty || s == "route" || s == "router"
  | .value _ => false

/-- The status of a response to what was raised: a value can bring its own. -/
def statusOf : Raised → Binary64
  | .failure _ => .ofNat 500
  | .value v =>
    match v.get? "status" with
    | some (.number x) => if Binary64.le (.ofNat 400) x then x else .ofNat 500
    | _ => .ofNat 500

/-- The status that is sent for a number: its whole part in 32 bits, if it has three digits. -/
def sentStatus? (status : Binary64) : Option Nat :=
  let n := status.truncate.bmod 4294967296
  if 100 ≤ n ∧ n < 1000 then some n.toNat else none

/-- What is raised by a status that cannot be sent. -/
def invalidStatus (status : Binary64) : Failure :=
  Failure.mk .range ("Invalid status code: " ++ status.text)
    (some "RangeError [ERR_HTTP_INVALID_STATUS_CODE]") true

/-- Responds with a page to a failure that kept a response from being sent. -/
def respondBroken (app : App) (ticket : Ticket) (status : Nat) (f : Failure) : App :=
  (app.write f.trace).respond ticket (.page status)

/-- Responds to what was raised with a message. What is not the client's fault is logged. -/
def respondMessage (app : App) (ticket : Ticket) (status : Binary64) (message : String) : App :=
  let app := if Binary64.le (.ofNat 500) status then app.write ("[error] " ++ message) else app
  match sentStatus? status with
  | some n => app.respond ticket (.error n message)
  | none => app.respondBroken ticket 500 (invalidStatus status)

/-- Responds to what was raised and has no text. The page keeps the status if the fault is the
client's. -/
def respondUnshowable (app : App) (ticket : Ticket) (status : Binary64) : App :=
  app.respondBroken ticket
    (if Binary64.lt status (.ofNat 500) then status.truncate.toNat else 500) .unshowable

/-- Responds to what was raised. -/
def respondRaised (app : App) (ticket : Ticket) (r : Raised) : App :=
  if passesOn r then app.respond ticket .notFound
  else
    match r.message? with
    | some message => app.respondMessage ticket (statusOf r) message
    | none => app.respondUnshowable ticket (statusOf r)

/-! ## Reports -/

/-- A whole report in a format. The view of the code is the text, whatever the arguments that the host takes. -/
def reportResponse (r : AnalysisReport) : ReportFormat → Response
  | .json => .json 200 r.toJson
  | .markdown => .text .markdown r.markdown
  | .listing => .text .plain r.listing
  | .code => .text .plain r.code

/-- An error report in a format. -/
def failedResponse (r : ErrorReport) (format : ReportFormat) : Response :=
  if format = .markdown then .text .markdown r.markdown else .json 200 r.toJson

/-- The line about a report. -/
def reportLine (key : String) : Report → String
  | .whole r =>
    "[report] " ++ key ++ " functions=" ++ countText r.functions.length ++ " symbols="
      ++ countText r.symbols.length
  | .failed r => "[report] " ++ key ++ " error=" ++ (Json.string r.message).compact

/-- Delivers a report: a whole one is kept. -/
def deliverReport (app : App) (task : AppTask) (r : Report) : App :=
  match r with
  | .whole report =>
    let app := { app with cache := app.cache.insert app.programKey report }
    (app.write (reportLine app.programKey r)).respond task.ticket (reportResponse report task.format)
  | .failed report =>
    (app.write (reportLine app.programKey r)).respond task.ticket (failedResponse report task.format)

/-! ## Tools -/

/-- The response to arguments that are refused. -/
def refusal (t : Tool) (issues : List Issue) : Response :=
  .json 400 (.object [("error", .bool true),
    ("message", .string ("Invalid arguments for " ++ t.name)),
    ("issues", .array (issues.map Issue.toJson))])

/-- The line about a change that a client asked for. -/
def auditLine (client : String) (t : Tool) (success : Bool) : String :=
  "[audit] " ++ Digest.auditId (if client.isEmpty then "x" else client) ++ " tool=" ++ t.name
    ++ " success=" ++ (if success then "true" else "false")

/-- Takes note of the answer of a tool that changes the program: a change that was made makes the
kept report stale. -/
def noteChange (app : App) (t : Tool) (client : String) (r : ToolResult) : App :=
  if t.mutates then
    let app := if r.isSuccess then { app with cache := app.cache.erase app.programKey } else app
    app.write (auditLine client t r.isSuccess)
  else app

/-- Delivers the reply of a tool. -/
def deliverTool (app : App) (task : AppTask) (t : Tool) (r : ToolReply) : App :=
  match r with
  | .error raised => app.respondRaised task.ticket raised
  | .ok (.refused issues) => app.respond task.ticket (refusal t issues)
  | .ok (.answered r) =>
    ((app.noteChange t task.client r).write ("[tool] " ++ t.name ++ " ms=0")).respond task.ticket
      (.json 200 r.toJson)

/-! ## The host -/

/-- The effect of a part of a task: its outcome, or a call that has no answer yet. A call that was
answered at once is followed by the rest of the task. -/
def effectOf (app : App) (part : Engine × Begun WorkRest WorkOutcome) :
    Effect App AppTask (Call × WorkRest) WorkOutcome :=
  match part with
  | (e, .finished r) =>
    ⟨{ app with engine := e, log := app.log ++ r.log }, [], .settled r.outcome⟩
  | (e, .decompiling call rest) =>
    if call.result?.isSome then
      let (e, r) := rest.finish e call
      ⟨{ app with engine := e, log := app.log ++ r.log }, [], .settled r.outcome⟩
    else ⟨{ app with engine := e }, [], .suspended (call, rest)⟩

/-- Delivers the outcome of a task. -/
def deliver (app : App) (task : AppTask) (outcome : WorkOutcome) : App :=
  match outcome with
  | .report (.ok r) => app.deliverReport task r
  | .report (.error raised) => app.respondRaised task.ticket raised
  | .tool t r => app.deliverTool task t r

/-- The tasks of the service: a task does its work up to the call of the decompiler, lets one timer
of the call fire at a time, and then does the rest. -/
def host : Host App AppTask (Call × WorkRest) WorkOutcome where
  start app task := app.effectOf (task.work.start app.engine app.defaults)
  resume app _ left := app.effectOf (app.engine, .decompiling left.1.step left.2)
  deliver app task outcome := (app.deliver task outcome, [])
  weight _ := 5
  deliveryWeight _ := 1

/-! ## Requests -/

/-- What becomes of a request. -/
inductive Reaction where
  /-- It is answered. -/
  | answer (r : Response)
  /-- Something is raised. -/
  | raise (r : Raised)
  /-- It submits a task. -/
  | submit (work : Work) (format : ReportFormat)

/-- What becomes of a request for a report in a format that is none. -/
def unknownFormat (v : QueryValue) : Reaction :=
  match v.display? with
  | some s => .answer (.error 400 ("Unknown format: " ++ s))
  | none => .raise .unshowable

/-- The format that a query asks for. -/
def formatOf (query : QueryValue) : Except QueryValue ReportFormat :=
  match Query.get? "format" query with
  | none => .ok .json
  | some (.text s) =>
    match ReportFormat.ofName? s with
    | some format => .ok format
    | none => .error (.text s)
  | some v => .error v

/-- Takes a request for the report: a report that is kept is the answer, unless the query asks for
a fresh one. -/
def reactReport (app : App) (query : QueryValue) : App × Reaction :=
  match formatOf query with
  | .error v => (app, unknownFormat v)
  | .ok format =>
    let app := if Query.isText "refresh" "1" query then
        { app with cache := app.cache.erase app.programKey }
      else app
    match app.cache.get? app.programKey with
    | some report => (app, .answer (reportResponse report format))
    | none => (app, .submit .report format)

/-- The list of the tools, as a query asks for it. -/
def toolsResponse (query : QueryValue) : Response :=
  if Query.isText "format" "text" query then .text .plain Tool.catalogText
  else .json 200 Tool.catalog

/-- Takes a request whose arguments have been read. -/
def react (app : App) (r : Request) (target : Target) (arguments : Json) : App × Reaction :=
  let query := Query.parse target.query
  match Route.ofPath r target.path with
  | .health => (app, .answer (.json 200 (.object [("ok", .bool true)])))
  | .tools => (app, .answer (toolsResponse query))
  | .report => app.reactReport query
  | .tool name =>
    match Tool.ofName? name with
    | none => (app, .answer (.error 404 ("Unknown tool: " ++ name)))
    | some t => (app, .submit (.tool t arguments) .json)
  | .undecodable name =>
    (app, .answer (.error 400 ("Failed to decode param '" ++ name ++ "'")))
  | .unknown => (app, .answer .notFound)

/-- Takes a request. Where its target denotes no path nothing is found, whatever it asks for. -/
def reactAny (app : App) (r : Request) : App × Reaction :=
  match r.target? with
  | none => (app, .answer .notFound)
  | some target =>
    if r.hasMethod "OPTIONS" then (app, .answer .allowed)
    else
      match r.arguments with
      | .error p => (app, .answer p.response)
      | .ok arguments => app.react r target arguments

end App

namespace AppQueue

/-- A request arrives. -/
def receive (q : AppQueue) (number : Nat) (r : Request) : AppQueue :=
  let ticket : Ticket := ⟨number, r.wantsNoBody⟩
  let (app, reaction) := q.world.reactAny r
  match reaction with
  | .answer response => { q with world := app.respond ticket response }
  | .raise raised => { q with world := app.respondRaised ticket raised }
  | .submit work format => { q with world := app }.submit ⟨ticket, work, format, r.client⟩

/-- Requests arrive at the same moment, numbered from `number` on. -/
def receiveAll (q : AppQueue) (number : Nat) : List Request → AppQueue
  | [] => q
  | r :: rest => receiveAll (q.receive number r) (number + 1) rest

/-- An event from outside. -/
inductive Event where
  /-- Requests arrive, numbered from `number` on. -/
  | arrival (number : Nat) (requests : List Request)
  /-- A timer of the call of the decompiler fires. -/
  | timer

/-- Handles an event and does all the jobs that arise from it. -/
def handle (q : AppQueue) : Event → AppQueue
  | .arrival number requests => (q.receiveAll number requests).drain App.host
  | .timer => (q.wake App.host).drain App.host

/-- Answers requests that arrive at the same moment, all of them. -/
def serve (q : AppQueue) (requests : List Request) : AppQueue :=
  (q.receiveAll 0 requests).finish App.host

end AppQueue

end BinaryReport
