import BinaryReport.Tool.Run

/-!
# Work

What the service does on behalf of its clients, one piece after another: it makes the report of the
program, or it runs a tool. A piece of work is an activity of the engine.
-/

namespace BinaryReport

/-- A piece of work. -/
inductive Work where
  /-- Makes the report of the program. -/
  | report
  /-- Runs a tool with arguments. -/
  | tool (t : Tool) (arguments : Json)

/-- What a piece of work comes to. -/
inductive WorkOutcome where
  /-- A report, or what making it raised. -/
  | report (r : Except Raised Report)
  /-- The reply of a tool. -/
  | tool (t : Tool) (r : ToolReply)

/-- What is left of a piece of work that waits for the decompiler. -/
inductive WorkRest where
  /-- The rest of a report. -/
  | report (rest : Report.Rest)
  /-- The rest of a tool. -/
  | tool (t : Tool) (rest : ToolRest)

namespace Work

/-- The first part of a piece of work. -/
def start [Services] (e : Engine) (defaults : Limits) : Work → Engine × Begun WorkRest WorkOutcome
  | .report =>
    let (e, begun) := Report.start e defaults
    (e, begun.map .report .report)
  | .tool t arguments =>
    let (e, begun) := t.start e defaults arguments
    (e, begun.map (.tool t) (.tool t))

end Work

namespace WorkRest

/-- The second part of a piece of work, once the call of the decompiler is settled. -/
def finish [Services] (e : Engine) (call : Call) : WorkRest → Engine × Logged WorkOutcome
  | .report rest =>
    let (e, r) := Report.finish e rest (call.functionOf? rest.function)
    (e, ⟨.report r.outcome, r.log⟩)
  | .tool t rest =>
    let (e, r) := rest.finish e call
    (e, ⟨.tool t r.outcome, r.log⟩)

end WorkRest

namespace Work

/-- A piece of work that is done alone. -/
def run [Services] (e : Engine) (defaults : Limits) (w : Work) : Engine × Logged WorkOutcome :=
  match w.start e defaults with
  | (e, .finished result) => (e, result)
  | (e, .decompiling call rest) => rest.finish e call.run

end Work

end BinaryReport
