import BinaryReport.Engine.Mutation
import BinaryReport.Tool.Basic

/-!
# Running tools

A tool runs as an activity: arguments that are refused end it at once, a report or a decompilation
may wait for a call of the decompiler. A session that a tool has opened is closed at its end.
-/

namespace BinaryReport

/-- What a tool answers. -/
inductive ToolResult where
  /-- A report. -/
  | report (r : Report)
  /-- The instructions from an address on. -/
  | disassembly (start : Address) (instructions : List InstructionRecord)
  /-- A decompiled function, or none. -/
  | function (r? : Option DecompiledFunction)
  /-- The outcome of a change. -/
  | mutation (r : MutationResult)
  /-- The address text denotes no address; the message says why. -/
  | unreadable (message : String)
deriving DecidableEq

/-- What running a tool comes to. -/
inductive ToolOutcome where
  /-- An answer. -/
  | answered (r : ToolResult)
  /-- The arguments are refused. -/
  | refused (issues : List Issue)
deriving DecidableEq

/-- What is left to do when a tool waits for the decompiler. -/
inductive ToolRest where
  /-- The rest of a report. -/
  | report (rest : Report.Rest)
  /-- The end of a decompilation. -/
  | decompile (f : Function)

namespace ToolResult

/-- The JSON form of an answer. -/
def toJson : ToolResult → Json
  | .report r => r.toJson
  | .disassembly start instructions =>
    .object [("address", .string start.canonical),
      ("instructions", .array (instructions.map InstructionRecord.toJson))]
  | .function r? => .object [("function", DecompiledFunction.toJson? r?)]
  | .mutation r => r.toJson
  | .unreadable message => .object [("error", .string message)]

/-- Whether an answer says that a change was made. -/
def isSuccess : ToolResult → Bool
  | .mutation r => r.success
  | _ => false

end ToolResult

/-- The outcome of a tool, or what it raised. -/
abbrev ToolReply := Except Raised ToolOutcome

namespace ToolCall

/-- An activity that ends at once. -/
def finishedWith (r : Except Raised ToolResult) (log : List String) : Begun ToolRest ToolReply :=
  .finished ⟨r.map .answered, log⟩

/-- Closes the session and ends. -/
def closeWith (e : Engine) (r : Except Raised ToolResult) : Engine × Logged ToolReply :=
  let (e, closed) := e.closeProgram
  (e, .ofClosed (r.map .answered) closed)

/-- The first part of decompiling a function, once the program is open. -/
def startDecompiler [Services] (e : Engine) (f : Function) (limit : Binary64) :
    Engine × Begun ToolRest ToolReply :=
  match Call.supervise (Services.decompiler e) f limit with
  | .ok call => (e, .decompiling call (.decompile f))
  | .error r =>
    let (e, result) := closeWith e (.error r)
    (e, .finished result)

/-- The first part of decompiling the function that contains an address. -/
def startDecompile [Services] (e : Engine) (a : Address) (limit : Binary64) :
    Engine × Begun ToolRest ToolReply :=
  match e.functionContaining a with
  | .error r => (e, finishedWith (.error r) [])
  | .ok none => (e, finishedWith (.ok (.function none)) [])
  | .ok (some f) =>
    match e.openProgram with
    | (.error r, e) => (e, finishedWith (.error r) [])
    | (.ok false, e) => (e, finishedWith (.ok (.function none)) [])
    | (.ok true, e) => startDecompiler e f limit

/-- Reads the address of a call and goes on with it. -/
def withAddress (e : Engine) (text : String)
    (next : Address → Engine × Begun ToolRest ToolReply) :
    Engine × Begun ToolRest ToolReply :=
  match e.readAddress text with
  | .error r => (e, finishedWith (.error r) [])
  | .ok (.unreadable message) => (e, finishedWith (.ok (.unreadable message)) [])
  | .ok (.address a) => next a

/-- The first part of a call. -/
def start [Services] (e : Engine) : ToolCall → Engine × Begun ToolRest ToolReply
  | .report limits =>
    let (e, begun) := Report.start e limits
    (e, begun.map .report fun r => r.map fun r => .answered (.report r))
  | .disassemble address count => withAddress e address fun a =>
    (e, finishedWith ((Services.disassemble e a count).map (.disassembly a)) [])
  | .decompile address limit => withAddress e address fun a => startDecompile e a limit
  | .rename address name =>
    let (e, r) := e.renameSymbol address name
    (e, finishedWith (r.map .mutation) [])
  | .retype address type =>
    let (e, r) := e.retypeData address type
    (e, finishedWith (r.map .mutation) [])

end ToolCall

namespace ToolRest

/-- The second part of a call, once the decompiler's call is settled. -/
def finish [Services] (e : Engine) (call : Call) : ToolRest → Engine × Logged ToolReply
  | .report rest =>
    let (e, r) := Report.finish e rest (call.functionOf? rest.function)
    (e, ⟨r.outcome.map fun r => .answered (.report r), r.log⟩)
  | .decompile f => ToolCall.closeWith e (.ok (.function (call.functionOf? f)))

end ToolRest

namespace Tool

/-- The first part of a tool. -/
def start [Services] (e : Engine) (defaults : Limits) (t : Tool) (arguments : Json) :
    Engine × Begun ToolRest ToolReply :=
  match t.read defaults arguments with
  | .accepted call => call.start e
  | .refused first others => (e, .finished ⟨.ok (.refused (first :: others)), []⟩)

/-- A tool that runs alone. -/
def run [Services] (e : Engine) (defaults : Limits) (t : Tool) (arguments : Json) :
    Engine × Logged ToolReply :=
  match t.start e defaults arguments with
  | (e, .finished result) => (e, result)
  | (e, .decompiling call rest) => rest.finish e call.run

end Tool

end BinaryReport
