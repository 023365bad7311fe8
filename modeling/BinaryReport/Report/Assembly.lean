import BinaryReport.Engine.Services

/-!
# Assembling a report

A report is made in stages: the program is opened in the decompiler, its entry and the function
around it are found, the function is decompiled, and the functions, the symbols, the disassembly
and the name are gathered. The first stage that raises something turns the whole into an error
report. A session that was opened is closed at the end in either case. A report itself raises
something only where there is no text to put into an error report or into the log.
-/

namespace BinaryReport

/-- The bounds of a report. -/
structure Limits where
  /-- The largest number of instructions. -/
  maxInstructions : Binary64
  /-- The time limit of the decompiler, in seconds. -/
  timeoutSeconds : Binary64
deriving DecidableEq

/-- The bounds when none are given: a hundred instructions and thirty seconds. -/
def Limits.standard : Limits := ⟨.ofNat 100, .ofNat 30⟩

namespace ErrorReport

/-- The name of a program that has none. -/
def unknownProgram : String := "unknown"

/-- The name of an engine's program as far as it can be read. -/
def programNameOf (name : Except Raised String) : String :=
  match name with
  | .ok name => if name.isEmpty then unknownProgram else name
  | .error _ => unknownProgram

/-- The report of a failure, for a program with a name. -/
def ofFailure (f : Failure) (name : Except Raised String) : ErrorReport :=
  ⟨f.summary, f.trace, programNameOf name⟩

/-- The report of what was raised, for a program with a name. What has no text cannot be
reported. -/
def ofRaised (r : Raised) (name : Except Raised String) : Except Raised ErrorReport :=
  match r.message?, r.trace? with
  | some message, some trace => .ok ⟨message, trace, programNameOf name⟩
  | _, _ => .error .unshowable

end ErrorReport

namespace Report

/-- What is left to do when the function around the entry has been decompiled. -/
structure Rest where
  /-- The entry. -/
  entry : Address
  /-- The function that is decompiled. -/
  function : Function
  /-- The bounds of the report. -/
  limits : Limits

/-- The stages after decompilation. -/
def gather [Services] (e : Engine) (limits : Limits) (entry : Address)
    (entryFunction? : Option DecompiledFunction) : Except Raised AnalysisReport := do
  let functions ← e.functionRecords
  let symbols ← e.symbolRecords
  let disassembly ← Services.disassemble e entry limits.maxInstructions
  let name ← e.name
  .ok ⟨name, entry.canonical, entryFunction?, functions, symbols, disassembly,
    e.program.imageBase.canonical, e.program.language⟩

/-- The report that the stages lead to. -/
def ofStages (e : Engine) : Except Raised AnalysisReport → Except Raised Report
  | .ok r => .ok (.whole r)
  | .error r => (ErrorReport.ofRaised r e.name).map .failed

/-- Ends a report: a session that was opened is closed. -/
def conclude (e : Engine) (opened : Bool) (stages : Except Raised AnalysisReport) :
    Engine × Logged (Except Raised Report) :=
  let report := ofStages e stages
  if opened then
    let (e, closed) := e.closeProgram
    (e, .ofClosed report closed)
  else (e, ⟨report, []⟩)

/-- The entry and the function around it. -/
def locate (e : Engine) : Except Raised (Address × Option Function) := do
  let entry ← e.resolveEntry
  let function? ← e.functionContaining entry
  .ok (entry, function?)

/-- A report without a call of the decompiler. -/
def concludeNow (e : Engine) (opened : Bool) (stages : Except Raised AnalysisReport) :
    Engine × Begun Rest (Except Raised Report) :=
  let (e, result) := conclude e opened stages
  (e, .finished result)

/-- The stages up to the call of the decompiler, once the program is opened or not. -/
def startWith [Services] (e : Engine) (limits : Limits) (opened : Bool) :
    Engine × Begun Rest (Except Raised Report) :=
  match locate e with
  | .error r => concludeNow e opened (.error r)
  | .ok (entry, none) => concludeNow e opened (gather e limits entry none)
  | .ok (entry, some f) =>
    if opened then
      match Call.supervise (Services.decompiler e) f limits.timeoutSeconds with
      | .error r => concludeNow e opened (.error r)
      | .ok call => (e, .decompiling call ⟨entry, f, limits⟩)
    else concludeNow e opened (gather e limits entry none)

/-- The first part of a report. -/
def start [Services] (e : Engine) (limits : Limits) :
    Engine × Begun Rest (Except Raised Report) :=
  match e.openProgram with
  | (.error r, e) => concludeNow e false (.error r)
  | (.ok opened, e) => startWith e limits opened

/-- The second part of a report, for the result of the call. -/
def finish [Services] (e : Engine) (rest : Rest) (entryFunction? : Option DecompiledFunction) :
    Engine × Logged (Except Raised Report) :=
  conclude e true (gather e rest.limits rest.entry entryFunction?)

/-- A report that is made alone. -/
def build [Services] (e : Engine) (limits : Limits) : Engine × Logged (Except Raised Report) :=
  match start e limits with
  | (e, .finished result) => (e, result)
  | (e, .decompiling call rest) => finish e rest (call.run.functionOf? rest.function)

end Report

end BinaryReport
