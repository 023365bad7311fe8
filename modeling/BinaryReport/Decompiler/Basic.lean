import BinaryReport.Program.Basic

/-!
# Decompilers

A decompiler is asked for the code of a function under a time limit, and answers at once or later.
A later answer is described by what ends the call: its own timer, or an abort.

`stored` is the decompiler of a loaded program: it serves the code that the program has for a
function once the latency of the function has passed, unless the time limit is shorter.
-/

namespace BinaryReport

/-- How a decompilation ended. -/
structure Decompilation where
  /-- Whether it ran to its end. -/
  completed : Bool
  /-- The code, if there is any. -/
  code? : Option String
  /-- Why it did not run to its end, or nothing. -/
  errorMessage : String
deriving DecidableEq

namespace Decompilation

/-- A decompilation that ran to its end. -/
def complete (code? : Option String) : Decompilation := ⟨true, code?, ""⟩

/-- A decompilation that did not run to its end. -/
def incomplete (reason : String) : Decompilation := ⟨false, none, reason⟩

/-- The answer of a decompiler that has no program open. -/
def notOpen : Decompilation := incomplete "No program opened"

/-- The answer after an abort. -/
def cancelled : Decompilation := incomplete "Decompilation cancelled"

/-- The answer after the time limit, in seconds. -/
def timedOut (limit : Binary64) : Decompilation :=
  incomplete ("Decompilation timed out after " ++ limit.text ++ "s")

end Decompilation

/-- A call that is to be answered later: what its timer and its listener for an abort do. -/
structure PendingCall where
  /-- The answer when the call's own timer fires. -/
  answer : Decompilation
  /-- Whether the timer removes the listener. -/
  unlistens : Bool
  /-- The answer when the listener hears of an abort; without one it does nothing. -/
  onAbort? : Option Decompilation
  /-- Whether the answer to an abort removes the call's own timer. -/
  disarms : Bool
deriving DecidableEq

/-- What a decompiler does with a call. -/
inductive CallResponse where
  /-- It answers at once. -/
  | answered (result : Decompilation)
  /-- It answers later; its own timer, if it has one, is given by its delay in milliseconds. -/
  | pending (delay? : Option Binary64) (call : PendingCall)

/-- A decompiler: what it does with a call for a function, under a time limit in seconds, that is
aborted already or not. -/
abbrev Decompiler := Function → (limit : Binary64) → (aborted : Bool) → Except Raised CallResponse

namespace Decompiler

/-- A number of seconds in milliseconds. -/
def milliseconds (seconds : Binary64) : Binary64 := seconds * 1000

/-- The answer of the stored code, whose timer is set to the latency or, if that is shorter, to the
time limit. -/
def serve (f : Function) (limit : Binary64) : CallResponse :=
  let limitMs := milliseconds limit
  if limitMs < f.latency then
    .pending (some limitMs) ⟨.timedOut limit, true, some .cancelled, true⟩
  else .pending (some f.latency) ⟨.complete f.code?, true, some .cancelled, true⟩

/-- The decompiler of a loaded program, which is open or not. -/
def stored (isOpen : Bool) : Decompiler := fun f limit aborted =>
  if !isOpen then .ok (.answered .notOpen)
  else if aborted then .ok (.answered .cancelled)
  else .ok (serve f limit)

end Decompiler

end BinaryReport
