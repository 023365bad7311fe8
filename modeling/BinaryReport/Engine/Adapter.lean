import BinaryReport.Decompiler.Shared
import BinaryReport.Engine.Catalog

/-!
# The adapter of a decompiler

The adapter asks a decompiler for a function under a time limit. It sets its backstop first, waits for
the call to be settled, and removes the backstop again whatever the call has come to, also if the
decompiler raises something (`Decompiler.adaptVia`). Only code from a call that ran to its end counts.
-/

namespace BinaryReport

/-- The result of a decompilation for a function: only code from a call that ran to its end
counts. -/
def Decompilation.functionOf? (d : Decompilation) (f : Function) : Option DecompiledFunction :=
  match d.completed, d.code? with
  | true, some code => if code.isEmpty then none else some (.ofFunction f code)
  | _, _ => none

/-- The result of a call for a function. -/
def Call.functionOf? (c : Call) (f : Function) : Option DecompiledFunction :=
  c.result?.bind fun d => d.functionOf? f

/-- What the adapter comes back with, and what is left on the clock then. -/
structure Returned where
  /-- The function, or what the decompiler raised. -/
  outcome : Except Raised (Option DecompiledFunction)
  /-- The clock with the timers of the call that are left. -/
  clock : Clock Alarm
  /-- Whether the listener of the call is left. -/
  listening : Bool
  /-- When the call was aborted, if it was. -/
  abortedAt? : Option Rat
  /-- The timers of earlier callers that are left. -/
  others : List (Timer Unit)

/-- Waits for a call and then removes the backstop. A call that is never settled does not come back. -/
def SharedCall.returned? (s : SharedCall) (f : Function) : Option Returned :=
  let ended := s.run
  ended.call.result?.map fun d =>
    ⟨.ok (d.functionOf? f), ended.call.clock.cancel .abort, ended.call.listening,
      ended.call.abortedAt?, ended.others⟩

/-- What the adapter comes back with for the response of a decompiler. The backstop was set before, so
it stands in front of the timer of the call. -/
def Returned.of? (others : List (Timer Unit)) (f : Function) (limit : Binary64) :
    Except Raised CallResponse → Option Returned
  | .ok response =>
    SharedCall.returned? ⟨Call.begin (Call.backstop .start limit) response, others⟩ f
  | .error r => some ⟨.error r, (Call.backstop .start limit).cancel .abort, false, none, others⟩

namespace Decompiler

/-- The adapter, for a decompiler that is asked in any monad, on a clock with timers of others. -/
def adaptVia {m : Type → Type} [Monad m]
    (ask : Function → (limit : Binary64) → (aborted : Bool) → m (Except Raised CallResponse))
    (others : List (Timer Unit)) (f : Function) (limit : Binary64) : m (Option Returned) := do
  let response ← ask f limit false
  pure (Returned.of? others f limit response)

/-- The adapter of a decompiler. -/
def adapt? (d : Decompiler) (others : List (Timer Unit)) (f : Function) (limit : Binary64) :
    Option Returned :=
  Id.run (adaptVia (fun f limit aborted => pure (d f limit aborted)) others f limit)

end Decompiler

/-- What the adapter gives for an engine's decompiler; a call that does not come back gives nothing. -/
def Engine.decompile (e : Engine) (f : Function) (limit : Binary64) :
    Except Raised (Option DecompiledFunction) :=
  match e.decompiler.adapt? [] f limit with
  | some r => r.outcome
  | none => .ok none

end BinaryReport
