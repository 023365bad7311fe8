import BinaryReport.Engine.Adapter

/-!
# Activities

What an engine does on request runs in up to two parts, with a call of the decompiler between them:
a first part ends with an outcome, or with a call and what is left to do once the call has its
answer. `Begun` is the state between the parts.

An activity that runs alone lets the call run to its end and then does the rest.
-/

namespace BinaryReport

/-- An outcome with the lines that were logged. -/
structure Logged (ρ : Type) where
  /-- The outcome. -/
  outcome : ρ
  /-- The lines in the order in which they were written. -/
  log : List String

/-- The outcome of an activity at whose end a session is closed: what closing raises comes before the
outcome, and what it logs is kept. -/
def Logged.ofClosed {α : Type} (outcome : Except Raised α) :
    Except Raised (List String) → Logged (Except Raised α)
  | .ok log => ⟨outcome, log⟩
  | .error r => ⟨.error r, []⟩

/-- What the first part of an activity leads to. -/
inductive Begun (κ ρ : Type) where
  /-- An outcome. -/
  | finished (result : Logged ρ)
  /-- A call of the decompiler, and what is left to do. -/
  | decompiling (call : Call) (rest : κ)

/-- Changes the outcome and what is left to do. -/
def Begun.map {κ ρ κ' ρ' : Type} (f : κ → κ') (g : ρ → ρ') : Begun κ ρ → Begun κ' ρ'
  | .finished r => .finished ⟨g r.outcome, r.log⟩
  | .decompiling call rest => .decompiling call (f rest)

end BinaryReport
