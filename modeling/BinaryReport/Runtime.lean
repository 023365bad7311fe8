import BinaryReport.Failure

/-!
# The host

The host of the program takes the arguments of a call on its stack, so a call can have only so many of
them. A call with more raises a failure instead of running. How many there can be depends on the host.
-/

namespace BinaryReport

/-- What a host of the program bounds. -/
structure Runtime where
  /-- The largest number of arguments of a call. -/
  maxArguments : Nat

namespace Runtime

/-- The failure of a call with too many arguments. -/
def stackExceeded : Failure := .ofKind .range "Maximum call stack size exceeded"

/-- Appends items to a list by one call with all of them. -/
def pushAll {α : Type} (rt : Runtime) (list items : List α) : Except Failure (List α) :=
  if items.length ≤ rt.maxArguments then .ok (list ++ items) else .error stackExceeded

/-- A host with a stack of the usual size. -/
def standard : Runtime := ⟨125000⟩

end Runtime

end BinaryReport
