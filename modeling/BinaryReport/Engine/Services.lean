import BinaryReport.Engine.Activity

/-!
# Services

Two things are asked of an engine under a limit: the walk over instructions, with a bound on their
number, and its decompiler, with a time limit. The activities that ask for them take both from an
instance, so a run can be made with other services than those of the engine itself (`Services.own`).
-/

namespace BinaryReport

/-- What reports and tools ask of an engine under a limit. -/
class Services where
  /-- Lists instructions from an address on, up to a bound. -/
  disassemble : Engine → Address → Binary64 → Except Raised (List InstructionRecord)
  /-- The decompiler, which is asked under a time limit. -/
  decompiler : Engine → Decompiler

namespace Services

/-- What the engine does itself. -/
instance own : Services := ⟨Engine.disassemble, Engine.decompiler⟩

@[simp]
theorem disassemble_own (e : Engine) (start : Address) (bound : Binary64) :
    Services.disassemble e start bound = e.disassemble start bound := rfl

@[simp]
theorem decompiler_own (e : Engine) : Services.decompiler e = e.decompiler := rfl

end Services

end BinaryReport
