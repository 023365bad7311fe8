import BinaryReport.Decompiler.Call

/-!
# Calls on a shared clock

Earlier callers may have left timers on the clock that a call runs against. Such a timer fires without
a listener: it takes time, and does nothing (`SharedCall.step`).
-/

namespace BinaryReport

/-- A call, and the timers that earlier callers left on the clock. These were created before those of
the call. -/
structure SharedCall where
  /-- The call with its own timers. -/
  call : Call
  /-- The other timers. -/
  others : List (Timer Unit)

/-- The call at another time. -/
def Call.atTime (c : Call) (now : Rat) : Call := { c with clock := ⟨now, c.clock.timers⟩ }

namespace SharedCall

/-- Whether a timer of an earlier caller fires before those of the call. Of timers due together the
older one fires first. -/
def isFirst (other : Timer Unit) (timers : List (Timer Alarm)) : Bool :=
  timers.all fun t => other.due ≤ t.due

/-- Lets the next timer fire, unless the call is settled. -/
def step (s : SharedCall) : SharedCall :=
  match s.call.result?, Clock.takeEarliest s.others with
  | none, some (other, others) =>
    if isFirst other s.call.clock.timers then ⟨s.call.atTime other.due, others⟩
    else { s with call := s.call.step }
  | _, _ => { s with call := s.call.step }

/-- Lets up to `n` timers fire. -/
def steps : Nat → SharedCall → SharedCall
  | 0, s => s
  | n + 1, s => steps n s.step

/-- Lets timers fire until the call is settled or there are none. -/
def run (s : SharedCall) : SharedCall := s.steps (s.others.length + s.call.clock.timers.length)

end SharedCall

end BinaryReport
