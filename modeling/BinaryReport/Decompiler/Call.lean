import BinaryReport.Clock
import BinaryReport.Decompiler.Basic

/-!
# Calls of a decompiler

A call that is not answered at once has a timer of its own and a listener for an abort. Either of them
answers the call and sees to it that the other one does not: the timer removes the listener, and the
listener, which hears of one abort only, removes the timer. A call keeps the first answer.

A supervised call has a backstop: an abort a grace period after the time limit, for a decompiler
that does not keep the limit itself. Past the range of timers there is no backstop.
-/

namespace BinaryReport

/-- What a timer of a call is for. -/
inductive Alarm where
  /-- To abort the call. -/
  | abort
  /-- To answer the call. -/
  | answer
deriving DecidableEq

/-- A call in time. -/
structure Call where
  /-- The clock with the timers of the call. -/
  clock : Clock Alarm
  /-- What the timer and the listener of the call do, unless it was answered at once. -/
  handlers? : Option PendingCall
  /-- Whether the listener for an abort is registered. -/
  listening : Bool
  /-- The answer, once the call is settled. -/
  result? : Option Decompilation
  /-- When the call was aborted, if it was. -/
  abortedAt? : Option Rat

namespace Call

/-- The call that a decompiler's response begins, with a clock that may hold an abort. -/
def begin (clock : Clock Alarm) : CallResponse → Call
  | .answered result => ⟨clock, none, false, some result, none⟩
  | .pending none call => ⟨clock, some call, true, none, none⟩
  | .pending (some delay) call => ⟨clock.schedule delay .answer, some call, true, none, none⟩

/-! ## Alarms -/

/-- The answer that an alarm gives. Only the first abort is one, and only a listener hears of it. -/
def answer? (c : Call) : Alarm → Option Decompilation
  | .answer => c.handlers?.map (·.answer)
  | .abort => if c.listening && c.abortedAt?.isNone then c.handlers?.bind (·.onAbort?) else none

/-- What an alarm removes: the call's own timer removes the listener, and an abort removes the listener
that hears of it and, if the listener says so, the timer. -/
def disarm (c : Call) : Alarm → Call
  | .answer => { c with listening := c.listening && !c.handlers?.any (·.unlistens) }
  | .abort =>
    if c.abortedAt?.isSome then c
    else
      { c with
        clock :=
          if (c.answer? .abort).isSome && c.handlers?.any (·.disarms) then c.clock.cancel .answer
          else c.clock
        listening := false
        abortedAt? := some c.clock.now }

/-- Gives a call an answer; it keeps the first one. -/
def resolve (c : Call) (answer : Decompilation) : Call :=
  { c with result? := some (c.result?.getD answer) }

/-- What an alarm does to a call, at the time of the clock. -/
def handle (c : Call) (alarm : Alarm) : Call :=
  match c.answer? alarm with
  | none => c.disarm alarm
  | some answer => (c.disarm alarm).resolve answer

/-- Lets the next timer fire, unless the call is settled. -/
def step (c : Call) : Call :=
  match c.result?, c.clock.next? with
  | none, some (alarm, clock) => { c with clock := clock }.handle alarm
  | _, _ => c

/-- Lets up to `n` timers fire. -/
def steps : Nat → Call → Call
  | 0, c => c
  | n + 1, c => steps n c.step

/-- Lets timers fire until the call is settled or there are none. -/
def run (c : Call) : Call := c.steps c.clock.timers.length

/-! ## Supervision -/

/-- How long after its time limit a call is aborted, in milliseconds. -/
def graceMs : Nat := 1000

/-- When the backstop of a call is due, for a time limit in seconds. -/
def backstopDelay (limit : Binary64) : Binary64 := Decompiler.milliseconds limit + .ofNat graceMs

/-- The clock with the backstop for a time limit, if that is in the range of timers. -/
def backstop (clock : Clock Alarm) (limit : Binary64) : Clock Alarm :=
  let delay := backstopDelay limit
  if delay ≤ .ofNat Clock.longestDelay then clock.schedule delay .abort else clock

/-- Begins a supervised call. -/
def supervise (d : Decompiler) (f : Function) (limit : Binary64) : Except Raised Call :=
  (d f limit false).map (begin (backstop .start limit))

end Call

end BinaryReport
