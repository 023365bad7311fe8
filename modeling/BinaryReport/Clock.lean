import BinaryReport.Binary64.Basic

/-!
# Virtual time

A clock holds the time in milliseconds and the pending timers in the order in which they were
created. Time does not pass by itself: `Clock.next?` jumps to the timer that is due first, and of
several due together to the one created first.

A delay outside the range of timers acts as one millisecond.
-/

namespace BinaryReport

/-- A pending timer. -/
structure Timer (α : Type) where
  /-- When it fires. -/
  due : Rat
  /-- What it is for. -/
  label : α

/-- A clock. -/
structure Clock (α : Type) where
  /-- The time in milliseconds. -/
  now : Rat
  /-- The pending timers in the order of their creation. -/
  timers : List (Timer α)

namespace Clock

variable {α : Type}

/-- The longest delay of a timer, in milliseconds. -/
def longestDelay : Nat := 2147483647

/-- The delay that a timer really has. -/
def effectiveDelay (delay : Binary64) : Rat :=
  if Binary64.le (.finite 1) delay && Binary64.le delay (.ofNat longestDelay) then delay.value
  else 1

/-- The clock at time zero without timers. -/
def start : Clock α := ⟨0, []⟩

/-- When a timer fires that is created at a time. -/
def dueAt (now : Rat) (delay : Binary64) : Rat := (Binary64.round (now + effectiveDelay delay)).value

/-- Creates a timer. -/
def schedule (c : Clock α) (delay : Binary64) (label : α) : Clock α :=
  { c with timers := c.timers ++ [⟨dueAt c.now delay, label⟩] }

/-- Removes the timers with a label. -/
def cancel [DecidableEq α] (c : Clock α) (label : α) : Clock α :=
  { c with timers := c.timers.filter fun t => t.label ≠ label }

/-- Takes the timer that is due first out of a list; of several the one that stands first. -/
def takeEarliest : List (Timer α) → Option (Timer α × List (Timer α))
  | [] => none
  | t :: rest =>
    match takeEarliest rest with
    | none => some (t, [])
    | some (u, others) => if u.due < t.due then some (u, t :: others) else some (t, rest)

/-- Fires the timer that is due first: its label and the clock at its time. -/
def next? (c : Clock α) : Option (α × Clock α) :=
  (takeEarliest c.timers).map fun (t, rest) => (t.label, ⟨t.due, rest⟩)

end Clock

end BinaryReport
