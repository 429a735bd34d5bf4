/-!
# Timers

A timer goes off when its time has come, unless it is cancelled before.
-/

namespace Ldap

/-- Who makes timers go off. -/
inductive Scheduler where
  /-- Whoever moves the clock. -/
  | manual
  /-- The runtime, when its clock moves. -/
  | runtime
  /-- Timers go off while they are armed. -/
  | immediate
  deriving DecidableEq, Repr

/-- A scheduler for a reader's eye. -/
def Scheduler.name : Scheduler → String
  | manual | immediate => "Manual"
  | runtime => "TokioScheduler"

/-- What became of a timer. -/
inductive TimerState where
  | armed
  | cancelled
  | fired
  deriving DecidableEq, Repr

/-- The name of a state. -/
def TimerState.name : TimerState → String
  | armed => "armed"
  | cancelled => "cancelled"
  | fired => "fired"

/-- A timer. Times are in milliseconds. -/
structure Timer where
  delay : Nat
  deadline : Nat
  state : TimerState
  deriving DecidableEq, Repr

namespace Timer

/-- Cancels a timer that is armed. -/
def cancel (t : Timer) : Timer :=
  if t.state = .armed then { t with state := .cancelled } else t

/-- Marks a timer as gone off. -/
def fire (t : Timer) : Timer :=
  { t with state := .fired }

/-- Whether a timer has to go off. -/
def isDue (t : Timer) (now : Nat) : Bool :=
  t.state = .armed && t.deadline ≤ now

end Timer

/-- What a scheduler gives back for a timer: a way to cancel it, unless there is nothing to
cancel. -/
structure TimerHandle where
  armed : Bool
  deriving DecidableEq, Repr

namespace TimerHandle

/-- Cancels the timer. Tells whether there was something to cancel. -/
def cancel (h : TimerHandle) : Bool := h.armed

/-- A handle for a reader's eye. -/
def describe (h : TimerHandle) : String :=
  "TimerHandle \x7b armed: " ++ toString h.armed ++ " \x7d"

end TimerHandle

end Ldap
