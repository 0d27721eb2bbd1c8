/-!
# Logs of calls

A record of which actions ran, in order, and of how many were running at once.  An action that takes
part is *in flight* from `enter` until it `leave`s.

The counts are integers, not naturals: that no count falls below zero is something to be proved.

Entering takes two steps that others may come between: the count goes up by one, and then the
greatest count seen so far is raised to what the count had become.  `enter` is the two in a row.

All clones of a log are the same log, and actions on many threads enter it, leave it and note their
calls at once.  An `Attendance` is a log with everybody who has ever entered it.  An
`Attendance.Step` is one atomic thing that somebody does to the log.  Who enters takes two of them,
and anything may come in between: the first counts the visit, and from then on it is in flight; the
second raises the greatest count to what the first had found, and only then there is a guard, which
can be dropped.  A guard may be dropped at any time, since it goes with the action that holds it,
whether that returns, panics or is given up.
-/

namespace Workflow

/-- A record of calls and of actions in flight. -/
structure CallLog where
  /-- The names of the calls, latest last. -/
  calls : Array String := #[]
  inFlight : Int := 0
  maxInFlight : Int := 0

namespace CallLog

/-- Notes a call. -/
def record (l : CallLog) (name : String) : CallLog :=
  { l with calls := l.calls.push name }

/-- The first step of entering: one more is in flight.  Gives back how many there are now. -/
def countUp (l : CallLog) : Int × CallLog :=
  (l.inFlight + 1, { l with inFlight := l.inFlight + 1 })

/-- The second step of entering: `n` actions were seen in flight. -/
def raise (l : CallLog) (n : Int) : CallLog :=
  { l with maxInFlight := max l.maxInFlight n }

/-- Enters, with nobody in between. -/
def enter (l : CallLog) : CallLog :=
  let (n, l) := l.countUp
  l.raise n

/-- Leaves: one fewer is in flight. -/
def leave (l : CallLog) : CallLog :=
  { l with inFlight := l.inFlight - 1 }

end CallLog

/-! ## Many threads at one log -/

/-- How far somebody who enters a log has come. -/
inductive Visit where
  /-- Counted as one of so many, which the greatest count was not raised to yet. -/
  | entering (seen : Int)
  /-- Entered: there is a guard. -/
  | inside
  /-- The guard was dropped. -/
  | left
deriving DecidableEq

namespace Visit

/-- Whether a visit is in flight: counted, and its guard was not dropped. -/
def isInFlight : Visit → Bool
  | left => false
  | _ => true

/-- Whether a visit is between the two steps of entering. -/
def isEntering : Visit → Bool
  | entering _ => true
  | _ => false

end Visit

/-- A log of calls with all visits to it, in the order in which they were counted. -/
structure Attendance where
  log : CallLog := {}
  visits : List Visit := []

namespace Attendance

/-- One atomic thing that is done to a log. -/
inductive Step where
  /-- Somebody makes the first step of entering. -/
  | countUp
  /-- The visit in this place makes the second one. -/
  | raise (place : Nat)
  /-- The guard of the visit in this place is dropped. -/
  | leave (place : Nat)
  /-- Somebody notes a call. -/
  | record (name : String)
deriving DecidableEq

/-- The call that a step notes. -/
def Step.noted? : Step → Option String
  | record name => some name
  | _ => none

/-- How many visits are in flight. -/
def present (a : Attendance) : Nat :=
  a.visits.countP Visit.isInFlight

/-- What a step makes of an attendance, or nothing when nobody can take it. -/
def perform? (a : Attendance) : Step → Option Attendance
  | .countUp => some ⟨a.log.countUp.2, a.visits ++ [.entering a.log.countUp.1]⟩
  | .raise place =>
      match a.visits[place]? with
      | some (.entering seen) => some ⟨a.log.raise seen, a.visits.set place .inside⟩
      | _ => none
  | .leave place =>
      match a.visits[place]? with
      | some .inside => some ⟨a.log.leave, a.visits.set place .left⟩
      | _ => none
  | .record name => some { a with log := a.log.record name }

/-- What steps make of a new log, one after another. -/
def after? (steps : List Step) : Option Attendance :=
  steps.foldlM perform? {}

end Attendance

end Workflow
