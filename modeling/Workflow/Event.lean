import Workflow.Cell

/-!
# Events

What runners and cells report about their work, for an observer.  Each event has a level, a name and
fields; none of them has any influence on a run.
-/

namespace Workflow

/-- What a runner or a cell reports. -/
inductive Event where
  /-- A linear run begins. -/
  | linearStart (children : Nat)
  /-- A linear run stops early at the request of a child. -/
  | linearSkip (index : Nat) (action : String)
  /-- A linear run stops at the failure of a child. -/
  | linearFailed (index : Nat) (action error : String)
  /-- An unlimited concurrent run begins. -/
  | asyncDispatch (children : Nat)
  /-- A throttled run begins. -/
  | throttledDispatch (limit children : Nat)
  /-- A throttled run admits a child. -/
  | throttledAdmit (index : Nat) (action : String)
  /-- A child of a throttled run asks to skip the remainder. -/
  | throttledSkip (index : Nat) (action : String)
  /-- A concurrent run has collected a failure. -/
  | childFailed (runner action error : String)
  /-- A cell has got its value. -/
  | futureSettled
  /-- A cell was cancelled. -/
  | futureCanceled
deriving DecidableEq

namespace Event

/-- What a cell reports when it is settled. -/
def ofSettlement {α : Type} : Settlement α → Event
  | .value _ => futureSettled
  | .cancelled => futureCanceled

/-- How much an event matters. -/
def level : Event → String
  | linearFailed .. | childFailed .. => "WARN"
  | throttledAdmit .. | futureSettled | futureCanceled => "TRACE"
  | _ => "DEBUG"

/-- The name of an event. -/
def name : Event → String
  | linearStart .. => "conflux.linear.start"
  | linearSkip .. => "conflux.linear.skip"
  | linearFailed .. => "conflux.linear.failed"
  | asyncDispatch .. => "conflux.async.dispatch"
  | throttledDispatch .. => "conflux.throttled.dispatch"
  | throttledAdmit .. => "conflux.throttled.admit"
  | throttledSkip .. => "conflux.throttled.skip"
  | childFailed .. => "conflux.child.failed"
  | futureSettled => "conflux.future.settled"
  | futureCanceled => "conflux.future.canceled"

/-- The fields of an event with their names. -/
def fields : Event → List (String × Json)
  | linearStart n => [("children", .ofNat n)]
  | linearSkip i a => [("index", .ofNat i), ("action", .string a)]
  | linearFailed i a e => [("index", .ofNat i), ("action", .string a), ("error", .string e)]
  | asyncDispatch n => [("children", .ofNat n)]
  | throttledDispatch l n => [("limit", .ofNat l), ("children", .ofNat n)]
  | throttledAdmit i a => [("index", .ofNat i), ("action", .string a)]
  | throttledSkip i a => [("index", .ofNat i), ("action", .string a)]
  | childFailed r a e => [("runner", .string r), ("action", .string a), ("error", .string e)]
  | futureSettled => []
  | futureCanceled => []

end Event

end Workflow
