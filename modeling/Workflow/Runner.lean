import Workflow.Action
import Workflow.Settings

/-!
# Making runners

A runner is made with all its children at once, or with some and then given the others one by one:
`Action.push` puts a child behind those that are there.

A throttled runner is made from a `Limit`, which is always good, or from a number of slots or from
settings, which are refused when they leave no slot.  No way of making one gives a runner without a
slot, since no `Limit` is zero.
-/

namespace Workflow.Action

/-- A runner with one more child, the last one.  Other actions have no children and stay as they
are. -/
def push (a child : Action) : Action :=
  match a with
  | linear children => linear (children ++ [child])
  | async children => async (children ++ [child])
  | throttled limit children => throttled limit (children ++ [child])
  | a => a

/-- A runner with more children, given one by one. -/
def pushAll (a : Action) (children : List Action) : Action :=
  children.foldl push a

/-- A throttled runner of `n` slots. -/
def throttledOf (n : Nat) (h : n < wordBound) (children : List Action) :
    Except LimitError Action :=
  (Limit.ofNat n h).map (throttled · children)

/-- A throttled runner with the slots that settings name. -/
def throttledBy (s : Settings) (children : List Action) : Except LimitError Action :=
  s.validate.map (throttled · children)

end Workflow.Action
