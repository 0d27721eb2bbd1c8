import Workflow.Failure
import Workflow.Settings
import Workflow.RunState
import Workflow.Cell
import Workflow.Event

/-!
# Actions

An `Action` is one unit of work, and a composition of actions is an action again:

* a leaf has a `Body`, the work itself;
* `linear` runs its children one after another, `async` all at once, and `throttled` so that no more
  than a given number are running;
* `named` gives an action another name, and `boxed` stands for one held behind a pointer.

A `Body` is a tree of what a leaf may do next.  It asks for an `Effect` and goes on with the reply;
it gives way to others; it leaves a `Guard` behind that acts when the body ends, however it ends; it
runs another action under its own context; or it is finished.  The body never sees the rest of the
program but through the replies, so every deterministic piece of work on the effects below is a
`Body`, and a statement about all bodies is one about all leaves.
-/

namespace Workflow

open Text

/-! ## How a run ends -/

/-- How a body, or the run of an action, ends. -/
inductive Exit where
  /-- It succeeded. -/
  | done
  /-- It gave a failure back. -/
  | failed (f : Failure)
  /-- It was broken off by a panic, whose payload may have been a text. -/
  | panicked (payload : Option String)

/-- The exit of an action that gave a result back: success, or a failure. -/
def Exit.ofResult : Option Failure → Exit
  | none => .done
  | some f => .failed f

/-! ## What a leaf can do -/

/-- One thing that a leaf asks of its surroundings.  The waits among them are granted when their
time has come; all others at once. -/
inductive Effect where
  /-- What is the time? -/
  | clock
  /-- What is the deadline of the context? -/
  | deadline
  /-- Is the context cancelled? -/
  | isCancelled
  /-- Cancel the context. -/
  | cancel
  /-- Write a line to the log. -/
  | log (line : String)
  /-- Note a call. -/
  | record (name : String)
  /-- Access the run state. -/
  | state (op : StateOp)
  /-- Settle a cell; answered by whether it did, or nothing when the future is gone. -/
  | settle (cell : Nat) (how : Settlement Datum)
  /-- Wait for a time. -/
  | sleepUntil (time : Nat)
  /-- Wait until the context is cancelled. -/
  | untilCancelled
  /-- Wait for a time or until the context is cancelled; answered by whether it is the time. -/
  | sleepUnlessCancelled (time : Nat)
  /-- Wait for the value of a cell or until the context is cancelled. -/
  | await (cell : Nat)

/-- What an effect is answered with. -/
abbrev Effect.Reply : Effect → Type
  | clock => Nat
  | deadline => Option Nat
  | isCancelled => Bool
  | cancel => Unit
  | log _ => Unit
  | record _ => Unit
  | state _ => StateReply
  | settle _ _ => Option Bool
  | sleepUntil _ => Unit
  | untilCancelled => Unit
  | sleepUnlessCancelled _ => Bool
  | await _ => Option Datum

/-- What acts when a body ends, be it by a return, a panic or because its task was given up. -/
inductive Guard where
  /-- Writes to the log that `name` was dropped. -/
  | note (name : String)
  /-- Counts the body as in flight until it ends. -/
  | inFlight
deriving DecidableEq

/-- Under which context a body runs another action. -/
inductive Under where
  /-- Its own. -/
  | same
  /-- One that follows its own. -/
  | child
  /-- One that follows its own for so many milliseconds at most. -/
  | timeout (ms : Nat)
deriving DecidableEq

/-- What kind of a leaf an action is. -/
inductive LeafKind where
  /-- A function of the context and the run state. -/
  | function
  /-- A function of the context alone.  State operations in its body act on an empty state of its
  own. -/
  | contextFunction
  /-- A ready-made action that shows nothing of itself. -/
  | readyMade
deriving DecidableEq

mutual

/-- One unit of work. -/
inductive Action where
  /-- The work itself. -/
  | leaf (kind : LeafKind) (name : String) (body : Body)
  /-- One child after another, on the context and state of the caller. -/
  | linear (children : List Action)
  /-- All children at once. -/
  | async (children : List Action)
  /-- The children in order, at most so many at once. -/
  | throttled (limit : Limit) (children : List Action)
  /-- An action under another name. -/
  | named (name : String) (inner : Action)
  /-- An action behind a pointer. -/
  | boxed (inner : Action)

/-- What a leaf does from some point on. -/
inductive Body where
  /-- Nothing more. -/
  | finish (e : Exit)
  /-- Asks for an effect, and goes on with the reply. -/
  | ask (e : Effect) (k : e.Reply → Body)
  /-- Lets others run first. -/
  | giveWay (k : Body)
  /-- Leaves a guard behind. -/
  | guard (g : Guard) (k : Body)
  /-- Runs another action, and goes on with its result; a panic ends the body too. -/
  | run (inner : Action) (under : Under) (k : Option Failure → Body)

end

instance : Inhabited Action := ⟨.linear []⟩

namespace Action

/-! ## What an action shows -/

/-- The name of an action, used in failures and events. -/
def name : Action → String
  | leaf _ name _ => name
  | linear _ => "linear"
  | async _ => "async"
  | throttled _ _ => "throttled-async"
  | named name _ => name
  | boxed inner => inner.name

/-- The children of a runner. -/
def children? : Action → Option (List Action)
  | linear cs => some cs
  | async cs => some cs
  | throttled _ cs => some cs
  | _ => none

/-- The limit of a throttled runner. -/
def limit? : Action → Option Limit
  | throttled limit _ => some limit
  | _ => none

/-- A runner shown by the names of its children, a function by its own; other actions show
nothing. -/
def describe? : Action → Option String
  | leaf .readyMade _ _ => none
  | leaf _ name _ => some ("FnAction \x7b name: " ++ quoted name ++ " \x7d")
  | linear cs => some ("Linear \x7b actions: " ++ quotedList (cs.map name) ++ " \x7d")
  | async cs => some ("Async \x7b actions: " ++ quotedList (cs.map name) ++ " \x7d")
  | throttled limit cs =>
      some ("ThrottledAsync \x7b limit: " ++ decimal limit.value ++ ", actions: " ++
        quotedList (cs.map name) ++ " \x7d")
  | _ => none

/-- An action without the names given to it. -/
def unnamed : Action → Action
  | named _ inner => inner.unnamed
  | a => a

end Action

/-! ## Making actions -/

namespace Body

/-- Succeeds. -/
def succeed : Body := .finish .done

/-- Gives a failure back. -/
def fail (f : Failure) : Body := .finish (.failed f)

/-- Waits for so many milliseconds. -/
def sleep (ms : Nat) (k : Body) : Body :=
  .ask .clock fun now => .ask (.sleepUntil (now + ms)) fun _ => k

end Body

/-- What a recording action does after it has made its note. -/
inductive Outcome where
  | succeed
  | fail (text : String)
  | skip
deriving DecidableEq

/-- An action that notes its name in the log of calls. -/
structure Recording where
  name : String
  outcome : Outcome := .succeed
  /-- Whether it does nothing when the context is cancelled by the time its work would start. -/
  honorsCancel : Bool := false
  /-- How long it waits before its work starts. -/
  delay : Option Nat := none

namespace Recording

/-- The exit of a recording action. -/
def exit (r : Recording) : Exit :=
  match r.outcome with
  | .succeed => .done
  | .fail text => .failed (.plain text)
  | .skip => .failed .skipRemainder

/-- The work of a recording action once its delay is over. -/
def work (r : Recording) : Body :=
  let note := Body.ask (.record r.name) fun _ => .finish r.exit
  if r.honorsCancel then
    .ask .isCancelled fun cancelled => if cancelled then .succeed else note
  else note

/-- The body of a recording action.  It counts as in flight from its start to its end. -/
def body (r : Recording) : Body :=
  .guard .inFlight <|
    match r.delay with
    | some ms => .sleep ms r.work
    | none => r.work

/-- A recording action. -/
def action (r : Recording) : Action :=
  .leaf .readyMade r.name r.body

end Recording

/-- An action that waits for so many milliseconds, and gives up when the context is cancelled
first. -/
def Action.sleeping (ms : Nat) : Action :=
  .leaf .readyMade "sleep" <|
    .ask .clock fun now => .ask (.sleepUnlessCancelled (now + ms)) fun
      | true => .succeed
      | false => .fail .cancelled

/-- An action of the given body, named as functions without a name are. -/
def Action.function (kind : LeafKind) (name : Option String) (body : Body) : Action :=
  .leaf kind (name.getD "fn-action") body

end Workflow
