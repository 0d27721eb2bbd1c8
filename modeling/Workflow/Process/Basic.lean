import Workflow.Store

/-!
# Processes

What is left of an action while it runs.  A `Proc` is one task's own code where it stopped, together
with the tasks that this code has spawned and still answers for:

* a leaf is its guards and the rest of its body;
* a body that runs another action is the process of that action and what comes after it;
* a linear run is the process of the current child and the children after it;
* a concurrent run is a `Dispatch` and a list of `Child`ren, each a task of its own.

A task holds the context that it was spawned under, as long as it has not ended.  The number of the
handle is the number of the task, so tasks are numbered in the order in which they are spawned.  A
task is found by the path to it: the indices of the children on the way down.

A task whose owner was given up is an `Orphan`: its own code does nothing more, but waits for the
turn in which it is dropped.
-/

namespace Workflow

/-! ## Types -/

/-- The state of a concurrent run, its children apart. -/
structure Dispatch where
  /-- The number of the run. -/
  run : Nat
  /-- The surroundings of the children. -/
  env : Env
  /-- The free slots of a throttled run; a run without a limit has no gate. -/
  gate : Option Nat
  /-- The children that have not been admitted. -/
  queue : List Action
  /-- How many children's ends have been collected, the first ones in order. -/
  collected : Nat := 0
  /-- The first failure collected. -/
  failure : Option Failure := none

mutual

/-- What is left of an action while it runs. -/
inductive Proc where
  /-- A leaf: its guards, in the order they were left behind, and the rest of its body. -/
  | leaf (env : Env) (guards : List Guard) (body : Body)
  /-- A body that runs another action, with the handle of the context made for it. -/
  | within (env : Env) (guards : List Guard) (handle : Option Nat) (inner : Proc)
      (k : Option Failure → Body)
  /-- A linear run at the child `index`, called `name`. -/
  | linear (run : Nat) (env : Env) (index : Nat) (name : String) (current : Proc)
      (rest : List Action)
  /-- A concurrent run with the children spawned so far. -/
  | concurrent (d : Dispatch) (children : List Child)

/-- A child of a concurrent run. -/
inductive Child where
  /-- A task that has not run yet. -/
  | spawned (task : Nat) (action : Action)
  /-- A task that has started and not ended. -/
  | running (task : Nat) (name : String) (proc : Proc)
  /-- A task that ran to its end. -/
  | ended (name : String) (exit : Exit)
  /-- A task that was taken away before its end. -/
  | lost (name : String)

end

/-- Where code that was resumed stopped. -/
inductive Progress where
  | paused (p : Proc)
  | ended (e : Exit)

/-- Ends a run. -/
def finishRun (run : Nat) (e : Exit) (s : Store) : Store × Progress :=
  (s.mark run (.finished e), .ended e)

/-! ## Children -/

namespace Child

/-- The name of a child. -/
def name : Child → String
  | spawned _ a => a.name
  | running _ name _ => name
  | ended name _ => name
  | lost name => name

/-- The number of the task of a child, as long as it has not ended. -/
def task? : Child → Option Nat
  | spawned task _ => some task
  | running task _ _ => some task
  | _ => none

/-- Whether the task of a child has not ended. -/
def isLive (c : Child) : Bool :=
  c.task?.isSome

/-- Whether the body of a child has started and not ended. -/
def isRunning : Child → Bool
  | running _ _ _ => true
  | _ => false

/-- What the end of a child counts as, once it has ended: success, or a failure under its name.  A
request to skip the remainder counts as success. -/
def verdict? : Child → Option (Option Failure)
  | ended _ .done => some none
  | ended _ (.failed .skipRemainder) => some none
  | ended name (.failed f) => some (some (f.inAction name))
  | ended name (.panicked payload) =>
      some (some (.panicked name (payload.getD "non-string panic payload")))
  | lost name => some (some (.panicked name "task was cancelled"))
  | _ => none

end Child

/-- A task that nobody answers for any more, with the number of its run and its index there.  Until
it is dropped it still answers for the tasks below it, which go on. -/
structure Orphan where
  run : Nat
  index : Nat
  child : Child

end Workflow
