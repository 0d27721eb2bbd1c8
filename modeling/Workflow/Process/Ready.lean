import Workflow.Process.Dispatch

/-!
# Ready processes

Which tasks of a process can go on, as far as the store tells, what they have waited for, and at
what times the waits of the others are set to end.  Nothing here changes a process, and nothing is
remembered between two looks: whether a task can go on is a matter of the process and the store as
they are.
-/

namespace Workflow

/-- Whether a body can go on. -/
def Body.isReady (s : Store) (env : Env) : Body → Bool
  | .ask e _ => s.grants env e
  | _ => true

/-- Whether a task's own code can go on. -/
def Proc.isReady (s : Store) : Proc → Bool
  | .leaf env _ body => body.isReady s env
  | .within _ _ _ inner _ => inner.isReady s
  | .linear _ _ _ _ current _ => current.isReady s
  | .concurrent d children => d.isReady children

mutual

/-- Whether the task at the path `index :: path` below a process can go on. -/
def Proc.isReadyAt (s : Store) : Proc → Nat → List Nat → Bool
  | .leaf _ _ _, _, _ => false
  | .within _ _ _ inner _, index, path => inner.isReadyAt s index path
  | .linear _ _ _ _ current _, index, path => current.isReadyAt s index path
  | .concurrent _ children, index, path => isReadyAmong s children index path

/-- Whether the task at a path below one of the children can go on. -/
def isReadyAmong (s : Store) : List Child → Nat → List Nat → Bool
  | [], _, _ => false
  | c :: _, 0, path => c.isReadyAt s path
  | _ :: rest, index + 1, path => isReadyAmong s rest index path

/-- Whether the task at a path below a child can go on. -/
def Child.isReadyAt (s : Store) : Child → List Nat → Bool
  | .spawned _ _, [] => true
  | .running _ _ p, [] => p.isReady s
  | .running _ _ p, i :: path => p.isReadyAt s i path
  | _, _ => false

end

/-- The number of a child's task, if its own code can go on. -/
def Child.ready? (s : Store) : Child → Option Nat
  | .spawned task _ => some task
  | .running task _ p => if p.isReady s then some task else none
  | _ => none

/-- The signals that a task's own code listens for. -/
def Proc.signals : Proc → List Signal
  | .leaf env _ (.ask e _) => e.signals env
  | .leaf _ _ _ => []
  | .within _ _ _ inner _ => inner.signals
  | .linear _ _ _ _ current _ => current.signals
  | .concurrent _ _ => []

/-- The signals that a child's own code listens for. -/
def Child.signals : Child → List Signal
  | .running _ _ p => p.signals
  | _ => []

/-- A task below a process: its number, which it has to itself for ever, the path `index :: path` to
it, and the signals that it listens for. -/
structure TaskPath where
  task : Nat
  index : Nat
  path : List Nat
  signals : List Signal
deriving DecidableEq

/-- A task below the child `index`, seen from above it. -/
def TaskPath.below (t : TaskPath) (index : Nat) : TaskPath :=
  { t with index, path := t.index :: t.path }

mutual

/-- The tasks below a process that can go on, in the order of their paths. -/
def Proc.readyTasks (s : Store) : Proc → List TaskPath
  | .leaf _ _ _ => []
  | .within _ _ _ inner _ => inner.readyTasks s
  | .linear _ _ _ _ current _ => current.readyTasks s
  | .concurrent _ children => readyAmong s 0 children

/-- The tasks that can go on among the children of a run, the first of which has the index `first`,
and below them. -/
def readyAmong (s : Store) (first : Nat) : List Child → List TaskPath
  | [] => []
  | c :: rest =>
      (c.ready? s).toList.map (fun task => ⟨task, first, [], c.signals⟩) ++
        (c.readyBelow s).map (·.below first) ++ readyAmong s (first + 1) rest

/-- The tasks below a child that can go on. -/
def Child.readyBelow (s : Store) : Child → List TaskPath
  | .running _ _ p => p.readyTasks s
  | _ => []

end

mutual

/-- The times that the waits of a process and its tasks are set to end at. -/
def Proc.wakeTimes : Proc → List Nat
  | .leaf _ _ (.ask e _) => (Store.wakeTime? e).toList
  | .leaf _ _ _ => []
  | .within _ _ _ inner _ => inner.wakeTimes
  | .linear _ _ _ _ current _ => current.wakeTimes
  | .concurrent _ children => wakeTimesAmong children

/-- The times that the waits of children are set to end at. -/
def wakeTimesAmong : List Child → List Nat
  | [] => []
  | c :: rest => c.wakeTimes ++ wakeTimesAmong rest

/-- The times that the waits of a child are set to end at. -/
def Child.wakeTimes : Child → List Nat
  | .running _ _ p => p.wakeTimes
  | _ => []

end

mutual

/-- The tokens that the code of a process and its tasks refers to. -/
def Proc.tokens : Proc → List Token
  | .leaf env _ _ => [env.context.token]
  | .within env _ _ inner _ => env.context.token :: inner.tokens
  | .linear _ env _ _ current _ => env.context.token :: current.tokens
  | .concurrent d children => d.env.context.token :: tokensAmong children

/-- The tokens that the code of children refers to. -/
def tokensAmong : List Child → List Token
  | [] => []
  | c :: rest => c.tokens ++ tokensAmong rest

/-- The tokens that the code of a child refers to. -/
def Child.tokens : Child → List Token
  | .running _ _ p => p.tokens
  | _ => []

end

end Workflow
