import Workflow.Store

/-!
# Workbenches

A `Workbench` holds contexts, tokens, cells and run states under names, for someone who tries them
out by hand.  Whenever it is left alone everything that can go on does so (`Workbench.settle`):
timers that are due, and the waiters.

A *waiter* waits for a cell on behalf of somebody else, and holds the context that may interrupt it
for itself.  A waiter that is a task gives its context back as soon as its wait is over, one that is
a thread when its outcome is collected.  Dropping the name of a task ends its wait.  A thread whose
name is dropped before its wait is over goes on waiting out of sight, and gives its context back
when the wait is over.

Letting time pass goes from one timer to the next, until something is so or it was long enough
(`Workbench.waitFor`).  Of two things set for the same time the one who waits is the first to
notice.
-/

namespace Workflow

/-- Someone who waits for a cell on behalf of somebody else. -/
structure Waiter where
  cell : Nat
  /-- The handle of the context that may interrupt the wait, as long as it is held. -/
  context : Option Nat
  /-- Whether this is a thread, not a task. -/
  isThread : Bool
  /-- What the wait got, once it is over. -/
  outcome : Option (Option Datum) := none

/-- What a name on a workbench stands for. -/
inductive Object where
  | context (handle : Nat)
  | token (t : Token)
  | future (cell : Nat)
  | promise (cell : Nat)
  | state (number : Nat)
  | waiter (w : Waiter)

/-- Objects under names, with the store they live in. -/
structure Workbench where
  store : Store := {}
  objects : List (String × Object) := []
  /-- The threads whose names were dropped while they were waiting. -/
  strays : List Waiter := []

namespace Workbench

/-! ## Names -/

/-- The object of a name. -/
def find? (b : Workbench) (id : String) : Option Object :=
  (b.objects.find? fun o => o.1 == id).map (·.2)

/-- The context of a name. -/
def context? (b : Workbench) (id : String) : Option Context :=
  match b.find? id with
  | some (.context handle) => b.store.contexts.find? handle
  | _ => none

/-- The token of a name. -/
def token? (b : Workbench) (id : String) : Option Token :=
  match b.find? id with
  | some (.token t) => some t
  | _ => none

/-- The cell that a future or a promise belongs to. -/
def cell? (b : Workbench) (id : String) : Option Nat :=
  match b.find? id with
  | some (.future cell) => some cell
  | some (.promise cell) => some cell
  | _ => none

/-- The number of a run state. -/
def state? (b : Workbench) (id : String) : Option Nat :=
  match b.find? id with
  | some (.state number) => some number
  | _ => none

/-- The workbench with another ledger of contexts. -/
def withContexts (b : Workbench) (contexts : Contexts) : Workbench :=
  { b with store := { b.store with contexts } }

/-- Lets go of the context that a waiter holds. -/
def letGo (b : Workbench) (w : Waiter) : Workbench :=
  match w.context with
  | some handle => b.withContexts (b.store.contexts.release handle)
  | none => b

/-- What goes with an object that is dropped. -/
def dispose (b : Workbench) : Object → Workbench
  | .context handle => b.withContexts (b.store.contexts.release handle)
  | .future cell => { b with store := b.store.disown cell }
  | .waiter w =>
      if w.isThread && w.outcome.isNone then { b with strays := b.strays ++ [w] } else b.letGo w
  | _ => b

/-- Takes a name away and drops its object. -/
def remove (b : Workbench) (id : String) : Workbench :=
  match b.find? id with
  | some o => { b with objects := b.objects.filter fun p => p.1 != id }.dispose o
  | none => b

/-- Gives an object a name; an object that had it before is dropped. -/
def put (b : Workbench) (id : String) (o : Object) : Workbench :=
  let b := b.remove id
  { b with objects := b.objects ++ [(id, o)] }

/-- Holds a context and gives it a name. -/
def putContext (b : Workbench) (id : String) (c : Context) : Workbench :=
  let (handle, contexts) := b.store.contexts.hold c
  (b.withContexts contexts).put id (.context handle)

/-! ## Whatever goes on by itself -/

/-- Whether the context of a wait interrupts it. -/
def isInterrupted (b : Workbench) (c : Option Context) : Bool :=
  c.any b.store.isTokenCancelled

/-- What a waiter gets, or nothing as long as it has to wait. -/
def outcome? (b : Workbench) (w : Waiter) : Option (Option Datum) :=
  match w.outcome with
  | some v => some v
  | none => b.store.answer? w.cell (b.isInterrupted (w.context.bind b.store.contexts.find?))

/-- Whether a waiter has something to do. -/
def isReady (b : Workbench) (w : Waiter) : Bool :=
  w.outcome.isNone && (b.outcome? w).isSome

/-- Ends the wait of a waiter that has something to do. -/
def wake (b : Workbench) (id : String) (w : Waiter) : Workbench :=
  if b.isReady w then
    let w' := { w with outcome := b.outcome? w, context := if w.isThread then w.context else none }
    let b := { b with
      objects := b.objects.map fun o => if o.1 == id then (id, .waiter w') else o }
    if w.isThread then b else b.letGo w
  else b

/-- Ends the wait of a stray that has something to do. -/
def wakeStray (b : Workbench) (w : Waiter) : Workbench :=
  if b.isReady w then b.letGo w else { b with strays := b.strays ++ [w] }

/-- Whether nothing has anything to do. -/
def isQuiet (b : Workbench) : Bool :=
  !b.store.contexts.timers.any b.store.contexts.isDue &&
    !(b.objects.any fun
      | (_, .waiter w) => b.isReady w
      | _ => false) &&
    !b.strays.any b.isReady

/-- Runs the timers that are due and the waiters that have something to do. -/
def round (b : Workbench) : Workbench :=
  let b := b.withContexts b.store.contexts.fireDue
  let b := b.objects.foldl (fun (b : Workbench) o =>
    match o with
    | (id, .waiter w) => b.wake id w
    | _ => b) b
  b.strays.foldl wakeStray { b with strays := [] }

/-- Runs rounds until nothing has anything to do, so many at most. -/
def settleIn : Nat → Workbench → Workbench
  | 0, b => b
  | n + 1, b => if b.isQuiet then b else settleIn n b.round

/-- Runs whatever can go on.  Each round ends a timer or a wait, so there are no more rounds than
those. -/
def settle (b : Workbench) : Workbench :=
  b.settleIn (b.store.contexts.timers.length + b.objects.length + b.strays.length)

/-- Moves the clock. -/
def advance (b : Workbench) (time : Nat) : Workbench :=
  b.withContexts (b.store.contexts.advance time)

/-- Lets time pass until something holds, or until the time `stop`. -/
def waitIn (stop : Nat) (met : Workbench → Bool) : Nat → Workbench → Workbench
  | 0, b => b
  | n + 1, b =>
      if met b then b
      else
        match ((b.store.contexts.timers.map (·.deadline)).filter (b.store.clock < ·)).min? with
        | some time =>
            if time < stop then waitIn stop met n (b.advance time).settle else b.advance stop
        | none => b.advance stop

/-- Lets time pass until something holds, or for so many milliseconds.  On the way every timer is
passed once at most. -/
def waitFor (b : Workbench) (ms : Nat) (met : Workbench → Bool) : Workbench :=
  waitIn (b.store.clock + ms) met (b.store.contexts.timers.length + 1) b

end Workbench

end Workflow
