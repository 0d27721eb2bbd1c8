import Workflow.Workbench.Basic

/-!
# Commands for a workbench

A `Command` does one thing to the objects of a `Workbench`: it makes an object, asks one, changes
one, or waits.  `Workbench.carryOut` says what it answers and what it leaves, with nobody in
between; `Workbench.execute?` lets everything go on afterwards that can.  A command that names an
object that is not there, or one of the wrong sort, is refused as a whole.
-/

namespace Workflow

/-- Something to do on a workbench.  A first name is that of the object to be made; other names are
those of existing ones. -/
inductive Command where
  | newContext (id : String)
  | cloneContext (id of : String)
  | childContext (id of : String)
  | contextFor (id of : String) (ms : Nat)
  | contextUntil (id of : String) (time : Nat)
  | tokenOf (id of : String)
  | contextOfToken (id of : String)
  | newToken (id : String)
  | childToken (id of : String)
  | cancel (h : String)
  | isCancelled (h : String)
  | deadline (h : String)
  /-- Waits until a context or a token is cancelled, for so many milliseconds at most. -/
  | awaitCancelled (h : String) (ms : Nat)
  | sleep (ms : Nat)
  /-- How many tasks have not ended? -/
  | tasks
  | drop (h : String)
  | newFuture (id : String)
  | promiseOf (id of : String)
  | clonePromise (id of : String)
  | set (h : String) (v : Datum)
  | query (h : String)
  /-- Waits for a cell, unless that would take forever. -/
  | wait (h : String) (context : Option String)
  /-- Waits for a cell, for so many milliseconds at most. -/
  | await (h : String) (context : Option String) (ms : Nat)
  /-- Has someone else wait for a cell. -/
  | spawn (id h : String) (context : Option String) (asThread : Bool)
  /-- Collects the outcome of a waiter, and lets it go. -/
  | poll (h : String)
  | newState (id : String)
  | cloneState (id of : String)
  /-- Are two names for one run state? -/
  | sameState (h other : String)
  | snapshot (h : String)
  | access (h : String) (op : StateOp)

/-- What a command answers. -/
inductive Answer where
  | nothing
  | flag (b : Bool)
  | count (n : Nat)
  | time (t : Option Nat)
  /-- Whether a context is cancelled, and whether its token is. -/
  | cancelledBoth (context token : Bool)
  | fired
  | timeout
  | wouldBlock
  | pending
  | value (v : Option Datum)
  /-- What can be seen of a cell. -/
  | view (isSet isCancelled : Bool) (value : Option Datum) (shown : String)
  | snapshot (items : List (String × Value))
  | reply (r : StateReply)

namespace Workbench

/-! ## Contexts and tokens -/

/-- Gives a name to a context that was derived from the one called `of`. -/
def derive (b : Workbench) (id of : String) (f : Contexts → Context → Context × Contexts) :
    Option Workbench := do
  let (c, contexts) := f b.store.contexts (← b.context? of)
  return (b.withContexts contexts).putContext id c

/-- Makes a token and gives it a name. -/
def putNewToken (b : Workbench) (id : String) : Workbench :=
  let (t, contexts) := b.store.contexts.newToken
  (b.withContexts contexts).put id (.token t)

/-- Makes a context of its own and gives it a name. -/
def putNewContext (b : Workbench) (id : String) : Workbench :=
  let (t, contexts) := b.store.contexts.newToken
  (b.withContexts contexts).putContext id (Contexts.ofToken t)

/-- Gives a name to a token that follows the one called `of`. -/
def putChildToken (b : Workbench) (id of : String) : Option Workbench := do
  let (t, contexts) := b.store.contexts.childToken (← b.token? of)
  return (b.withContexts contexts).put id (.token t)

/-- Settles a cell through its future. -/
def settleCell (b : Workbench) (cell : Nat) (how : Settlement Datum) : Answer × Workbench :=
  let (did, store) := b.store.settle cell how
  (.flag (did.getD false), { b with store })

/-- Cancels a context, a token or a future. -/
def cancel (b : Workbench) (h : String) : Option (Answer × Workbench) :=
  match b.find? h with
  | some (.context handle) => do
      let c ← b.store.contexts.find? handle
      return (.nothing, b.withContexts (b.store.contexts.cancel c.token))
  | some (.token t) => some (.nothing, b.withContexts (b.store.contexts.cancel t))
  | some (.future cell) => some (b.settleCell cell .cancelled)
  | _ => none

/-- Whether a context, with its token, or a token is cancelled. -/
def isCancelled (b : Workbench) (h : String) : Option Answer :=
  match b.find? h with
  | some (.context handle) => do
      let c ← b.store.contexts.find? handle
      return .cancelledBoth (b.store.isCancelled c) (b.store.isTokenCancelled c)
  | some (.token t) => some (.flag (b.store.contexts.isTokenCancelled t))
  | _ => none

/-- Waits until a context or a token is cancelled, for so many milliseconds at most. -/
def awaitCancelled (b : Workbench) (h : String) (ms : Nat) : Option (Answer × Workbench) := do
  let t ← (b.context? h).map (·.token) <|> b.token? h
  let met (b : Workbench) : Bool := b.store.contexts.isTokenCancelled t
  let b := b.waitFor ms met
  return (if met b then .fired else .timeout, b)

/-- How many tasks have not ended: timers, and waiters that are tasks. -/
def tasks (b : Workbench) : Nat :=
  let waiting := b.objects.countP fun
    | (_, .waiter w) => !w.isThread && w.outcome.isNone
    | _ => false
  b.store.contexts.timers.length + waiting

/-! ## Cells -/

/-- What can be seen of a cell through a future or a promise. -/
def query (b : Workbench) (h : String) : Option Answer := do
  let cell ← b.cell? h
  let c ← b.store.cells[cell]?
  let side := match b.find? h with
    | some (.future _) => "Future"
    | _ => "Promise"
  return .view c.isSet c.isCancelled c.get (c.describe side Datum.describe)

/-- The context that may interrupt a wait, if one is named; nothing if the name stands for none. -/
def interrupter? (b : Workbench) : Option String → Option (Option Context)
  | none => some none
  | some id => (b.context? id).map some

/-- What a wait gets now, if it gets anything. -/
def waitNow (b : Workbench) (h : String) (context : Option String) : Option Answer := do
  let cell ← b.cell? h
  let interrupter ← b.interrupter? context
  return match b.store.answer? cell (b.isInterrupted interrupter) with
    | some v => .value v
    | none => .wouldBlock

/-- Waits for a cell, for so many milliseconds at most. -/
def await (b : Workbench) (h : String) (context : Option String) (ms : Nat) :
    Option (Answer × Workbench) := do
  let cell ← b.cell? h
  let interrupter ← b.interrupter? context
  let result (b : Workbench) := b.store.answer? cell (b.isInterrupted interrupter)
  let b := b.waitFor ms fun b => (result b).isSome
  return match result b with
    | some v => (.value v, b)
    | none => (.timeout, b)

/-- Has someone else wait for a cell, who holds the context for itself. -/
def spawn (b : Workbench) (id h : String) (context : Option String) (asThread : Bool) :
    Option Workbench := do
  let cell ← b.cell? h
  match ← b.interrupter? context with
  | some c =>
      let (handle, contexts) := b.store.contexts.hold c
      return (b.withContexts contexts).put id (.waiter ⟨cell, some handle, asThread, none⟩)
  | none => return b.put id (.waiter ⟨cell, none, asThread, none⟩)

/-- Collects the outcome of a waiter, and lets it go when there is one. -/
def poll (b : Workbench) (h : String) : Option (Answer × Workbench) :=
  match b.find? h with
  | some (.waiter w) =>
      match w.outcome with
      | some v => some (.value v, b.remove h)
      | none => some (.pending, b)
  | _ => none

/-! ## Run states -/

/-- Accesses a run state. -/
def access (b : Workbench) (h : String) (op : StateOp) : Option (Answer × Workbench) := do
  let number ← b.state? h
  let (r, m) := (b.store.stateOf number).perform op
  return (.reply r, { b with store := { b.store with states := b.store.states.set number m } })

/-! ## All commands -/

/-- What a command answers and what it leaves, before anything else goes on; nothing if a name
stands for no fitting object. -/
def carryOut (b : Workbench) : Command → Option (Answer × Workbench)
  | .newContext id => some (.nothing, b.putNewContext id)
  | .cloneContext id of => (b.derive id of fun s c => (c, s)).map (.nothing, ·)
  | .childContext id of => (b.derive id of Contexts.child).map (.nothing, ·)
  | .contextFor id of ms =>
      (b.derive id of fun s c => s.withDeadline c (s.clock + ms)).map (.nothing, ·)
  | .contextUntil id of time =>
      (b.derive id of fun s c => s.withDeadline c time).map (.nothing, ·)
  | .tokenOf id of => (b.context? of).map fun c => (.nothing, b.put id (.token c.token))
  | .contextOfToken id of =>
      (b.token? of).map fun t => (.nothing, b.putContext id (Contexts.ofToken t))
  | .newToken id => some (.nothing, b.putNewToken id)
  | .childToken id of => (b.putChildToken id of).map (.nothing, ·)
  | .cancel h => b.cancel h
  | .isCancelled h => (b.isCancelled h).map (·, b)
  | .deadline h => (b.context? h).map fun c => (.time c.deadline, b)
  | .awaitCancelled h ms => b.awaitCancelled h ms
  | .sleep ms => some (.nothing, b.waitFor ms fun _ => false)
  | .tasks => some (.count b.tasks, b)
  | .drop h => some (.flag (b.find? h).isSome, b.remove h)
  | .newFuture id =>
      let (cell, store) := b.store.newCell
      some (.nothing, { b with store }.put id (.future cell))
  | .promiseOf id of => (b.cell? of).map fun cell => (.nothing, b.put id (.promise cell))
  | .clonePromise id of => (b.cell? of).map fun cell => (.nothing, b.put id (.promise cell))
  | .set h v =>
      match b.find? h with
      | some (.future cell) => some (b.settleCell cell (.value v))
      | _ => none
  | .query h => (b.query h).map (·, b)
  | .wait h context => (b.waitNow h context).map (·, b)
  | .await h context ms => b.await h context ms
  | .spawn id h context asThread => (b.spawn id h context asThread).map (.nothing, ·)
  | .poll h => b.poll h
  | .newState id =>
      let (number, store) := b.store.newState .empty
      some (.nothing, { b with store }.put id (.state number))
  | .cloneState id of => (b.state? of).map fun number => (.nothing, b.put id (.state number))
  | .sameState h other => do return (.flag ((← b.state? h) == (← b.state? other)), b)
  | .snapshot h => (b.state? h).map fun number => (.snapshot (b.store.stateOf number).toList, b)
  | .access h op => b.access h op

/-- What a command answers, and the workbench after it and after everything that could go on then;
nothing if a name stands for no fitting object. -/
def execute? (b : Workbench) (c : Command) : Option (Answer × Workbench) :=
  (b.carryOut c).map fun (a, b) => (a, b.settle)

/-- Carries out commands one after another, and gives each answer with the time when it was
given. -/
def executeAll? (b : Workbench) : List Command → Option (List (Answer × Nat))
  | [] => some []
  | c :: cs => do
      let (a, b) ← b.execute? c
      let rest ← executeAll? b cs
      return ((a, b.store.clock) :: rest)

end Workbench

end Workflow
