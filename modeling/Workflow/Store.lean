import Workflow.Action
import Workflow.Context
import Workflow.CallLog

/-!
# The store

What all actions of a program share: the ledger of contexts with the clock, the run states, the
cells, the logs and the trace.  The store is passive; it changes only by what bodies ask of it and
by what runners and timers do.

`Store.perform?` is the meaning of an effect.  It is asked with the surroundings of a body, its
`Env`, and either grants the effect, with a reply and the store afterwards, or makes the body wait.
Whether a wait is over depends on the store alone: nothing is remembered about who waits for what,
so no wake-up can be lost.
-/

namespace Workflow

/-- The surroundings of a body or a runner: its context, and the number of its run state. -/
structure Env where
  context : Context
  state : Nat

/-- What is noted in a trace: an event for observers, or a turn in the life of a run or of one of
its children, which is named by its index.  No observer is told of such turns. -/
inductive Mark where
  | event (e : Event)
  /-- The run of a runner began. -/
  | begun (runner : Action)
  /-- The run derived a context for its children. -/
  | derived (c : Context)
  /-- The child was given a task of its own. -/
  | spawned (index : Nat) (child : Action)
  /-- The child began to run. -/
  | started (index : Nat) (child : Action)
  /-- The child ran to its end. -/
  | ended (index : Nat) (e : Exit)
  /-- The child was given up before its end. -/
  | dropped (index : Nat)
  /-- The child was given up before it began to run. -/
  | discarded (index : Nat)
  /-- The run ended. -/
  | finished (e : Exit)

/-- A mark with its time and the number of the run it belongs to; events of cells belong to no
run. -/
structure Note where
  time : Nat
  run : Option Nat
  mark : Mark

/-- What somebody may have waited for. -/
inductive Signal where
  /-- The cell was settled, or its future was dropped. -/
  | cell (number : Nat)
  /-- The token was cancelled. -/
  | token (number : Nat)
deriving DecidableEq

/-- What all actions of a program share. -/
structure Store where
  contexts : Contexts := {}
  /-- The run states, by number. -/
  states : List RunState := []
  /-- The cells, by number. -/
  cells : List (Cell Datum) := []
  /-- The log, latest line last, each with the time it was written. -/
  log : Array (Nat × String) := #[]
  calls : CallLog := {}
  /-- What has happened in runs and to cells, latest last. -/
  trace : Array Note := #[]
  /-- What has happened that somebody may have waited for, latest last.  Whether a wait is over does
  not depend on it, only who is the first to notice. -/
  signals : Array Signal := #[]
  /-- The number of the next run of a runner. -/
  runs : Nat := 0
  /-- Whether the place where tasks run is closed: nothing gets a task of its own any more. -/
  closed : Bool := false

namespace Store

/-! ## The parts of a store -/

/-- The time. -/
def clock (s : Store) : Nat :=
  s.contexts.clock

/-- A run state; one that was never made is empty. -/
def stateOf (s : Store) (number : Nat) : RunState :=
  s.states.getD number .empty

/-- Makes a run state, and gives its number back. -/
def newState (s : Store) (m : RunState) : Nat × Store :=
  (s.states.length, { s with states := s.states ++ [m] })

/-- Makes a pending cell, and gives its number back. -/
def newCell (s : Store) : Nat × Store :=
  (s.cells.length, { s with cells := s.cells ++ [{}] })

/-- Writes a line to the log. -/
def writeLog (s : Store) (line : String) : Store :=
  { s with log := s.log.push (s.clock, line) }

/-- Notes a mark in the trace. -/
def note (s : Store) (run : Option Nat) (mark : Mark) : Store :=
  { s with trace := s.trace.push ⟨s.clock, run, mark⟩ }

/-- Reports an event of a run. -/
def report (s : Store) (run : Nat) (event : Event) : Store :=
  s.note (some run) (.event event)

/-- Notes a turn in the life of a child of a run. -/
def mark (s : Store) (run : Nat) (mark : Mark) : Store :=
  s.note (some run) mark

/-- The events of a trace, for observers. -/
def events (s : Store) : List Event :=
  s.trace.toList.filterMap fun n =>
    match n.mark with
    | .event e => some e
    | _ => none

/-- Takes a number for a run of a runner, which begins with that. -/
def newRun (s : Store) (runner : Action) : Nat × Store :=
  (s.runs, { s with runs := s.runs + 1 }.mark s.runs (.begun runner))

/-- The store with another ledger of contexts, in which more tokens may be cancelled. -/
def withContexts (s : Store) (contexts : Contexts) : Store :=
  let more := contexts.cancelled.take (contexts.cancelled.length - s.contexts.cancelled.length)
  { s with contexts, signals := s.signals ++ more.reverse.map Signal.token }

/-- Holds the context of a new task, and gives the number of the handle back. -/
def newTask (s : Store) (c : Context) : Nat × Store :=
  let (handle, contexts) := s.contexts.hold c
  (handle, { s with contexts })

/-- Lets go of the context that a task holds. -/
def endTask (s : Store) (task : Nat) : Store :=
  s.withContexts (s.contexts.release task)

/-- Cancels a context. -/
def cancel (s : Store) (c : Context) : Store :=
  s.withContexts (s.contexts.cancel c.token)

/-- Whether a context is cancelled. -/
def isCancelled (s : Store) (c : Context) : Bool :=
  s.contexts.isCancelled c

/-- Whether the token of a context is cancelled, which a wait for it depends on. -/
def isTokenCancelled (s : Store) (c : Context) : Bool :=
  s.contexts.isTokenCancelled c.token

/-! ## Cells -/

/-- Settles a cell through its future; answers whether it did, or nothing when the future is gone.
A cell that is settled reports it. -/
def settle (s : Store) (cell : Nat) (how : Settlement Datum) : Option Bool × Store :=
  match s.cells[cell]? with
  | none => (none, s)
  | some c =>
      if c.owned then
        let (did, c) := c.attempt how
        let s := { s with cells := s.cells.set cell c }
        (some did,
          if did then
            { s.note none (.event (.ofSettlement how)) with signals := s.signals.push (.cell cell) }
          else s)
      else (none, s)

/-- Drops the future of a cell. -/
def disown (s : Store) (cell : Nat) : Store :=
  { s with cells := s.cells.modify cell .disown, signals := s.signals.push (.cell cell) }

/-- What a wait for a cell gets, or nothing as long as it has to wait.  A cell that was never made
has no future. -/
def answer? (s : Store) (cell : Nat) (interrupted : Bool) : Option (Option Datum) :=
  match s.cells[cell]? with
  | some c => c.answer? interrupted
  | none => some none

/-! ## Contexts for actions that bodies run -/

/-- The surroundings in which a body runs another action, and the handle that holds the context made
for it. -/
def enter (s : Store) (env : Env) : Under → Env × Option Nat × Store
  | .same => (env, none, s)
  | .child =>
      let (c, contexts) := s.contexts.child env.context
      ({ env with context := c }, none, { s with contexts })
  | .timeout ms =>
      let (c, contexts) := s.contexts.withDeadline env.context (s.clock + ms)
      let (handle, contexts) := contexts.hold c
      ({ env with context := c }, some handle, { s with contexts })

/-- Lets go of the context made for an action that a body ran. -/
def leave (s : Store) : Option Nat → Store
  | none => s
  | some handle => s.withContexts (s.contexts.release handle)

/-! ## Guards -/

/-- Leaves a guard behind. -/
def raiseGuard (s : Store) : Guard → Store
  | .note _ => s
  | .inFlight => { s with calls := s.calls.enter }

/-- Lets a guard act. -/
def endGuard (s : Store) : Guard → Store
  | .note name => s.writeLog ("drop " ++ name)
  | .inFlight => { s with calls := s.calls.leave }

/-- Lets guards act in the order they were left behind. -/
def endGuards (s : Store) (gs : List Guard) : Store :=
  gs.foldl endGuard s

/-! ## Effects -/

/-- The meaning of an effect: the reply and the store afterwards, or nothing when the body has to
wait. -/
def perform? (s : Store) (env : Env) : (e : Effect) → Option (e.Reply × Store)
  | .clock => some (s.clock, s)
  | .deadline => some (env.context.deadline, s)
  | .isCancelled => some (s.isCancelled env.context, s)
  | .cancel => some ((), s.cancel env.context)
  | .log line => some ((), s.writeLog line)
  | .record name => some ((), { s with calls := s.calls.record name })
  | .state op =>
      let (reply, m) := (s.stateOf env.state).perform op
      some (reply, { s with states := s.states.set env.state m })
  | .settle cell how => some (s.settle cell how)
  | .sleepUntil time => if time ≤ s.clock then some ((), s) else none
  | .untilCancelled => if s.isTokenCancelled env.context then some ((), s) else none
  | .sleepUnlessCancelled time =>
      if time ≤ s.clock then some (true, s)
      else if s.isTokenCancelled env.context then some (false, s)
      else none
  | .await cell => (s.answer? cell (s.isTokenCancelled env.context)).map fun v => (v, s)

/-- Whether an effect would be granted. -/
def grants (s : Store) (env : Env) (e : Effect) : Bool :=
  (s.perform? env e).isSome

/-- The time at which a wait is over even if nothing else happens. -/
def wakeTime? : Effect → Option Nat
  | .sleepUntil time => some time
  | .sleepUnlessCancelled time => some time
  | _ => none

end Store

/-- The signals that a wait in the given surroundings listens for. -/
def Effect.signals (env : Env) : Effect → List Signal
  | .untilCancelled => [.token env.context.token.number]
  | .sleepUnlessCancelled _ => [.token env.context.token.number]
  | .await cell => [.cell cell, .token env.context.token.number]
  | _ => []

end Workflow
