import Workflow.Process.Run
import Workflow.Process.Ready
import Workflow.Process.Drop

/-!
# Worlds

A `World` is everything that goes on at once: the store, the run of one action (the *root*), the
orphans that dropped runs have left, and the agenda of what happens from outside at given times.

Whatever can go on is a `Turn`: the root's own code, one of its tasks, an orphan that waits to be
dropped, a task below such an orphan, a timer, an appointment of the agenda.  `World.isReady` says
which turns can be taken, and `World.take` takes one.  Time stands still while any turn is ready,
and then moves straight to the next time that something is set for.  `World.Step` is the relation of
all this: a world steps to what any ready turn makes of it, in no particular order, or to a later
time.  A statement about all worlds reachable by steps is one about every order in which the tasks
can be polled.
-/

namespace Workflow

/-- The run of one action. -/
inductive Root where
  /-- It was not polled yet. -/
  | unstarted (env : Env) (action : Action)
  /-- It has started and not ended. -/
  | running (p : Proc)
  | ended (e : Exit)
  /-- It was given up before its end. -/
  | dropped

/-- What can happen from outside. -/
inductive Deed where
  | cancel (c : Context)
  | settle (cell : Nat) (how : Settlement Datum)
  | disown (cell : Nat)

/-- A deed at a given time, with a number to tell it from others. -/
structure Appointment where
  number : Nat
  time : Nat
  deed : Deed

/-- Everything that goes on at once. -/
structure World where
  store : Store := {}
  root : Root := .dropped
  orphans : List Orphan := []
  agenda : List Appointment := []

/-- What can go on in a world. -/
inductive Turn where
  /-- The root's own code. -/
  | root
  /-- The task at the path `index :: path` below the root. -/
  | task (index : Nat) (path : List Nat)
  /-- The orphan at a place in the list. -/
  | orphan (place : Nat)
  /-- The task at the path `index :: path` below the orphan at a place in the list. -/
  | orphanTask (place index : Nat) (path : List Nat)
  /-- A timer. -/
  | timer (t : Timer)
  /-- The appointment at a place in the agenda. -/
  | appointment (place : Nat)
deriving DecidableEq

namespace Root

/-- Whether a run is over. -/
def isOver : Root → Bool
  | ended _ => true
  | dropped => true
  | _ => false

/-- A run after its own code was resumed. -/
def ofProgress : Progress → Root
  | .paused p => running p
  | .ended e => ended e

end Root

/-- What a deed does to the store. -/
def Store.suffer (s : Store) : Deed → Store
  | .cancel c => s.cancel c
  | .settle cell how => (s.settle cell how).2
  | .disown cell => s.disown cell

namespace World

/-! ## Turns -/

/-- Whether a turn can be taken. -/
def isReady (w : World) : Turn → Bool
  | .root =>
      match w.root with
      | .unstarted _ _ => true
      | .running p => p.isReady w.store
      | _ => false
  | .task index path =>
      match w.root with
      | .running p => p.isReadyAt w.store index path
      | _ => false
  | .orphan place => (w.orphans[place]?).isSome
  | .orphanTask place index path =>
      match w.orphans[place]? with
      | some o => o.child.isReadyAt w.store (index :: path)
      | none => false
  | .timer t => w.store.contexts.timers.contains t && w.store.contexts.isDue t
  | .appointment place =>
      match w.agenda[place]? with
      | some a => a.time ≤ w.store.clock
      | none => false

/-- Polls the root's own code. -/
def pollRoot (w : World) : World :=
  match w.root with
  | .unstarted env a =>
      let (store, progress) := a.start env w.store
      { w with store, root := .ofProgress progress }
  | .running p =>
      let (store, progress) := p.resume w.store
      { w with store, root := .ofProgress progress }
  | _ => w

/-- Takes a turn. -/
def take (w : World) : Turn → World
  | .root => w.pollRoot
  | .task index path =>
      match w.root with
      | .running p =>
          let (store, p) := p.resumeAt w.store index path
          { w with store, root := .running p }
      | _ => w
  | .orphan place =>
      match w.orphans[place]? with
      | some o =>
          let (store, orphans) := o.drop w.store
          { w with store, orphans := w.orphans.eraseIdx place ++ orphans }
      | none => w
  | .orphanTask place index path =>
      match w.orphans[place]? with
      | some o =>
          let (store, o) := o.resumeAt w.store index path
          { w with store, orphans := w.orphans.set place o }
      | none => w
  | .timer t => { w with store := w.store.withContexts (w.store.contexts.fire t) }
  | .appointment place =>
      match w.agenda[place]? with
      | some a => { w with store := w.store.suffer a.deed, agenda := w.agenda.eraseIdx place }
      | none => w

/-- The tasks that can go on, those of the root first and then those below each orphan, in the order
of their paths, with their turns. -/
def readyTasks (w : World) : List (TaskPath × Turn) :=
  (match w.root with
    | .running p => (p.readyTasks w.store).map fun t => (t, .task t.index t.path)
    | _ => []) ++
    w.orphans.zipIdx.flatMap fun (o, place) =>
      (o.child.readyBelow w.store).map fun t => (t, .orphanTask place t.index t.path)

/-- The tokens that are in use, some of them more than once. -/
def tokens (w : World) : List Token :=
  (match w.root with
    | .unstarted env _ => [env.context.token]
    | .running p => p.tokens
    | _ => []) ++
    w.orphans.flatMap (fun o => o.child.tokens) ++
    w.store.contexts.held.map (·.2.token) ++ w.store.contexts.timers.map (·.token)

/-- The turns that can be taken. -/
def readyTurns (w : World) : List Turn :=
  (if w.isReady .root then [.root] else []) ++
    w.readyTasks.map (·.2) ++
    (List.range w.orphans.length).map .orphan ++
    (w.store.contexts.timers.filter w.store.contexts.isDue).map .timer ++
    ((List.range w.agenda.length).filter fun i => w.isReady (.appointment i)).map .appointment

/-- Whether nothing can go on before time moves. -/
def isQuiet (w : World) : Bool :=
  w.readyTurns.isEmpty

/-! ## Time -/

/-- The times that something is set for. -/
def times (w : World) : List Nat :=
  (match w.root with
    | .running p => p.wakeTimes
    | _ => []) ++
    w.store.contexts.timers.map (·.deadline) ++ w.agenda.map (·.time)

/-- The next time that something is set for. -/
def nextTime? (w : World) : Option Nat :=
  (w.times.filter (w.store.clock < ·)).min?

/-- Moves the clock. -/
def advance (w : World) (clock : Nat) : World :=
  { w with store := { w.store with contexts := w.store.contexts.advance clock } }

/-! ## Giving up -/

/-- Gives the run up: its own code is dropped at once, and the tasks that it has spawned become
orphans. -/
def abandon (w : World) : World :=
  match w.root with
  | .running p =>
      let (store, orphans) := p.drop w.store
      { w with store, root := .dropped, orphans := w.orphans ++ orphans }
  | .unstarted _ _ => { w with root := .dropped }
  | _ => w

/-- Closes the place where tasks run: the tasks of the run are taken away, and nothing gets one any
more. -/
def close (w : World) : World :=
  match w.root with
  | .running p =>
      let (store, p) := p.loseTasks w.store
      { w with store := { store with closed := true }, root := .running p }
  | _ => { w with store := { w.store with closed := true } }

/-! ## Steps -/

/-- One step of a world: any ready turn, or time when none is ready.  What does not depend on when
time goes on is proved of `World.Leads` and `World.Drifts`, where it may at any moment. -/
inductive Step : World → World → Prop where
  | turn {w : World} (t : Turn) (ready : w.isReady t = true) : Step w (w.take t)
  | tick {w : World} {time : Nat} (quiet : ∀ t, w.isReady t = false)
      (next : w.nextTime? = some time) : Step w (w.advance time)

/-- The worlds that steps lead to. -/
inductive Reachable (start : World) : World → Prop where
  | refl : Reachable start start
  | step {w v : World} (h : Reachable start w) (s : Step w v) : Reachable start v

end World

end Workflow
