import Workflow.World
import Workflow.Lineage

/-!
# Schedules

One way to take the turns of a world, out of the many that `World.Step` allows: whoever becomes
ready joins the end of a queue, and the one at its head has the next turn.

A `Party` is whoever can be in the queue.  Of those who become ready in one turn orphans come first.
The others follow in the order of the signals that they have waited for, and a cancellation reaches
one token after another (`Lineage.reached`).  Those who have waited for the same come in the order
of their last turns, which is the order in which they began to wait, and behind them those that have
had none.  The very last is the task that answers for the one whose turn it was: the end of that one
is what it waited for.

A party is known in the queue by its number, and what it does is found when its turn comes.  So a
task that has become an orphan meanwhile is dropped in the place that it had, and the tasks below it
that are ahead in the queue still have their turns.

The root's own code is not in the queue.  It goes on when the queue is empty, and it is the first to
go on when time has moved.  Tasks that give way are called back when the queue is empty, the last of
them first.  When nobody is left time moves.

A run is followed until it is over or until a time is reached.  Whoever follows it is woken at that
time before the tasks that are set for the same time, looks once more whether the run can end by its
own code, and then decides.  Whoever only lets time go on looks when all of them have had their
turns.

The functions take a number of turns that they may last.
-/

namespace Workflow

/-- Whoever has turns, the root apart. -/
inductive Party where
  /-- A task, or the orphan that it has become, by its number. -/
  | task (number : Nat)
  /-- A timer, by the number of its token. -/
  | timer (number : Nat)
  /-- An appointment, by its number. -/
  | appointment (number : Nat)
deriving DecidableEq

/-- Somebody who has something to do, and may have to join the queue. -/
structure Candidate where
  party : Party
  /-- The signals that it may have waited for. -/
  signals : List Signal
  /-- Whether it answers for the one whose turn it was. -/
  isOwner : Bool

/-- A world, and the order in which turns are taken in it. -/
structure Schedule where
  world : World
  /-- Those who are ready, in the order in which they became so. -/
  queue : List Party := []
  /-- Those who gave way, the last of them first. -/
  aside : List Party := []
  /-- Those who have had turns, in the order of their last ones. -/
  line : List Party := []
  /-- The number of signals that have been noticed. -/
  heard : Nat := 0
  /-- The tokens that were in use then. -/
  lineage : Lineage := {}
  /-- The number of the first token that has come since. -/
  fresh : Nat := 0

/-- The turn of the task that answers for the one whose turn it is. -/
def Turn.owner? : Turn → Option Turn
  | .task _ [] => none
  | .task index path => some (.task index path.dropLast)
  | .orphanTask _ _ [] => none
  | .orphanTask place index path => some (.orphanTask place index path.dropLast)
  | _ => none

namespace World

/-- Takes a turn, if it can be taken. -/
def takeIfReady (w : World) (t : Turn) : World :=
  if w.isReady t then w.take t else w

/-- The turn that a party can take. -/
def turn? (w : World) : Party → Option Turn
  | .task number =>
      match w.orphans.findIdx? fun o => o.child.task? == some number with
      | some place => some (.orphan place)
      | none => (w.readyTasks.find? fun t => t.1.task == number).map (·.2)
  | .timer number =>
      (w.store.contexts.timers.find? fun t =>
        t.token.number == number && w.store.contexts.isDue t).map .timer
  | .appointment number =>
      (w.agenda.findIdx? fun a => a.number == number && a.time ≤ w.store.clock).map .appointment

/-- The orphans. -/
def orphanParties (w : World) : List Party :=
  w.orphans.filterMap fun o => o.child.task?.map .task

end World

namespace Schedule

/-! ## The queue -/

/-- Those who have something to do, orphans apart.  Timers and appointments that are new have to
take their places in the line. -/
def candidates (s : Schedule) (owner : Option Turn) : List Candidate :=
  let contexts := s.world.store.contexts
  let isNew := fun p => !s.line.contains p
  let timers := contexts.timers.filterMap fun t =>
    let p := .timer t.token.number
    if contexts.isDue t || isNew p then some ⟨p, [.token t.token.number], false⟩ else none
  let appointments := s.world.agenda.filterMap fun a =>
    let p := .appointment a.number
    if a.time ≤ contexts.clock || isNew p then some ⟨p, [], false⟩ else none
  timers ++ appointments ++ s.world.readyTasks.map fun (t, turn) =>
    ⟨.task t.task, t.signals, owner == some turn⟩

/-- The signals that have not been noticed, each token that is reached having its own. -/
def news (s : Schedule) : List Signal :=
  let signals := s.world.store.signals
  (signals.extract s.heard signals.size).toList.flatMap fun
    | .token number => (s.lineage.reached number).map .token
    | signal => [signal]

/-- Candidates in the order in which they join the queue. -/
def inOrder (s : Schedule) : List Candidate → List Party
  | [] => []
  | [c] => [c.party]
  | cs =>
      let news := s.news
      let ranked := cs.map fun c =>
        let cause := if c.isOwner then news.length + 1 else news.findIdx c.signals.contains
        (cause, s.line.idxOf c.party, c.party)
      (sortBy (fun x y => x.1 < y.1 || x.1 == y.1 && x.2.1 ≤ y.2.1) ranked).map (·.2.2)

/-- Puts those into the queue who have become ready, the one with the turn `owner` last. -/
def notice (s : Schedule) (owner : Option Turn) : Schedule :=
  let contexts := s.world.store.contexts
  let candidates := (s.candidates owner).filter fun c =>
    !s.queue.contains c.party && !s.aside.contains c.party
  { s with
    queue := s.queue ++ s.world.orphanParties.filter (!s.queue.contains ·) ++ s.inOrder candidates
    heard := s.world.store.signals.size
    lineage := s.lineage.update contexts.cancelled s.world.tokens s.fresh
    fresh := contexts.supply }

/-- The schedule with its world changed. -/
def change (s : Schedule) (f : World → World) : Schedule :=
  { s with world := f s.world }.notice none

/-! ## Turns -/

/-- Polls the root's own code, if it can go on. -/
def pollRoot (s : Schedule) : Schedule :=
  s.change (·.takeIfReady .root)

/-- Gives a party its turn, if it can still take one.  If it could go on at once it gave way. -/
def serve (s : Schedule) (p : Party) : Schedule :=
  let s := { s with line := s.line.erase p ++ [p] }
  match s.world.turn? p with
  | none => s
  | some t =>
      let world := s.world.take t
      let aside := if (world.turn? p).isSome then p :: s.aside else s.aside
      { s with world, aside }.notice t.owner?

/-- Lets the next one go on: the head of the queue, or, when it is empty, the root's own code; those
who gave way are called back then. -/
def next (s : Schedule) : Schedule :=
  match s.queue with
  | p :: queue => { s with queue }.serve p
  | [] => { s with queue := s.aside, aside := [] }.pollRoot

/-- Whether nobody can go on before time moves. -/
def isQuiet (s : Schedule) : Bool :=
  s.queue.isEmpty && s.world.isQuiet

/-- Lets those go on who can before time moves. -/
def settle : Nat → Schedule → Schedule
  | 0, s => s
  | n + 1, s => if s.isQuiet then s else settle n s.next

/-! ## Time -/

/-- Moves the clock to the next time that something is set for, but not past `stop`. -/
def tick (s : Schedule) (stop : Nat) : Schedule :=
  let time :=
    match s.world.nextTime? with
    | some time => min time stop
    | none => stop
  (s.change (·.advance time)).pollRoot

/-- Follows the run until it is over or the time `stop` is reached. -/
def follow (stop : Nat) : Nat → Schedule → Schedule
  | 0, s => s
  | n + 1, s =>
      if s.world.root.isOver || stop ≤ s.world.store.clock then s
      else if s.isQuiet then follow stop n (s.tick stop)
      else follow stop n s.next

/-- Lets time go on until `stop` is reached, whether the run is over or not. -/
def idle (stop : Nat) : Nat → Schedule → Schedule
  | 0, s => s
  | n + 1, s =>
      if stop ≤ s.world.store.clock then s
      else if s.isQuiet then idle stop n (s.tick stop)
      else idle stop n s.next

end Schedule

/-- Polls the root's own code to its end while nothing else goes on. -/
def World.finishAlone : Nat → World → World
  | 0, w => w
  | n + 1, w => if w.isReady .root then finishAlone n w.pollRoot else w

end Workflow
