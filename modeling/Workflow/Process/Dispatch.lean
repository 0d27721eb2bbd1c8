import Workflow.Process.Basic

/-!
# Dispatch

How a concurrent run deals with its children.  The gate of a throttled run is a count of free slots.
The dispatcher takes a slot before it spawns a child (`Dispatch.admitAll`); the child gives it back
when it has ended, whichever way, after a request to skip the remainder has cancelled the scope that
the children share (`Dispatch.childEnded`).  When all children are admitted their ends are collected
in order, however the ends themselves were ordered in time (`Dispatch.collect`).

Where the place where tasks run is closed a run breaks off with the first child that would need one
(`Dispatch.refused?`).
-/

namespace Workflow

/-- The greatest number of slots that a gate can be made with: it counts them in 64 bits, three of
which it needs for itself. -/
def maxSlots : Nat := UInt64.size / 8 - 1

/-- The panic of a gate that is asked for more slots than it can have. -/
def slotsPanic : String :=
  "a semaphore may not have more than MAX_PERMITS permits (" ++ Text.decimal maxSlots ++ ")"

/-- The panic of a run that is to spawn a child when the place where tasks run is closed. -/
def closedPanic : String :=
  "there is no reactor running, must be called from the context of a Tokio 1.x runtime"

namespace Dispatch

/-- What a concurrent run is called in its events. -/
def runner (d : Dispatch) : String :=
  if d.gate.isSome then "throttled" else "async"

/-- Admits children from the queue, one slot each, until the queue is empty or no slot is free. -/
def admitAll (d : Dispatch) : List Action → List Child → Store → Dispatch × List Child × Store
  | [], children, s => ({ d with queue := [] }, children, s)
  | a :: rest, children, s =>
      match d.gate with
      | some (free + 1) =>
          let s := s.report d.run (.throttledAdmit children.length a.name)
          let (task, s) := s.newTask d.env.context
          admitAll { d with gate := some free } rest (children ++ [.spawned task a])
            (s.mark d.run (.spawned children.length a))
      | _ => ({ d with queue := a :: rest }, children, s)

/-- Collects the ends of children in order, up to the first one that has not ended, and says whether
there is none such.  Each failure is reported; the first is kept. -/
def collect (d : Dispatch) : List Child → Store → Dispatch × Store × Bool
  | [], s => (d, s, true)
  | c :: rest, s =>
      match c.verdict? with
      | none => (d, s, false)
      | some none => collect { d with collected := d.collected + 1 } rest s
      | some (some f) =>
          collect
            { d with collected := d.collected + 1, failure := d.failure <|> some f } rest
            (s.report d.run (.childFailed d.runner c.name f.message))

/-- The child that is to be admitted next, if it cannot be given a task. -/
def refused? (d : Dispatch) (s : Store) : Option Action :=
  match s.closed, d.queue, d.gate with
  | true, a :: _, some (_ + 1) => some a
  | _, _, _ => none

/-- Nobody is refused as long as the place where tasks run is open. -/
theorem refused?_eq_none (d : Dispatch) {s : Store} (h : s.closed = false) :
    d.refused? s = none := by
  simp [refused?, h]

/-- Goes on with a concurrent run: admits what can be admitted, and when all are admitted, collects
what has ended.  A child that is admitted and cannot be given a task breaks the run off. -/
def advance (d : Dispatch) (children : List Child) (s : Store) : Store × Progress :=
  match d.refused? s with
  | some a =>
      finishRun d.run (.panicked (some closedPanic))
        (s.report d.run (.throttledAdmit children.length a.name))
  | none =>
      let (d, children, s) := d.admitAll d.queue children s
      if d.queue.isEmpty then
        let (d, s, complete) := d.collect (children.drop d.collected) s
        if complete then finishRun d.run (.ofResult d.failure) s
        else (s, .paused (.concurrent d children))
      else (s, .paused (.concurrent d children))

/-- The children of a run without a limit, all spawned at once. -/
def spawnAll (d : Dispatch) (first : Nat) : List Action → Store → List Child × Store
  | [], s => ([], s)
  | a :: rest, s =>
      let (task, s) := s.newTask d.env.context
      let (children, s) := spawnAll d (first + 1) rest (s.mark d.run (.spawned first a))
      (.spawned task a :: children, s)

/-- Takes notice that the child `index` has ended.  In a throttled run a request to skip the
remainder cancels the scope of the children, and then the slot becomes free. -/
def childEnded (d : Dispatch) (index : Nat) (name : String) (exit : Exit) (s : Store) :
    Dispatch × Store :=
  let s := s.mark d.run (.ended index exit)
  match d.gate with
  | none => (d, s)
  | some free =>
      let s :=
        match exit with
        | .failed .skipRemainder =>
            (s.report d.run (.throttledSkip index name)).cancel d.env.context
        | _ => s
      ({ d with gate := some (free + 1) }, s)

/-- Whether a concurrent run can go on: there is a child to admit and a free slot, or the next end
to collect is there. -/
def isReady (d : Dispatch) (children : List Child) : Bool :=
  if d.queue.isEmpty then
    match children[d.collected]? with
    | some c => !c.isLive
    | none => true
  else
    match d.gate with
    | some (_ + 1) => true
    | _ => false

end Dispatch

end Workflow
