import Workflow.Schedule

/-!
# Scenarios

A `Scenario` is an action with the circumstances it is run under: the caller's context and run
state, the cells made in advance, what happens from outside and when, how long a run is waited for,
and how often the action is run.  `Scenario.play` follows it to the end and gives an `Account` of
what could be seen.
-/

namespace Workflow

/-- What a run is given by its caller. -/
inductive Entry where
  /-- The caller's context and run state. -/
  | given
  /-- A new context and an empty run state. -/
  | alone
  /-- A new context and the caller's run state. -/
  | withState
deriving DecidableEq

/-- What happens from outside in a scenario. -/
inductive Happening where
  /-- The caller's context is cancelled. -/
  | cancel
  | settle (cell : Nat) (how : Settlement Datum)
  | disown (cell : Nat)

/-- An action with the circumstances it is run under.  Times are in milliseconds. -/
structure Scenario where
  action : Action
  entry : Entry := .given
  /-- The caller's run state at the start. -/
  state : List (String × Value) := []
  /-- How long the caller's context lasts. -/
  timeout : Option Nat := none
  /-- Whether the caller's context is cancelled before the first run. -/
  cancelled : Bool := false
  /-- The number of cells made in advance. -/
  cells : Nat := 0
  happenings : List (Nat × Happening) := []
  /-- How long the caller waits for a run before giving it up.  A caller who has not decided waits
  for an hour, and counts the run as stuck then. -/
  patience : Option Nat := none
  /-- How long the caller waits after the last run before looking at the outcome. -/
  linger : Nat := 0
  /-- How often the action is run. -/
  runs : Nat := 1
  /-- When the place where tasks run is closed, if it is. -/
  closing : Option Nat := none

/-- How a run turned out for the caller. -/
inductive Verdict where
  | ended (e : Exit)
  /-- The caller's patience was at an end. -/
  | abandoned
  /-- It was still waiting after an hour, and the caller had not said how long to wait. -/
  | stuck

/-- What could be seen of a scenario. -/
structure Account where
  verdicts : List Verdict
  /-- The time when the last run was over. -/
  time : Nat
  /-- The caller's run state. -/
  state : RunState
  /-- Whether the caller's context is cancelled. -/
  cancelled : Bool
  /-- Everything else. -/
  store : Store

namespace Scenario

/-- How long a run may wait before it counts as stuck, if the caller has not said how long to
wait. -/
def hour : Nat := 3600000

/-- How many turns a run may last. -/
def turns : Nat := 4294967296

/-- The caller's context, held, in a store where nothing has happened yet. -/
def opening (sc : Scenario) : Env × World :=
  let s : Store := { states := [.ofList sc.state], cells := List.replicate sc.cells {} }
  let (token, contexts) := s.contexts.newToken
  let (c, contexts) :=
    match sc.timeout with
    | some ms => contexts.withDeadline (Contexts.ofToken token) ms
    | none => (Contexts.ofToken token, contexts)
  let (_, contexts) := contexts.hold c
  let contexts := if sc.cancelled then contexts.cancel c.token else contexts
  let agenda := sc.happenings.zipIdx.map fun ((time, h), number) =>
    { number
      time
      deed := match h with
        | .cancel => .cancel c
        | .settle cell how => .settle cell how
        | .disown cell => .disown cell : Appointment }
  (⟨c, 0⟩, { store := { s with contexts }, agenda })

/-- The surroundings of one run. -/
def surroundings (sc : Scenario) (caller : Env) (s : Store) : Env × Store :=
  match sc.entry with
  | .given => (caller, s)
  | .alone =>
      let (token, contexts) := s.contexts.newToken
      let (state, s) := s.newState .empty
      (⟨Contexts.ofToken token, state⟩, { s with contexts })
  | .withState =>
      let (token, contexts) := s.contexts.newToken
      (⟨Contexts.ofToken token, caller.state⟩, { s with contexts })

/-- Begins a run: its own code is polled once. -/
def begin (sc : Scenario) (caller : Env) (w : World) : World :=
  let (env, store) := sc.surroundings caller w.store
  { w with store, root := .unstarted env sc.action }.pollRoot

/-- How a run that is not given up has turned out. -/
def verdict (w : World) (otherwise : Verdict) : Verdict :=
  match w.root with
  | .ended e => .ended e
  | _ => otherwise

/-- One run, to its end or until it is given up, and what is ready after it. -/
def runOnce (sc : Scenario) (caller : Env) (s : Schedule) : Verdict × Schedule :=
  let s := s.change (sc.begin caller)
  let (limit, otherwise) :=
    match sc.patience with
    | some ms => (ms, Verdict.abandoned)
    | none => (hour, .stuck)
  let s := s.follow (s.world.store.clock + limit) turns
  (verdict s.world otherwise, (s.change (·.abandon)).settle turns)

/-- One run, cut off from its tasks at the time `stop` if it is not over then.  A run that comes
after one that was cut off has no tasks to begin with. -/
def runUntilClosed (sc : Scenario) (caller : Env) (stop : Nat) (s : Schedule) :
    Verdict × Schedule :=
  let s := (s.change (sc.begin caller)).follow stop turns
  let s := if s.world.root.isOver then s else s.change (·.close.finishAlone turns)
  (verdict s.world .stuck, s)

/-- So many runs, one after another. -/
def runAll (run : Schedule → Verdict × Schedule) : Nat → Schedule → List Verdict × Schedule
  | 0, s => ([], s)
  | n + 1, s =>
      let (v, s) := run s
      let (vs, s) := runAll run n s
      (v :: vs, s)

/-- What can be seen of a world when the runs in it have turned out as given, the last one by
`time`. -/
def account (caller : Env) (verdicts : List Verdict) (time : Nat) (w : World) : Account where
  verdicts
  time
  state := w.store.stateOf caller.state
  cancelled := w.store.isTokenCancelled caller.context
  store := w.store

/-- Follows a scenario to its end.  What is set for the moment the caller looks has happened by
then. -/
def play (sc : Scenario) : Account :=
  let (caller, world) := sc.opening
  match sc.closing with
  | some stop =>
      let (vs, s) := runAll (sc.runUntilClosed caller stop) sc.runs { world }
      account caller vs s.world.store.clock s.world
  | none =>
      let (vs, s) := runAll (sc.runOnce caller) sc.runs { world }
      let time := s.world.store.clock
      account caller vs time ((s.idle (time + sc.linger) turns).settle turns).world

end Scenario

namespace Account

/-- The log in the order of time, lines of one time by their bytes. -/
def sortedLog (a : Account) : List (Nat × String) :=
  sortBy (fun x y => x.1 < y.1 || (x.1 == y.1 && textLE x.2 y.2)) a.store.log.toList

/-- The calls by their bytes. -/
def sortedCalls (a : Account) : List String :=
  sortBy textLE a.store.calls.calls.toList

end Account

end Workflow
