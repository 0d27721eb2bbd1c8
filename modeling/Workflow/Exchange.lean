import Workflow.Event
import Workflow.Usage

/-!
# How a cell is used

A cell is settled through its future and watched through its promises, and all that may go on at
once.  An `Exchange` is a cell with everything that is under way around it: the calls that are to
settle it, the promises that were handed out, the waits, and the contexts that may interrupt them.

`Exchange.Step` is all that can happen next.  A call takes effect, reports and returns in steps of
their own; so does a wait with each look that it takes (`Cell.waitStep`), and anything may come in
between.  A wait that sleeps can go on when it was told of a change of the cell or of the
cancellation of its token, and may also wake up for no reason.

The waits that block a thread and those that do not go the same way.
-/

namespace Workflow

variable {α : Type}

/-! ## Calls -/

/-- How far a call that is to settle a cell has come. -/
inductive CallPhase where
  | begun
  /-- It has taken effect, and knows whether it has settled the cell. -/
  | decided (did : Bool)
  /-- It has reported what it did, if anything. -/
  | reported (did : Bool)
  /-- It has returned with its answer. -/
  | returned (did : Bool)
deriving DecidableEq

/-- Whether the call has settled the cell, if it has taken effect. -/
def CallPhase.did? : CallPhase → Option Bool
  | begun => none
  | decided did | reported did | returned did => some did

/-- A call that is to settle a cell. -/
structure Call (α : Type) where
  how : Settlement α
  phase : CallPhase := .begun

/-! ## Views -/

/-- What a future or a promise shows of a cell. -/
structure Glimpse (α : Type) where
  isSet : Bool
  isCancelled : Bool
  value : Option α
deriving DecidableEq

/-- What is to be seen of a cell. -/
def Cell.glimpse (c : Cell α) : Glimpse α :=
  ⟨c.isSet, c.isCancelled, c.get⟩

/-- What is to be seen of a pending cell. -/
def Glimpse.pending : Glimpse α :=
  ⟨false, false, none⟩

/-- What is to be seen of a cell that was settled. -/
def Settlement.glimpse : Settlement α → Glimpse α
  | .value v => ⟨true, false, some v⟩
  | .cancelled => ⟨false, true, none⟩

/-- Through what a cell is seen: its future, or the promise that was handed out in that place. -/
inductive View where
  | future
  | promise (place : Nat)

/-! ## Waits -/

/-- A wait for a cell. -/
structure Wait (α : Type) where
  /-- The context that may interrupt it, with its handle. -/
  context : Option (Nat × Context)
  phase : WaitPhase α
  /-- It has been told of a change of the cell. -/
  notified : Bool := false
  /-- It has been told that the token of its context is cancelled. -/
  alerted : Bool := false
  /-- It was given up before it was over. -/
  abandoned : Bool := false

namespace Wait

/-- What a wait has got, if it is over. -/
def result? (w : Wait α) : Option (Option α) :=
  match w.phase with
  | .ended v => some v
  | _ => none

/-- Whether a wait is neither over nor given up. -/
def isActive (w : Wait α) : Bool :=
  !w.abandoned && w.result?.isNone

/-- Whether a wait sleeps. -/
def isAsleep (w : Wait α) : Bool :=
  match w.phase with
  | .asleep => true
  | _ => false

/-- Whether a wait is told of changes of the cell. -/
def isEnlisted (w : Wait α) : Bool :=
  match w.phase with
  | .listening | .asleep => true
  | _ => false

/-- Tells a wait of a change of the cell, if it is to be told. -/
def notify (w : Wait α) : Wait α :=
  { w with notified := w.notified || w.isEnlisted }

/-- Whether the token of the context that may interrupt a wait is cancelled; nothing without one. -/
def interrupted (w : Wait α) (s : Contexts) : Option Bool :=
  w.context.map fun c => s.isTokenCancelled c.2.token

/-- Tells a sleeping wait that the token of its context is cancelled, if it is. -/
def alert (s : Contexts) (w : Wait α) : Wait α :=
  { w with alerted := w.alerted || (w.isAsleep && w.interrupted s == some true) }

/-- Where a wait comes next.  One that wakes up looks at the cell if it was told of a change, and
otherwise at its context only. -/
def next (c : Cell α) (s : Contexts) (w : Wait α) : WaitPhase α :=
  match w.phase with
  | .asleep => if w.notified then .watching else if w.context.isSome then .listening else .asleep
  | p => c.waitStep (w.interrupted s) p

/-- The wait after what it does next.  Whatever woke it up has done its part. -/
def go (c : Cell α) (s : Contexts) (w : Wait α) : Wait α :=
  { w with
    phase := w.next c s
    notified := w.notified && !w.isAsleep
    alerted := w.alerted && !w.isAsleep }

/-- Whether a wait has something to do. -/
def isReady (w : Wait α) : Bool :=
  w.isActive && (!w.isAsleep || w.notified || w.alerted)

end Wait

/-! ## Exchanges -/

/-- A cell with all that is under way around it. -/
structure Exchange (α : Type) where
  cell : Cell α := {}
  calls : List (Call α) := []
  /-- The calls that have taken effect, by place, the first of them first. -/
  order : List Nat := []
  /-- What was reported, each with the call that did. -/
  events : List (Nat × Event) := []
  /-- The promises that were handed out, and whether they are still there. -/
  promises : List Bool := []
  waits : List (Wait α) := []
  contexts : Contexts := {}
  /-- What has happened to the contexts. -/
  log : List Occurrence := []

namespace Exchange

/-- What is seen through the future or a promise, if it is still there. -/
def look? (e : Exchange α) : View → Option (Glimpse α)
  | .future => if e.cell.owned then some e.cell.glimpse else none
  | .promise place => if e.promises[place]? = some true then some e.cell.glimpse else none

/-- The exchange after the future was dropped. -/
def dropFuture (e : Exchange α) : Exchange α :=
  { e with cell := e.cell.disown, waits := e.waits.map .notify }

/-- The exchange after the wait in a place did what it does next. -/
def goOn (e : Exchange α) (place : Nat) : Exchange α :=
  { e with waits := e.waits.modify place (.go e.cell e.contexts) }

/-- The exchange after the wait in a place was given up. -/
def abandon (e : Exchange α) (place : Nat) : Exchange α :=
  { e with waits := e.waits.modify place fun w => { w with abandoned := true } }

/-- What can happen next.  Calls go through the future, which is not dropped while one is under way;
a promise is taken from the future or another promise; and nobody lets go of a context that a wait
has borrowed. -/
inductive Step (e : Exchange α) : Exchange α → Prop where
  | call (how : Settlement α) (owned : e.cell.owned = true) :
      Step e { e with calls := e.calls ++ [{ how }] }
  | decide {i : Nat} {how : Settlement α} {did : Bool} {cell : Cell α}
      (call : e.calls[i]? = some ⟨how, .begun⟩) (result : e.cell.attempt how = (did, cell)) :
      Step e { e with
        cell
        calls := e.calls.set i ⟨how, .decided did⟩
        order := e.order ++ [i]
        waits := if did then e.waits.map .notify else e.waits }
  | report {i : Nat} {how : Settlement α} {did : Bool}
      (call : e.calls[i]? = some ⟨how, .decided did⟩) :
      Step e { e with
        calls := e.calls.set i ⟨how, .reported did⟩
        events := if did then e.events ++ [(i, .ofSettlement how)] else e.events }
  | answer {i : Nat} {how : Settlement α} {did : Bool}
      (call : e.calls[i]? = some ⟨how, .reported did⟩) :
      Step e { e with calls := e.calls.set i ⟨how, .returned did⟩ }
  | dropFuture (owned : e.cell.owned = true)
      (unused : ∀ call ∈ e.calls, ∃ did, call.phase = .returned did) : Step e e.dropFuture
  | promise {v : View} (there : (e.look? v).isSome = true) :
      Step e { e with promises := e.promises ++ [true] }
  | forget (i : Nat) : Step e { e with promises := e.promises.set i false }
  | wait {v : View} (there : (e.look? v).isSome = true) :
      Step e { e with waits := e.waits ++ [{ context := none, phase := .watching }] }
  | waitWithin {v : View} {handle : Nat} {c : Context} (there : (e.look? v).isSome = true)
      (held : e.contexts.find? handle = some c) :
      Step e { e with waits := e.waits ++ [{ context := some (handle, c), phase := .begun }] }
  | goOn {i : Nat} {w : Wait α} (wait : e.waits[i]? = some w) (active : w.isActive = true) :
      Step e (e.goOn i)
  | abandon {i : Nat} {w : Wait α} (wait : e.waits[i]? = some w)
      (active : w.isActive = true) : Step e (e.abandon i)
  | contexts {new : List Occurrence} {s : Contexts} (step : e.contexts.Step e.log new s)
      (borrowed : ∀ w ∈ e.waits, w.isActive = true → ∀ handle c, w.context = some (handle, c) →
        s.find? handle = some c) :
      Step e { e with contexts := s, log := e.log ++ new, waits := e.waits.map (.alert s) }

/-- What an exchange can become. -/
def Leads : Exchange α → Exchange α → Prop :=
  Relation.ReflTransGen Step

/-- The exchange around a new cell, in any ledger of contexts. -/
def Opens (e : Exchange α) : Prop :=
  ∃ log contexts, contexts.History log ∧ e = { contexts, log }

/-- Nothing is under way that could go on by itself: no call, no wait and no timer. -/
structure IsQuiet (e : Exchange α) : Prop where
  calls : ∀ call ∈ e.calls, ∃ did, call.phase = .returned did
  waits : ∀ w ∈ e.waits, w.isReady = false
  timers : e.contexts.TimersQuiet

/-- The call that has settled the cell did it so. -/
def Won (e : Exchange α) (how : Settlement α) : Prop :=
  ∃ place call, e.order.head? = some place ∧ e.calls[place]? = some call ∧ call.how = how

end Exchange

end Workflow
