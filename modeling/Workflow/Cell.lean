import Workflow.Text.Quoted
import Workflow.Json.Basic

/-!
# Single-assignment cells

A cell starts `pending` and is settled at most once, with a value or by being cancelled.  It has two
sides.  The *future* is the one handle that can settle it; once it is dropped, nobody can.  A
*promise* reads and waits; there may be any number of them, and all see the same cell.

* `Cell.set` and `Cell.cancel` settle a pending cell and leave a settled one alone; they answer
  whether this call settled it;
* `Cell.waitStep` is what a wait does next.  It looks at the cell, and at what may interrupt it, one
  after the other, and other things may come in between;
* `Cell.answer?` is what a wait gets when nothing comes in between, or nothing as long as it has to
  wait.
-/

namespace Workflow

open Text

/-- What has become of a cell. -/
inductive Slot (α : Type) where
  | pending
  | set (v : α)
  | cancelled
deriving DecidableEq

/-- How a cell is to be settled. -/
inductive Settlement (α : Type) where
  | value (v : α)
  | cancelled

/-- How far a wait for a cell has come. -/
inductive WaitPhase (α : Type) where
  /-- It takes a first look at the cell, before anything can interrupt it. -/
  | begun
  /-- It looks at the cell. -/
  | watching
  /-- It has seen the cell pending, and asks to be told of changes. -/
  | enlisting
  /-- It will be told of changes, and looks whether it is interrupted. -/
  | listening
  /-- It goes on when it is told of a change or of an interruption. -/
  | asleep
  /-- It takes what is there. -/
  | reading
  /-- It is over, and this is what it got. -/
  | ended (v : Option α)
deriving DecidableEq

/-- A single-assignment cell. -/
structure Cell (α : Type) where
  slot : Slot α := .pending
  /-- Whether the future is still there to settle the cell. -/
  owned : Bool := true
deriving DecidableEq

namespace Cell

variable {α : Type}

instance : Inhabited (Cell α) := ⟨⟨.pending, true⟩⟩

/-- Whether the cell has a value. -/
def isSet (c : Cell α) : Bool :=
  match c.slot with
  | .set _ => true
  | _ => false

/-- Whether the cell was cancelled before it got a value. -/
def isCancelled (c : Cell α) : Bool :=
  match c.slot with
  | .cancelled => true
  | _ => false

/-- Whether the cell can still be settled, as far as its slot goes. -/
def isPending (c : Cell α) : Bool :=
  match c.slot with
  | .pending => true
  | _ => false

/-- The value, if there is one by now. -/
def get (c : Cell α) : Option α :=
  match c.slot with
  | .set v => some v
  | _ => none

/-- Settles a pending cell; answers whether it did. -/
def settle (c : Cell α) (s : Slot α) : Bool × Cell α :=
  if c.isPending then (true, { c with slot := s }) else (false, c)

/-- Settles a pending cell with a value; answers whether it did. -/
def set (c : Cell α) (v : α) : Bool × Cell α :=
  c.settle (.set v)

/-- Settles a pending cell by cancelling it; answers whether it did. -/
def cancel (c : Cell α) : Bool × Cell α :=
  c.settle .cancelled

/-- Tries to settle a cell; answers whether it did. -/
def attempt (c : Cell α) : Settlement α → Bool × Cell α
  | .value v => c.set v
  | .cancelled => c.cancel

/-- The cell after its future was dropped. -/
def disown (c : Cell α) : Cell α :=
  { c with owned := false }

/-- What a wait does next, if anything.  Of a cell whose future is gone no change is to be expected.
One that nothing can interrupt has only the cell to look at. -/
def waitStep (c : Cell α) (interrupted : Option Bool) : WaitPhase α → WaitPhase α
  | .begun => if c.isPending then .watching else .reading
  | .watching => if c.isPending then .enlisting else .ended c.get
  | .enlisting =>
      -- It is told of all changes from here on, so it looks once more for those before.
      if !c.isPending then .watching
      else if !c.owned then .ended none
      else if interrupted.isSome then .listening
      else .asleep
  | .listening => if interrupted = some true then .reading else .asleep
  | .asleep => .asleep
  | .reading => .ended c.get
  | .ended v => .ended v

/-- What a wait gets that is not disturbed, or nothing if it falls asleep.  Either is so after five
steps. -/
def answer? (c : Cell α) (interrupted : Bool) : Option (Option α) :=
  match Nat.repeat (c.waitStep (some interrupted)) 5 .begun with
  | .ended v => some v
  | _ => none

/-- The state of a cell under the name of the side it is seen from. -/
def describe (side : String) (value : α → String) (c : Cell α) : String :=
  side ++ "(" ++
    (match c.slot with
    | .pending => "Pending"
    | .set v => "Set(" ++ value v ++ ")"
    | .cancelled => "Canceled") ++ ")"

end Cell

/-! ## The values that cells carry -/

/-- A value that is handed from one action to another through a cell. -/
inductive Datum where
  | text (s : String)
  | integer (i : Int)
  | integers (is : List Int)
deriving DecidableEq

namespace Datum

/-- A value as it is shown: texts quoted, lists in brackets. -/
def describe : Datum → String
  | text s => quoted s
  | integer i => decimalInt i
  | integers is => bracketed (is.map decimalInt)

/-- A value as JSON. -/
def toJson : Datum → Json
  | text s => .string s
  | integer i => .ofInt i
  | integers is => .array (is.map .ofInt)

end Datum

end Workflow
