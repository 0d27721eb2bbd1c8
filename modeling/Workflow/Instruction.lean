import Workflow.Action

/-!
# Bodies from instructions

A plain way to write the body of a leaf: a list of instructions, carried out in order, after which
the body succeeds.  An `Instruction` is what it puts in front of the rest of a body; some end the
body early and leave the rest out.  Several write to the log what they found, under a text of the
caller's choice.
-/

namespace Workflow

open Text

/-- What an instruction puts in front of the rest of a body. -/
abbrev Instruction := Body → Body

/-- The body that carries instructions out in order. -/
def Body.ofInstructions (is : List Instruction) : Body :=
  is.foldr (fun i k => i k) .succeed

namespace Instruction

/-! ## Logs -/

/-- Writes a line to the log. -/
def log (line : String) : Instruction := fun k =>
  .ask (.log line) fun _ => k

/-- Notes a call. -/
def record (name : String) : Instruction := fun k =>
  .ask (.record name) fun _ => k

/-- Writes to the log when the body ends. -/
def guard (name : String) : Instruction := fun k =>
  .guard (.note name) k

/-! ## Waits -/

/-- Waits for so many milliseconds. -/
def sleep (ms : Nat) : Instruction := fun k =>
  .sleep ms k

/-- Lets others run first. -/
def giveWay : Instruction := fun k =>
  .giveWay k

/-- Waits until the context is cancelled. -/
def untilCancelled : Instruction := fun k =>
  .ask .untilCancelled fun _ => k

/-! ## The context -/

/-- Writes down whether the context is cancelled. -/
def logCancelled (text : String) : Instruction := fun k =>
  .ask .isCancelled fun c => log (text ++ " cancelled=" ++ (if c then "true" else "false")) k

/-- Writes down the deadline of the context. -/
def logDeadline (text : String) : Instruction := fun k =>
  .ask .deadline fun d =>
    log (text ++ " deadline=" ++
      (match d with
      | some time => "Some(" ++ decimal time ++ ")"
      | none => "None")) k

/-- Fails when the context is cancelled. -/
def failIfCancelled : Instruction := fun k =>
  .ask .isCancelled fun c => if c then .fail .cancelled else k

/-- Succeeds at once when the context is cancelled. -/
def stopIfCancelled : Instruction := fun k =>
  .ask .isCancelled fun c => if c then .succeed else k

/-- Cancels the context. -/
def cancel : Instruction := fun k =>
  .ask .cancel fun _ => k

/-! ## The run state -/

/-- Accesses the run state; writes the answer down when there is a text to put it under. -/
def state (op : StateOp) (text : Option String) : Instruction := fun k =>
  .ask (.state op) fun reply =>
    match text with
    | some text => log (text ++ " " ++ reply.toJson.render) k
    | none => k

/-- Goes on with `yes` when there is a value at a key, and with `no` otherwise. -/
def ifPresent (key : String) (yes no : Body) : Body :=
  .ask (.state (.contains key)) fun
    | .flag true => yes
    | _ => no

/-- Fails unless there is a value at a key. -/
def need (key : String) : Instruction := fun k =>
  ifPresent key k (.fail (.plain ("missing " ++ key)))

/-- Asks to skip the remainder when there is a value at a key. -/
def skipIf (key : String) : Instruction := fun k =>
  ifPresent key (.fail .skipRemainder) k

/-! ## Cells -/

/-- Waits for the value of a cell and writes it down; fails when there is none to be had. -/
def await (cell : Nat) (text : String) : Instruction := fun k =>
  .ask (.await cell) fun
    | some v => log (text ++ " got " ++ v.describe) k
    | none => .fail .cancelled

/-- Settles a cell and writes down whether it did, under the text `text`. -/
def settle (cell : Nat) (how : Settlement Datum) (text : String) : Instruction := fun k =>
  .ask (.settle cell how) fun did =>
    log (text ++ " " ++
      (match did with
      | some true => "Some(true)"
      | some false => "Some(false)"
      | none => "None")) k

/-! ## Ends -/

/-- Ends the body. -/
def finish (e : Exit) : Instruction := fun _ =>
  .finish e

/-! ## Other actions -/

/-- Runs another action.  Its failure is the body's, or is written down and forgotten when `swallow`
is set. -/
def run (inner : Action) (under : Under) (swallow : Bool) : Instruction := fun k =>
  .run inner under fun
    | none => k
    | some f => if swallow then log ("swallowed " ++ f.message) k else .fail f

end Instruction

end Workflow
