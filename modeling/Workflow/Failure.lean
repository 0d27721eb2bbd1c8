import Workflow.Text.Quoted

/-!
# Failures

What an action gives back when it did not simply succeed.  A `Failure` is one of

* `skipRemainder`: the request to the enclosing runner to start no further siblings, not a fault;
* `failed`: a child's failure under the child's name, added by a runner, so that wrappers pile up
  along the path from the root of a composition to the leaf at fault;
* `panicked`: a child that was broken off by a panic, or lost with the tasks it ran among;
* `cancelled`: the action gave up because its context was cancelled;
* `plain`: a message and nothing else;
* `other`: an error from outside, kept as a `Cause`.

The views of a failure — `message`, `root`, `chain`, `action`, `source?` and `describe` — each read
the wrappers from the outside in.  None of them but `source?` looks through `other`: an error from
outside is a barrier, even where it is a failure itself.
-/

namespace Workflow

open Text

mutual

/-- What an action gives back when it did not simply succeed. -/
inductive Failure where
  /-- No further siblings are to be started. -/
  | skipRemainder
  /-- The child called `action` gave `source` back. -/
  | failed (action : String) (source : Failure)
  /-- The child called `action` was broken off. -/
  | panicked (action text : String)
  /-- The context was cancelled. -/
  | cancelled
  /-- A message and nothing else. -/
  | plain (text : String)
  /-- An error from outside. -/
  | other (cause : Cause)

/-- An error from outside: either a report with the reports that led to it, nearest first, or a
failure that travelled as one. -/
inductive Cause where
  | report (text : String) (causes : List String)
  | failure (inner : Failure)

end

deriving instance DecidableEq for Failure, Cause

instance : Inhabited Failure := ⟨.cancelled⟩

namespace Failure

/-- The failure under the name of the action that gave it back. -/
def inAction (f : Failure) (name : String) : Failure :=
  .failed name f

/-- Whether this is the bare request to skip the remainder. -/
def isSkipRemainder : Failure → Bool
  | skipRemainder => true
  | _ => false

/-- What is left when every wrapper is taken off. -/
def root : Failure → Failure
  | failed _ source => source.root
  | f => f

/-- The outermost name, if there is one. -/
def action : Failure → Option String
  | failed name _ => some name
  | panicked name _ => some name
  | _ => none

/-- The names from the outermost to the innermost. -/
def chain : Failure → List String
  | failed name source => name :: source.chain
  | panicked name _ => [name]
  | _ => []

end Failure

/-! ## Messages -/

mutual

/-- The text of a failure, one line for a reader. -/
def Failure.message : Failure → String
  | .skipRemainder => "skip remainder"
  | .failed name source => "action " ++ name ++ " failed: " ++ source.message
  | .panicked name text => "action " ++ name ++ " panicked: " ++ text
  | .cancelled => "cancelled"
  | .plain text => text
  | .other cause => cause.message

/-- The text of an error from outside. -/
def Cause.message : Cause → String
  | .report text _ => text
  | .failure inner => inner.message

end

/-! ## Sources -/

/-- The error right under this one. -/
def Failure.source? : Failure → Option Cause
  | .failed _ source => some (.failure source)
  | .other cause => some cause
  | _ => none

/-- The error right under this one. -/
def Cause.source? : Cause → Option Cause
  | .report _ [] => none
  | .report _ (c :: cs) => some (.report c cs)
  | .failure inner => inner.source?

mutual

/-- The texts met when the sources are followed to the end. -/
def Failure.sources : Failure → List String
  | .failed _ source => source.message :: source.sources
  | .other cause => cause.message :: cause.sources
  | _ => []

/-- The texts met when the sources are followed to the end. -/
def Cause.sources : Cause → List String
  | .report _ causes => causes
  | .failure inner => inner.sources

end

/-! ## Descriptions -/

/-- The name of the kind of a failure. -/
def Failure.variant : Failure → String
  | .skipRemainder => "SkipRemainder"
  | .failed _ _ => "Failed"
  | .panicked _ _ => "Panicked"
  | .cancelled => "Cancelled"
  | .plain _ => "Message"
  | .other _ => "Other"

mutual

/-- A failure as its kind with its parts, texts quoted. -/
def Failure.describe : Failure → String
  | .skipRemainder => "SkipRemainder"
  | .failed name source =>
      "Failed \x7b action: " ++ quoted name ++ ", source: " ++ source.describe ++ " \x7d"
  | .panicked name text =>
      "Panicked \x7b action: " ++ quoted name ++ ", message: " ++ quoted text ++ " \x7d"
  | .cancelled => "Cancelled"
  | .plain text => "Message(" ++ quoted text ++ ")"
  | .other cause => "Other(" ++ cause.describe ++ ")"

/-- An error from outside: its quoted text, or the failure it is. -/
def Cause.describe : Cause → String
  | .report text _ => quoted text
  | .failure inner => inner.describe

end

end Workflow
