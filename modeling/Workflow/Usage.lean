import Mathlib.Logic.Relation
import Mathlib.Order.Bounds.Defs
import Workflow.Context

/-!
# How contexts are used

A program makes contexts and tokens, derives them from one another, cancels them and lets them go;
the timers run and time goes on meanwhile.  `Contexts.Step` is all that can happen to a ledger of
contexts, in no particular order, and a `Contexts.History` is a ledger with the record of what has
happened to it.

The record says how each token and each context came about, and which tokens somebody has cancelled.
It does not say what the ledger made of it.  What a context ought to do is said in terms of the
record alone:

* `Follows`: which tokens a token was derived from;
* `Derived`: which contexts a context was derived from, and `Given`: which deadlines were given on
  the way;
* `CalledOff`: whether somebody has cancelled a token or one that it was derived from.
-/

namespace Workflow

/-! ## The record -/

/-- How a context came about. -/
inductive Descent where
  /-- By itself, with a token of its own. -/
  | new
  /-- Around a token that was there. -/
  | wrapped
  /-- As another handle to the context `of`. -/
  | clone (of : Nat)
  /-- Derived from the context `of`. -/
  | child (of : Nat)
  /-- Derived from the context `of`, and given a deadline. -/
  | timed (of deadline : Nat)
deriving DecidableEq

namespace Descent

/-- The context that a context came from. -/
def source? : Descent → Option Nat
  | clone of | child of | timed of _ => some of
  | _ => none

/-- The context that a context with a token of its own was derived from. -/
def parent? : Descent → Option Nat
  | child of | timed of _ => some of
  | _ => none

end Descent

/-- Something that has happened to the contexts and tokens of a program.  Contexts have the numbers
of their handles. -/
inductive Occurrence where
  /-- A token came about, which follows the token `of`, if any. -/
  | token (t : Token) (of : Option Nat)
  /-- A context with the token `token` came about. -/
  | context (handle token : Nat) (descent : Descent)
  /-- Somebody cancelled a token, or a context with the token. -/
  | cancelled (token : Nat)
deriving DecidableEq

section

variable (log : List Occurrence)

/-- The token is on record. -/
def Recorded (t : Token) : Prop :=
  ∃ of, .token t of ∈ log

/-- The token `n` was derived from the token `m` directly. -/
def TokenParent (n m : Nat) : Prop :=
  ∃ t, .token t (some m) ∈ log ∧ t.number = n

/-- The token `n` is the token `m`, or was derived from it. -/
def Follows : Nat → Nat → Prop :=
  Relation.ReflTransGen (TokenParent log)

/-- The context `h` came from the context `h'` directly. -/
def ContextSource (h h' : Nat) : Prop :=
  ∃ n d, .context h n d ∈ log ∧ d.source? = some h'

/-- The context `h` is the context `h'`, or came from it. -/
def Derived : Nat → Nat → Prop :=
  Relation.ReflTransGen (ContextSource log)

/-- The deadline `d` was given to the context `h`, or to one that it came from, when it was made
with the token `n`. -/
def Dated (h n d : Nat) : Prop :=
  ∃ h' of, Derived log h h' ∧ .context h' n (.timed of d) ∈ log

/-- The deadline `d` was given to the context `h`, or to one that it came from. -/
def Given (h d : Nat) : Prop :=
  ∃ n, Dated log h n d

/-- The context `h` was derived from one with the token `m`, and has a token of its own. -/
def ParentToken (h m : Nat) : Prop :=
  ∃ n d p e, .context h n d ∈ log ∧ d.parent? = some p ∧ .context p m e ∈ log

/-- The two contexts were derived from the same context, or from two that share a token. -/
def Siblings (h h' : Nat) : Prop :=
  h ≠ h' ∧ ∃ m, ParentToken log h m ∧ ParentToken log h' m

/-- Somebody has cancelled the token `n` or one that it was derived from. -/
def CalledOff (n : Nat) : Prop :=
  ∃ m, Follows log n m ∧ .cancelled m ∈ log

/-- The token `n` was made for a context that was given a deadline. -/
def Timed (n : Nat) : Prop :=
  ∃ h of d, .context h n (.timed of d) ∈ log

/-- The token `n` was made for a context that was given a deadline, and of the deadlines that were
given to it `d` is the earliest. -/
def Expires (n d : Nat) : Prop :=
  ∃ h of x, .context h n (.timed of x) ∈ log ∧ IsLeast {y | Given log h y} d

/-- Contexts were made around such tokens only that do not come from a context with a deadline. -/
def WrapsUntimed : Prop :=
  ∀ h n, .context h n .wrapped ∈ log → ∀ m, Follows log n m → ¬ Timed log m

end

/-- The earliest of the times in a set, or nothing when there are none. -/
def Earliest (times : Set Nat) : Option Nat → Prop
  | none => times = ∅
  | some d => IsLeast times d

/-! ## Steps -/

namespace Contexts

/-- What can happen to a ledger of contexts, and what is put on record of it.  Tokens are never made
up: a program uses only such as are on record.  A timeout is a deadline that is reckoned from the
clock. -/
inductive Step (log : List Occurrence) (s : Contexts) : List Occurrence → Contexts → Prop where
  | new {t : Token} {s₁ s' : Contexts} {h : Nat} (made : s.newToken = (t, s₁))
      (held : s₁.hold (ofToken t) = (h, s')) :
      Step log s [.token t none, .context h t.number .new] s'
  | ofToken {t : Token} {s' : Contexts} {h : Nat} (known : Recorded log t)
      (held : s.hold (ofToken t) = (h, s')) : Step log s [.context h t.number .wrapped] s'
  | clone {of h : Nat} {c : Context} {s' : Contexts} (source : s.find? of = some c)
      (held : s.hold c = (h, s')) : Step log s [.context h c.token.number (.clone of)] s'
  | child {of h : Nat} {c c' : Context} {s₁ s' : Contexts} (source : s.find? of = some c)
      (made : s.child c = (c', s₁)) (held : s₁.hold c' = (h, s')) :
      Step log s
        [.token c'.token (some c.token.number), .context h c'.token.number (.child of)] s'
  | withDeadline {of h deadline : Nat} {c c' : Context} {s₁ s' : Contexts}
      (source : s.find? of = some c) (made : s.withDeadline c deadline = (c', s₁))
      (held : s₁.hold c' = (h, s')) :
      Step log s
        [.token c'.token (some c.token.number), .context h c'.token.number (.timed of deadline)] s'
  | newToken {t : Token} {s' : Contexts} (made : s.newToken = (t, s')) :
      Step log s [.token t none] s'
  | childToken {t t' : Token} {s' : Contexts} (known : Recorded log t)
      (made : s.childToken t = (t', s')) : Step log s [.token t' (some t.number)] s'
  | cancel {h : Nat} {c : Context} (source : s.find? h = some c) :
      Step log s [.cancelled c.token.number] (s.cancel c.token)
  | cancelToken {t : Token} (known : Recorded log t) :
      Step log s [.cancelled t.number] (s.cancel t)
  | drop (h : Nat) : Step log s [] (s.release h)
  | timer {t : Timer} (running : t ∈ s.timers) (due : s.isDue t = true) :
      Step log s [] (s.fire t)
  | time {clock : Nat} (later : s.clock ≤ clock) : Step log s [] (s.advance clock)

/-- What a ledger and its record can become. -/
inductive Leads (log : List Occurrence) (s : Contexts) : List Occurrence → Contexts → Prop where
  | refl : Leads log s log s
  | step {log' new : List Occurrence} {s' s'' : Contexts} (h : Leads log s log' s')
      (step : Step log' s' new s'') : Leads log s (log' ++ new) s''

/-- A ledger with the record of all that has happened to it since it was empty. -/
def History (log : List Occurrence) (s : Contexts) : Prop :=
  ∃ clock, Leads [] { clock } log s

/-- No timer has anything to do. -/
def TimersQuiet (s : Contexts) : Prop :=
  ∀ t ∈ s.timers, s.isDue t = false

end Contexts

end Workflow
