/-!
# Cancellation contexts

A *token* is a switch that can be thrown once.  A token may be derived from another; it counts as
cancelled when it or any token on the path to its origin was.  Cancelling a token therefore reaches
everything derived from it and nothing else.

A *context* is what an action is given: a token, a deadline, and a share in the timers that stand
behind the deadline.  Contexts are derived from one another, and each derivation starts a new token:

* `Contexts.child` follows its parent and can be cancelled on its own;
* `Contexts.withDeadline` is cancelled at a given time at the latest; the earlier of that time and
  the inherited deadline counts.  A *timer* is started to cancel the token then.

Handles to contexts are held and let go.  A timer is kept by every held context that was derived
from the one it was started for.  When the last such handle goes, the timer's token is cancelled,
and the timer, like every timer whose token is cancelled, has nothing left to do.

`Contexts` is the ledger of all this: the clock, the cancelled tokens, the running timers and the
held handles.

Times are whole ticks of the clock, milliseconds, and timers are exact on them: a timer has
something to do from the very tick of its deadline on.  Deadlines between two ticks, and what a
coarser timer makes of them, are not modelled.
-/

namespace Workflow

/-- A switch that can be thrown once, named by its number, with the numbers of the tokens it was
derived from, nearest first. -/
structure Token where
  number : Nat
  ancestors : List Nat := []
deriving DecidableEq

/-- The numbers of a token and of all the tokens it follows. -/
def Token.path (t : Token) : List Nat :=
  t.number :: t.ancestors

/-- What an action is given to tell whether its work is still wanted. -/
structure Context where
  token : Token
  /-- The time at which the context is cancelled at the latest. -/
  deadline : Option Nat := none
  /-- The tokens whose timers the context keeps running, by number, nearest first. -/
  timers : List Nat := []
deriving DecidableEq

/-- A task that cancels a token at its deadline. -/
structure Timer where
  token : Token
  deadline : Nat
deriving DecidableEq

/-- All tokens, timers and handles of a program, and its clock. -/
structure Contexts where
  /-- The time, in whole ticks of a millisecond, on which timers are exact.  No deadline lies
  between two ticks. -/
  clock : Nat := 0
  /-- The next number for a token or a handle. -/
  supply : Nat := 0
  /-- The tokens that were cancelled themselves, by number, the latest first. -/
  cancelled : List Nat := []
  /-- The timers that have not ended. -/
  timers : List Timer := []
  /-- The contexts that are held, each under the number of its handle. -/
  held : List (Nat × Context) := []

instance : Inhabited Context := ⟨⟨⟨0, []⟩, none, []⟩⟩

namespace Contexts

/-! ## What can be asked -/

/-- Whether a token or one that it follows was cancelled. -/
def isTokenCancelled (s : Contexts) (t : Token) : Bool :=
  t.path.any s.cancelled.contains

/-- Whether a deadline has been reached. -/
def isPast (s : Contexts) (deadline : Option Nat) : Bool :=
  deadline.any (· ≤ s.clock)

/-- Whether the work under a context is no longer wanted: its token is cancelled, or its deadline
has been reached, be it that the timer has not run yet. -/
def isCancelled (s : Contexts) (c : Context) : Bool :=
  s.isTokenCancelled c.token || s.isPast c.deadline

/-- The context held under a handle. -/
def find? (s : Contexts) (handle : Nat) : Option Context :=
  (s.held.find? fun h => h.1 == handle).map (·.2)

/-- Whether a held context keeps the timer of a token running. -/
def isKept (s : Contexts) (number : Nat) : Bool :=
  s.held.any fun h => h.2.timers.contains number

/-! ## Tokens -/

/-- A token of its own. -/
def newToken (s : Contexts) : Token × Contexts :=
  (⟨s.supply, []⟩, { s with supply := s.supply + 1 })

/-- A token that follows another. -/
def childToken (s : Contexts) (t : Token) : Token × Contexts :=
  (⟨s.supply, t.path⟩, { s with supply := s.supply + 1 })

/-- Cancels a token, and so all that follow it. -/
def cancel (s : Contexts) (t : Token) : Contexts :=
  { s with cancelled := t.number :: s.cancelled }

/-! ## Contexts and their handles -/

/-- A context around a token, without a deadline. -/
def ofToken (t : Token) : Context :=
  ⟨t, none, []⟩

/-- A context that follows another, and can be cancelled on its own. -/
def child (s : Contexts) (c : Context) : Context × Contexts :=
  let (t, s) := s.childToken c.token
  ({ c with token := t }, s)

/-- The earlier of an inherited deadline and a new one. -/
def earlier (inherited : Option Nat) (deadline : Nat) : Nat :=
  match inherited with
  | some d => min d deadline
  | none => deadline

/-- A context that follows another and is cancelled at `deadline` at the latest, and the timer that
sees to it.  Whoever asks for the context has to hold it. -/
def withDeadline (s : Contexts) (c : Context) (deadline : Nat) : Context × Contexts :=
  let (t, s) := s.childToken c.token
  let d := earlier c.deadline deadline
  (⟨t, some d, t.number :: c.timers⟩, { s with timers := s.timers ++ [⟨t, d⟩] })

/-- Holds a context under a new handle. -/
def hold (s : Contexts) (c : Context) : Nat × Contexts :=
  (s.supply, { s with supply := s.supply + 1, held := (s.supply, c) :: s.held })

/-- Lets a handle go, and cancels the tokens of those of its timers that nobody else keeps, the
nearest first. -/
def release (s : Contexts) (handle : Nat) : Contexts :=
  match s.find? handle with
  | some c =>
      let s := { s with held := s.held.filter fun h => h.1 != handle }
      { s with cancelled := (c.timers.filter (!s.isKept ·)).reverse ++ s.cancelled }
  | none => s

/-! ## Timers and the clock -/

/-- Whether a timer has something to do: its deadline, a whole tick, has been reached or its token
is cancelled. -/
def isDue (s : Contexts) (t : Timer) : Bool :=
  t.deadline ≤ s.clock || s.isTokenCancelled t.token

/-- Runs a timer to its end.  Afterwards its token is cancelled, if it was not before. -/
def fire (s : Contexts) (t : Timer) : Contexts :=
  let s := { s with timers := s.timers.filter fun u => u != t }
  if s.isTokenCancelled t.token then s else s.cancel t.token

/-- Runs every timer that has something to do. -/
def fireDue (s : Contexts) : Contexts :=
  (s.timers.filter s.isDue).foldl fire s

/-- Moves the clock. -/
def advance (s : Contexts) (clock : Nat) : Contexts :=
  { s with clock }

end Contexts

end Workflow
