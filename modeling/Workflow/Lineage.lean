import Workflow.Context
import Workflow.Sorting

/-!
# Lineages

Whom the cancellation of a token reaches first.  A `Lineage` holds the tokens that are in use and
have not been reached through another, each with its parent: the nearest token in use that it
follows.  The children of a token have an order among themselves.  A new token is the last of its
siblings.  When a token goes out of use its children become children of its parent, behind the
others, and then the last of its siblings takes its place.

The cancellation of a token goes through its children from the last to the first.  At each child it
reaches first those of the grandchildren that have no children, again from the last to the first,
and then the child.  The other grandchildren are gone through after that, the first of them first,
and before the children that are left.  The cancelled token itself is reached in the end.
-/

namespace Workflow

/-- A token in a lineage. -/
structure Member where
  token : Token
  /-- The number of its parent. -/
  parent : Option Nat

/-- The tokens in use that can be reached through others, siblings in their order. -/
structure Lineage where
  members : List Member := []

namespace Lineage

/-! ## Reaching tokens -/

/-- The children of a token, from the last to the first. -/
def children (l : Lineage) (number : Nat) : List Nat :=
  ((l.members.filter (·.parent == some number)).map (·.token.number)).reverse

/-- The tokens reached from a stack of tokens, its top at the head: one `t` after another, so many
at most. -/
def spread (l : Lineage) : Nat → List Nat → List Nat
  | 0, _ => []
  | _, [] => []
  | n + 1, t :: stack =>
      let (ends, parents) := (l.children t).partition fun u => (l.children u).isEmpty
      ends ++ t :: spread l n (parents.reverse ++ stack)

/-- The tokens that the cancellation of a token reaches, in order. -/
def reached (l : Lineage) (number : Nat) : List Nat :=
  l.spread l.members.length (l.children number) ++ [number]

/-! ## Changes -/

/-- Takes in a new token. -/
def add (l : Lineage) (t : Token) : Lineage :=
  { members := l.members ++
      [⟨t, t.ancestors.find? fun number => l.members.any (·.token.number == number)⟩] }

/-- Takes out a token that has gone out of use. -/
def retire (l : Lineage) (m : Member) : Lineage :=
  let (kids, others) := l.members.partition (·.parent == some m.token.number)
  let members := others ++ kids.map fun k => { k with parent := m.parent }
  match (members.filter (·.parent == m.parent)).getLast? with
  | some last =>
      { members := (members.filter (·.token.number != last.token.number)).map fun k =>
          if k.token.number == m.token.number then last else k }
  | none => { members }

/-- The lineage when it has become known which tokens are cancelled and which are in use.  Those
with numbers from `first` on are new.  What follows a cancelled token has been reached with it, or
was cancelled from its beginning. -/
def update (l : Lineage) (cancelled : List Nat) (used : List Token) (first : Nat) : Lineage :=
  let isFree := fun (t : Token) => cancelled.isEmpty || !t.ancestors.any cancelled.contains
  let numbers := used.map (·.number)
  let fresh := (used.filter fun t => first ≤ t.number && isFree t).eraseDups
  let l : Lineage := { members := l.members.filter (isFree ·.token) }
  let l := (l.members.filter (!numbers.contains ·.token.number)).foldl retire l
  (sortBy (fun t u => t.number ≤ u.number) fresh).foldl add l

end Lineage

end Workflow
