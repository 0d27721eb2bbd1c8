import Workflow.TypedMap
import Workflow.Text.Quoted

/-!
# Shared maps

A `SharedMap` is a `TypedMap` behind a lock, for many who read and change it in turn.  A `MapOp` is
one access, taken in one step with the lock held: no other access comes in between.
`SharedMap.perform` says what it answers and what it leaves.

A piece of the caller's code that breaks off while it runs under the lock leaves the lock
*poisoned*.  Whoever takes the lock afterwards learns of it, gets at the map all the same, and
carries on: `SharedMap.recovered`.
-/

namespace Workflow

open Text

/-! ## Accesses -/

/-- One access to a map.  An update tells something of the type `ρ`. -/
inductive MapOp (κ : Type) (τ : κ → Type) (ρ : Type) where
  | insert (key : String) (v : Sigma τ)
  | get (key : String) (k : κ)
  | contains (key : String)
  | remove (key : String)
  | len
  | isEmpty
  | keys
  | describe
  | update (key : String) (k : κ) (f : τ k → τ k × Attempt ρ)
  | getOrInsert (key : String) (k : κ) (init : Attempt (τ k))

/-- What an access answers. -/
inductive MapReply (κ : Type) (τ : κ → Type) (ρ : Type) where
  | flag (b : Bool)
  | count (n : Nat)
  | value (v : Option (Sigma τ))
  | keys (ks : List String)
  | text (s : String)
  /-- How the change ended, or nothing when it did not run. -/
  | updated (r : Option (Attempt ρ))
  /-- Whether the value had to be made, and the value. -/
  | obtained (made : Bool) (v : Option (Attempt (Sigma τ)))

/-- Whether the caller's code broke off. -/
def MapReply.isPanic {κ : Type} {τ : κ → Type} {ρ : Type} : MapReply κ τ ρ → Bool
  | updated (some (.panicked _)) => true
  | obtained _ (some (.panicked _)) => true
  | _ => false

/-- An attempt to make a value of a kind, as one to make a value of whatever kind. -/
def Attempt.ofKind {κ : Type} {τ : κ → Type} (k : κ) : Attempt (τ k) → Attempt (Sigma τ)
  | returned v => .returned ⟨k, v⟩
  | panicked text => .panicked text

/-! ## Maps behind a lock -/

/-- A map behind a lock. -/
structure SharedMap (κ : Type) (τ : κ → Type) where
  map : TypedMap κ τ := .empty
  /-- Whether somebody panicked while the lock was held for writing. -/
  isPoisoned : Bool := false

namespace SharedMap

variable {κ : Type} {τ : κ → Type} {ρ : Type}

/-- A map without values, behind a fresh lock. -/
def empty : SharedMap κ τ := {}

instance : Inhabited (SharedMap κ τ) := ⟨empty⟩

/-- A map with the given values, behind a fresh lock. -/
def ofList (items : List (String × Sigma τ)) : SharedMap κ τ where
  map := .ofList items

/-- The keys with their values, ascending by the bytes of the key. -/
def toList (m : SharedMap κ τ) : List (String × Sigma τ) :=
  m.map.toList

/-- Takes the lock.  That is an error when the lock is poisoned, and the error holds the map. -/
def acquire (m : SharedMap κ τ) : Except (TypedMap κ τ) (TypedMap κ τ) :=
  if m.isPoisoned then .error m.map else .ok m.map

/-- The map that whoever takes the lock carries on with. -/
def recovered (m : SharedMap κ τ) : TypedMap κ τ :=
  match m.acquire with
  | .ok t => t
  | .error t => t

/-- Answers from the map, which stays as it is. -/
def read (m : SharedMap κ τ) (f : TypedMap κ τ → MapReply κ τ ρ) :
    MapReply κ τ ρ × SharedMap κ τ :=
  (f m.recovered, m)

/-- Answers from the map and changes it.  A panic in between poisons the lock, for good. -/
def write (m : SharedMap κ τ) (f : TypedMap κ τ → MapReply κ τ ρ × TypedMap κ τ) :
    MapReply κ τ ρ × SharedMap κ τ :=
  let (reply, map) := f m.recovered
  (reply, { map, isPoisoned := m.isPoisoned || reply.isPanic })

/-- A map shown by its keys, ascending by their bytes. -/
def describe (t : TypedMap κ τ) : String :=
  "RunState \x7b keys: " ++ quotedList (sortBy textLE t.keys) ++ " \x7d"

/-- What an access answers, and the map that it leaves. -/
def perform [DecidableEq κ] (m : SharedMap κ τ) : MapOp κ τ ρ → MapReply κ τ ρ × SharedMap κ τ
  | .insert key v => m.write fun t => (.flag (t.contains key), t.insert key v.1 v.2)
  | .get key k => m.read fun t => .value ((t.get? key k).map fun v => ⟨k, v⟩)
  | .contains key => m.read fun t => .flag (t.contains key)
  | .remove key => m.write fun t => (.flag (t.contains key), t.erase key)
  | .len => m.read fun t => .count t.size
  | .isEmpty => m.read fun t => .flag (t.size == 0)
  | .keys => m.read fun t => .keys t.keys
  | .describe => m.read fun t => .text (describe t)
  | .update key k f =>
      m.write fun t =>
        let (t, r) := t.update key k f
        (.updated r, t)
  | .getOrInsert key k init =>
      m.write fun t =>
        let (t, made, r) := t.getOrInsert key k init
        (.obtained made (r.map (.ofKind k)), t)

end SharedMap

end Workflow
