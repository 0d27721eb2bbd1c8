import Workflow.Sorting

/-!
# Maps of values of many types

A `TypedMap κ τ` holds at most one value at each key, a text, and remembers of which kind it is: the
value at a key is a pair of a kind `k : κ` and a value of the type `τ k`.  Reading, updating and
filling at a kind see a value of that kind alone; a value of another kind is there for `contains`
and `keys` but is neither read nor touched.

An update and a fill run a piece of the caller's code, which may break off halfway.  What the map
holds afterwards is what the code had made of the value when it stopped, and every other key is as
before: `find?_update` and `find?_getOrInsert` say so through the one view `find?`.
-/

namespace Workflow

/-- How a piece of the caller's code ended: with a result, or broken off by a panic with a message.
-/
inductive Attempt (α : Type) where
  | returned (a : α)
  | panicked (text : String)

/-- A map from texts to values of the kinds `κ`, where `τ k` is the type of the values of kind `k`.
No key occurs twice. -/
structure TypedMap (κ : Type) (τ : κ → Type) where
  entries : List (String × Sigma τ) := []
  nodup : (entries.map (·.1)).Nodup := by exact List.nodup_nil

namespace TypedMap

variable {κ : Type} {τ : κ → Type}

/-- A map without values. -/
def empty : TypedMap κ τ := ⟨[], List.nodup_nil⟩

instance : Inhabited (TypedMap κ τ) := ⟨empty⟩

/-- The value at a key with its kind. -/
def find? (m : TypedMap κ τ) (key : String) : Option (Sigma τ) :=
  (m.entries.find? fun e => e.1 == key).map (·.2)

/-- Whether there is a value at a key, of whatever kind. -/
def contains (m : TypedMap κ τ) (key : String) : Bool :=
  (m.find? key).isSome

/-- The number of keys. -/
def size (m : TypedMap κ τ) : Nat :=
  m.entries.length

/-- The keys, each once, in no particular order. -/
def keys (m : TypedMap κ τ) : List String :=
  m.entries.map (·.1)

/-- The keys with their values, ascending by the bytes of the key. -/
def toList (m : TypedMap κ τ) : List (String × Sigma τ) :=
  sortBy (fun a b => textLE a.1 b.1) m.entries

/-- The map without a key. -/
def erase (m : TypedMap κ τ) (key : String) : TypedMap κ τ where
  entries := m.entries.filter fun e => !(e.1 == key)
  nodup := List.Nodup.sublist (List.Sublist.map _ List.filter_sublist) m.nodup

/-- The map with a value of kind `k` at a key, in place of what was there. -/
def insert (m : TypedMap κ τ) (key : String) (k : κ) (v : τ k) : TypedMap κ τ where
  entries := (key, ⟨k, v⟩) :: (m.erase key).entries
  nodup := by
    refine List.nodup_cons.mpr ⟨?_, (m.erase key).nodup⟩
    intro h
    obtain ⟨e, he, rfl⟩ := List.mem_map.mp h
    simp [erase] at he

/-- A map with the given values, where a later value at a key replaces an earlier one. -/
def ofList (items : List (String × Sigma τ)) : TypedMap κ τ :=
  items.foldl (fun m e => m.insert e.1 e.2.1 e.2.2) empty

section Typed

variable [DecidableEq κ]

/-- A value as one of kind `k`, when it is one. -/
def cast? (k : κ) (v : Sigma τ) : Option (τ k) :=
  if h : v.1 = k then some (h ▸ v.2) else none

/-- The value at a key, when it is of kind `k`. -/
def get? (m : TypedMap κ τ) (key : String) (k : κ) : Option (τ k) :=
  (m.find? key).bind (cast? k)

/-- Runs `f` on the value at a key, when there is one of kind `k`.  The map keeps what `f` left of
the value, also when `f` broke off.  Gives back how `f` ended, or nothing when it did not run. -/
def update {α : Type} (m : TypedMap κ τ) (key : String) (k : κ) (f : τ k → τ k × Attempt α) :
    TypedMap κ τ × Option (Attempt α) :=
  match m.get? key k with
  | none => (m, none)
  | some v => (m.insert key k (f v).1, some (f v).2)

/-- The value of kind `k` at a key, made by `init` when there is none of any kind.  When `init`
breaks off, nothing is inserted.  Gives back whether `init` ran, and the value: nothing when the key
holds a value of another kind. -/
def getOrInsert (m : TypedMap κ τ) (key : String) (k : κ) (init : Attempt (τ k)) :
    TypedMap κ τ × Bool × Option (Attempt (τ k)) :=
  match m.find? key with
  | some v => (m, false, (cast? k v).map .returned)
  | none =>
      match init with
      | .returned v => (m.insert key k v, true, some (.returned v))
      | .panicked text => (m, true, some (.panicked text))

end Typed

/-! ## What each operation does to the view -/

@[simp]
theorem find?_empty (key : String) : (empty : TypedMap κ τ).find? key = none := rfl

theorem find?_erase (m : TypedMap κ τ) (key other : String) :
    (m.erase key).find? other = if other = key then none else m.find? other := by
  simp only [find?, erase, List.find?_filter]
  split
  · next h =>
    subst h
    simp
  · next h =>
    congr 2
    funext e
    by_cases he : e.1 = other
    · subst he; simp [h]
    · simp [he]

theorem find?_insert (m : TypedMap κ τ) (key other : String) (k : κ) (v : τ k) :
    (m.insert key k v).find? other = if other = key then some ⟨k, v⟩ else m.find? other := by
  by_cases h : other = key
  · subst h; simp [find?, insert]
  · have : (m.insert key k v).find? other = (m.erase key).find? other := by
      simp only [find?, insert, List.find?_cons]
      have hk : (key == other) = false := by simpa using fun hh : key = other => h hh.symm
      simp [hk]
    rw [this, find?_erase, if_neg h, if_neg h]

variable [DecidableEq κ]

/-- An update leaves at its key what the code made of the value, and all else as it was. -/
theorem find?_update {α : Type} (m : TypedMap κ τ) (key other : String) (k : κ)
    (f : τ k → τ k × Attempt α) :
    (m.update key k f).1.find? other =
      if other = key then
        match m.get? key k with
        | some v => some ⟨k, (f v).1⟩
        | none => m.find? key
      else m.find? other := by
  unfold update
  cases h : m.get? key k with
  | none => simp only; split <;> simp_all
  | some v => simp only [find?_insert]

/-- A fill changes nothing but a key that had no value, and that one only by a value in full. -/
theorem find?_getOrInsert (m : TypedMap κ τ) (key other : String) (k : κ)
    (init : Attempt (τ k)) :
    (m.getOrInsert key k init).1.find? other =
      match m.find? key, init with
      | none, .returned v => if other = key then some ⟨k, v⟩ else m.find? other
      | _, _ => m.find? other := by
  unfold getOrInsert
  cases h : m.find? key with
  | some v => rfl
  | none =>
      cases init with
      | returned v => simp only [find?_insert]
      | panicked text => rfl

end TypedMap

end Workflow
