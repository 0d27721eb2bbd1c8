import Workflow.Workbench.Command
import Workflow.Proofs.ByteOrder
import Mathlib

/-!
# A run state is one finite map

What an access to a shared map answers and leaves is what a finite map from keys to values with
their kinds would, for values of any types, and also when the caller's code panics halfway.

* **The reference.**  A `Reference` is a finite map, and `Reference.perform` says what each access
  does to it.  It knows of no lock and of no order of its entries.  A map may list its keys in
  another order than the reference: `MapReply.Agrees`.
* **One access.**  `SharedMap.view` forgets the lock and the order.  `SharedMap.perform_view`: what
  an access answers agrees with the reference's answer for the view, and the view of what it leaves
  is what the reference is left as.  A poisoned lock changes nothing (`SharedMap.recovered_eq`).
  `SharedMap.Sturdy` says what that means for values of another type and for code that panics.
* **Many accesses.**  `accessAll` makes accesses to several states, one after another in any order;
  `accessAll_view` is `perform_view` along the way.
* **Handles.**  On a workbench the handles of run states have names.  `Handles` says what becomes of
  them: a clone is another name for the same state, a new state is one of its own, and a dropped
  name takes no state with it.  A workbench that holds nothing but run states follows it
  (`Workbench.HoldsStates.execute?_handles`).

`SharedMap.as_finite_map` puts the last three together.
-/

namespace Workflow

open Text

variable {κ : Type} {τ : κ → Type} {ρ : Type}

/-! ## The reference -/

/-- Whether two answers are the same, but for the order in which keys are listed. -/
inductive MapReply.Agrees : MapReply κ τ ρ → MapReply κ τ ρ → Prop
  | keys {ks ks' : List String} (h : ks.Perm ks') : Agrees (.keys ks) (.keys ks')
  | same (r : MapReply κ τ ρ) : Agrees r r

/-- Whether two answers of a workbench are the same, but for the order in which keys are listed. -/
inductive Answer.Agrees : Answer → Answer → Prop
  | reply {r r' : StateReply} (h : r.Agrees r') : Agrees (.reply r) (.reply r')
  | same (a : Answer) : Agrees a a

/-- A finite map from keys to values with their kinds. -/
abbrev Reference (κ : Type) (τ : κ → Type) := Finmap fun _ : String => Sigma τ

namespace Reference

/-- Whether there is a value at a key, of whatever kind. -/
def contains (r : Reference κ τ) (key : String) : Bool :=
  (r.lookup key).isSome

/-- The keys that are present, each once, ascending by their bytes. -/
def sortedKeys (r : Reference κ τ) : List String :=
  r.keys.sort AscendsByBytes

variable [DecidableEq κ]

/-- The value at a key, when it is of kind `k`. -/
def get? (r : Reference κ τ) (key : String) (k : κ) : Option (τ k) :=
  (r.lookup key).bind (TypedMap.cast? k)

/-- What an access to a finite map answers, and the map that it leaves. -/
def perform (r : Reference κ τ) : MapOp κ τ ρ → MapReply κ τ ρ × Reference κ τ
  | .insert key v => (.flag (r.contains key), r.insert key v)
  | .get key k => (.value ((r.get? key k).map fun v => ⟨k, v⟩), r)
  | .contains key => (.flag (r.contains key), r)
  | .remove key => (.flag (r.contains key), r.erase key)
  | .len => (.count r.keys.card, r)
  | .isEmpty => (.flag (r.keys.card == 0), r)
  | .keys => (.keys r.sortedKeys, r)
  | .describe => (.text ("RunState \x7b keys: " ++ quotedList r.sortedKeys ++ " \x7d"), r)
  | .update key k f =>
      match r.get? key k with
      | some v => (.updated (some (f v).2), r.insert key ⟨k, (f v).1⟩)
      | none => (.updated none, r)
  | .getOrInsert key k init =>
      match r.lookup key, init with
      | some v, _ => (.obtained false ((TypedMap.cast? k v).map fun v => .returned ⟨k, v⟩), r)
      | none, .returned v => (.obtained true (some (.returned ⟨k, v⟩)), r.insert key ⟨k, v⟩)
      | none, .panicked text => (.obtained true (some (.panicked text)), r)

end Reference

/-! ## The finite map of a typed map -/

namespace TypedMap

/-- The entries of a map as an association list. -/
def toAList (m : TypedMap κ τ) : AList fun _ : String => Sigma τ where
  entries := m.entries.map fun e => ⟨e.1, e.2⟩
  nodupKeys := by
    simpa [List.NodupKeys, List.keys, Function.comp_def] using m.nodup

/-- The finite map that a map is, when the order of its entries is forgotten. -/
def view (m : TypedMap κ τ) : Reference κ τ :=
  m.toAList.toFinmap

lemma dlookup_entries (items : List (String × Sigma τ)) (key : String) :
    (items.map fun e => (⟨e.1, e.2⟩ : Σ _ : String, Sigma τ)).dlookup key =
      (items.find? fun e => e.1 == key).map (·.2) := by
  induction items with
  | nil => rfl
  | cons e es ih =>
      by_cases h : e.1 = key
      · subst h; simp
      · have hne : key ≠ e.1 := fun heq => h heq.symm
        simpa [List.dlookup_cons_ne _ (⟨e.1, e.2⟩ : Σ _ : String, Sigma τ) hne, h] using ih

@[simp]
lemma lookup_view (m : TypedMap κ τ) (key : String) : m.view.lookup key = m.find? key := by
  rw [view, Finmap.lookup_toFinmap]
  exact dlookup_entries m.entries key

lemma contains_eq (m : TypedMap κ τ) (key : String) : m.contains key = m.view.contains key := by
  rw [contains, Reference.contains, lookup_view]

@[simp]
lemma view_empty : (empty : TypedMap κ τ).view = ∅ := by
  apply Finmap.ext_lookup
  simp

@[simp]
lemma view_insert (m : TypedMap κ τ) (key : String) (v : Sigma τ) :
    (m.insert key v.1 v.2).view = m.view.insert key v := by
  apply Finmap.ext_lookup
  intro other
  by_cases h : other = key
  · subst h; simp [find?_insert]
  · simp [h, find?_insert, Finmap.lookup_insert_of_ne]

@[simp]
lemma view_erase (m : TypedMap κ τ) (key : String) : (m.erase key).view = m.view.erase key := by
  apply Finmap.ext_lookup
  intro other
  by_cases h : other = key
  · subst h; simp [find?_erase]
  · simp [h, find?_erase, Finmap.lookup_erase_ne]

lemma keys_view (m : TypedMap κ τ) : m.view.keys = (m.entries.map (·.1)).toFinset := by
  apply Finset.ext
  intro key
  rw [Finmap.mem_keys, view, Finmap.mem_toFinmap, AList.mem_keys]
  simp [AList.keys, toAList, List.keys]

/-- The size of a map is the number of its keys, none of which counts twice. -/
lemma size_eq (m : TypedMap κ τ) : m.size = m.view.keys.card := by
  rw [keys_view, List.toFinset_card_of_nodup m.nodup, List.length_map, size]

/-- The keys of a map are shown in the one way that their set can be shown. -/
lemma sortBy_keys (m : TypedMap κ τ) : sortBy textLE m.keys = m.view.sortedKeys := by
  rw [Reference.sortedKeys, keys_view, keys, sortBy_eq_sort m.nodup]

lemma perm_keys (m : TypedMap κ τ) : m.keys.Perm m.view.sortedKeys := by
  rw [← sortBy_keys]
  exact (perm_sortBy textLE m.keys).symm

variable [DecidableEq κ]

lemma get?_view (m : TypedMap κ τ) (key : String) (k : κ) :
    m.view.get? key k = m.get? key k := by
  simp [Reference.get?, get?]

end TypedMap

/-! ## One access -/

namespace SharedMap

/-- The finite map behind a lock. -/
def view (m : SharedMap κ τ) : Reference κ τ :=
  m.map.view

/-- Whoever takes the lock gets at the map, also when the lock is poisoned. -/
@[simp]
lemma recovered_eq (m : SharedMap κ τ) : m.recovered = m.map := by
  unfold recovered acquire
  cases m.isPoisoned <;> rfl

@[simp]
lemma view_empty : (empty : SharedMap κ τ).view = ∅ :=
  TypedMap.view_empty

lemma describe_eq (m : TypedMap κ τ) :
    describe m = "RunState \x7b keys: " ++ quotedList m.view.sortedKeys ++ " \x7d" :=
  congrArg (fun ks => "RunState \x7b keys: " ++ quotedList ks ++ " \x7d") m.sortBy_keys

variable [DecidableEq κ]

/-- Any other access than a listing of the keys answers just what the reference does. -/
lemma perform_view_eq (m : SharedMap κ τ) {op : MapOp κ τ ρ} (hop : op ≠ .keys) :
    Prod.map id view (m.perform op) = m.view.perform op := by
  cases op with
  | insert key v => simp [perform, write, view, Reference.perform, TypedMap.contains_eq]
  | get key k => simp [perform, read, view, Reference.perform, TypedMap.get?_view]
  | contains key => simp [perform, read, view, Reference.perform, TypedMap.contains_eq]
  | remove key => simp [perform, write, view, Reference.perform, TypedMap.contains_eq]
  | len => simp [perform, read, view, Reference.perform, TypedMap.size_eq]
  | isEmpty => simp [perform, read, view, Reference.perform, TypedMap.size_eq]
  | keys => exact absurd rfl hop
  | describe =>
      rw [perform, read, recovered_eq, describe_eq]
      rfl
  | update key k f =>
      simp only [perform, write, view, Reference.perform, TypedMap.get?_view, recovered_eq,
        TypedMap.update]
      cases m.map.get? key k with
      | none => rfl
      | some v => simp [view, TypedMap.view_insert m.map key ⟨k, (f v).1⟩]
  | getOrInsert key k init =>
      simp only [perform, write, view, Reference.perform, TypedMap.lookup_view, recovered_eq,
        TypedMap.getOrInsert]
      cases m.map.find? key with
      | some v => simp [view, Attempt.ofKind, Function.comp_def]
      | none =>
          cases init with
          | returned v => simp [view, Attempt.ofKind, TypedMap.view_insert m.map key ⟨k, v⟩]
          | panicked text => simp [view, Attempt.ofKind]

/-- An access answers as the reference does, and leaves what the reference is left as. -/
lemma perform_view (m : SharedMap κ τ) (op : MapOp κ τ ρ) :
    (m.perform op).1.Agrees (m.view.perform op).1 ∧
      (m.perform op).2.view = (m.view.perform op).2 := by
  by_cases hop : op = .keys
  · subst hop
    refine ⟨.keys ?_, rfl⟩
    rw [recovered_eq]
    exact m.map.perm_keys
  · rw [← m.perform_view_eq hop]
    exact ⟨.same _, rfl⟩

/-- What neither a value of another type nor code that panics can do to a map. -/
structure Sturdy (ρ : Type) (m : SharedMap κ τ) : Prop where
  /-- Whether the lock is poisoned changes neither the answer of an access nor the map it leaves. -/
  poisoned (op : MapOp κ τ ρ) (b : Bool) :
    ({ m with isPoisoned := b }.perform op).1 = (m.perform op).1 ∧
      ({ m with isPoisoned := b }.perform op).2.map = (m.perform op).2.map
  /-- At another type than the stored one nothing is read. -/
  get_other {key : String} {v : Sigma τ} {k : κ} (h : m.map.find? key = some v) (hk : v.1 ≠ k) :
    m.perform (ρ := ρ) (.get key k) = (.value none, m)
  /-- At another type than the stored one an update runs nothing and changes nothing. -/
  update_other {key : String} {v : Sigma τ} {k : κ} (h : m.map.find? key = some v) (hk : v.1 ≠ k)
    (f : τ k → τ k × Attempt ρ) : m.perform (.update key k f) = (.updated none, m)
  /-- At another type than the stored one a fill makes nothing and changes nothing. -/
  getOrInsert_other {key : String} {v : Sigma τ} {k : κ} (h : m.map.find? key = some v)
    (hk : v.1 ≠ k) (init : Attempt (τ k)) :
    m.perform (ρ := ρ) (.getOrInsert key k init) = (.obtained false none, m)
  /-- A panic while a value is made inserts nothing. -/
  getOrInsert_panicked (key : String) (k : κ) (text : String) :
    (m.perform (ρ := ρ) (.getOrInsert key k (.panicked text))).2.map = m.map
  /-- An update that panics leaves at its key what the value had become, and all else alone. -/
  update_panicked {key : String} {k : κ} {v v' : τ k} {f : τ k → τ k × Attempt ρ} {text : String}
    (h : m.map.get? key k = some v) (hf : f v = (v', .panicked text)) (other : String) :
    (m.perform (.update key k f)).2.map.find? other =
      if other = key then some ⟨k, v'⟩ else m.map.find? other

lemma sturdy (m : SharedMap κ τ) : m.Sturdy ρ where
  poisoned op b := by cases op <;> simp [perform, read, write]
  get_other h hk := by simp [perform, read, TypedMap.get?, h, TypedMap.cast?, hk]
  update_other h hk f := by
    simp [perform, write, TypedMap.update, TypedMap.get?, h, TypedMap.cast?, hk, MapReply.isPanic]
  getOrInsert_other h hk init := by
    simp [perform, write, TypedMap.getOrInsert, h, TypedMap.cast?, hk, MapReply.isPanic]
  getOrInsert_panicked key k text := by
    simp only [perform, write, TypedMap.getOrInsert, recovered_eq]
    cases m.map.find? key <;> rfl
  update_panicked h hf other := by
    simp [perform, write, TypedMap.update, h, hf, TypedMap.find?_insert]

end SharedMap

/-! ## Many accesses -/

/-- Makes accesses to states, one after another, and gives the answers with the states that are
left.  What one access to one state does is given by `perform`. -/
def accessAll {σ μ ω α : Type} [DecidableEq σ] (perform : μ → ω → α × μ) (states : σ → μ) :
    List (σ × ω) → List α × (σ → μ)
  | [] => ([], states)
  | (n, op) :: calls =>
      let (reply, m) := perform (states n) op
      let (replies, states) := accessAll perform (Function.update states n m) calls
      (reply :: replies, states)

lemma accessAll_view {σ : Type} [DecidableEq σ] [DecidableEq κ] (states : σ → SharedMap κ τ)
    (calls : List (σ × MapOp κ τ ρ)) :
    List.Forall₂ MapReply.Agrees (accessAll SharedMap.perform states calls).1
        (accessAll Reference.perform (SharedMap.view ∘ states) calls).1 ∧
      SharedMap.view ∘ (accessAll SharedMap.perform states calls).2 =
        (accessAll Reference.perform (SharedMap.view ∘ states) calls).2 := by
  induction calls generalizing states with
  | nil => exact ⟨.nil, rfl⟩
  | cons call calls ih =>
      obtain ⟨n, op⟩ := call
      obtain ⟨hreply, hleft⟩ := SharedMap.perform_view (states n) op
      obtain ⟨hreplies, hstates⟩ := ih (Function.update states n ((states n).perform op).2)
      rw [Function.comp_update, hleft] at hreplies hstates
      exact ⟨.cons hreply hreplies, hstates⟩

/-! ## Handles -/

/-- Something done with handles of run states, which are known by names. -/
inductive HandleCommand where
  | create (id : String)
  | clone (id of : String)
  /-- Are two names for one state? -/
  | same (h other : String)
  | drop (h : String)
  | access (h : String) (op : StateOp)

/-- The command for a workbench. -/
def HandleCommand.toCommand : HandleCommand → Command
  | create id => .newState id
  | clone id of => .cloneState id of
  | same h other => .sameState h other
  | drop h => .drop h
  | access h op => .access h op

/-- The names of handles with the states they are for, and the finite map that each state is. -/
structure Handles where
  names : String → Option Nat := fun _ => none
  states : List (Reference Kind Kind.Carrier) := []

namespace Handles

/-- Gives a name to a state, or takes the name away. -/
def name (b : Handles) (id : String) (number : Option Nat) : Handles :=
  { b with names := Function.update b.names id number }

/-- What a command answers, and the handles after it; nothing if a name is not there. -/
def execute? (b : Handles) : HandleCommand → Option (Answer × Handles)
  | .create id =>
      some (.nothing, { b with states := b.states ++ [∅] }.name id (some b.states.length))
  | .clone id of => (b.names of).map fun n => (.nothing, b.name id (some n))
  | .same h other => do return (.flag ((← b.names h) == (← b.names other)), b)
  | .drop h => some (.flag (b.names h).isSome, b.name h none)
  | .access h op =>
      (b.names h).map fun n =>
        let (reply, r) := (b.states.getD n ∅).perform op
        (.reply reply, { b with states := b.states.set n r })

/-- Carries out commands one after another, and gives the answers. -/
def executeAll? (b : Handles) : List HandleCommand → Option (List Answer)
  | [] => some []
  | c :: cs => do
      let (a, b) ← b.execute? c
      return a :: (← b.executeAll? cs)

end Handles

namespace Workbench

/-- Whether a workbench holds nothing but run states. -/
structure HoldsStates (b : Workbench) : Prop where
  objects : ∀ o ∈ b.objects, ∃ n, o.2 = .state n
  strays : b.strays = []
  timers : b.store.contexts.timers = []

/-- The handles of run states on a workbench. -/
def handles (b : Workbench) : Handles where
  names := b.state?
  states := b.store.states.map SharedMap.view

variable {b : Workbench}

lemma HoldsStates.find?_eq (h : b.HoldsStates) (id : String) :
    b.find? id = (b.state? id).map .state := by
  unfold state?
  cases hfind : b.find? id with
  | none => rfl
  | some o =>
      obtain ⟨p, hp, rfl⟩ := Option.map_eq_some_iff.mp hfind
      obtain ⟨n, hn⟩ := h.objects p (List.mem_of_find?_eq_some hp)
      simp [hn]

/-- With no timer and nobody waiting there is nothing to let go on. -/
lemma HoldsStates.settle_eq (h : b.HoldsStates) : b.settle = b := by
  have hquiet : b.isQuiet := by
    simp only [isQuiet, h.strays, h.timers, List.any_nil, Bool.not_false, Bool.true_and,
      Bool.and_true, Bool.not_eq_true', List.any_eq_false]
    rintro ⟨id, o⟩ ho
    obtain ⟨n, rfl⟩ := h.objects _ ho
    simp
  unfold settle
  cases b.store.contexts.timers.length + b.objects.length + b.strays.length with
  | zero => rfl
  | succ n => rw [settleIn, if_pos hquiet]

/-- Dropping a name takes nothing but the name. -/
lemma HoldsStates.remove_eq (h : b.HoldsStates) (id : String) :
    b.remove id = { b with objects := b.objects.filter fun p => p.1 != id } := by
  unfold remove
  cases hfind : b.find? id with
  | none =>
      have hall : b.objects.filter (fun p => p.1 != id) = b.objects := by
        rw [List.filter_eq_self]
        intro p hp
        have := List.find?_eq_none.mp (Option.map_eq_none_iff.mp hfind) p hp
        simpa using this
      rw [hall]
  | some o =>
      rw [h.find?_eq] at hfind
      obtain ⟨n, -, rfl⟩ := Option.map_eq_some_iff.mp hfind
      rfl

lemma HoldsStates.store_remove (h : b.HoldsStates) (id : String) :
    (b.remove id).store = b.store := by
  rw [h.remove_eq]

lemma HoldsStates.store_put (h : b.HoldsStates) (id : String) (o : Object) :
    (b.put id o).store = b.store := by
  rw [Workbench.put, h.remove_eq]

lemma HoldsStates.clock_put (h : b.HoldsStates) (id : String) (o : Object) :
    (b.put id o).store.clock = b.store.clock := by
  rw [h.store_put]

lemma HoldsStates.remove (h : b.HoldsStates) (id : String) : (b.remove id).HoldsStates := by
  rw [h.remove_eq]
  exact ⟨fun o ho => h.objects o (List.mem_of_mem_filter ho), h.strays, h.timers⟩

lemma HoldsStates.put (h : b.HoldsStates) (id : String) (n : Nat) :
    (b.put id (.state n)).HoldsStates := by
  refine ⟨fun o ho => ?_, (h.remove id).strays, (h.remove id).timers⟩
  simp only [Workbench.put, List.mem_append, List.mem_singleton] at ho
  rcases ho with ho | rfl
  · exact (h.remove id).objects o ho
  · exact ⟨n, rfl⟩

lemma HoldsStates.find?_remove (h : b.HoldsStates) (id other : String) :
    (b.remove id).find? other = if other = id then none else b.find? other := by
  rw [h.remove_eq]
  simp only [Workbench.find?, List.find?_filter]
  split_ifs with heq
  · subst heq
    simp
  · congr 2
    funext p
    by_cases hp : p.1 = other <;> simp [hp, heq]

lemma HoldsStates.find?_put (h : b.HoldsStates) (id other : String) (n : Nat) :
    (b.put id (.state n)).find? other =
      if other = id then some (.state n) else b.find? other := by
  have hput : (b.put id (.state n)).find? other =
      ((b.remove id).find? other).or (if id = other then some (.state n) else none) := by
    simp only [Workbench.find?, Workbench.put, List.find?_append, Option.map_or]
    by_cases heq : id = other <;> simp [heq]
  rw [hput, h.find?_remove]
  by_cases heq : other = id
  · simp [heq]
  · simp [heq, Ne.symm heq]

lemma HoldsStates.handles_remove (h : b.HoldsStates) (id : String) :
    (b.remove id).handles = b.handles.name id none := by
  have hnames : (b.remove id).state? = Function.update b.state? id none := by
    funext other
    simp only [state?, h.find?_remove, Function.update_apply]
    split_ifs <;> rfl
  simp only [handles, Handles.name, hnames, h.store_remove]

lemma HoldsStates.handles_put (h : b.HoldsStates) (id : String) (n : Nat) :
    (b.put id (.state n)).handles = b.handles.name id (some n) := by
  have hnames : (b.put id (.state n)).state? = Function.update b.state? id (some n) := by
    funext other
    simp only [state?, h.find?_put, Function.update_apply]
    split_ifs <;> rfl
  simp only [handles, Handles.name, hnames, h.store_put]

/-- The workbench with other run states. -/
def withStates (b : Workbench) (states : List RunState) : Workbench :=
  { b with store := { b.store with states } }

lemma HoldsStates.withStates (h : b.HoldsStates) (states : List RunState) :
    (b.withStates states).HoldsStates :=
  ⟨h.objects, h.strays, h.timers⟩

lemma handles_withStates (b : Workbench) (states : List RunState) :
    (b.withStates states).handles = { b.handles with states := states.map SharedMap.view } := rfl

/-- What a command does on the workbench it does to the handles, with an answer that agrees. -/
def Follows (b : Workbench) (c : HandleCommand) (r : Option (Answer × Workbench)) : Prop :=
  Option.Rel (fun p q => p.1.Agrees q.1 ∧ p.2.handles = q.2) r (b.handles.execute? c) ∧
    ∀ p ∈ r, p.2.HoldsStates ∧ p.2.store.clock = b.store.clock

/-- An answer that is the handles' own agrees with it. -/
lemma rel_of_map_eq {r : Option (Answer × Workbench)} {q : Option (Answer × Handles)}
    (h : r.map (Prod.map id handles) = q) :
    Option.Rel (fun p q => p.1.Agrees q.1 ∧ p.2.handles = q.2) r q := by
  subst h
  cases r with
  | none => exact .none
  | some p => exact .some ⟨.same _, rfl⟩

lemma HoldsStates.carryOut_handles (h : b.HoldsStates) (c : HandleCommand) :
    b.Follows c (b.carryOut c.toCommand) := by
  cases c with
  | create id =>
      have hmore := h.withStates (b.store.states ++ [.empty])
      refine ⟨rel_of_map_eq (congrArg (fun v => some (Answer.nothing, v)) ?_), ?_⟩
      · refine (hmore.handles_put id b.store.states.length).trans ?_
        simp only [handles_withStates, List.map_append, List.map_cons, List.map_nil,
          SharedMap.view_empty]
        simp [handles]
      · rintro p hp
        cases hp
        exact ⟨hmore.put id _, hmore.clock_put id _⟩
  | clone id of =>
      refine ⟨rel_of_map_eq ?_, ?_⟩
      · simp only [HandleCommand.toCommand, carryOut, Handles.execute?, handles, Option.map_map]
        cases b.state? of with
        | none => rfl
        | some n => exact congrArg (fun v => some (Answer.nothing, v)) (h.handles_put id n)
      · intro p hp
        obtain ⟨n, -, rfl⟩ := Option.map_eq_some_iff.mp hp
        exact ⟨h.put id n, h.clock_put id _⟩
  | same x other =>
      refine ⟨rel_of_map_eq ?_, ?_⟩
      · simp only [HandleCommand.toCommand, carryOut, Handles.execute?, handles]
        cases b.state? x <;> cases b.state? other <;> rfl
      · intro p hp
        simp only [HandleCommand.toCommand, carryOut] at hp
        cases hx : b.state? x <;> cases ho : b.state? other <;> simp [hx, ho] at hp
        subst hp
        exact ⟨h, rfl⟩
  | drop x =>
      refine ⟨rel_of_map_eq ?_, ?_⟩
      · simp only [HandleCommand.toCommand, carryOut, Handles.execute?, Option.map_some,
          Prod.map_apply, id_eq, h.handles_remove, h.find?_eq, Option.isSome_map]
        rfl
      · rintro p hp
        cases hp
        exact ⟨h.remove x, congrArg Store.clock (h.store_remove x)⟩
  | access x op =>
      refine ⟨?_, ?_⟩
      · simp only [HandleCommand.toCommand, carryOut, access, Handles.execute?, handles]
        cases b.state? x with
        | none => exact .none
        | some n =>
            have hview : (b.store.stateOf n).view =
                (b.store.states.map SharedMap.view).getD n ∅ := by
              simp only [Store.stateOf, List.getD_eq_getElem?_getD, List.getElem?_map]
              cases b.store.states[n]? <;> simp
            obtain ⟨hreply, hleft⟩ := SharedMap.perform_view (b.store.stateOf n) op
            rw [hview] at hreply hleft
            refine .some ⟨.reply hreply, ?_⟩
            simp only [← hleft, ← List.map_set]
            rfl
      · intro p hp
        obtain ⟨n, -, hp⟩ := Option.bind_eq_some_iff.mp hp
        cases hp
        exact ⟨h.withStates _, rfl⟩

/-- A command does on the workbench what it does to the handles, and its answer agrees. -/
lemma HoldsStates.execute?_handles (h : b.HoldsStates) (c : HandleCommand) :
    b.Follows c (b.execute? c.toCommand) := by
  obtain ⟨hsame, hkeeps⟩ := h.carryOut_handles c
  have hsettle : b.execute? c.toCommand = b.carryOut c.toCommand := by
    unfold execute?
    cases hc : b.carryOut c.toCommand with
    | none => rfl
    | some p => simp [(hkeeps p hc).1.settle_eq]
  rw [hsettle]
  exact ⟨hsame, hkeeps⟩

lemma HoldsStates.executeAll?_handles (h : b.HoldsStates) (cs : List HandleCommand) :
    Option.Rel (List.Forall₂ fun p a => p.1.Agrees a ∧ p.2 = b.store.clock)
      (b.executeAll? (cs.map HandleCommand.toCommand)) (b.handles.executeAll? cs) := by
  induction cs generalizing b with
  | nil => exact .some .nil
  | cons c cs ih =>
      obtain ⟨hrel, hkeeps⟩ := h.execute?_handles c
      simp only [List.map_cons, executeAll?, Handles.executeAll?, Option.bind_eq_bind]
      -- Both sides go on, or a name is missing on both.
      generalize hp : b.execute? c.toCommand = p at hrel hkeeps
      generalize b.handles.execute? c = q at hrel
      cases hrel with
      | none => exact .none
      | @some p q hpq =>
          obtain ⟨hanswer, hhandles⟩ := hpq
          obtain ⟨holds, hclock⟩ := hkeeps p rfl
          have hrest := ih holds
          rw [hhandles, hclock] at hrest
          simp only [Option.bind_some]
          generalize p.2.executeAll? (cs.map HandleCommand.toCommand) = answers at hrest
          generalize q.2.executeAll? cs = answers' at hrest
          cases hrest with
          | none => exact .none
          | some hall => exact .some (.cons ⟨hanswer, hclock⟩ hall)

end Workbench

/-! ## All together -/

/-- A run state is one finite map.

* For values of any types, states and accesses to them: what the accesses answer is what a finite
  map for each state answers, but for the order in which keys are listed, and the states are left as
  these maps are.
* Values of another type and code that panics do no harm.
* On a workbench, with handles made, cloned, compared, dropped and used in any order: every answer
  is the one that a finite map for each state gives, again but for the order of keys. -/
theorem SharedMap.as_finite_map :
    (∀ (κ : Type) (τ : κ → Type) (ρ σ : Type) [DecidableEq κ] [DecidableEq σ]
      (states : σ → SharedMap κ τ) (calls : List (σ × MapOp κ τ ρ)),
      List.Forall₂ MapReply.Agrees (accessAll SharedMap.perform states calls).1
          (accessAll Reference.perform (SharedMap.view ∘ states) calls).1 ∧
        SharedMap.view ∘ (accessAll SharedMap.perform states calls).2 =
          (accessAll Reference.perform (SharedMap.view ∘ states) calls).2) ∧
    (∀ (κ : Type) (τ : κ → Type) (ρ : Type) [DecidableEq κ] (m : SharedMap κ τ), m.Sturdy ρ) ∧
    ∀ cs : List HandleCommand,
      Option.Rel (List.Forall₂ fun p a => p.1.Agrees a ∧ p.2 = 0)
        (({} : Workbench).executeAll? (cs.map HandleCommand.toCommand))
        (({} : Handles).executeAll? cs) := by
  refine ⟨fun κ τ ρ σ _ _ => accessAll_view, fun κ τ ρ _ m => m.sturdy, fun cs => ?_⟩
  have hempty : ({} : Workbench).HoldsStates := ⟨by simp, rfl, rfl⟩
  exact hempty.executeAll?_handles cs

end Workflow
