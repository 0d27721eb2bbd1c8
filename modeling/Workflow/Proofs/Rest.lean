import Workflow.Proofs.Custody

/-!
# What a process is the rest of

A process is the rest of a run of some action under some surroundings, and the trace knows about it:
that is `Proc.RestOf`.  It follows the data.  A leaf stopped somewhere in the body of the action; a
linear run stands at one of the children, all before it have succeeded, and its chronicle says so; a
concurrent run has given tasks to the first children and holds the others back, its chronicle has
the stages of the children, and its free slots and its children that have not ended make up the
limit (`Dispatch.Accounts`).

The relation is about the runs that the process holds and about nothing else of the store
(`Proc.RestOf.congr`).
-/

namespace Workflow

/-! ## Actions and bodies -/

/-- An action without the names and pointers around it. -/
def Action.bare : Action → Action
  | .named _ inner => inner.bare
  | .boxed inner => inner.bare
  | a => a

/-- The body comes to a point where `b` is what it does from there on. -/
inductive Body.LeadsTo (b₀ : Body) : Body → Prop where
  | refl : LeadsTo b₀ b₀
  | reply {e : Effect} {k : e.Reply → Body} (h : LeadsTo b₀ (.ask e k)) (r : e.Reply) :
      LeadsTo b₀ (k r)
  | giveWay {k : Body} (h : LeadsTo b₀ (.giveWay k)) : LeadsTo b₀ k
  | guard {g : Guard} {k : Body} (h : LeadsTo b₀ (.guard g k)) : LeadsTo b₀ k
  | ran {a : Action} {u : Under} {k : Option Failure → Body} (h : LeadsTo b₀ (.run a u k))
      (f : Option Failure) : LeadsTo b₀ (k f)

/-! ## Surroundings -/

/-- The surroundings of the body of a leaf that was started under `env`: the same, but for the run
state of a function of the context alone. -/
structure Env.OfLeaf (env : Env) (kind : LeafKind) (own : Env) : Prop where
  context : own.context = env.context
  same : kind ≠ .contextFunction → own = env

/-- The surroundings of the children of a run that was started under `env`: the same, but that the
children of a throttled run have a context of their own, which follows that of the run. -/
def Env.OfChildren (env : Env) (slots : Option Nat) (own : Env) : Prop :=
  match slots with
  | none => own = env
  | some _ => ∃ n, own =
      { env with context := { env.context with token := ⟨n, env.context.token.path⟩ } }

/-! ## The runs that a process holds -/

mutual

/-- The runs whose code a process is, or the code of a task below it. -/
def Proc.runs : Proc → List Nat
  | .leaf _ _ _ => []
  | .within _ _ _ inner _ => inner.runs
  | .linear run _ _ _ current _ => run :: current.runs
  | .concurrent d children => d.run :: runsAmong children

/-- The runs that children hold. -/
def runsAmong : List Child → List Nat
  | [] => []
  | c :: rest => c.runs ++ runsAmong rest

/-- The runs that a child holds. -/
def Child.runs : Child → List Nat
  | .running _ _ p => p.runs
  | _ => []

end

/-- The run that a process is the code of, when it is that of a runner. -/
def Proc.run? : Proc → Option Nat
  | .linear run _ _ _ _ _ => some run
  | .concurrent d _ => some d.run
  | _ => none

/-- The run that an action begins when it is started and the next run has the given number. -/
def Action.run? (a : Action) (number : Nat) : Option Nat :=
  a.bare.children?.map fun _ => number

@[simp] lemma runsAmong_append (cs cs' : List Child) :
    runsAmong (cs ++ cs') = runsAmong cs ++ runsAmong cs' := by
  induction cs with
  | nil => rfl
  | cons c cs ih => simp [runsAmong, ih]

lemma mem_runsAmong {r : Nat} {cs : List Child} :
    r ∈ runsAmong cs ↔ ∃ c ∈ cs, r ∈ c.runs := by
  induction cs with
  | nil => simp [runsAmong]
  | cons c cs ih => simp [runsAmong, ih]

/-- A child that holds a run is running. -/
lemma Child.exists_running {r : Nat} {c : Child} (hr : r ∈ c.runs) :
    ∃ task name p, c = .running task name p ∧ r ∈ p.runs := by
  cases c with
  | running task name p => exact ⟨task, name, p, rfl, hr⟩
  | spawned | ended | lost => cases hr

lemma runsAmong_eq_nil {cs : List Child} (h : ∀ c ∈ cs, c.isLive = false) : runsAmong cs = [] := by
  refine List.eq_nil_iff_forall_not_mem.mpr fun r hr => ?_
  obtain ⟨c, hc, hr⟩ := mem_runsAmong.mp hr
  have := h c hc
  cases c <;> simp_all [Child.runs, Child.isLive, Child.task?]

/-- Tasks that have not run yet hold no runs. -/
lemma runsAmong_spawned {cs : List Child} (h : ∀ c ∈ cs, ∃ task a, c = .spawned task a) :
    runsAmong cs = [] := by
  refine List.eq_nil_iff_forall_not_mem.mpr fun r hr => ?_
  obtain ⟨c, hc, hr⟩ := mem_runsAmong.mp hr
  obtain ⟨task, a, rfl⟩ := h c hc
  exact absurd hr List.not_mem_nil

/-! ## Concurrent runs -/

/-- A child that stands in the place of the action `c`. -/
def Child.Fits (c : Action) : Child → Prop
  | .spawned _ a => a = c
  | .running _ name _ => name = c.name
  | .ended name _ => name = c.name
  | .lost _ => False

/-- The failure that the end of a child counts as. -/
def Child.failure? (c : Child) : Option Failure :=
  c.verdict?.join

/-- The state of a concurrent run over the actions `cs` with so many `slots`, started under `env`:
what the dispatcher remembers, the children that were given tasks, and what the trace says. -/
structure Dispatch.Accounts (s : Store) (env : Env) (runner : Action) (slots : Option Nat)
    (cs : List Action) (d : Dispatch) (children : List Child) : Prop where
  chronicle : s.chronicle? d.run = some
    { runner
      scope := if slots.isSome then some d.env.context else none
      stages := children.map Child.stage }
  surroundings : env.OfChildren slots d.env
  length_le : children.length ≤ cs.length
  slots_le : ∀ n, slots = some n → n ≤ maxSlots
  queue : d.queue = cs.drop children.length
  whole : slots = none → d.queue = []
  /-- The free slots and the children that have not ended make up all slots. -/
  free : d.gate.map (· + children.countP Child.isLive) = slots
  fits : ∀ (i : Nat) child c, children[i]? = some child → cs[i]? = some c → child.Fits c
  /-- The children whose ends have been collected, and the first failure among them. -/
  collected : ∃ done rest, children = done ++ rest ∧ done.length = d.collected ∧
    (∀ c ∈ done, c.isLive = false) ∧ d.failure = done.findSome? Child.failure?

/-! ## The rest of an action -/

/-- What is left of a run of the action `a` that was started under `env`. -/
inductive Proc.RestOf (s : Store) : Env → Action → Proc → Prop where
  | leaf {env own : Env} {a : Action} {kind : LeafKind} {name : String} {b₀ b : Body}
      {guards : List Guard} (bare : a.bare = .leaf kind name b₀) (leads : b₀.LeadsTo b)
      (surroundings : env.OfLeaf kind own) : RestOf s env a (.leaf own guards b)
  | within {env own : Env} {a inner : Action} {kind : LeafKind} {name : String} {b₀ : Body}
      {guards : List Guard} {handle : Option Nat} {under : Under} {k : Option Failure → Body}
      {p : Proc} (before : Store) (bare : a.bare = .leaf kind name b₀)
      (leads : b₀.LeadsTo (.run inner under k)) (surroundings : env.OfLeaf kind own)
      (rest : RestOf s (before.enter own under).1 inner p) :
      RestOf s env a (.within own guards handle p k)
  | linear {env : Env} {a c : Action} {before after : List Action} {run index : Nat}
      {name : String} {p : Proc} (bare : a.bare = .linear (before ++ c :: after))
      (place : before.length = index) (called : name = c.name)
      (chronicle : s.chronicle? run = some
        { runner := a.bare, stages := List.replicate index (.ended .done) ++ [.running] })
      (rest : RestOf s env c p) : RestOf s env a (.linear run env index name p after)
  | concurrent {env : Env} {a : Action} {slots : Option Nat} {cs : List Action} {d : Dispatch}
      {children : List Child} (bare : a.bare.dispatch? = some (slots, cs))
      (node : d.Accounts s env a.bare slots cs children)
      (below : ∀ (i : Nat) task name p c, children[i]? = some (.running task name p) →
        cs[i]? = some c → RestOf s d.env c p) :
      RestOf s env a (.concurrent d children)

/-- Names and pointers around an action make no difference. -/
lemma Proc.RestOf.of_bare {s : Store} {env : Env} {a a' : Action} {p : Proc}
    (h : p.RestOf s env a) (hb : a'.bare = a.bare) : p.RestOf s env a' := by
  cases h with
  | leaf bare leads surroundings => exact .leaf (hb.trans bare) leads surroundings
  | within before bare leads surroundings rest =>
      exact .within before (hb.trans bare) leads surroundings rest
  | linear bare place called chronicle rest =>
      exact .linear (hb.trans bare) place called (by rw [hb]; exact chronicle) rest
  | concurrent bare node below =>
      exact .concurrent (by rw [hb]; exact bare) (by rw [hb]; exact node) below

lemma Dispatch.Accounts.congr {s s' : Store} {env : Env} {runner : Action} {slots : Option Nat}
    {cs : List Action} {d : Dispatch} {children : List Child}
    (h : d.Accounts s env runner slots cs children) (notes : s'.notes d.run = s.notes d.run) :
    d.Accounts s' env runner slots cs children :=
  { h with chronicle := by rw [Store.chronicle?_congr notes]; exact h.chronicle }

/-- Every child stands in the place of an action. -/
lemma Dispatch.Accounts.getElem? {s : Store} {env : Env} {runner : Action} {slots : Option Nat}
    {cs : List Action} {d : Dispatch} {children : List Child}
    (node : d.Accounts s env runner slots cs children) {i : Nat} {child : Child}
    (hchild : children[i]? = some child) : ∃ c, cs[i]? = some c := by
  have hi : i < children.length := (List.getElem?_eq_some_iff.mp hchild).1
  exact ⟨_, List.getElem?_eq_getElem (hi.trans_le node.length_le)⟩

/-- The relation is about the runs that the process holds. -/
theorem Proc.RestOf.congr {s s' : Store} {env : Env} {a : Action} {p : Proc}
    (h : p.RestOf s env a) (notes : ∀ r ∈ p.runs, s'.notes r = s.notes r) :
    p.RestOf s' env a := by
  induction h with
  | leaf bare leads surroundings => exact .leaf bare leads surroundings
  | within before bare leads surroundings _ ih =>
      exact .within before bare leads surroundings (ih notes)
  | linear bare place called chronicle _ ih =>
      simp only [Proc.runs, List.mem_cons, forall_eq_or_imp] at notes
      refine .linear bare place called ?_ (ih notes.2)
      rw [Store.chronicle?_congr notes.1]; exact chronicle
  | concurrent bare node _ ih =>
      simp only [Proc.runs, List.mem_cons, forall_eq_or_imp] at notes
      refine .concurrent bare (node.congr notes.1) ?_
      intro i task name p c hchild hc
      refine ih i task name p c hchild hc fun r hr => notes.2 r ?_
      exact mem_runsAmong.mpr ⟨_, List.mem_of_getElem? hchild, hr⟩

end Workflow
