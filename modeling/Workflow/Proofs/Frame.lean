import Workflow.Proofs.Alone

/-!
# What code leaves as it was

Code that runs only ever adds to what it found.  It lets go of no handle but its own, starts timers
only for tokens of its own, and neither takes back a cancellation nor a line of a log.

`Contexts.Adds` and `Store.Adds` say so of a piece of code all of whose handles have numbers from
`base` on, and `Proc.Owns` of a process that its handles do.  One law for each operation leads to
those for whatever code runs (`Action.start_added`, `Proc.resume_added`, `Proc.resumeAt_added`), and
these to **`World.Suits.reachable`**: what becomes of a world while an action is run in it.
-/

namespace Workflow

open Store

/-! ## Ledgers -/

/-- Everything that the ledger speaks of was made. -/
structure Contexts.Sound (base : Nat) (x : Contexts) : Prop where
  base_le : base ≤ x.supply
  held_lt : ∀ h ∈ x.held, h.1 < x.supply
  kept_lt : ∀ h ∈ x.held, ∀ n ∈ h.2.timers, n < x.supply
  running_lt : ∀ t ∈ x.timers, t.token.number < x.supply
  cancelled_lt : ∀ n ∈ x.cancelled, n < x.supply

/-- The context is among those that were made while numbers up to `supply` were given. -/
structure Context.IsMade (c : Context) (supply : Nat) : Prop where
  number_lt : c.token.number < supply
  timers_lt : ∀ n ∈ c.timers, n < supply

lemma Context.IsMade.mono {c : Context} {supply supply' : Nat} (h : c.IsMade supply)
    (le : supply ≤ supply') : c.IsMade supply' :=
  ⟨h.number_lt.trans_le le, fun n hn => (h.timers_lt n hn).trans_le le⟩

/-- What code does to a ledger that has made its handles from the number `base` on. -/
structure Contexts.Adds (base : Nat) (x y : Contexts) : Prop where
  sound : y.Sound base
  clock : y.clock = x.clock
  supply_le : x.supply ≤ y.supply
  held : ∀ h ∈ x.held, h.1 < base → h ∈ y.held
  new : ∀ h ∈ y.held, h ∈ x.held ∨ x.supply ≤ h.1
  timers : ∀ t ∈ y.timers, t ∈ x.timers ∨ x.supply ≤ t.token.number
  cancelled : ∀ n ∈ x.cancelled, n ∈ y.cancelled

namespace Contexts.Adds

variable {base : Nat} {x y z : Contexts} {c : Context}

lemma refl (h : x.Sound base) : x.Adds base x :=
  ⟨h, rfl, le_refl _, fun _ h _ => h, fun _ => .inl, fun _ => .inl, fun _ h => h⟩

lemma trans (h : x.Adds base y) (h' : y.Adds base z) : x.Adds base z where
  sound := h'.sound
  clock := h'.clock.trans h.clock
  supply_le := h.supply_le.trans h'.supply_le
  held p hp lt := h'.held p (h.held p hp lt) lt
  new p hp := (h'.new p hp).elim (h.new p) fun le => .inr (h.supply_le.trans le)
  timers t ht := (h'.timers t ht).elim (h.timers t) fun le => .inr (h.supply_le.trans le)
  cancelled n hn := h'.cancelled n (h.cancelled n hn)

lemma hold (h : x.Sound base) (made : c.IsMade x.supply) : x.Adds base (x.hold c).2 where
  sound := {
    base_le := h.base_le.trans (Nat.le_succ _)
    held_lt := List.forall_mem_cons.mpr
      ⟨Nat.lt_succ_self _, fun _ hp => (h.held_lt _ hp).trans (Nat.lt_succ_self _)⟩
    kept_lt := List.forall_mem_cons.mpr
      ⟨fun n hn => (made.timers_lt n hn).trans (Nat.lt_succ_self _),
        fun p hp n hn => (h.kept_lt p hp n hn).trans (Nat.lt_succ_self _)⟩
    running_lt := fun t ht => (h.running_lt t ht).trans (Nat.lt_succ_self _)
    cancelled_lt := fun n hn => (h.cancelled_lt n hn).trans (Nat.lt_succ_self _) }
  clock := rfl
  supply_le := Nat.le_succ _
  held _ hp _ := List.mem_cons_of_mem _ hp
  new _ hp := (List.mem_cons.mp hp).elim (fun heq => .inr (heq ▸ le_refl _)) .inl
  timers _ := .inl
  cancelled _ hn := hn

lemma child (h : x.Sound base) (made : c.IsMade x.supply) :
    x.Adds base (x.child c).2 ∧ (x.child c).1.IsMade (x.child c).2.supply := by
  refine ⟨⟨⟨h.base_le.trans (Nat.le_succ _), fun p hp => ?_, fun p hp n hn => ?_, fun t ht => ?_,
    fun n hn => ?_⟩, rfl, Nat.le_succ _, fun _ h _ => h, fun _ => .inl, fun _ => .inl,
    fun _ h => h⟩, Nat.lt_succ_self _, fun n hn => ?_⟩
  · exact (h.held_lt p hp).trans (Nat.lt_succ_self _)
  · exact (h.kept_lt p hp n hn).trans (Nat.lt_succ_self _)
  · exact (h.running_lt t ht).trans (Nat.lt_succ_self _)
  · exact (h.cancelled_lt n hn).trans (Nat.lt_succ_self _)
  · exact (made.timers_lt n hn).trans (Nat.lt_succ_self _)

lemma withDeadline (h : x.Sound base) (made : c.IsMade x.supply) (deadline : Nat) :
    x.Adds base (x.withDeadline c deadline).2 ∧
      (x.withDeadline c deadline).1.IsMade (x.withDeadline c deadline).2.supply := by
  refine ⟨⟨⟨h.base_le.trans (Nat.le_succ _), fun p hp => ?_, fun p hp n hn => ?_, ?_,
    fun n hn => ?_⟩, rfl, Nat.le_succ _, fun _ h _ => h, fun _ => .inl, ?_, fun _ h => h⟩,
    Nat.lt_succ_self _, ?_⟩
  · exact (h.held_lt p hp).trans (Nat.lt_succ_self _)
  · exact (h.kept_lt p hp n hn).trans (Nat.lt_succ_self _)
  · exact List.forall_mem_append.mpr
      ⟨fun t ht => (h.running_lt t ht).trans (Nat.lt_succ_self _),
        List.forall_mem_singleton.mpr (Nat.lt_succ_self _)⟩
  · exact (h.cancelled_lt n hn).trans (Nat.lt_succ_self _)
  · exact List.forall_mem_append.mpr
      ⟨fun t ht => .inl ht, List.forall_mem_singleton.mpr (.inr (le_refl _))⟩
  · exact List.forall_mem_cons.mpr
      ⟨Nat.lt_succ_self _, fun n hn => (made.timers_lt n hn).trans (Nat.lt_succ_self _)⟩

lemma release (h : x.Sound base) {handle : Nat} (mine : base ≤ handle) :
    x.Adds base (x.release handle) where
  sound := {
    base_le := by rw [supply_release]; exact h.base_le
    held_lt := fun p hp => by
      rw [supply_release]; exact h.held_lt p (mem_held_release.mp hp).1
    kept_lt := fun p hp => by
      rw [supply_release]; exact h.kept_lt p (mem_held_release.mp hp).1
    running_lt := by rw [timers_release, supply_release]; exact h.running_lt
    cancelled_lt := fun n hn => by
      rw [supply_release]
      rcases mem_cancelled_release.mp hn with hn | ⟨c, hc, hn, -⟩
      · exact h.cancelled_lt n hn
      · exact h.kept_lt _ (mem_held_of_find? hc) n hn }
  clock := clock_release _ _
  supply_le := (supply_release _ _).ge
  held p hp lt := mem_held_release.mpr ⟨hp, by omega⟩
  new p hp := .inl (mem_held_release.mp hp).1
  timers t ht := .inl (timers_release _ _ ▸ ht)
  cancelled n hn := mem_cancelled_release.mpr (.inl hn)

lemma cancel (h : x.Sound base) (made : c.IsMade x.supply) : x.Adds base (x.cancel c.token) where
  sound := { h with
    cancelled_lt := List.forall_mem_cons.mpr ⟨made.number_lt, h.cancelled_lt⟩ }
  clock := rfl
  supply_le := le_refl _
  held _ hp _ := hp
  new _ := .inl
  timers _ := .inl
  cancelled _ := List.mem_cons_of_mem _

end Contexts.Adds

/-! ## Stores -/

/-- What code does to a store that has made its handles from the number `base` on. -/
structure Store.Adds (base : Nat) (s s' : Store) : Prop where
  contexts : s.contexts.Adds base s'.contexts
  states_le : s.states.length ≤ s'.states.length
  isOpen : s'.closed = s.closed
  log : s.log.toList <+: s'.log.toList
  calls : s.calls.calls.toList <+: s'.calls.calls.toList

namespace Store.Adds

variable {base : Nat} {s s' s'' : Store} {env : Env} {c : Context}

lemma trans (h : s.Adds base s') (h' : s'.Adds base s'') : s.Adds base s'' where
  contexts := h.contexts.trans h'.contexts
  states_le := h.states_le.trans h'.states_le
  isOpen := h'.isOpen.trans h.isOpen
  log := h.log.trans h'.log
  calls := h.calls.trans h'.calls

/-- Nothing but the ledger changes, and what nobody here speaks of. -/
lemma ledger {x : Contexts} (h : s.contexts.Adds base x) (contexts : s'.contexts = x)
    (states : s'.states.length = s.states.length) (isOpen : s'.closed = s.closed)
    (log : s'.log = s.log) (calls : s'.calls.calls = s.calls.calls) : s.Adds base s' :=
  ⟨contexts ▸ h, states.ge, isOpen, log ▸ List.prefix_rfl, calls ▸ List.prefix_rfl⟩

lemma refl (h : s.contexts.Sound base) : s.Adds base s :=
  .ledger (.refl h) rfl rfl rfl rfl rfl

lemma mark (h : s.contexts.Sound base) (run : Nat) (m : Mark) : s.Adds base (s.mark run m) :=
  .ledger (.refl h) rfl rfl rfl rfl rfl

lemma report (h : s.contexts.Sound base) (run : Nat) (event : Event) :
    s.Adds base (s.report run event) :=
  .mark h run (.event event)

lemma newRun (h : s.contexts.Sound base) (a : Action) (event : Event) :
    s.Adds base ((s.newRun a).2.report s.runs event) :=
  .ledger (.refl h) rfl rfl rfl rfl rfl

lemma newState (h : s.contexts.Sound base) (m : RunState) : s.Adds base (s.newState m).2 where
  contexts := .refl h
  states_le := by simp [Store.newState]
  isOpen := rfl
  log := List.prefix_rfl
  calls := List.prefix_rfl

lemma newTask (h : s.contexts.Sound base) (made : c.IsMade s.contexts.supply) :
    s.Adds base (s.newTask c).2 :=
  .ledger (.hold h made) rfl rfl rfl rfl rfl

lemma endTask (h : s.contexts.Sound base) {task : Nat} (mine : base ≤ task) :
    s.Adds base (s.endTask task) :=
  .ledger (.release h mine) rfl rfl rfl rfl rfl

lemma cancel (h : s.contexts.Sound base) (made : c.IsMade s.contexts.supply) :
    s.Adds base (s.cancel c) :=
  .ledger (.cancel h made) rfl rfl rfl rfl rfl

lemma leave (h : s.contexts.Sound base) {handle : Option Nat} (mine : ∀ n ∈ handle, base ≤ n) :
    s.Adds base (s.leave handle) := by
  cases handle with
  | none => exact .refl h
  | some handle => exact endTask h (mine handle rfl)

lemma raiseGuard (h : s.contexts.Sound base) (g : Guard) : s.Adds base (s.raiseGuard g) := by
  cases g <;> exact .ledger (.refl h) rfl rfl rfl rfl rfl

lemma writeLog (h : s.contexts.Sound base) (line : String) : s.Adds base (s.writeLog line) where
  contexts := .refl h
  states_le := le_refl _
  isOpen := rfl
  log := by simp [Store.writeLog]
  calls := List.prefix_rfl

lemma endGuards (h : s.contexts.Sound base) (gs : List Guard) : s.Adds base (s.endGuards gs) := by
  induction gs generalizing s with
  | nil => exact .refl h
  | cons g gs ih =>
      have hguard : s.Adds base (s.endGuard g) := by
        cases g with
        | note name => exact .writeLog h _
        | inFlight => exact .ledger (.refl h) rfl rfl rfl rfl rfl
      exact hguard.trans (ih hguard.contexts.sound)

/-- A body that runs an action hands it a context that was made, and holds it if it has to. -/
lemma enter (h : s.contexts.Sound base) (made : env.context.IsMade s.contexts.supply)
    (under : Under) : s.Adds base (s.enter env under).2.2 ∧
      (s.enter env under).1.context.IsMade (s.enter env under).2.2.contexts.supply ∧
      ∀ n ∈ (s.enter env under).2.1, base ≤ n := by
  cases under with
  | same => exact ⟨.refl h, made, by simp [Store.enter]⟩
  | child =>
      obtain ⟨hadds, hmade⟩ := Contexts.Adds.child h made
      exact ⟨.ledger hadds rfl rfl rfl rfl rfl, hmade, by simp [Store.enter]⟩
  | timeout ms =>
      obtain ⟨hadds, hmade⟩ := Contexts.Adds.withDeadline h made (s.clock + ms)
      have hhold := Contexts.Adds.hold hadds.sound hmade
      refine ⟨.ledger (hadds.trans hhold) rfl rfl rfl rfl rfl, hmade.mono hhold.supply_le, ?_⟩
      rintro n ⟨⟩
      exact hadds.sound.base_le

lemma perform? (h : s.contexts.Sound base) (made : env.context.IsMade s.contexts.supply)
    {e : Effect} {reply : e.Reply} (granted : s.perform? env e = some (reply, s')) :
    s.Adds base s' := by
  cases e <;> simp only [Store.perform?, Option.some.injEq, Prod.mk.injEq] at granted
  case clock | deadline | isCancelled => obtain ⟨-, rfl⟩ := granted; exact .refl h
  case cancel => obtain ⟨-, rfl⟩ := granted; exact .cancel h made
  case log line => obtain ⟨-, rfl⟩ := granted; exact .writeLog h line
  case record name =>
    obtain ⟨-, rfl⟩ := granted
    exact ⟨.refl h, le_refl _, rfl, List.prefix_rfl, by simp [CallLog.record]⟩
  case state =>
    obtain ⟨-, rfl⟩ := granted
    exact .ledger (.refl h) rfl (by simp) rfl rfl rfl
  case settle cell how =>
    obtain ⟨hlog, hcalls, hstates⟩ := s.suffer_eq (.settle cell how)
    have hs' : s' = s.suffer (.settle cell how) := by rw [suffer, granted]
    rw [hs']
    exact .ledger (.refl h) (contexts_settle s cell how) (congrArg _ hstates)
      (s.sameRuns_suffer _).closed hlog (congrArg _ hcalls)
  case await =>
    obtain ⟨v, -, hv⟩ := Option.map_eq_some_iff.mp granted
    cases hv
    exact .refl h
  all_goals
    split_ifs at granted <;> cases granted <;> exact .refl h

end Store.Adds

/-! ## Code and its handles -/

/-- The process was handed contexts that were made, and all its handles have numbers from `base`
on. -/
inductive Proc.Owns (base supply : Nat) : Proc → Prop where
  | leaf {env : Env} {guards : List Guard} {body : Body} (made : env.context.IsMade supply) :
      Owns base supply (.leaf env guards body)
  | within {env : Env} {guards : List Guard} {handle : Option Nat} {p : Proc}
      {next : Option Failure → Body} (made : env.context.IsMade supply)
      (mine : ∀ n ∈ handle, base ≤ n) (inner : Owns base supply p) :
      Owns base supply (.within env guards handle p next)
  | linear {run : Nat} {env : Env} {index : Nat} {name : String} {p : Proc} {rest : List Action}
      (made : env.context.IsMade supply) (current : Owns base supply p) :
      Owns base supply (.linear run env index name p rest)
  | concurrent {d : Dispatch} {children : List Child} (made : d.env.context.IsMade supply)
      (mine : ∀ child ∈ children, ∀ task, child.task? = some task → base ≤ task)
      (below : ∀ task name p, .running task name p ∈ children → Owns base supply p) :
      Owns base supply (.concurrent d children)

/-- The task of a child has such a number, and so have the handles of its process. -/
def Child.Owns (base supply : Nat) : Child → Prop
  | .spawned task _ => base ≤ task
  | .running task _ p => base ≤ task ∧ p.Owns base supply
  | _ => True

/-- Code that has gone on from the store `s` has added to it, and stops with handles of its own. -/
def Added (base : Nat) (s : Store) : Store × Progress → Prop
  | (s', .paused p) => s.Adds base s' ∧ p.Owns base s'.contexts.supply
  | (s', .ended _) => s.Adds base s'

section

variable {base supply supply' : Nat} {s s' : Store} {p : Proc} {d : Dispatch}
  {children : List Child} {out : Store × Progress} {env : Env}

lemma Proc.owns_concurrent : (Proc.concurrent d children).Owns base supply ↔
    d.env.context.IsMade supply ∧ ∀ child ∈ children, child.Owns base supply := by
  constructor
  · intro h
    cases h with
    | concurrent made mine below =>
        refine ⟨made, fun child hchild => ?_⟩
        cases child with
        | spawned task a => exact mine _ hchild task rfl
        | running task name p => exact ⟨mine _ hchild task rfl, below task name p hchild⟩
        | ended | lost => trivial
  · rintro ⟨made, owns⟩
    refine .concurrent made (fun child hchild task ht => ?_) fun task name p hp => (owns _ hp).2
    cases child with
    | spawned => cases ht; exact owns _ hchild
    | running => cases ht; exact (owns _ hchild).1
    | ended | lost => cases ht

lemma Proc.Owns.mono (h : p.Owns base supply) (le : supply ≤ supply') : p.Owns base supply' := by
  induction h with
  | leaf made => exact .leaf (made.mono le)
  | within made mine _ ih => exact .within (made.mono le) mine ih
  | linear made _ ih => exact .linear (made.mono le) ih
  | concurrent made mine _ ih => exact .concurrent (made.mono le) mine ih

lemma Child.Owns.mono {child : Child} (h : child.Owns base supply) (le : supply ≤ supply') :
    child.Owns base supply' := by
  cases child with
  | spawned => exact h
  | running => exact ⟨h.1, h.2.mono le⟩
  | ended | lost => trivial

lemma Added.of_adds (adds : s.Adds base s') (added : Added base s' out) : Added base s out := by
  obtain ⟨s'', p | e⟩ := out
  · exact ⟨adds.trans added.1, added.2⟩
  · exact adds.trans added

lemma Added.finishRun (adds : s.Adds base s') (run : Nat) (e : Exit) :
    Added base s (finishRun run e s') :=
  adds.trans (.mark adds.contexts.sound run _)

/-! ## Dispatch -/

lemma Dispatch.spawn_adds (h : s.contexts.Sound base)
    (made : d.env.context.IsMade s.contexts.supply) (index : Nat) (a : Action) :
    s.Adds base ((s.newTask d.env.context).2.mark d.run (.spawned index a)) :=
  have htask := Adds.newTask h made
  htask.trans (.mark htask.contexts.sound _ _)

/-- Children are admitted. -/
lemma Dispatch.admitAll_adds (queue : List Action) (h : s.contexts.Sound base)
    (made : d.env.context.IsMade s.contexts.supply)
    (owns : ∀ child ∈ children, child.Owns base s.contexts.supply) :
    s.Adds base (d.admitAll queue children s).2.2 ∧
      (d.admitAll queue children s).1.env = d.env ∧
      ∀ child ∈ (d.admitAll queue children s).2.1,
        child.Owns base (d.admitAll queue children s).2.2.contexts.supply := by
  induction queue generalizing d children s with
  | nil => exact ⟨.refl h, rfl, owns⟩
  | cons a rest ih =>
      obtain ⟨run, env, gate, q, collected, failure⟩ := d
      rw [Dispatch.admitAll]
      rcases gate with - | - | free
      · exact ⟨.refl h, rfl, owns⟩
      · exact ⟨.refl h, rfl, owns⟩
      · set d : Dispatch := ⟨run, env, some free, q, collected, failure⟩ with hd
        have hreport := Adds.report h run (.throttledAdmit children.length a.name)
        have hspawn := d.spawn_adds hreport.contexts.sound made children.length a
        have hall : ∀ child ∈ children ++ [.spawned s.contexts.supply a], child.Owns base
            ((s.report run (.throttledAdmit children.length a.name)).newTask
              d.env.context).2.contexts.supply :=
          List.forall_mem_append.mpr ⟨fun c hc => (owns c hc).mono hspawn.contexts.supply_le,
            List.forall_mem_singleton.mpr h.base_le⟩
        obtain ⟨hadds, henv, howns⟩ := ih (d := d) hspawn.contexts.sound
          (made.mono hspawn.contexts.supply_le) hall
        exact ⟨hreport.trans (hspawn.trans hadds), henv, howns⟩

/-- Ends of children are collected. -/
lemma Dispatch.collect_adds (cs : List Child) (h : s.contexts.Sound base) :
    s.Adds base (d.collect cs s).2.1 ∧ (d.collect cs s).1.env = d.env := by
  induction cs generalizing d s with
  | nil => exact ⟨.refl h, rfl⟩
  | cons child rest ih =>
      rw [Dispatch.collect]
      rcases child.verdict? with - | - | f
      · exact ⟨.refl h, rfl⟩
      · exact ih (d := { d with collected := d.collected + 1 }) h
      · have hreport := Adds.report h d.run (.childFailed d.runner child.name f.message)
        obtain ⟨hadds, henv⟩ := ih
          (d := { d with collected := d.collected + 1, failure := d.failure <|> some f })
          hreport.contexts.sound
        exact ⟨hreport.trans hadds, henv⟩

/-- A concurrent run goes on. -/
theorem Dispatch.advance_added (h : s.contexts.Sound base)
    (made : d.env.context.IsMade s.contexts.supply)
    (owns : ∀ child ∈ children, child.Owns base s.contexts.supply) :
    Added base s (d.advance children s) := by
  rw [Dispatch.advance]
  split
  · exact .finishRun (.report h d.run _) _ _
  · obtain ⟨hadmitted, henv, howns⟩ := Dispatch.admitAll_adds (d := d) d.queue h made owns
    have hmade := made.mono hadmitted.contexts.supply_le
    dsimp only
    generalize d.admitAll d.queue children s = out at hadmitted henv howns hmade ⊢
    obtain ⟨d', children', s'⟩ := out
    dsimp only at hadmitted henv howns hmade ⊢
    obtain ⟨hcollect, henv'⟩ := Dispatch.collect_adds (d := d') (children'.drop d'.collected)
      hadmitted.contexts.sound
    have hadds := hadmitted.trans hcollect
    split_ifs
    · exact .finishRun hadds _ _
    · refine ⟨hadds, Proc.owns_concurrent.mpr ⟨?_, fun c hc => ?_⟩⟩
      · rw [henv', henv]
        exact hmade.mono hcollect.contexts.supply_le
      · exact (howns c hc).mono hcollect.contexts.supply_le
    · exact ⟨hadmitted, Proc.owns_concurrent.mpr ⟨by rw [henv]; exact hmade, howns⟩⟩

/-- All children of a run without a limit get tasks. -/
lemma Dispatch.spawnAll_adds (first : Nat) (cs : List Action) (h : s.contexts.Sound base)
    (made : d.env.context.IsMade s.contexts.supply) :
    s.Adds base (d.spawnAll first cs s).2 ∧ ∀ child ∈ (d.spawnAll first cs s).1,
      child.Owns base (d.spawnAll first cs s).2.contexts.supply := by
  induction cs generalizing s first with
  | nil => exact ⟨.refl h, by simp [Dispatch.spawnAll]⟩
  | cons a rest ih =>
      rw [Dispatch.spawnAll]
      have hspawn := d.spawn_adds h made first a
      obtain ⟨hadds, hnew⟩ := ih (first + 1) hspawn.contexts.sound
        (made.mono hspawn.contexts.supply_le)
      exact ⟨hspawn.trans hadds, List.forall_mem_cons.mpr ⟨h.base_le, hnew⟩⟩

/-- A child has ended. -/
lemma Dispatch.childEnded_adds (h : s.contexts.Sound base)
    (made : d.env.context.IsMade s.contexts.supply) (index : Nat) (name : String) (e : Exit) :
    s.Adds base (d.childEnded index name e s).2 ∧
      (d.childEnded index name e s).1.env = d.env := by
  obtain ⟨run, env, gate, queue, collected, failure⟩ := d
  have hmark := Adds.mark h run (.ended index e)
  cases gate with
  | none => exact ⟨hmark, rfl⟩
  | some free =>
      refine ⟨?_, rfl⟩
      unfold Dispatch.childEnded
      dsimp only
      split
      · exact hmark.trans ((Adds.report hmark.contexts.sound run _).trans
          (.cancel hmark.contexts.sound made))
      · exact hmark

/-! ## Going on after a part -/

/-- A body goes on after an action that it ran. -/
lemma Body.after_added {guards : List Guard} {handle : Option Nat} {next : Option Failure → Body}
    (made : env.context.IsMade s.contexts.supply) (mine : ∀ n ∈ handle, base ≤ n)
    (added : Added base s out)
    (after : ∀ f s', s.Adds base s' → Added base s' ((next f).resume env guards s')) :
    Added base s (Body.after env guards handle next out) := by
  obtain ⟨s', p | e⟩ := out
  · exact ⟨added.1, .within (made.mono added.1.contexts.supply_le) mine added.2⟩
  · have hadds : s.Adds base s' := added
    have hleave := hadds.trans (.leave hadds.contexts.sound mine)
    cases e with
    | done => exact .of_adds hleave (after none _ hleave)
    | failed f => exact .of_adds hleave (after (some f) _ hleave)
    | panicked payload => exact Adds.trans hleave (.endGuards hleave.contexts.sound guards)

/-- A linear run stops at a child that did not succeed. -/
lemma stopLinear_added (h : s.contexts.Sound base) (run index : Nat) (name : String) (e : Exit) :
    Added base s (stopLinear run index name e s) := by
  have hmark := Adds.mark h run (.ended index e)
  have hreport := fun event => hmark.trans (.report hmark.contexts.sound run event)
  unfold stopLinear
  cases e with
  | done | panicked => exact .finishRun hmark _ _
  | failed f => cases f <;> exact .finishRun (hreport _) _ _

/-- A linear run goes on after one of its children. -/
lemma afterChild_added {run index : Nat} {name : String} {rest : List Action}
    (made : env.context.IsMade s.contexts.supply) (added : Added base s out)
    (after : ∀ s', s.Adds base s' → Added base s' (startRest run env (index + 1) s' rest)) :
    Added base s (afterChild run env index name rest out) := by
  obtain ⟨s', p | e⟩ := out
  · exact ⟨added.1, .linear (made.mono added.1.contexts.supply_le) added.2⟩
  · have hadds : s.Adds base s' := added
    have hstop := fun e => Added.of_adds hadds
      (stopLinear_added hadds.contexts.sound run index name e)
    cases e with
    | done =>
        have hmark := hadds.trans (.mark hadds.contexts.sound run (.ended index .done))
        exact .of_adds hmark (after _ hmark)
    | failed f => exact hstop (.failed f)
    | panicked payload => exact hstop (.panicked payload)

end

/-! ## From the beginning of an action -/

section

variable {base : Nat}

/-- The children of a run without a limit have its own context. -/
lemma startAsync_added {s : Store} {env : Env} (h : s.contexts.Sound base)
    (made : env.context.IsMade s.contexts.supply) (run : Nat) (cs : List Action) :
    Added base s (startAsync run env cs s) := by
  unfold startAsync
  split_ifs
  · exact .finishRun (.refl h) _ _
  obtain ⟨hadds, howns⟩ :=
    Dispatch.spawnAll_adds (d := ⟨run, env, none, [], 0, none⟩) 0 cs h made
  exact .of_adds hadds (Dispatch.advance_added hadds.contexts.sound
    (made.mono hadds.contexts.supply_le) howns)

/-- The children of a throttled run have its scope. -/
lemma startThrottled_added {s : Store} {env : Env} (h : s.contexts.Sound base)
    (made : env.context.IsMade s.contexts.supply) (run : Nat) (limit : Limit) (cs : List Action) :
    Added base s (startThrottled run env limit cs s) := by
  unfold startThrottled
  split_ifs
  · exact .finishRun (.refl h) _ _
  obtain ⟨hchild, hmade⟩ := Contexts.Adds.child h made
  set s' : Store := { s with contexts := (s.contexts.child env.context).2 } with hs'
  have hscope : s.Adds base s' := .ledger hchild rfl rfl rfl rfl rfl
  have hadds := hscope.trans (.mark hscope.contexts.sound run
    (.derived (s.contexts.child env.context).1))
  exact .of_adds hadds (Dispatch.advance_added hadds.contexts.sound hmade (by simp))

mutual

/-- An action is run from its beginning. -/
theorem Action.start_added {env : Env} {s : Store} (h : s.contexts.Sound base)
    (made : env.context.IsMade s.contexts.supply) : (a : Action) → Added base s (a.start env s)
  | .leaf .contextFunction _ body => by
      rw [Action.start]
      have hstate := Adds.newState h .empty
      have hmade : ({ env with state := s.states.length } : Env).context.IsMade
          (s.newState .empty).2.contexts.supply := made
      exact .of_adds hstate (Body.resume_added hstate.contexts.sound hmade [] body)
  | .leaf .function _ body | .leaf .readyMade _ body => by
      rw [Action.start]
      · exact Body.resume_added h made [] body
      · simp
  | .linear children => by
      rw [Action.start]
      have hadds := Adds.newRun h (.linear children) (.linearStart children.length)
      exact .of_adds hadds (startRest_added hadds.contexts.sound made s.runs 0 children)
  | .async children => by
      rw [Action.start_async]
      have hadds := Adds.newRun h (.async children) (.asyncDispatch children.length)
      exact .of_adds hadds (startAsync_added hadds.contexts.sound made s.runs children)
  | .throttled limit children => by
      rw [Action.start_throttled]
      have hadds := Adds.newRun h (.throttled limit children)
        (.throttledDispatch limit.value children.length)
      exact .of_adds hadds (startThrottled_added hadds.contexts.sound made s.runs limit children)
  | .named _ inner | .boxed inner => by
      rw [Action.start]
      exact Action.start_added h made inner

/-- A body goes on. -/
theorem Body.resume_added {env : Env} {s : Store} (h : s.contexts.Sound base)
    (made : env.context.IsMade s.contexts.supply) (guards : List Guard) :
    (b : Body) → Added base s (b.resume env guards s)
  | .finish e => by
      rw [Body.resume]
      exact .endGuards h guards
  | .ask e next => by
      rw [Body.resume]
      cases hperform : s.perform? env e with
      | none => exact ⟨.refl h, .leaf made⟩
      | some granted =>
          obtain ⟨reply, s'⟩ := granted
          have hadds := Adds.perform? h made hperform
          exact .of_adds hadds (Body.resume_added hadds.contexts.sound
            (made.mono hadds.contexts.supply_le) guards (next reply))
  | .giveWay next => by
      rw [Body.resume]
      exact ⟨.refl h, .leaf made⟩
  | .guard g next => by
      rw [Body.resume]
      have hadds := Adds.raiseGuard h g
      exact .of_adds hadds (Body.resume_added hadds.contexts.sound
        (made.mono hadds.contexts.supply_le) (guards ++ [g]) next)
  | .run inner under next => by
      rw [Body.resume_run]
      obtain ⟨henter, hmade, hmine⟩ := Adds.enter h made under
      have hown := made.mono henter.contexts.supply_le
      refine .of_adds henter (Body.after_added hown hmine
        (Action.start_added henter.contexts.sound hmade inner) ?_)
      intro f s' hadds
      exact Body.resume_added hadds.contexts.sound (hown.mono hadds.contexts.supply_le) guards
        (next f)

/-- A linear run goes on with the next child. -/
theorem startRest_added {env : Env} {s : Store} (h : s.contexts.Sound base)
    (made : env.context.IsMade s.contexts.supply) (run index : Nat) :
    (rest : List Action) → Added base s (startRest run env index s rest)
  | [] => by
      rw [startRest]
      exact .finishRun (.refl h) _ _
  | a :: rest => by
      rw [startRest_cons]
      have hmark := Adds.mark h run (.started index a)
      refine .of_adds hmark (afterChild_added made
        (Action.start_added hmark.contexts.sound made a) ?_)
      intro s' hadds
      exact startRest_added hadds.contexts.sound (made.mono hadds.contexts.supply_le) run
        (index + 1) rest

end

/-! ## Going on -/

variable {s : Store} {p : Proc}

/-- A task's own code goes on. -/
theorem Proc.resume_added (owns : p.Owns base s.contexts.supply) (h : s.contexts.Sound base) :
    Added base s (p.resume s) := by
  induction owns with
  | leaf made => exact Body.resume_added h made _ _
  | within made mine _ ih =>
      rw [Proc.resume_within]
      refine Body.after_added made mine ih ?_
      intro f s' hadds
      exact Body.resume_added hadds.contexts.sound (made.mono hadds.contexts.supply_le) _ _
  | linear made _ ih =>
      rw [Proc.resume_linear]
      refine afterChild_added made ih ?_
      intro s' hadds
      exact startRest_added hadds.contexts.sound (made.mono hadds.contexts.supply_le) _ _ _
  | concurrent made mine below =>
      exact Dispatch.advance_added h made
        (Proc.owns_concurrent.mp (.concurrent made mine below)).2

/-- The code of a child has stopped or ended, and the run above it takes notice of that. -/
lemma Child.after_added {d : Dispatch} {task : Nat} {out : Store × Progress}
    (made : d.env.context.IsMade s.contexts.supply) (mine : base ≤ task)
    (added : Added base s out) (index : Nat) (name : String) :
    s.Adds base (Child.after d index task name out).1 ∧
      (Child.after d index task name out).2.1.env = d.env ∧
      (Child.after d index task name out).2.2.Owns base
        (Child.after d index task name out).1.contexts.supply := by
  obtain ⟨s', p | e⟩ := out
  · exact ⟨added.1, rfl, mine, added.2⟩
  · have hadds : s.Adds base s' := added
    obtain ⟨hended, henv⟩ := d.childEnded_adds hadds.contexts.sound
      (made.mono hadds.contexts.supply_le) index name e
    exact ⟨hadds.trans (hended.trans (.endTask hended.contexts.sound mine)), henv, trivial⟩

/-- A task goes on that is a child of the run or stands below one.  What is known about tasks
further down is taken from `down`. -/
lemma Child.resumeAt_added {d : Dispatch} {child : Child} (h : s.contexts.Sound base)
    (made : d.env.context.IsMade s.contexts.supply) (index : Nat) (path : List Nat)
    (owns : child.Owns base s.contexts.supply)
    (down : ∀ task name p i path, child = .running task name p →
      s.Adds base (p.resumeAt s i path).1 ∧
        (p.resumeAt s i path).2.Owns base (p.resumeAt s i path).1.contexts.supply) :
    s.Adds base (child.resumeAt s d index path).1 ∧
      (child.resumeAt s d index path).2.1.env = d.env ∧
      (child.resumeAt s d index path).2.2.Owns base
        (child.resumeAt s d index path).1.contexts.supply := by
  have hstay : s.Adds base s ∧ d.env = d.env ∧ child.Owns base s.contexts.supply :=
    ⟨.refl h, rfl, owns⟩
  cases child with
  | spawned task a =>
      cases path with
      | nil =>
          rw [Child.resumeAt_spawned]
          have hmark := Adds.mark h d.run (.started index a)
          exact Child.after_added made owns
            (.of_adds hmark (Action.start_added hmark.contexts.sound made a)) index a.name
      | cons i path => rw [Child.resumeAt] <;> first | exact hstay | simp
  | running task name p =>
      cases path with
      | nil =>
          rw [Child.resumeAt_running]
          exact Child.after_added made owns.1 (Proc.resume_added owns.2 h) index name
      | cons i path =>
          obtain ⟨hadds, howns⟩ := down task name p i path rfl
          rw [Child.resumeAt]
          exact ⟨hadds, rfl, owns.1, howns⟩
  | ended | lost => rw [Child.resumeAt] <;> first | exact hstay | simp

/-- **A task goes on.** -/
theorem Proc.resumeAt_added (owns : p.Owns base s.contexts.supply) (h : s.contexts.Sound base)
    (index : Nat) (path : List Nat) : s.Adds base (p.resumeAt s index path).1 ∧
      (p.resumeAt s index path).2.Owns base (p.resumeAt s index path).1.contexts.supply := by
  induction owns generalizing index path with
  | leaf made =>
      rw [Proc.resumeAt]
      exact ⟨.refl h, .leaf made⟩
  | within made mine _ ih =>
      rw [Proc.resumeAt]
      obtain ⟨hadds, howns⟩ := ih index path
      exact ⟨hadds, .within (made.mono hadds.contexts.supply_le) mine howns⟩
  | linear made _ ih =>
      rw [Proc.resumeAt]
      obtain ⟨hadds, howns⟩ := ih index path
      exact ⟨hadds, .linear (made.mono hadds.contexts.supply_le) howns⟩
  | @concurrent d children made mine below ih =>
      obtain ⟨-, howns⟩ := Proc.owns_concurrent.mp (.concurrent made mine below)
      rw [Proc.resumeAt, resumeAmong_eq, Nat.zero_add]
      cases hplace : children[index]? with
      | none => exact ⟨.refl h, .concurrent made mine below⟩
      | some child =>
          have hmem := List.mem_of_getElem? hplace
          obtain ⟨hadds, henv, hchild⟩ := Child.resumeAt_added h made index path (howns _ hmem)
            fun task name p i path hc => ih task name p (hc ▸ hmem) i path
          refine ⟨hadds, Proc.owns_concurrent.mpr ⟨?_, fun x hx => ?_⟩⟩
          · rw [henv]
            exact made.mono hadds.contexts.supply_le
          · rcases List.mem_or_eq_of_mem_set hx with hx | rfl
            · exact (howns x hx).mono hadds.contexts.supply_le
            · exact hchild

end

/-! ## Worlds -/

namespace World

variable {base : Nat} {w v z : World} {o : Outside} {env : Env} {a : Action}

/-- What is behind the root was made, and the handles of its code have numbers from `base` on. -/
def OwnsRoot (base : Nat) (w : World) : Prop :=
  match w.root with
  | .unstarted env _ => env.context.IsMade w.store.contexts.supply
  | .running p => p.Owns base w.store.contexts.supply
  | _ => True

/-- The ledger is in order, and nobody but the caller and the root has handles. -/
structure IsOwned (base : Nat) (w : World) : Prop where
  sound : w.store.contexts.Sound base
  root : w.OwnsRoot base
  alone : w.orphans = []
  agenda_lt : ∀ x ∈ w.agenda, ∀ c, x.deed = .cancel c → c.token.number < w.store.contexts.supply

/-- What has become of a world in which an action with handles from `base` on was run. -/
structure Later (base : Nat) (w v : World) : Prop where
  clock_le : w.store.clock ≤ v.store.clock
  supply_le : w.store.contexts.supply ≤ v.store.contexts.supply
  held : ∀ h ∈ w.store.contexts.held, h.1 < base → h ∈ v.store.contexts.held
  new : ∀ h ∈ v.store.contexts.held,
    h ∈ w.store.contexts.held ∨ w.store.contexts.supply ≤ h.1
  timers : ∀ t ∈ v.store.contexts.timers,
    t ∈ w.store.contexts.timers ∨ w.store.contexts.supply ≤ t.token.number
  cancelled : ∀ n ∈ w.store.contexts.cancelled, n ∈ v.store.contexts.cancelled
  states_le : w.store.states.length ≤ v.store.states.length
  isOpen : v.store.closed = w.store.closed
  log : w.store.log.toList <+: v.store.log.toList
  calls : w.store.calls.calls.toList <+: v.store.calls.calls.toList
  agenda : ∀ x ∈ v.agenda, x ∈ w.agenda

lemma Later.refl (base : Nat) (w : World) : w.Later base w :=
  ⟨le_refl _, le_refl _, fun _ h _ => h, fun _ => .inl, fun _ => .inl, fun _ h => h, le_refl _, rfl,
    List.prefix_rfl, List.prefix_rfl, fun _ h => h⟩

lemma Later.trans (h : w.Later base v) (h' : v.Later base z) : w.Later base z where
  clock_le := h.clock_le.trans h'.clock_le
  supply_le := h.supply_le.trans h'.supply_le
  held p hp lt := h'.held p (h.held p hp lt) lt
  new p hp := (h'.new p hp).elim (h.new p) fun le => .inr (h.supply_le.trans le)
  timers t ht := (h'.timers t ht).elim (h.timers t) fun le => .inr (h.supply_le.trans le)
  cancelled n hn := h'.cancelled n (h.cancelled n hn)
  states_le := h.states_le.trans h'.states_le
  isOpen := h'.isOpen.trans h.isOpen
  log := h.log.trans h'.log
  calls := h.calls.trans h'.calls
  agenda x hx := h.agenda x (h'.agenda x hx)

lemma Later.of_adds {s : Store} (h : w.store.Adds base s) (root : Root) :
    w.Later base { w with store := s, root } :=
  ⟨h.contexts.clock.ge, h.contexts.supply_le, h.contexts.held, h.contexts.new, h.contexts.timers,
    h.contexts.cancelled, h.states_le, h.isOpen, h.log, h.calls, fun _ h => h⟩

lemma Beside.later (h : w.Beside v) (base : Nat) : w.Later base v where
  clock_le := h.clock.ge
  supply_le := h.supply.ge
  held p hp _ := h.held ▸ hp
  new p hp := .inl (h.held ▸ hp)
  timers t ht := .inl (h.timers t ht)
  cancelled := h.cancelled
  states_le := by rw [h.states]
  isOpen := h.isOpen
  log := h.log ▸ List.prefix_rfl
  calls := h.calls ▸ List.prefix_rfl
  agenda := h.agenda

/-- The root's own code or one of its tasks goes on. -/
lemma IsOwned.takeTask (h : w.IsOwned base) {t : Turn} (task : t.isTask = true) :
    (w.take t).IsOwned base ∧ w.Later base (w.take t) ∧
      (w.take t).store.clock = w.store.clock := by
  have hstay : w.IsOwned base ∧ w.Later base w ∧ w.store.clock = w.store.clock :=
    ⟨h, .refl base w, rfl⟩
  -- The store has grown, and the root has what it was given.
  have hmove : ∀ {s : Store} {root : Root}, w.store.Adds base s →
      ({ w with store := s, root } : World).OwnsRoot base →
      ({ w with store := s, root } : World).IsOwned base ∧
        w.Later base { w with store := s, root } ∧ s.clock = w.store.clock := by
    intro s root hadds hroot
    exact ⟨⟨hadds.contexts.sound, hroot, h.alone, fun x hx c hc =>
      (h.agenda_lt x hx c hc).trans_le hadds.contexts.supply_le⟩, .of_adds hadds root,
      hadds.contexts.clock⟩
  have hadded : ∀ out : Store × Progress, Added base w.store out →
      ({ w with store := out.1, root := .ofProgress out.2 } : World).IsOwned base ∧
        w.Later base { w with store := out.1, root := .ofProgress out.2 } ∧
        out.1.clock = w.store.clock := by
    rintro ⟨s, p | e⟩ hout
    · exact hmove hout.1 hout.2
    · exact hmove hout trivial
  have hroot := h.root
  unfold OwnsRoot at hroot
  cases t with
  | root =>
      rw [take, pollRoot]
      cases hr : w.root with
      | unstarted env a =>
          rw [hr] at hroot
          exact hadded _ (Action.start_added h.sound hroot a)
      | running p =>
          rw [hr] at hroot
          exact hadded _ (Proc.resume_added hroot h.sound)
      | ended | dropped => exact hstay
  | task index path =>
      rw [take]
      cases hr : w.root with
      | running p =>
          rw [hr] at hroot
          obtain ⟨hadds, howns⟩ := Proc.resumeAt_added hroot h.sound index path
          exact hmove hadds howns
      | unstarted | ended | dropped => exact hstay
  | orphan place => simpa only [take, h.alone, List.getElem?_nil] using hstay
  | orphanTask place index path => simpa only [take, h.alone, List.getElem?_nil] using hstay
  | timer | appointment => cases task

lemma IsOwned.befalls (h : w.IsOwned base) (hb : w.Befalls v) :
    v.IsOwned base ∧ w.Later base v ∧ v.store.clock = w.store.clock := by
  have hbeside := hb.beside
  refine ⟨⟨⟨?_, ?_, ?_, ?_, ?_⟩, ?_, hbeside.orphans.trans h.alone, ?_⟩, hbeside.later base,
    hbeside.clock⟩
  · rw [hbeside.supply]; exact h.sound.base_le
  · rw [hbeside.held, hbeside.supply]; exact h.sound.held_lt
  · rw [hbeside.held, hbeside.supply]; exact h.sound.kept_lt
  · rw [hbeside.supply]; exact fun t ht => h.sound.running_lt t (hbeside.timers t ht)
  · rw [hbeside.supply]
    intro n hn
    cases hb with
    | timer t running due =>
        rcases Contexts.mem_cancelled_fire.mp hn with hn | ⟨rfl, -⟩
        · exact h.sound.cancelled_lt n hn
        · exact h.sound.running_lt t running
    | appointment place x hx due =>
        rcases mem_cancelled_suffer.mp hn with hn | ⟨c, hdeed, rfl⟩
        · exact h.sound.cancelled_lt n hn
        · exact h.agenda_lt x (List.mem_of_getElem? hx) c hdeed
  · have hroot := h.root
    unfold OwnsRoot at hroot ⊢
    rw [hb.root_eq, hbeside.supply]
    exact hroot
  · rw [hbeside.supply]
    exact fun x hx => h.agenda_lt x (hbeside.agenda x hx)

/-- Whatever goes on. -/
lemma IsOwned.turn (h : w.IsOwned base) {t : Turn} (ready : w.isReady t = true) :
    (w.take t).IsOwned base ∧ w.Later base (w.take t) ∧
      (w.take t).store.clock = w.store.clock := by
  by_cases task : t.isTask = true
  · exact h.takeTask task
  · exact h.befalls (.of_turn (Bool.eq_false_iff.mpr task) ready)

lemma IsOwned.advance (h : w.IsOwned base) {time : Nat} (next : w.nextTime? = some time) :
    (w.advance time).IsOwned base ∧ w.Later base (w.advance time) := by
  have hlt := lt_nextTime? next
  exact ⟨⟨⟨h.sound.base_le, h.sound.held_lt, h.sound.kept_lt, h.sound.running_lt,
    h.sound.cancelled_lt⟩, h.root, h.alone, h.agenda_lt⟩,
    ⟨hlt.le, le_refl _, fun _ h _ => h, fun _ => .inl, fun _ => .inl, fun _ h => h, le_refl _, rfl,
      List.prefix_rfl, List.prefix_rfl, fun _ h => h⟩⟩

/-- **What becomes of a world.**  Whatever the order of the turns, the handles of others are still
held, and everything that there was is still there. -/
theorem IsOwned.reachable (h : w.IsOwned base) (reach : Reachable w v) :
    v.IsOwned base ∧ w.Later base v := by
  induction reach with
  | refl => exact ⟨h, .refl base w⟩
  | step _ step ih =>
      obtain ⟨hv, hlater⟩ := ih
      cases step with
      | turn t ready =>
          obtain ⟨hz, hlater', -⟩ := hv.turn ready
          exact ⟨hz, hlater.trans hlater'⟩
      | tick quiet next =>
          obtain ⟨hz, hlater'⟩ := hv.advance next
          exact ⟨hz, hlater.trans hlater'⟩

/-! ## Circumstances stay -/

lemma Suits.isOwned (suits : w.Suits o env) (a : Action) :
    (w.stage env a).IsOwned w.store.contexts.supply where
  sound := ⟨le_refl _, suits.hosts.held_lt, suits.kept_lt, suits.hosts.running_lt,
    suits.hosts.cancelled_lt⟩
  root := ⟨suits.hosts.path_lt _ List.mem_cons_self, fun n hn => by
    obtain ⟨h, hh, hmem⟩ := suits.hosts.kept n hn
    exact suits.kept_lt h hh n hmem⟩
  alone := suits.alone
  agenda_lt := suits.hosts.agenda_lt

/-- While an action is run under a context, others can be run under it as before. -/
theorem Suits.reachable (suits : w.Suits o env) (reach : Reachable (w.stage env a) v) :
    v.Suits o env ∧ w.Later w.store.contexts.supply v := by
  obtain ⟨howned, hlater⟩ := (suits.isOwned a).reachable reach
  have hlater : w.Later w.store.contexts.supply v := ⟨hlater.clock_le, hlater.supply_le,
    hlater.held, hlater.new, hlater.timers, hlater.cancelled, hlater.states_le, hlater.isOpen,
    hlater.log, hlater.calls, hlater.agenda⟩
  refine ⟨⟨⟨?_, ?_, howned.sound.held_lt, howned.sound.running_lt, howned.sound.cancelled_lt,
    howned.agenda_lt⟩, howned.sound.kept_lt, howned.alone, hlater.isOpen.trans suits.isOpen,
    suits.state_lt.trans_le hlater.states_le, fun x hx => suits.agenda x (hlater.agenda x hx),
    fun x hx => suits.spared x (hlater.agenda x hx), ?_⟩, hlater⟩
  · exact fun n hn => (suits.hosts.path_lt n hn).trans_le hlater.supply_le
  · intro n hn
    obtain ⟨h, hh, hmem⟩ := suits.hosts.kept n hn
    exact ⟨h, hlater.held h hh (suits.hosts.held_lt h hh), hmem⟩
  · intro live t ht hpath
    rcases hlater.timers t ht with hold | hnew
    · exact suits.timers (Contexts.isTokenCancelled_eq_false_of_grown hlater.cancelled live) t hold
        hpath
    · have := suits.hosts.path_lt _ hpath
      omega

/-- On a course that begins before the horizon, the context is cancelled, or the horizon has not
been reached. -/
theorem Suits.course (suits : w.Suits o env) (clock : o.Before w.store.clock)
    (course : Course o env.context (w.stage env a) v) :
    v.store.isTokenCancelled env.context = true ∨ o.Before v.store.clock := by
  induction course with
  | refl => exact .inr clock
  | @tail v z before goes ih =>
      obtain ⟨howned, -⟩ := (suits.isOwned a).reachable (Course.reachable before)
      cases goes with
      | turn t ready =>
          obtain ⟨-, hlater, hclock⟩ := howned.turn ready
          exact ih.imp (Contexts.isTokenCancelled_mono hlater.cancelled)
            fun h => by rw [hclock]; exact h
      | tick running quiet next spared => exact spared

end World

end Workflow
