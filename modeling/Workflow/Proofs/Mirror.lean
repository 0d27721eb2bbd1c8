import Workflow.Proofs.Acts
import Workflow.Proofs.Renumbering

/-!
# The same code with one more token

Code does the same when the contexts that it is given follow one more token, `k`, as long as it does
not cancel the context that it was given first: then that token is never cancelled, and nobody can
tell whether it is there.

* **What code has.**  `Proc.shift` is what becomes of a process, and `Store.Shifted` relates a store
  to what becomes of it.  The code below the token `g` has that context and those that were made
  since, with numbers from `k` on: `Context.IsOwn`, `Proc.IsOwn`.
* **What is done.**  `Act.Mirrors` relates acts.  `Mirrored`: code has done the same in both stores,
  and has come to the same.
* **Parts of runs.**  How a concurrent run admits its children and collects their ends
  (`Dispatch.advance_mirrored`), and what it does when one of them has ended
  (`Dispatch.childEnded_shift`).
-/

namespace Workflow

open Store

/-! ## Stores -/

/-- The store `s` is the store `t` with one more token, `k`, which stands just below the one with
the number `g`.  What the traces say is left open. -/
structure Store.Shifted (g k : Nat) (t s : Store) : Prop where
  lt : g < k
  le : k ≤ t.contexts.supply
  contexts : s.contexts = t.contexts.shift k
  states : s.states = t.states
  cells : s.cells = t.cells
  log : s.log = t.log
  calls : s.calls = t.calls
  runs : s.runs = t.runs
  closed : s.closed = t.closed

/-- What becomes of surroundings. -/
def Env.shift (k : Nat) (env : Env) : Env :=
  { env with context := env.context.shift k }

/-- The context is the one that was given, with the token `g`, or one made since. -/
def Context.IsOwn (g k : Nat) (c : Context) : Prop :=
  c.token.number = g ∨ k ≤ c.token.number

namespace Store.Shifted

variable {g k : Nat} {s t : Store} {env : Env} {c : Context}

lemma clock (h : t.Shifted g k s) : s.clock = t.clock := by
  rw [Store.clock, h.contexts]
  rfl

lemma supply (h : t.Shifted g k s) : s.contexts.supply = past k t.contexts.supply := by
  rw [past_of_le h.le, h.contexts]
  rfl

lemma stateOf (h : t.Shifted g k s) (n : Nat) : s.stateOf n = t.stateOf n := by
  rw [Store.stateOf, Store.stateOf, h.states]

lemma isCancelled (h : t.Shifted g k s) (c : Context) :
    s.isCancelled (c.shift k) = t.isCancelled c := by
  rw [Store.isCancelled, h.contexts, Contexts.isCancelled_shift, Store.isCancelled]

lemma isTokenCancelled (h : t.Shifted g k s) (c : Context) :
    s.isTokenCancelled (c.shift k) = t.isTokenCancelled c := by
  rw [Store.isTokenCancelled, h.contexts]
  exact Contexts.isTokenCancelled_shift k _ c.token

/-- Whatever is noted. -/
lemma note (h : t.Shifted g k s) (run run' : Option Nat) (m m' : Mark) :
    (t.note run m).Shifted g k (s.note run' m') :=
  ⟨h.lt, h.le, h.contexts, h.states, h.cells, h.log, h.calls, h.runs, h.closed⟩

lemma mark (h : t.Shifted g k s) (run : Nat) (m : Mark) :
    (t.mark run m).Shifted g k (s.mark run m) :=
  h.note _ _ _ _

/-- Only one of them notes something. -/
lemma mark_right (h : t.Shifted g k s) (run : Nat) (m : Mark) : t.Shifted g k (s.mark run m) :=
  ⟨h.lt, h.le, h.contexts, h.states, h.cells, h.log, h.calls, h.runs, h.closed⟩

lemma newRun (h : t.Shifted g k s) (a a' : Action) (event event' : Event) :
    ((t.newRun a).2.report t.runs event).Shifted g k
      ((s.newRun a').2.report s.runs event') :=
  ⟨h.lt, h.le, h.contexts, h.states, h.cells, h.log, h.calls, congrArg (· + 1) h.runs, h.closed⟩

lemma newState (h : t.Shifted g k s) (m : RunState) :
    (t.newState m).2.Shifted g k (s.newState m).2 :=
  ⟨h.lt, h.le, h.contexts, congrArg (· ++ [m]) h.states, h.cells, h.log, h.calls, h.runs, h.closed⟩

/-- The ledger changes, and what nobody here speaks of. -/
lemma ledger (h : t.Shifted g k s) {x x' : Contexts} (le : k ≤ x.supply) (eq : x' = x.shift k)
    (signals signals' : Array Signal) :
    Shifted g k { t with contexts := x, signals } { s with contexts := x', signals := signals' } :=
  ⟨h.lt, le, eq, h.states, h.cells, h.log, h.calls, h.runs, h.closed⟩

lemma withContexts (h : t.Shifted g k s) {x x' : Contexts} (le : k ≤ x.supply)
    (eq : x' = x.shift k) : (t.withContexts x).Shifted g k (s.withContexts x') :=
  h.ledger le eq _ _

lemma newTask (h : t.Shifted g k s) (c : Context) :
    (t.newTask c).2.Shifted g k (s.newTask (c.shift k)).2 := by
  refine h.ledger (h.le.trans (Nat.le_succ _)) ?_ _ _
  show (s.contexts.hold (c.shift k)).2 = (t.contexts.hold c).2.shift k
  rw [h.contexts, Contexts.hold_shift h.le]

lemma endTask (h : t.Shifted g k s) (task : Nat) :
    (t.endTask task).Shifted g k (s.endTask (past k task)) := by
  refine h.withContexts (by rw [Contexts.supply_release]; exact h.le) ?_
  rw [h.contexts, Contexts.release_shift]

lemma leave (h : t.Shifted g k s) (handle : Option Nat) :
    (t.leave handle).Shifted g k (s.leave (handle.map (past k))) := by
  cases handle with
  | none => exact h
  | some handle => exact h.endTask handle

lemma cancel (h : t.Shifted g k s) (own : k ≤ c.token.number) :
    (t.cancel c).Shifted g k (s.cancel (c.shift k)) := by
  refine h.withContexts h.le ?_
  rw [h.contexts]
  exact Contexts.cancel_shift own

lemma writeLog (h : t.Shifted g k s) (line : String) :
    (t.writeLog line).Shifted g k (s.writeLog line) := by
  refine ⟨h.lt, h.le, h.contexts, h.states, h.cells, ?_, h.calls, h.runs, h.closed⟩
  rw [Store.writeLog, Store.writeLog, h.log, h.clock]

/-- The log of calls changes. -/
lemma called (h : t.Shifted g k s) (f : CallLog → CallLog) :
    Shifted g k { t with calls := f t.calls } { s with calls := f s.calls } :=
  ⟨h.lt, h.le, h.contexts, h.states, h.cells, h.log, congrArg f h.calls, h.runs, h.closed⟩

/-- A run state changes. -/
lemma setState (h : t.Shifted g k s) (n : Nat) (m : RunState) :
    Shifted g k { t with states := t.states.set n m } { s with states := s.states.set n m } :=
  ⟨h.lt, h.le, h.contexts, congrArg (·.set n m) h.states, h.cells, h.log, h.calls, h.runs, h.closed⟩

lemma raiseGuard (h : t.Shifted g k s) (x : Guard) :
    (t.raiseGuard x).Shifted g k (s.raiseGuard x) := by
  cases x with
  | note name => exact h
  | inFlight => exact h.called .enter

lemma endGuards (h : t.Shifted g k s) (guards : List Guard) :
    (t.endGuards guards).Shifted g k (s.endGuards guards) := by
  induction guards generalizing s t with
  | nil => exact h
  | cons x guards ih =>
      refine ih (s := s.endGuard x) (t := t.endGuard x) ?_
      cases x with
      | note name => exact h.writeLog _
      | inFlight => exact h.called .leave

lemma child (h : t.Shifted g k s) (c : Context) :
    (s.contexts.child (c.shift k)).1 = (t.contexts.child c).1.shift k ∧
      Shifted g k { t with contexts := (t.contexts.child c).2 }
        { s with contexts := (s.contexts.child (c.shift k)).2 } := by
  have hchild := Contexts.child_shift h.le c
  rw [h.contexts, hchild]
  exact ⟨rfl, h.ledger (h.le.trans (Nat.le_succ _)) rfl _ _⟩

/-- A body that runs an action hands it its own context or one made for it. -/
lemma enter (h : t.Shifted g k s) (own : env.context.IsOwn g k) (under : Under) :
    (s.enter (env.shift k) under).1 = (t.enter env under).1.shift k ∧
      (s.enter (env.shift k) under).2.1 = (t.enter env under).2.1.map (past k) ∧
      (t.enter env under).2.2.Shifted g k (s.enter (env.shift k) under).2.2 ∧
      (t.enter env under).1.context.IsOwn g k := by
  cases under with
  | same => exact ⟨rfl, rfl, h, own⟩
  | child =>
      obtain ⟨hcontext, hstore⟩ := h.child env.context
      exact ⟨congrArg (fun c => { env with context := c }) hcontext, rfl, hstore, .inr h.le⟩
  | timeout ms =>
      have hdeadline := Contexts.withDeadline_shift h.le env.context (t.clock + ms)
      have hsupply : k ≤ (t.contexts.withDeadline env.context (t.clock + ms)).2.supply :=
        h.le.trans (Nat.le_succ _)
      have hhold := Contexts.hold_shift hsupply
        (t.contexts.withDeadline env.context (t.clock + ms)).1
      simp only [Store.enter, Env.shift, h.contexts, h.clock, hdeadline, hhold]
      exact ⟨trivial, rfl, h.ledger (hsupply.trans (Nat.le_succ _)) rfl _ _, .inr h.le⟩

lemma settle (h : t.Shifted g k s) (cell : Nat) (how : Settlement Datum) :
    (s.settle cell how).1 = (t.settle cell how).1 ∧
      (t.settle cell how).2.Shifted g k (s.settle cell how).2 := by
  unfold Store.settle
  rw [h.cells]
  cases t.cells[cell]? with
  | none => exact ⟨rfl, h⟩
  | some c =>
      dsimp only
      split_ifs
      · exact ⟨rfl, h.lt, h.le, h.contexts, h.states, rfl, h.log, h.calls, h.runs, h.closed⟩
      · exact ⟨rfl, h.lt, h.le, h.contexts, h.states, rfl, h.log, h.calls, h.runs, h.closed⟩
      · exact ⟨rfl, h⟩

/-- An effect has the same reply, unless it cancels the context that was given. -/
lemma perform? (h : t.Shifted g k s) (e : Effect)
    (spared : e = .cancel → k ≤ env.context.token.number) :
    (t.perform? env e = none ∧ s.perform? (env.shift k) e = none) ∨
      ∃ reply t' s', t.perform? env e = some (reply, t') ∧
        s.perform? (env.shift k) e = some (reply, s') ∧ t'.Shifted g k s' := by
  have hclock := h.clock
  have htoken := h.isTokenCancelled env.context
  cases e with
  | clock => exact .inr ⟨_, _, _, rfl, by rw [← hclock]; rfl, h⟩
  | deadline => exact .inr ⟨_, _, _, rfl, rfl, h⟩
  | isCancelled => exact .inr ⟨_, _, _, rfl, by rw [← h.isCancelled]; rfl, h⟩
  | cancel => exact .inr ⟨_, _, _, rfl, rfl, h.cancel (spared rfl)⟩
  | log line => exact .inr ⟨_, _, _, rfl, rfl, h.writeLog line⟩
  | record name => exact .inr ⟨_, _, _, rfl, rfl, h.called (·.record name)⟩
  | state op =>
      refine .inr ⟨_, _, _, rfl, ?_, h.setState env.state ((t.stateOf env.state).perform op).2⟩
      rw [← h.stateOf]
      rfl
  | settle cell how =>
      obtain ⟨hreply, hstore⟩ := h.settle cell how
      exact .inr ⟨(t.settle cell how).1, (t.settle cell how).2, (s.settle cell how).2, rfl,
        congrArg some (Prod.ext hreply rfl), hstore⟩
  | sleepUntil time =>
      simp only [Store.perform?, hclock]
      split_ifs
      · exact .inr ⟨_, _, _, rfl, rfl, h⟩
      · exact .inl ⟨rfl, rfl⟩
  | untilCancelled =>
      simp only [Store.perform?, Env.shift, htoken]
      split_ifs
      · exact .inr ⟨_, _, _, rfl, rfl, h⟩
      · exact .inl ⟨rfl, rfl⟩
  | sleepUnlessCancelled time =>
      simp only [Store.perform?, Env.shift, hclock, htoken]
      split_ifs
      · exact .inr ⟨_, _, _, rfl, rfl, h⟩
      · exact .inr ⟨_, _, _, rfl, rfl, h⟩
      · exact .inl ⟨rfl, rfl⟩
  | await cell =>
      have hanswer : s.answer? cell (t.isTokenCancelled env.context) =
          t.answer? cell (t.isTokenCancelled env.context) := by
        rw [Store.answer?, Store.answer?, h.cells]
      simp only [Store.perform?, Env.shift, htoken, hanswer]
      cases t.answer? cell (t.isTokenCancelled env.context) with
      | none => exact .inl ⟨rfl, rfl⟩
      | some v => exact .inr ⟨_, _, _, rfl, rfl, h⟩

lemma grants (h : t.Shifted g k s) (env : Env) (e : Effect) :
    s.grants (env.shift k) e = t.grants env e := by
  by_cases he : e = .cancel
  · subst he
    rfl
  · have hspared : e = .cancel → k ≤ env.context.token.number := fun hc => absurd hc he
    rcases h.perform? e hspared with ⟨ht, hs⟩ | ⟨reply, t', s', ht, hs, -⟩
    · rw [Store.grants, Store.grants, ht, hs]
    · rw [Store.grants, Store.grants, ht, hs]
      rfl

end Store.Shifted


/-! ## Acts -/

/-- Whether an act neither cancels the context with the token `given` nor asks the run `run` to skip
the remainder. -/
def Act.spares (given run : Nat) (x : Act) : Bool :=
  match x.doing with
  | .ask .cancel _ => x.context.token.number != given
  | .giveBack r _ (.failed .skipRemainder) => r != run
  | _ => true

/-- The same is done under a context that follows the token `k` and under one that does not. -/
structure Act.Mirrors (g k : Nat) (x y : Act) : Prop where
  time : x.time = y.time
  cancelled : x.cancelled = y.cancelled
  doing : x.doing = y.doing
  given : x.context.token.number = k ↔ y.context.token.number = g

/-- One of two lists of acts spares the context that was given. -/
def Spared (g k run : Nat) (xs ys : List Act) : Prop :=
  (∀ x ∈ xs, x.spares k run = true) ∨ ∀ y ∈ ys, y.spares g run = true

section

variable {g k run : Nat} {s t : Store} {c : Context} {x y : Act} {xs xs' ys ys' : List Act}

lemma Act.Mirrors.spares (h : x.Mirrors g k y) : x.spares k run = y.spares g run := by
  unfold Act.spares
  rw [h.doing]
  split
  · rw [Bool.eq_iff_iff, bne_iff_ne, bne_iff_ne, ne_eq, ne_eq, h.given]
  · rfl
  · rfl

lemma Spared.left (h : Spared g k run (xs ++ xs') (ys ++ ys')) : Spared g k run xs ys :=
  h.imp (fun h x hx => h x (List.mem_append_left _ hx))
    fun h y hy => h y (List.mem_append_left _ hy)

lemma Spared.right (h : Spared g k run (xs ++ xs') (ys ++ ys')) : Spared g k run xs' ys' :=
  h.imp (fun h x hx => h x (List.mem_append_right _ hx))
    fun h y hy => h y (List.mem_append_right _ hy)

lemma Spared.tail (h : Spared g k run (x :: xs) (y :: ys)) : Spared g k run xs ys :=
  h.imp (fun h x hx => h x (List.mem_cons_of_mem _ hx))
    fun h y hy => h y (List.mem_cons_of_mem _ hy)

/-- What one of two acts spares the other one spares. -/
lemma Spared.head (h : Spared g k run (x :: xs) (y :: ys)) (mirrors : x.Mirrors g k y) :
    y.spares g run = true := by
  rcases h with h | h
  · rw [← mirrors.spares]
    exact h x List.mem_cons_self
  · exact h y List.mem_cons_self

lemma Context.IsOwn.given (own : c.IsOwn g k) (lt : g < k) :
    (c.shift k).token.number = k ↔ c.token.number = g := by
  have hown : c.token.number = g ∨ k ≤ c.token.number := own
  rw [Context.shift, Token.number_shift_eq]
  omega

lemma Store.Shifted.act (h : t.Shifted g k s) (own : c.IsOwn g k) (doing : Doing) :
    (s.act (c.shift k) doing).Mirrors g k (t.act c doing) :=
  ⟨h.clock, h.isCancelled c, rfl, own.given h.lt⟩

/-- An own context that is not the one given was made since. -/
lemma Context.IsOwn.le (own : c.IsOwn g k) (ne : c.token.number ≠ g) : k ≤ c.token.number :=
  own.resolve_left ne

end

/-! ## Processes -/

/-- What becomes of the state of a concurrent run. -/
def Dispatch.shift (k : Nat) (d : Dispatch) : Dispatch :=
  { d with env := d.env.shift k }

mutual

/-- What becomes of a process. -/
def Proc.shift (k : Nat) : Proc → Proc
  | .leaf env guards body => .leaf (env.shift k) guards body
  | .within env guards handle inner next =>
      .within (env.shift k) guards (handle.map (past k)) (inner.shift k) next
  | .linear run env index name current rest =>
      .linear run (env.shift k) index name (current.shift k) rest
  | .concurrent d children => .concurrent (d.shift k) (shiftAmong k children)

/-- What becomes of children. -/
def shiftAmong (k : Nat) : List Child → List Child
  | [] => []
  | c :: rest => c.shift k :: shiftAmong k rest

/-- What becomes of a child. -/
def Child.shift (k : Nat) : Child → Child
  | .spawned task a => .spawned (past k task) a
  | .running task name p => .running (past k task) name (p.shift k)
  | c => c

end

/-- What becomes of code where it stopped. -/
def Progress.shift (k : Nat) : Progress → Progress
  | .paused p => .paused (p.shift k)
  | .ended e => .ended e

/-- The contexts that a process has are its own, and so are those that it makes for the children of
throttled runs. -/
inductive Proc.IsOwn (g k : Nat) : Proc → Prop where
  | leaf {env : Env} {guards : List Guard} {body : Body} (own : env.context.IsOwn g k) :
      IsOwn g k (.leaf env guards body)
  | within {env : Env} {guards : List Guard} {handle : Option Nat} {p : Proc}
      {next : Option Failure → Body} (own : env.context.IsOwn g k) (inner : IsOwn g k p) :
      IsOwn g k (.within env guards handle p next)
  | linear {run : Nat} {env : Env} {index : Nat} {name : String} {p : Proc} {rest : List Action}
      (own : env.context.IsOwn g k) (current : IsOwn g k p) :
      IsOwn g k (.linear run env index name p rest)
  | concurrent {d : Dispatch} {children : List Child} (own : d.env.context.IsOwn g k)
      (scope : d.gate.isSome = true → k ≤ d.env.context.token.number)
      (below : ∀ task name p, .running task name p ∈ children → IsOwn g k p) :
      IsOwn g k (.concurrent d children)

/-- The contexts that a child has are its own. -/
def Child.IsOwn (g k : Nat) : Child → Prop
  | .running _ _ p => p.IsOwn g k
  | _ => True

/-- Code has done the same in two stores, and has come to the same. -/
structure Mirrored (g k : Nat) (xs ys : List Act) (out out' : Store × Progress) : Prop where
  acts : List.Forall₂ (Act.Mirrors g k) xs ys
  store : out'.1.Shifted g k out.1
  progress : out.2 = out'.2.shift k
  own : ∀ p, out'.2 = .paused p → p.IsOwn g k

section

variable {g k run : Nat} {s t : Store} {env : Env} {d : Dispatch} {children : List Child}
  {x y : Act} {xs xs' ys ys' : List Act} {out out' : Store × Progress}

lemma shiftAmong_eq (k : Nat) (children : List Child) :
    shiftAmong k children = children.map (Child.shift k) := by
  induction children with
  | nil => rfl
  | cons c rest ih => rw [shiftAmong, ih, List.map_cons]

@[simp]
lemma Child.name_shift (k : Nat) (child : Child) : (child.shift k).name = child.name := by
  cases child <;> rfl

@[simp]
lemma Child.isLive_shift (k : Nat) (child : Child) : (child.shift k).isLive = child.isLive := by
  cases child <;> rfl

@[simp]
lemma Child.verdict?_shift (k : Nat) (child : Child) :
    (child.shift k).verdict? = child.verdict? := by
  cases child <;> rfl

lemma Proc.isOwn_concurrent : (Proc.concurrent d children).IsOwn g k ↔
    d.env.context.IsOwn g k ∧ (d.gate.isSome = true → k ≤ d.env.context.token.number) ∧
      ∀ child ∈ children, child.IsOwn g k := by
  constructor
  · intro h
    cases h with
    | concurrent own scope below =>
        refine ⟨own, scope, fun child hchild => ?_⟩
        cases child with
        | running task name p => exact below task name p hchild
        | spawned | ended | lost => trivial
  · rintro ⟨own, scope, all⟩
    exact .concurrent own scope fun task name p hp => all _ hp

/-- Something was done before. -/
lemma Mirrored.append (h : Mirrored g k xs' ys' out out')
    (before : List.Forall₂ (Act.Mirrors g k) xs ys) :
    Mirrored g k (xs ++ xs') (ys ++ ys') out out' :=
  ⟨List.rel_append before h.acts, h.store, h.progress, h.own⟩

lemma Mirrored.cons (h : Mirrored g k xs ys out out') (before : x.Mirrors g k y) :
    Mirrored g k (x :: xs) (y :: ys) out out' :=
  ⟨.cons before h.acts, h.store, h.progress, h.own⟩

/-- Code has ended. -/
lemma Mirrored.ended (h : t.Shifted g k s) (acts : List.Forall₂ (Act.Mirrors g k) xs ys)
    (e : Exit) : Mirrored g k xs ys (s, .ended e) (t, .ended e) :=
  ⟨acts, h, rfl, by simp⟩

lemma Mirrored.finishRun (h : t.Shifted g k s) (run : Nat) (e : Exit) :
    Mirrored g k [] [] (finishRun run e s) (finishRun run e t) :=
  .ended (h.mark run _) .nil e

/-- Code has to wait. -/
lemma Mirrored.paused {p : Proc} (h : t.Shifted g k s)
    (acts : List.Forall₂ (Act.Mirrors g k) xs ys) (own : p.IsOwn g k) :
    Mirrored g k xs ys (s, .paused (p.shift k)) (t, .paused p) := by
  refine ⟨acts, h, rfl, ?_⟩
  rintro _ ⟨⟩
  exact own

/-! ## Dispatch -/

/-- Children are admitted. -/
lemma Dispatch.admitAll_shift (queue : List Action) (children : List Child)
    (h : t.Shifted g k s) :
    ∃ s', (d.shift k).admitAll queue (children.map (Child.shift k)) s =
        ((d.admitAll queue children t).1.shift k,
          (d.admitAll queue children t).2.1.map (Child.shift k), s') ∧
      (d.admitAll queue children t).2.2.Shifted g k s' ∧
      (d.admitAll queue children t).1.env = d.env ∧
      (d.admitAll queue children t).1.gate.isSome = d.gate.isSome ∧
      ∀ child ∈ (d.admitAll queue children t).2.1, child ∈ children ∨ child.IsOwn g k := by
  induction queue generalizing d children s t with
  | nil => exact ⟨s, rfl, h, rfl, rfl, fun _ => .inl⟩
  | cons a rest ih =>
      obtain ⟨run, env, gate, q, collected, failure⟩ := d
      rw [Dispatch.admitAll, Dispatch.admitAll]
      rcases gate with - | - | free
      · exact ⟨s, rfl, h, rfl, rfl, fun _ => .inl⟩
      · exact ⟨s, rfl, h, rfl, rfl, fun _ => .inl⟩
      · dsimp only [Dispatch.shift]
        set d : Dispatch := ⟨run, env, some free, q, collected, failure⟩ with hd
        have hspawn := ((h.mark run (.event (.throttledAdmit children.length a.name))).newTask
          env.context).mark run (.spawned children.length a)
        obtain ⟨s', heq, hshifted, henv, hgate, hown⟩ := ih (d := d)
          (children ++ [.spawned t.contexts.supply a]) hspawn
        have htask : [Child.spawned t.contexts.supply a].map (Child.shift k) =
            [.spawned s.contexts.supply a] := by
          rw [h.supply]
          rfl
        rw [List.map_append, htask] at heq
        refine ⟨s', ?_, hshifted, henv, hgate, fun child hchild => ?_⟩
        · rw [List.length_map]
          exact heq
        · rcases hown child hchild with hmem | hown
          · rcases List.mem_append.mp hmem with hmem | hmem
            · exact .inl hmem
            · rw [List.mem_singleton.mp hmem]
              exact .inr trivial
          · exact .inr hown

/-- Ends of children are collected, whatever the gate. -/
lemma Dispatch.collect_shift (gate : Option Nat) (cs : List Child) (h : t.Shifted g k s) :
    ∃ s' collected failure,
      ({ d.shift k with gate } : Dispatch).collect (cs.map (Child.shift k)) s =
        ({ d.shift k with gate, collected, failure }, s', (d.collect cs t).2.2) ∧
      (d.collect cs t).1 = { d with collected, failure } ∧
      (d.collect cs t).2.1.Shifted g k s' := by
  induction cs generalizing d s t with
  | nil => exact ⟨s, d.collected, d.failure, rfl, rfl, h⟩
  | cons child rest ih =>
      rw [List.map_cons, Dispatch.collect, Dispatch.collect, Child.verdict?_shift]
      rcases child.verdict? with - | - | f
      · exact ⟨s, d.collected, d.failure, rfl, rfl, h⟩
      · exact ih (d := { d with collected := d.collected + 1 }) h
      · rw [Child.name_shift]
        exact ih (d := { d with collected := d.collected + 1, failure := d.failure <|> some f })
          (h.note (some d.run) (some d.run) _ _)

/-- All children of a run without a limit get tasks. -/
lemma Dispatch.spawnAll_shift (first : Nat) (cs : List Action) (h : t.Shifted g k s) :
    ∃ s', (d.shift k).spawnAll first cs s =
        ((d.spawnAll first cs t).1.map (Child.shift k), s') ∧
      (d.spawnAll first cs t).2.Shifted g k s' ∧
      ∀ child ∈ (d.spawnAll first cs t).1, child.IsOwn g k := by
  induction cs generalizing first s t with
  | nil => exact ⟨s, rfl, h, by simp [Dispatch.spawnAll]⟩
  | cons a rest ih =>
      have hspawn := (h.newTask d.env.context).mark d.run (.spawned first a)
      obtain ⟨s', heq, hshifted, hown⟩ := ih (first + 1) hspawn
      have htask : Child.spawned s.contexts.supply a =
          (Child.spawned t.contexts.supply a).shift k := by
        rw [h.supply]
        rfl
      rw [Dispatch.spawnAll, Dispatch.spawnAll]
      refine ⟨s', ?_, hshifted, List.forall_mem_cons.mpr ⟨trivial, hown⟩⟩
      have hchildren := congrArg Prod.fst heq
      have hstore := congrArg Prod.snd heq
      exact Prod.ext (congrArg₂ List.cons htask hchildren) hstore

/-- Whatever the gate, the ends that are collected are the same. -/
lemma Dispatch.wrapUp_shift (gate : Option Nat) (children : List Child) (h : t.Shifted g k s) :
    (∃ s' t' e, ({ d.shift k with gate } : Dispatch).wrapUp (children.map (Child.shift k)) s =
        (s', .ended e) ∧ d.wrapUp children t = (t', .ended e) ∧ t'.Shifted g k s') ∨
      ∃ s' t' collected failure,
        ({ d.shift k with gate } : Dispatch).wrapUp (children.map (Child.shift k)) s =
          (s', .paused (.concurrent { d.shift k with gate, collected, failure }
            (children.map (Child.shift k)))) ∧
        d.wrapUp children t =
          (t', .paused (.concurrent { d with collected, failure } children)) ∧
        t'.Shifted g k s' := by
  obtain ⟨s', collected, failure, hcollect, hsame, hcollected⟩ :=
    Dispatch.collect_shift (d := d) gate (children.drop d.collected) h
  have hdrop : (children.map (Child.shift k)).drop ({ d.shift k with gate } : Dispatch).collected =
      (children.drop d.collected).map (Child.shift k) := List.map_drop.symm
  rw [wrapUp, wrapUp, hdrop, hcollect]
  generalize d.collect (children.drop d.collected) t = out at hsame hcollected ⊢
  obtain ⟨d', t', complete⟩ := out
  dsimp only at hsame hcollected ⊢
  subst hsame
  cases complete with
  | true => exact .inl ⟨_, _, _, rfl, rfl, hcollected.mark d.run _⟩
  | false => exact .inr ⟨_, _, collected, failure, rfl, rfl, hcollected⟩

/-- A concurrent run goes on. -/
theorem Dispatch.advance_mirrored (h : t.Shifted g k s)
    (own : (Proc.concurrent d children).IsOwn g k) :
    Mirrored g k [] [] ((d.shift k).advance (children.map (Child.shift k)) s)
      (d.advance children t) := by
  obtain ⟨hown, hscope, hall⟩ := Proc.isOwn_concurrent.mp own
  have hrefused : (d.shift k).refused? s = d.refused? t := by
    rw [Dispatch.refused?, Dispatch.refused?, h.closed]
    rfl
  rw [Dispatch.advance, Dispatch.advance, hrefused]
  cases d.refused? t with
  | some a =>
      dsimp only
      rw [List.length_map]
      exact .finishRun (h.mark d.run _) d.run _
  | none =>
      obtain ⟨s₁, hqueued, hshifted, henv, hgate, hchildren⟩ :=
        Dispatch.admitAll_shift (d := d) d.queue children h
      have hqueue : (d.shift k).queue = d.queue := rfl
      dsimp only
      rw [hqueue, hqueued]
      have hall' : ∀ child ∈ (d.admitAll d.queue children t).2.1, child.IsOwn g k :=
        fun child hchild => (hchildren child hchild).elim (hall child) id
      generalize d.admitAll d.queue children t = admitted at hshifted henv hgate hall' ⊢
      obtain ⟨d', children', t₁⟩ := admitted
      dsimp only at hshifted henv hgate hall' ⊢
      have hpaused : ∀ s t collected failure, t.Shifted g k s → Mirrored g k [] []
          (s, .paused (.concurrent { d'.shift k with collected, failure }
            (children'.map (Child.shift k))))
          (t, .paused (.concurrent { d' with collected, failure } children')) := by
        intro s t collected failure hst
        have hproc : (Proc.concurrent { d' with collected, failure } children').shift k =
            .concurrent { d'.shift k with collected, failure }
              (children'.map (Child.shift k)) := by
          rw [Proc.shift, shiftAmong_eq]
          rfl
        rw [← hproc]
        refine .paused hst .nil (Proc.isOwn_concurrent.mpr ⟨by rwa [henv], fun hsome => ?_, hall'⟩)
        rw [henv]
        exact hscope (hgate ▸ hsome)
      have hempty : (d'.shift k).queue.isEmpty = d'.queue.isEmpty := rfl
      rw [hempty]
      by_cases hdone : d'.queue.isEmpty = true
      · rw [if_pos hdone, if_pos hdone]
        show Mirrored g k [] [] ((d'.shift k).wrapUp (children'.map (Child.shift k)) s₁)
          (d'.wrapUp children' t₁)
        have hgate' : d'.shift k = { d'.shift k with gate := d'.gate } := rfl
        rcases Dispatch.wrapUp_shift (d := d') d'.gate children' hshifted with
          ⟨s', t', e, hs', ht', hst⟩ | ⟨s', t', collected, failure, hs', ht', hst⟩
        · rw [hgate', hs', ht']
          exact .ended hst .nil e
        · rw [hgate', hs', ht']
          exact hpaused s' t' collected failure hst
      · rw [if_neg hdone, if_neg hdone]
        exact hpaused s₁ t₁ d'.collected d'.failure hshifted

/-- How the gates of a concurrent run are related.  The run at the top has a gate in one of the
stores only. -/
def Gates (top : Bool) (gate gate' : Option Nat) : Prop :=
  if top then gate.isSome = true ∧ gate' = none else gate = gate'

/-- A child has ended.  At the top it has not asked to skip the remainder; further down such a
request is to a run with a context of its own. -/
lemma Dispatch.childEnded_shift {top : Bool} {gate : Option Nat} (h : t.Shifted g k s)
    (gates : Gates top gate d.gate) (index : Nat) (name : String) (e : Exit)
    (scope : top = false → d.gate.isSome = true → k ≤ d.env.context.token.number)
    (unasked : top = true → e ≠ .failed .skipRemainder) :
    ∃ s' gate', ({ d.shift k with gate } : Dispatch).childEnded index name e s =
        ({ (d.childEnded index name e t).1.shift k with gate := gate' }, s') ∧
      (d.childEnded index name e t).2.Shifted g k s' ∧
      Gates top gate' (d.childEnded index name e t).1.gate ∧
      ∃ own, (d.childEnded index name e t).1 = { d with gate := own } ∧
        own.isSome = d.gate.isSome := by
  have hmark := h.mark d.run (.ended index e)
  obtain ⟨run, env, gate', queue, collected, failure⟩ := d
  unfold Gates at gates ⊢
  cases top with
  | true =>
      obtain ⟨hsome, hnone⟩ : gate.isSome = true ∧ gate' = none := by simpa using gates
      obtain ⟨free, rfl⟩ := Option.isSome_iff_exists.mp hsome
      subst hnone
      refine ⟨s.mark run (.ended index e), some (free + 1), ?_, hmark, by simp [childEnded], none,
        rfl, rfl⟩
      unfold Dispatch.childEnded
      dsimp only [Dispatch.shift]
      split
      · exact absurd rfl (unasked rfl)
      · rfl
  | false =>
      have heq : gate = gate' := by simpa using gates
      subst heq
      cases gate with
      | none => exact ⟨_, none, rfl, hmark, by simp [childEnded], none, rfl, rfl⟩
      | some free =>
          refine ⟨_, some (free + 1), rfl, ?_, by simp [childEnded], some (free + 1), rfl, rfl⟩
          unfold Dispatch.childEnded
          dsimp only [Dispatch.shift]
          split
          · exact (hmark.mark run _).cancel (scope rfl rfl)
          · exact hmark

end

end Workflow
