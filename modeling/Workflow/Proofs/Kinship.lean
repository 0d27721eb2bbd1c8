import Workflow.Proofs.Turns

/-!
# Whose run a run is

A child that is a runner itself has a run of its own, and the trace shows which: the run begins
right after its parent has started the child (`Store.ChildRun`).  This file proves that the ends
agree.  When a run notes that a child has ended with an exit, then the child is a leaf, or its own
run has ended with that exit: `Store.Explains`.

**What goes on.**  Stores only grow: `Store.Continues` says that notes were added and none was
changed, and that every end that was noted meanwhile is explained.  `Proc.Linked` says of a process
which runs the children are that have not ended.

**The results.**  `Action.start_tells` and `Proc.resume_tells` are about a task's own code,
**`Proc.resumeAt_tells`** about a task anywhere below a process.  All is said of runs from a number
`base` on.
-/

namespace Workflow

open Store

namespace Store

/-! ## Runs of children -/

/-- The run `r'` is that of the child `c` with the index `i` of the run `r`: it began when that
child was started. -/
def ChildRun (s : Store) (r i : Nat) (c : Action) (r' : Nat) : Prop :=
  ∃ t, [⟨t, some r, .started i c⟩, ⟨t, some r', .begun c.bare⟩] <:+: s.trace.toList

/-- The child `i` of the run `r` was started.  It is a leaf, or its run is `top`. -/
def Starts (base : Nat) (s : Store) (r i : Nat) (top : Option Nat) : Prop :=
  ∃ c, .started i c ∈ s.marks r ∧
    (c.bare.children? = none ∨ ∃ r' ∈ top, base ≤ r' ∧ s.ChildRun r i c r')

/-- The exit `x` of the child `i` of the run `r` is the child's own: that of a leaf, or that of the
child's run. -/
def Explains (base : Nat) (s : Store) (r i : Nat) (x : Exit) : Prop :=
  ∃ c, .started i c ∈ s.marks r ∧
    (c.bare.children? = none ∨
      ∃ r', base ≤ r' ∧ s.ChildRun r i c r' ∧ .finished x ∈ s.marks r')

/-- Notes have been added, and the ends of children among them are explained. -/
structure Continues (base : Nat) (s s' : Store) : Prop where
  notes : s.trace.toList <+: s'.trace.toList
  runs_le : s.runs ≤ s'.runs
  ended : ∀ r i x, .ended i x ∈ s'.marks r → .ended i x ∈ s.marks r ∨ Explains base s' r i x

/-! ## Growing stores -/

section

variable {base : Nat} {s s' s'' : Store} {r i : Nat}

lemma mem_marks {m : Mark} : m ∈ s.marks r ↔ ∃ n ∈ s.trace.toList, n.run = some r ∧ n.mark = m := by
  simp [marks, notes, and_assoc]

/-- What was noted stays noted. -/
lemma marks_of_isPrefix {m : Mark} (h : s.trace.toList <+: s'.trace.toList) (hm : m ∈ s.marks r) :
    m ∈ s'.marks r := by
  obtain ⟨n, hn, hr⟩ := mem_marks.mp hm
  exact mem_marks.mpr ⟨n, h.subset hn, hr⟩

lemma ChildRun.grow {c : Action} {r' : Nat} (h : s.trace.toList <+: s'.trace.toList)
    (child : s.ChildRun r i c r') : s'.ChildRun r i c r' := by
  obtain ⟨t, ht⟩ := child
  exact ⟨t, ht.trans h.isInfix⟩

lemma Starts.grow {top : Option Nat} (h : s.trace.toList <+: s'.trace.toList)
    (starts : s.Starts base r i top) : s'.Starts base r i top := by
  obtain ⟨c, hc, hrun⟩ := starts
  refine ⟨c, marks_of_isPrefix h hc, hrun.imp_right ?_⟩
  rintro ⟨r', hr', hb, hchild⟩
  exact ⟨r', hr', hb, hchild.grow h⟩

lemma Explains.grow {x : Exit} (h : s.trace.toList <+: s'.trace.toList)
    (explains : s.Explains base r i x) : s'.Explains base r i x := by
  obtain ⟨c, hc, hrun⟩ := explains
  refine ⟨c, marks_of_isPrefix h hc, hrun.imp_right ?_⟩
  rintro ⟨r', hb, hchild, hx⟩
  exact ⟨r', hb, hchild.grow h, marks_of_isPrefix h hx⟩

/-- The run of a child has ended, and so the exit of the child is explained. -/
lemma Starts.explains {top : Option Nat} {x : Exit} (starts : s.Starts base r i top)
    (finished : ∀ r' ∈ top, .finished x ∈ s.marks r') : s.Explains base r i x := by
  obtain ⟨c, hc, hrun⟩ := starts
  refine ⟨c, hc, hrun.imp_right ?_⟩
  rintro ⟨r', hr', hb, hchild⟩
  exact ⟨r', hb, hchild, finished r' hr'⟩

namespace Continues

lemma refl (base : Nat) (s : Store) : s.Continues base s :=
  ⟨List.prefix_rfl, le_refl _, fun _ _ _ h => .inl h⟩

lemma trans (h : Continues base s s') (h' : Continues base s' s'') : Continues base s s'' where
  notes := h.notes.trans h'.notes
  runs_le := h.runs_le.trans h'.runs_le
  ended r i x hx := by
    rcases h'.ended r i x hx with hx | hx
    · exact (h.ended r i x hx).imp_right (·.grow h'.notes)
    · exact .inr hx

/-- Nothing was noted. -/
lemma of_trace (trace : s'.trace = s.trace) (runs : s.runs ≤ s'.runs) : Continues base s s' where
  notes := ⟨[], by rw [List.append_nil, trace]⟩
  runs_le := runs
  ended r i x hx := by
    rw [marks_congr (notes_congr trace r)] at hx
    exact .inl hx

/-- Something was noted that is not the end of a child. -/
lemma note (s : Store) (run : Option Nat) {m : Mark} (hm : ∀ i x, m ≠ .ended i x) :
    Continues base s (s.note run m) where
  notes := by simp [Store.note]
  runs_le := le_refl _
  ended r i x hx := by
    obtain ⟨n, hn, hr, hmark⟩ := mem_marks.mp hx
    simp only [Store.note, Array.toList_push, List.mem_append, List.mem_singleton] at hn
    rcases hn with hn | rfl
    · exact .inl (mem_marks.mpr ⟨n, hn, hr, hmark⟩)
    · exact absurd hmark (hm i x)

/-- The end of a child was noted. -/
lemma markEnded (s : Store) {x : Exit} (explains : s.Explains base r i x) :
    Continues base s (s.mark r (.ended i x)) where
  notes := by simp [Store.mark, Store.note]
  runs_le := le_refl _
  ended r' i' x' hx := by
    have hnotes : s.trace.toList <+: (s.mark r (.ended i x)).trace.toList := by
      simp [Store.mark, Store.note]
    by_cases hr : r' = r
    · subst hr
      rw [marks_mark, List.mem_append, List.mem_singleton] at hx
      refine hx.imp_right fun heq => ?_
      cases heq
      exact explains.grow hnotes
    · rw [marks_congr (s.notes_mark_of_ne _ hr)] at hx
      exact .inl hx

lemma report (s : Store) (run : Nat) (event : Event) : Continues base s (s.report run event) :=
  note s _ (by simp)

lemma newRun (s : Store) (a : Action) : Continues base s (s.newRun a).2 := by
  have hruns : Continues base s { s with runs := s.runs + 1 } := of_trace rfl (Nat.le_succ _)
  exact hruns.trans (note _ (some s.runs) (by simp))

lemma newTask (s : Store) (c : Context) : Continues base s (s.newTask c).2 :=
  of_trace rfl (le_refl _)

lemma endTask (s : Store) (task : Nat) : Continues base s (s.endTask task) :=
  of_trace rfl (le_refl _)

lemma enter (s : Store) (env : Env) (under : Under) : Continues base s (s.enter env under).2.2 := by
  cases under <;> exact of_trace rfl (le_refl _)

lemma leave (s : Store) (handle : Option Nat) : Continues base s (s.leave handle) := by
  cases handle <;> exact of_trace rfl (le_refl _)

lemma raiseGuard (s : Store) (g : Guard) : Continues base s (s.raiseGuard g) := by
  cases g <;> exact of_trace rfl (le_refl _)

lemma endGuards (s : Store) (gs : List Guard) : Continues base s (s.endGuards gs) := by
  induction gs generalizing s with
  | nil => exact refl base s
  | cons g gs ih =>
      have hguard : Continues base s (s.endGuard g) := by
        cases g <;> exact of_trace rfl (le_refl _)
      exact hguard.trans (ih _)

lemma settle (s : Store) (cell : Nat) (how : Settlement Datum) :
    Continues base s (s.settle cell how).2 := by
  unfold Store.settle
  split
  · exact refl base s
  · split
    · dsimp only
      split
      · next c _ _ _ =>
          have hcells : Continues base s { s with cells := s.cells.set cell (c.attempt how).2 } :=
            of_trace rfl (le_refl _)
          exact hcells.trans ((note _ none (m := .event (.ofSettlement how)) (by simp)).trans
            (of_trace rfl (le_refl _)))
      · exact of_trace rfl (le_refl _)
    · exact refl base s

lemma perform? {env : Env} {e : Effect} {reply : e.Reply}
    (h : s.perform? env e = some (reply, s')) : Continues base s s' := by
  cases e <;> simp only [Store.perform?, Option.some.injEq, Prod.mk.injEq] at h
  case settle cell how =>
    have hsettle : Continues base s (s.settle cell how).2 := settle s cell how
    rwa [h] at hsettle
  case await =>
    obtain ⟨v, -, h⟩ := Option.map_eq_some_iff.mp h
    cases h; exact refl base s
  case clock | deadline | isCancelled | cancel | log | record | state =>
    obtain ⟨-, rfl⟩ := h
    exact of_trace rfl (le_refl _)
  all_goals
    split_ifs at h <;> cases h <;> exact refl base s

lemma suffer (s : Store) (d : Deed) : Continues base s (s.suffer d) := by
  cases d with
  | cancel | disown => exact of_trace rfl (le_refl _)
  | settle cell how => exact settle s cell how

end Continues

end

/-! ## Runs that have begun -/

/-- The store in which the run of an action has begun, when it is one of a runner. -/
def opened (s : Store) (a : Action) : Store :=
  match a.bare.children? with
  | some _ => (s.newRun a.bare).2
  | none => s

lemma Continues.opened (base : Nat) (s : Store) (a : Action) : Continues base s (s.opened a) := by
  unfold Store.opened
  split
  · exact .newRun s _
  · exact .refl base s

/-- A child is started, and its run begins with that. -/
lemma Continues.starts {base : Nat} {s s' : Store} {run index : Nat} {a : Action}
    (known : base ≤ s.runs)
    (h : Continues base ((s.mark run (.started index a)).opened a) s') :
    s'.Starts base run index (a.run? s.runs) := by
  set s₁ := s.mark run (.started index a) with hs₁
  have hmem : .started index a ∈ s₁.marks run := by rw [hs₁, marks_mark]; simp
  refine ⟨a, marks_of_isPrefix ((Continues.opened base s₁ a).notes.trans h.notes) hmem, ?_⟩
  cases hchildren : a.bare.children? with
  | none => exact .inl rfl
  | some cs =>
      refine .inr ⟨s.runs, by simp [Action.run?, hchildren], known, s.clock, ?_⟩
      refine List.IsInfix.trans ?_ h.notes.isInfix
      refine ⟨s.trace.toList, [], ?_⟩
      simp [Store.opened, hchildren, hs₁, Store.newRun, Store.mark, Store.note, Store.clock]

end Store

/-! ## Processes -/

/-- The children of a process that have not ended have been started, and their runs are those of the
processes that they have become. -/
inductive Proc.Linked (base : Nat) (s : Store) : Proc → Prop where
  | leaf {env : Env} {guards : List Guard} {body : Body} : Linked base s (.leaf env guards body)
  | within {env : Env} {guards : List Guard} {handle : Option Nat} {inner : Proc}
      {k : Option Failure → Body} (below : Linked base s inner) :
      Linked base s (.within env guards handle inner k)
  | linear {run index : Nat} {env : Env} {name : String} {current : Proc} {rest : List Action}
      (starts : s.Starts base run index current.run?) (below : Linked base s current) :
      Linked base s (.linear run env index name current rest)
  | concurrent {d : Dispatch} {children : List Child}
      (starts : ∀ (i : Nat) task name p, children[i]? = some (.running task name p) →
        s.Starts base d.run i p.run?)
      (below : ∀ (i : Nat) task name p, children[i]? = some (.running task name p) →
        Linked base s p) :
      Linked base s (.concurrent d children)

/-- Code has gone on.  The runs of children are known still, and when the code has ended its own
run, which is `top`, has ended with the same exit. -/
def Tells (base : Nat) (top : Option Nat) (s : Store) : Store × Progress → Prop
  | (s', .paused p) => s.Continues base s' ∧ p.Linked base s' ∧ p.run? = top
  | (s', .ended e) => s.Continues base s' ∧ ∀ r ∈ top, .finished e ∈ s'.marks r

section

variable {base : Nat} {s s₀ s' : Store} {top : Option Nat} {out : Store × Progress}

lemma Proc.Linked.grow {p : Proc} (linked : p.Linked base s)
    (h : s.trace.toList <+: s'.trace.toList) : p.Linked base s' := by
  induction linked with
  | leaf => exact .leaf
  | within _ ih => exact .within ih
  | linear starts _ ih => exact .linear (starts.grow h) ih
  | concurrent starts _ ih =>
      exact .concurrent (fun i task name p hp => (starts i task name p hp).grow h) ih

lemma Tells.continues (h : Tells base top s out) : s.Continues base out.1 := by
  match out, h with
  | (_, .paused _), h => exact h.1
  | (_, .ended _), h => exact h.1

lemma Tells.of_continues (h : s₀.Continues base s) (tells : Tells base top s out) :
    Tells base top s₀ out := by
  match out, tells with
  | (_, .paused _), ⟨hc, rest⟩ => exact ⟨h.trans hc, rest⟩
  | (_, .ended _), ⟨hc, rest⟩ => exact ⟨h.trans hc, rest⟩

lemma Tells.finishRun {run : Nat} (h : s₀.Continues base s) (e : Exit) :
    Tells base (some run) s₀ (finishRun run e s) := by
  refine ⟨h.trans (.note s _ (by simp)), ?_⟩
  rintro _ ⟨⟩
  rw [marks_mark]
  simp

/-! ## Going on after a part -/

/-- A body goes on after an action that it ran. -/
lemma Body.after_tells {env : Env} {guards : List Guard} {handle : Option Nat}
    {next : Option Failure → Body} (tells : Tells base top s out)
    (after : ∀ f s', base ≤ s'.runs → Tells base none s' ((next f).resume env guards s'))
    (known : base ≤ s.runs) : Tells base none s (Body.after env guards handle next out) := by
  match out, tells with
  | (s', .paused p), ⟨hc, linked, _⟩ => exact ⟨hc, .within linked, rfl⟩
  | (s', .ended e), ⟨hc, _⟩ =>
      have hleave := hc.trans (.leave s' handle)
      have hnext := fun f => (after f _ (known.trans hleave.runs_le)).of_continues hleave
      cases e with
      | done => exact hnext none
      | failed f => exact hnext (some f)
      | panicked payload => exact ⟨hleave.trans (.endGuards _ guards), by simp⟩

/-- A linear run stops at a child that did not succeed. -/
lemma stopLinear_tells {run index : Nat} {e : Exit} (explains : s.Explains base run index e)
    (name : String) : Tells base (some run) s (stopLinear run index name e s) := by
  have hmark : s.Continues base (s.mark run (.ended index e)) := .markEnded s explains
  unfold stopLinear
  match e with
  | .done | .panicked _ => exact .finishRun hmark _
  | .failed f => cases f <;> exact .finishRun (hmark.trans (.report _ run _)) _

/-- A linear run goes on after one of its children. -/
lemma afterChild_tells {run index : Nat} {env : Env} {name : String} {rest : List Action}
    (tells : Tells base top s out) (starts : out.1.Starts base run index top)
    (after : ∀ s', base ≤ s'.runs →
      Tells base (some run) s' (startRest run env (index + 1) s' rest))
    (known : base ≤ s.runs) :
    Tells base (some run) s (afterChild run env index name rest out) := by
  match out, tells with
  | (s', .paused p), ⟨hc, linked, hrun⟩ =>
      exact ⟨hc, .linear (by rw [hrun]; exact starts) linked, rfl⟩
  | (s', .ended e), ⟨hc, hfinished⟩ =>
      have hexplains := starts.explains hfinished
      have hstop := (stopLinear_tells hexplains name).of_continues hc
      cases e with
      | done =>
          have hmark := hc.trans (.markEnded s' hexplains)
          exact (after _ (known.trans hmark.runs_le)).of_continues hmark
      | failed f => exact hstop
      | panicked payload => exact hstop

/-! ## The dispatcher's turn -/

variable {d : Dispatch} {children : List Child}

lemma Dispatch.admitAll_continues (base : Nat) : ∀ (queue : List Action) (d : Dispatch)
    (children : List Child) (s : Store), ∃ d' new s',
      d.admitAll queue children s = (d', children ++ new, s') ∧ s.Continues base s' ∧
        d'.run = d.run ∧ ∀ c ∈ new, ∃ task a, c = .spawned task a
  | [], d, children, s =>
      ⟨{ d with queue := [] }, [], s, by simp [admitAll], .refl base s, rfl, by simp⟩
  | a :: rest, d, children, s => by
      unfold admitAll
      split
      · next free _ =>
          set s₁ := s.report d.run (.throttledAdmit children.length a.name)
          set s₂ := (s₁.newTask d.env.context).2
          obtain ⟨d', new, s', heq, hc, hrun, hnew⟩ := admitAll_continues base rest
            { d with gate := some free } (children ++ [.spawned (s₁.newTask d.env.context).1 a])
            (s₂.mark d.run (.spawned children.length a))
          refine ⟨d', .spawned (s₁.newTask d.env.context).1 a :: new, s', ?_, ?_, hrun, ?_⟩
          · rw [List.append_cons]
            exact heq
          · exact (Continues.report s _ _).trans
              ((Continues.newTask s₁ _).trans ((Continues.note s₂ _ (by simp)).trans hc))
          · rintro c (_ | ⟨_, hmem⟩)
            · exact ⟨_, a, rfl⟩
            · exact hnew c hmem
      · exact ⟨{ d with queue := a :: rest }, [], s, by rw [List.append_nil], .refl base s, rfl,
          by simp⟩

lemma Dispatch.collect_continues (base : Nat) : ∀ (rest : List Child) (d : Dispatch) (s : Store),
    s.Continues base (d.collect rest s).2.1 ∧ (d.collect rest s).1.run = d.run
  | [], d, s => ⟨.refl base s, rfl⟩
  | c :: rest, d, s => by
      unfold collect
      rcases c.verdict? with _ | _ | f
      · exact ⟨.refl base s, rfl⟩
      · exact collect_continues base rest _ s
      · obtain ⟨hc, hrun⟩ := collect_continues base rest
          { d with collected := d.collected + 1, failure := d.failure <|> some f }
          (s.report d.run (.childFailed d.runner c.name f.message))
        exact ⟨(Continues.report s _ _).trans hc, hrun⟩

lemma Dispatch.spawnAll_continues (base : Nat) (d : Dispatch) :
    ∀ (rest : List Action) (first : Nat) (s : Store),
      s.Continues base (d.spawnAll first rest s).2 ∧
        ∀ c ∈ (d.spawnAll first rest s).1, ∃ task a, c = .spawned task a
  | [], _, s => ⟨.refl base s, by simp [spawnAll]⟩
  | a :: rest, first, s => by
      set s₁ := (s.newTask d.env.context).2 with hs₁
      obtain ⟨hc, hnew⟩ :=
        spawnAll_continues base d rest (first + 1) (s₁.mark d.run (.spawned first a))
      refine ⟨(Continues.newTask s _).trans ((Continues.note s₁ _ (by simp)).trans hc), ?_⟩
      rintro c (_ | ⟨_, hmem⟩)
      · exact ⟨_, a, rfl⟩
      · exact hnew c hmem

/-- New children have not started, so that only the old ones have runs. -/
lemma Proc.Linked.withNew {d' : Dispatch} {new : List Child}
    (linked : (Proc.concurrent d children).Linked base s) (h : s.Continues base s')
    (run : d'.run = d.run) (fresh : ∀ c ∈ new, ∃ task a, c = .spawned task a) :
    (Proc.concurrent d' (children ++ new)).Linked base s' := by
  have hold : ∀ {i : Nat} {task name p},
      (children ++ new)[i]? = some (.running task name p) →
      children[i]? = some (.running task name p) := by
    intro i task name p hp
    rw [List.getElem?_append] at hp
    split_ifs at hp with hi
    · exact hp
    · obtain ⟨_, _, heq⟩ := fresh _ (List.mem_of_getElem? hp)
      cases heq
  match linked with
  | .concurrent starts below =>
      refine .concurrent (fun i task name p hp => ?_) fun i task name p hp => ?_
      · rw [run]
        exact (starts i task name p (hold hp)).grow h.notes
      · exact (below i task name p (hold hp)).grow h.notes

/-- The dispatcher's turn. -/
lemma Dispatch.advance_tells (linked : (Proc.concurrent d children).Linked base s) :
    Tells base (some d.run) s (d.advance children s) := by
  unfold advance
  split
  · exact .finishRun (.report s _ _) _
  · obtain ⟨d₁, new, s₁, heq, hc₁, hrun₁, hnew⟩ := admitAll_continues base d.queue d children s
    obtain ⟨hc₂, hrun₂⟩ := collect_continues base ((children ++ new).drop d₁.collected) d₁ s₁
    have hc := hc₁.trans hc₂
    have hrun := hrun₂.trans hrun₁
    simp only [heq]
    split_ifs
    · rw [← hrun]
      exact .finishRun hc _
    · exact ⟨hc, linked.withNew hc hrun hnew, congrArg some hrun⟩
    · exact ⟨hc₁, linked.withNew hc₁ hrun₁ hnew, congrArg some hrun₁⟩

/-- A run without a child that has started goes on. -/
lemma Dispatch.advance_tells_fresh (d : Dispatch) (s : Store)
    (fresh : ∀ c ∈ children, ∃ task a, c = .spawned task a) :
    Tells base (some d.run) s (d.advance children s) := by
  have hnone : ∀ (i : Nat) task name p, children[i]? ≠ some (.running task name p) := by
    intro i task name p hp
    obtain ⟨_, _, heq⟩ := fresh _ (List.mem_of_getElem? hp)
    cases heq
  exact advance_tells (.concurrent (fun i task name p hp => absurd hp (hnone i task name p))
    fun i task name p hp => absurd hp (hnone i task name p))

/-- Notice is taken of the end of a child. -/
lemma Dispatch.childEnded_continues (d : Dispatch) {index : Nat} {e : Exit}
    (explains : s.Explains base d.run index e) (name : String) :
    s.Continues base (d.childEnded index name e s).2 ∧
      (d.childEnded index name e s).1.run = d.run := by
  have hmark : s.Continues base (s.mark d.run (.ended index e)) := .markEnded s explains
  unfold childEnded
  cases d.gate with
  | none => exact ⟨hmark, rfl⟩
  | some free =>
      refine ⟨?_, rfl⟩
      dsimp only
      split
      · exact hmark.trans ((Continues.report _ d.run (.throttledSkip index name)).trans
          (.of_trace rfl (le_refl _)))
      · exact hmark

/-! ## The beginnings of runs -/

lemma startAsync_tells (run : Nat) (env : Env) (cs : List Action) (s : Store) :
    Tells base (some run) s (startAsync run env cs s) := by
  unfold startAsync
  split_ifs
  · exact .finishRun (.refl base s) _
  · obtain ⟨hc, hnew⟩ := Dispatch.spawnAll_continues base ⟨run, env, none, [], 0, none⟩ cs 0 s
    exact (Dispatch.advance_tells_fresh ⟨run, env, none, [], 0, none⟩ _ hnew).of_continues hc

lemma startThrottled_tells (run : Nat) (env : Env) (limit : Limit) (cs : List Action) (s : Store) :
    Tells base (some run) s (startThrottled run env limit cs s) := by
  unfold startThrottled
  split_ifs
  · exact .finishRun (.refl base s) _
  · have hderive : s.Continues base { s with contexts := (s.contexts.child env.context).2 } :=
      .of_trace rfl (le_refl _)
    exact (Dispatch.advance_tells_fresh _ _ (by simp)).of_continues
      (hderive.trans (.note _ _ (by simp)))

/-! ## From the beginning of an action -/

mutual

/-- **An action is started.**  Its run begins at once, when it is one of a runner. -/
theorem Action.start_tells (env : Env) (s : Store) (known : base ≤ s.runs) :
    (a : Action) → Tells base (a.run? s.runs) (s.opened a) (a.start env s)
  | .leaf .contextFunction _ body => by
      rw [Action.start]
      have hc : s.Continues base (s.newState .empty).2 := .of_trace rfl (le_refl _)
      exact (Body.resume_tells { env with state := (s.newState .empty).1 } [] (s.newState .empty).2
        known body).of_continues hc
  | .leaf .function _ body | .leaf .readyMade _ body => by
      rw [Action.start]
      · exact Body.resume_tells env [] s known body
      · simp
  | .linear children => by
      rw [Action.start]
      exact (startRest_tells s.runs env 0 _ (known.trans (Nat.le_succ _)) children).of_continues
        (.report _ _ _)
  | .async children => by
      rw [Action.start_async]
      exact (startAsync_tells _ _ _ _).of_continues (.report _ _ _)
  | .throttled limit children => by
      rw [Action.start_throttled]
      exact (startThrottled_tells _ _ _ _ _).of_continues (.report _ _ _)
  | .named _ inner => by
      rw [Action.start]
      exact Action.start_tells env s known inner
  | .boxed inner => by
      rw [Action.start]
      exact Action.start_tells env s known inner

/-- A body goes on. -/
theorem Body.resume_tells (env : Env) (guards : List Guard) (s : Store) (known : base ≤ s.runs) :
    (b : Body) → Tells base none s (b.resume env guards s)
  | .finish e => by
      rw [Body.resume]
      exact ⟨.endGuards s guards, by simp⟩
  | .ask e next => by
      rw [Body.resume]
      cases hperform : s.perform? env e with
      | none => exact ⟨.refl base s, .leaf, rfl⟩
      | some granted =>
          obtain ⟨reply, s'⟩ := granted
          have hc : s.Continues base s' := .perform? hperform
          exact (Body.resume_tells env guards s' (known.trans hc.runs_le) (next reply)).of_continues
            hc
  | .giveWay next => by
      rw [Body.resume]
      exact ⟨.refl base s, .leaf, rfl⟩
  | .guard g next => by
      rw [Body.resume]
      have hc : s.Continues base (s.raiseGuard g) := .raiseGuard s g
      exact (Body.resume_tells env (guards ++ [g]) _ (known.trans hc.runs_le) next).of_continues hc
  | .run inner under next => by
      rw [Body.resume_run]
      have hc : s.Continues base (s.enter env under).2.2 := .enter s env under
      have hknown := known.trans hc.runs_le
      have htells := Action.start_tells (s.enter env under).1 _ hknown inner
      refine Body.after_tells (htells.of_continues (hc.trans (.opened base _ inner))) ?_ known
      intro f s' known'
      exact Body.resume_tells env guards s' known' (next f)

/-- A linear run goes on with the next child. -/
theorem startRest_tells (run : Nat) (env : Env) (index : Nat) (s : Store) (known : base ≤ s.runs) :
    (rest : List Action) → Tells base (some run) s (startRest run env index s rest)
  | [] => by
      rw [startRest]
      exact .finishRun (.refl base s) _
  | a :: rest => by
      rw [startRest_cons]
      have htells := Action.start_tells env (s.mark run (.started index a)) known a
      refine afterChild_tells (htells.of_continues ?_)
        (htells.continues.starts (s := s) known) ?_ known
      · exact (Continues.note s _ (by simp)).trans (.opened base _ a)
      · intro s' known'
        exact startRest_tells run env (index + 1) s' known' rest

end

/-! ## Going on -/

/-- **A task's own code goes on.** -/
theorem Proc.resume_tells {p : Proc} (linked : p.Linked base s) (known : base ≤ s.runs) :
    Tells base p.run? s (p.resume s) := by
  induction linked with
  | leaf => exact Body.resume_tells _ _ s known _
  | within _ ih =>
      rw [Proc.resume_within]
      exact Body.after_tells ih (fun f s' known' => Body.resume_tells _ _ s' known' _) known
  | linear starts _ ih =>
      rw [Proc.resume_linear]
      exact afterChild_tells ih (starts.grow ih.continues.notes)
        (fun s' known' => startRest_tells _ _ _ s' known' _) known
  | concurrent starts below => exact Dispatch.advance_tells (.concurrent starts below)

/-! ## A task below a process -/

/-- A child has gone on: the runs of the children below it are known, and its own if it has not
ended. -/
def Child.Told (base : Nat) (s : Store) (d : Dispatch) (i : Nat)
    (out : Store × Dispatch × Child) : Prop :=
  s.Continues base out.1 ∧ out.2.1.run = d.run ∧
    ∀ task name p, out.2.2 = .running task name p →
      out.1.Starts base d.run i p.run? ∧ p.Linked base out.1

/-- The code of a child has stopped or ended, and the run above it takes notice of that. -/
lemma Child.after_told {i task : Nat} {name : String} (tells : Tells base top s out)
    (starts : out.1.Starts base d.run i top) :
    Child.Told base s d i (Child.after d i task name out) := by
  match out, tells with
  | (s', .paused p), ⟨hc, linked, hrun⟩ =>
      refine ⟨hc, rfl, ?_⟩
      rintro _ _ _ ⟨⟩
      exact ⟨by rw [hrun]; exact starts, linked⟩
  | (s', .ended e), ⟨hc, hfinished⟩ =>
      obtain ⟨hended, hrun⟩ := d.childEnded_continues (starts.explains hfinished) name
      refine ⟨hc.trans (hended.trans (.endTask _ task)), hrun, ?_⟩
      rintro _ _ _ ⟨⟩

/-- A task goes on that is a child of the run or stands below one.  What is known about tasks
further down is taken from `below`. -/
lemma Child.resumeAt_told {child : Child} (i : Nat) (path : List Nat) (known : base ≤ s.runs)
    (linked : ∀ task name p, child = .running task name p →
      s.Starts base d.run i p.run? ∧ p.Linked base s)
    (below : ∀ task name p index path, child = .running task name p →
      s.Continues base (p.resumeAt s index path).1 ∧
        (p.resumeAt s index path).2.Linked base (p.resumeAt s index path).1 ∧
        (p.resumeAt s index path).2.run? = p.run?) :
    Child.Told base s d i (child.resumeAt s d i path) := by
  match child, path with
  | .spawned task a, [] =>
      rw [Child.resumeAt_spawned]
      have htells := Action.start_tells d.env (s.mark d.run (.started i a)) known a
      refine Child.after_told (htells.of_continues ?_)
        (htells.continues.starts (s := s) known)
      exact (Continues.note s _ (by simp)).trans (.opened base _ a)
  | .running task name p, [] =>
      rw [Child.resumeAt_running]
      obtain ⟨starts, hp⟩ := linked task name p rfl
      have htells := Proc.resume_tells hp known
      exact Child.after_told htells (starts.grow htells.continues.notes)
  | .running task name p, index :: path =>
      rw [Child.resumeAt]
      obtain ⟨hc, hlinked, hrun⟩ := below task name p index path rfl
      refine ⟨hc, rfl, ?_⟩
      rintro _ _ _ ⟨⟩
      exact ⟨by rw [hrun]; exact (linked task name p rfl).1.grow hc.notes, hlinked⟩
  | .spawned _ _, _ :: _ | .ended _ _, _ | .lost _, _ =>
      rw [Child.resumeAt]
      · exact ⟨.refl base s, rfl, linked⟩
      all_goals simp

/-- **A task goes on.**  The runs of all children of the process around it are known still. -/
theorem Proc.resumeAt_tells {p : Proc} (linked : p.Linked base s) (known : base ≤ s.runs)
    (index : Nat) (path : List Nat) :
    s.Continues base (p.resumeAt s index path).1 ∧
      (p.resumeAt s index path).2.Linked base (p.resumeAt s index path).1 ∧
      (p.resumeAt s index path).2.run? = p.run? := by
  induction linked generalizing index path with
  | leaf =>
      rw [Proc.resumeAt]
      exact ⟨.refl base s, .leaf, rfl⟩
  | within _ ih =>
      rw [Proc.resumeAt]
      obtain ⟨hc, hlinked, -⟩ := ih index path
      exact ⟨hc, .within hlinked, rfl⟩
  | linear starts _ ih =>
      rw [Proc.resumeAt]
      obtain ⟨hc, hlinked, hrun⟩ := ih index path
      exact ⟨hc, .linear (by rw [hrun]; exact starts.grow hc.notes) hlinked, rfl⟩
  | @concurrent d children starts below ih =>
      rw [Proc.resumeAt, resumeAmong_eq, Nat.zero_add]
      cases hplace : children[index]? with
      | none => exact ⟨.refl base s, .concurrent starts below, rfl⟩
      | some child =>
          obtain ⟨hc, hrun, hchild⟩ := Child.resumeAt_told (d := d) index path known
            (fun task name p h => ⟨starts index task name p (h ▸ hplace),
              below index task name p (h ▸ hplace)⟩)
            fun task name p index' path' h => ih index task name p (h ▸ hplace) index' path'
          refine ⟨hc, ?_, congrArg some hrun⟩
          refine .concurrent (fun i task name p hp => ?_) fun i task name p hp => ?_
          all_goals
            rw [List.getElem?_set] at hp
            split_ifs at hp with hi
          · subst hi
            rw [hrun]
            exact (hchild task name p (Option.some.inj hp)).1
          · rw [hrun]
            exact (starts i task name p hp).grow hc.notes
          · exact (hchild task name p (Option.some.inj hp)).2
          · exact (below i task name p hp).grow hc.notes

end

end Workflow
