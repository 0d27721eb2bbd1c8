import Workflow.Proofs.Origins

/-!
# Which context code stands under

Contexts are handed down.  A leaf and the children of a linear run have the context of whoever
started them, and so do the children of a concurrent run without a limit; a throttled run makes a
scope for its children; a body may run an action under a context of its own that it derives.

`Proc.Under` says of a process which context it was handed, and of everything in it that its context
came down from there in one of these ways.  Only bodies are considered that cancel nothing
themselves (`Action.Gentle`).

**Stability.**  What stands under a context goes on to do so as origins are given and runs begin:
`Under.mono`.

**Dispatch.**  A concurrent run hands its context or its scope to its children, and a child that has
ended cancels the scope at most: `Dispatch.advance_moved` and `Dispatch.childEnded_grows`.
-/

namespace Workflow

open Store

/-! ## Bodies that cancel nothing -/

mutual

/-- No leaf of the action cancels a context itself. -/
def Action.Gentle : Action → Prop
  | .leaf _ _ body => body.Gentle
  | .linear children => allGentle children
  | .async children => allGentle children
  | .throttled _ children => allGentle children
  | .named _ inner => inner.Gentle
  | .boxed inner => inner.Gentle

/-- Nor does the body, or the actions that it runs. -/
def Body.Gentle : Body → Prop
  | .finish _ => True
  | .ask e k => e ≠ .cancel ∧ ∀ reply, (k reply).Gentle
  | .giveWay k => k.Gentle
  | .guard _ k => k.Gentle
  | .run inner _ k => inner.Gentle ∧ ∀ f, (k f).Gentle

/-- Nor does any of the actions. -/
def allGentle : List Action → Prop
  | [] => True
  | a :: rest => a.Gentle ∧ allGentle rest

end

/-! ## Contexts that are handed on -/

/-- The context `c'` is one that a body whose context is `c` can run an action under, and `handle`
is what holds it. -/
inductive Context.Enters (k : Caller) (o : Nat → Origin) (c : Context) :
    Option Nat → Context → Prop where
  | same : Enters k o c none c
  | child {n : Nat} (plain : o n = .plain) : Enters k o c none { c with token := ⟨n, c.token.path⟩ }
  | timed {handle n deadline : Nat} (mine : k.supply ≤ handle) (timed : o n = .timed) :
      Enters k o c (some handle) ⟨⟨n, c.token.path⟩, some deadline, n :: c.timers⟩

/-- The children of a concurrent run that was handed the context `c` have the same, or, if the run
is throttled, its scope. -/
def Dispatch.PassesOn (o : Nat → Origin) (c : Context) (d : Dispatch) : Prop :=
  if d.gate.isSome then
    ∃ n, o n = .scope d.run ∧ d.env.context = { c with token := ⟨n, c.token.path⟩ }
  else d.env.context = c ∧ NoScope o d.run

section

variable {k : Caller} {o o' : Nat → Origin} {c c' : Context} {handle : Option Nat} {d : Dispatch}

lemma Context.Enters.keeps (h : c.Enters k o handle c') (keeps : Keeps o o') :
    c.Enters k o' handle c' := by
  cases h with
  | same => exact .same
  | child plain => exact .child (keeps.eq plain (by simp))
  | timed mine timed => exact .timed mine (keeps.eq timed (by simp))

lemma Context.Enters.fair (h : c.Enters k o handle c') (fair : c.Fair k o) : c'.Fair k o := by
  cases h with
  | same => exact fair
  | child plain => exact fair
  | timed mine timed =>
      intro n hn
      rcases List.mem_cons.mp hn with rfl | hn
      · exact .inr timed
      · exact fair n hn

lemma Context.Enters.mine (h : c.Enters k o handle c') : ∀ n, handle = some n → k.supply ≤ n := by
  intro n hn
  cases h with
  | same | child => cases hn
  | timed mine => cases hn; exact mine

lemma Dispatch.PassesOn.fair (h : d.PassesOn o c) (fair : c.Fair k o) : d.env.context.Fair k o := by
  unfold Dispatch.PassesOn at h
  split_ifs at h
  · obtain ⟨n, -, h⟩ := h
    rw [h]
    exact fair
  · rw [h.1]
    exact fair

lemma Dispatch.PassesOn.mono (h : d.PassesOn o c) {runs : Nat} (bound : d.run < runs)
    (keeps : Keeps o o') (fresh : ∀ n r, o n = .unused → o' n = .scope r → runs ≤ r) :
    d.PassesOn o' c := by
  unfold Dispatch.PassesOn at h ⊢
  split_ifs at h ⊢
  · obtain ⟨n, hn, h⟩ := h
    exact ⟨n, keeps.eq hn (by simp), h⟩
  · refine ⟨h.1, fun n hn => ?_⟩
    by_cases hunused : o n = .unused
    · have := fresh n _ hunused hn
      omega
    · exact h.2 n (by rw [← keeps n hunused, hn])

/-- How many slots are free makes no difference. -/
lemma Dispatch.PassesOn.gate (h : d.PassesOn o c) {gate : Option Nat}
    (same : gate.isSome = d.gate.isSome) : Dispatch.PassesOn o c { d with gate } := by
  unfold Dispatch.PassesOn at h ⊢
  rw [same]
  exact h

/-- A body that runs an action hands it a context. -/
lemma Store.enter_grows {s : Store} {env : Env} (h : s.InOrder k o) (fair : env.context.Fair k o)
    (under : Under) : ∃ o', s.Grows k o o' (s.enter env under).2.2 ∧
      env.context.Enters k o' (s.enter env under).2.1 (s.enter env under).1.context := by
  have hunused := h.known.unused s.contexts.supply (le_refl _)
  have hscopes : ∀ x, (∀ r, x ≠ .scope r) → ∀ n r,
      Function.update o s.contexts.supply x n = .scope r → o n = .scope r := by
    intro x hx n r hn
    by_cases hns : n = s.contexts.supply
    · subst hns
      rw [Function.update_self] at hn
      exact absurd hn (hx r)
    · rwa [Function.update_of_ne hns] at hn
  cases under with
  | same => exact ⟨o, .refl h, .same⟩
  | child =>
      refine ⟨Function.update o s.contexts.supply .plain, .ledger h (s.sameRuns_enter env .child)
        (h.known.token .plain) (.update hunused _) (hscopes _ (by simp)) ⟨[], rfl, by simp⟩, ?_⟩
      exact .child (Function.update_self ..)
  | timeout ms =>
      have hkeeps : Keeps o (Function.update o s.contexts.supply .timed) := .update hunused _
      have hfair : (s.contexts.withDeadline env.context (s.clock + ms)).1.Fair k
          (Function.update o s.contexts.supply .timed) := by
        intro n hn
        rcases List.mem_cons.mp hn with rfl | hn
        · exact .inr (Function.update_self ..)
        · exact (fair.keeps hkeeps) n hn
      refine ⟨Function.update o s.contexts.supply .timed, .ledger h
        (s.sameRuns_enter env (.timeout ms)) ((h.known.withDeadline _).hold hfair) hkeeps
        (hscopes _ (by simp)) ⟨[], rfl, by simp⟩, ?_⟩
      exact .timed (h.known.supply_le.trans (Nat.le_succ _)) (Function.update_self ..)

end

/-! ## Code and its context -/

/-- The process was handed the context `c`, among runs with numbers below `runs`, and all contexts
in it came down from there. -/
inductive Proc.Under (k : Caller) (o : Nat → Origin) (runs : Nat) : Context → Proc → Prop where
  | leaf {env : Env} {guards : List Guard} {body : Body} (gentle : body.Gentle) :
      Under k o runs env.context (.leaf env guards body)
  | within {env : Env} {guards : List Guard} {handle : Option Nat} {p : Proc}
      {next : Option Failure → Body} {c : Context} (gentle : ∀ f, (next f).Gentle)
      (enters : env.context.Enters k o handle c) (inner : Under k o runs c p) :
      Under k o runs env.context (.within env guards handle p next)
  | linear {run : Nat} {env : Env} {index : Nat} {name : String} {p : Proc} {rest : List Action}
      (gentle : allGentle rest) (bound : run < runs) (noScope : NoScope o run)
      (current : Under k o runs env.context p) :
      Under k o runs env.context (.linear run env index name p rest)
  | concurrent {c : Context} {d : Dispatch} {children : List Child} (passes : d.PassesOn o c)
      (bound : d.run < runs) (queue : allGentle d.queue)
      (spawned : ∀ task a, .spawned task a ∈ children → a.Gentle)
      (mine : ∀ child ∈ children, ∀ task, child.task? = some task → k.supply ≤ task)
      (below : ∀ task name p, .running task name p ∈ children → Under k o runs d.env.context p) :
      Under k o runs c (.concurrent d children)

/-- A child has a task of its own, and stands under the context of the children. -/
def Child.Stands (k : Caller) (o : Nat → Origin) (runs : Nat) (c : Context) : Child → Prop
  | .spawned task a => k.supply ≤ task ∧ a.Gentle
  | .running task _ p => k.supply ≤ task ∧ p.Under k o runs c
  | _ => True

lemma Proc.under_concurrent {k : Caller} {o : Nat → Origin} {runs : Nat} {c : Context}
    {d : Dispatch} {children : List Child} : (Proc.concurrent d children).Under k o runs c ↔
      d.PassesOn o c ∧ d.run < runs ∧ allGentle d.queue ∧
        ∀ child ∈ children, child.Stands k o runs d.env.context := by
  constructor
  · intro h
    cases h with
    | concurrent passes bound queue spawned mine below =>
        refine ⟨passes, bound, queue, fun child hchild => ?_⟩
        match child, hchild with
        | .spawned task a, hchild => exact ⟨mine _ hchild task rfl, spawned task a hchild⟩
        | .running task name p, hchild => exact ⟨mine _ hchild task rfl, below task name p hchild⟩
        | .ended _ _, _ | .lost _, _ => trivial
  · rintro ⟨passes, bound, queue, stands⟩
    refine .concurrent passes bound queue (fun task a ha => (stands _ ha).2)
      (fun child hchild task ht => ?_) fun task name p hp => (stands _ hp).2
    match child, hchild, ht with
    | .spawned _ _, hchild, rfl => exact (stands _ hchild).1
    | .running _ _ _, hchild, rfl => exact (stands _ hchild).1

/-- Code that was handed the context `c` has gone on from the store `s`: it stops as code that was
handed the same, or ends. -/
def Moved (k : Caller) (o : Nat → Origin) (s : Store) (c : Context) : Store × Progress → Prop
  | (s', .paused p) => ∃ o', s.Grows k o o' s' ∧ p.Under k o' s'.runs c
  | (s', .ended _) => ∃ o', s.Grows k o o' s'

section

variable {k : Caller} {o o' : Nat → Origin} {c : Context} {s s' : Store} {p : Proc}
  {out : Store × Progress}

/-- What stands under a context goes on to do so. -/
theorem Proc.Under.mono {runs runs' : Nat} (h : p.Under k o runs c) (keeps : Keeps o o')
    (fresh : ∀ n r, o n = .unused → o' n = .scope r → runs ≤ r) (le : runs ≤ runs') :
    p.Under k o' runs' c := by
  induction h with
  | leaf gentle => exact .leaf gentle
  | within gentle enters _ ih => exact .within gentle (enters.keeps keeps) ih
  | linear gentle bound noScope _ ih =>
      refine .linear gentle (bound.trans_le le) (fun n hn => ?_) ih
      by_cases hunused : o n = .unused
      · have := fresh n _ hunused hn
        omega
      · exact noScope n (by rw [← keeps n hunused, hn])
  | concurrent passes bound queue spawned mine _ ih =>
      exact .concurrent (passes.mono bound keeps fresh) (bound.trans_le le) queue spawned mine ih

lemma Proc.Under.grows (h : p.Under k o s.runs c) (grows : s.Grows k o o' s') :
    p.Under k o' s'.runs c :=
  h.mono grows.keeps grows.fresh grows.runs_le

lemma Child.Stands.grows {child : Child} (h : child.Stands k o s.runs c)
    (grows : s.Grows k o o' s') : child.Stands k o' s'.runs c := by
  match child, h with
  | .spawned _ _, h => exact h
  | .running _ _ _, ⟨mine, under⟩ => exact ⟨mine, under.grows grows⟩
  | .ended _ _, _ | .lost _, _ => trivial

lemma Moved.of_grows (grows : s.Grows k o o' s') (moved : Moved k o' s' c out) :
    Moved k o s c out := by
  match out, moved with
  | (_, .paused _), ⟨o'', hgrows, hunder⟩ => exact ⟨o'', grows.trans hgrows, hunder⟩
  | (_, .ended _), ⟨o'', hgrows⟩ => exact ⟨o'', grows.trans hgrows⟩

lemma Moved.finishRun (grows : s.Grows k o o' s') {r : Nat} (hr : r < s'.runs) (e : Exit) :
    Moved k o s c (finishRun r e s') :=
  ⟨o', grows.trans (.finishRun grows.order hr e)⟩

end

/-! ## Dispatch -/

section

variable {k : Caller} {o : Nat → Origin} {c : Context} {s : Store} {d : Dispatch}
  {children : List Child}

/-- A child gets a task under the context of the children. -/
lemma Dispatch.spawn_grows (h : s.InOrder k o) (fair : d.env.context.Fair k o)
    (bound : d.run < s.runs) (index : Nat) (a : Action) :
    s.Grows k o o ((s.newTask d.env.context).2.mark d.run (.spawned index a)) ∧
      k.supply ≤ (s.newTask d.env.context).1 := by
  have htask := Grows.newTask h fair
  exact ⟨htask.trans (.mark htask.order bound _ (.inl fun i => by simp)), h.known.supply_le⟩

/-- Children are admitted. -/
lemma Dispatch.admitAll_under (queue : List Action) (h : s.InOrder k o)
    (fair : d.env.context.Fair k o)
    (under : (Proc.concurrent { d with queue } children).Under k o s.runs c) :
    s.Grows k o o (d.admitAll queue children s).2.2 ∧
      (Proc.concurrent (d.admitAll queue children s).1 (d.admitAll queue children s).2.1).Under k o
        (d.admitAll queue children s).2.2.runs c := by
  induction queue generalizing d children s with
  | nil => exact ⟨.refl h, under⟩
  | cons a rest ih =>
      obtain ⟨run, env, gate, q, collected, failure⟩ := d
      rw [Dispatch.admitAll]
      match gate with
      | none | some 0 => exact ⟨.refl h, under⟩
      | some (free + 1) =>
          set d : Dispatch := ⟨run, env, some free, q, collected, failure⟩ with hd
          obtain ⟨passes, bound, queue, stands⟩ := Proc.under_concurrent.mp under
          have hreport := Grows.report h bound (.throttledAdmit children.length a.name)
          obtain ⟨hspawn, htask⟩ := d.spawn_grows hreport.order fair bound children.length a
          have hnew : (Child.spawned ((s.report run
              (.throttledAdmit children.length a.name)).newTask env.context).1 a).Stands k o s.runs
              env.context := ⟨htask, queue.1⟩
          obtain ⟨hgrows, hunder⟩ := ih (d := d) hspawn.order fair (Proc.under_concurrent.mpr
            ⟨passes.gate rfl, bound, queue.2, List.forall_mem_append.mpr
              ⟨stands, List.forall_mem_singleton.mpr hnew⟩⟩)
          exact ⟨hreport.trans (hspawn.trans hgrows), hunder⟩

/-- Ends of children are collected. -/
lemma Dispatch.collect_grows (cs : List Child) (h : s.InOrder k o) (bound : d.run < s.runs) :
    s.Grows k o o (d.collect cs s).2.1 ∧ ∃ collected failure,
      (d.collect cs s).1 = { d with collected, failure } := by
  induction cs generalizing d s with
  | nil => exact ⟨.refl h, d.collected, d.failure, rfl⟩
  | cons child rest ih =>
      rw [Dispatch.collect]
      match child.verdict? with
      | none => exact ⟨.refl h, d.collected, d.failure, rfl⟩
      | some none => exact ih (d := { d with collected := d.collected + 1 }) h bound
      | some (some f) =>
          have hreport := Grows.report h bound (.childFailed d.runner child.name f.message)
          obtain ⟨hgrows, hd⟩ := ih
            (d := { d with collected := d.collected + 1, failure := d.failure <|> some f })
            hreport.order bound
          exact ⟨hreport.trans hgrows, hd⟩

/-- A concurrent run goes on. -/
theorem Dispatch.advance_moved (h : s.InOrder k o) (fair : c.Fair k o)
    (under : (Proc.concurrent d children).Under k o s.runs c) :
    Moved k o s c (d.advance children s) := by
  have hfair := (Proc.under_concurrent.mp under).1.fair fair
  rw [Dispatch.advance, d.refused?_eq_none h.tidy.isOpen]
  obtain ⟨hadmitted, hunder⟩ := Dispatch.admitAll_under (d := d) d.queue h hfair under
  dsimp only
  generalize d.admitAll d.queue children s = out at hadmitted hunder ⊢
  obtain ⟨d', children', s'⟩ := out
  dsimp only at hadmitted hunder ⊢
  obtain ⟨passes, bound, queue, stands⟩ := Proc.under_concurrent.mp hunder
  obtain ⟨hcollect, collected, failure, hd⟩ :=
    Dispatch.collect_grows (children'.drop d'.collected) hadmitted.order bound
  have hgrows := hadmitted.trans hcollect
  have hbound := bound.trans_le hcollect.runs_le
  rw [hd]
  split_ifs
  · exact .finishRun hgrows hbound _
  · exact ⟨o, hgrows, Proc.under_concurrent.mpr
      ⟨passes, hbound, queue, fun child hchild => (stands child hchild).grows hcollect⟩⟩
  · exact ⟨o, hadmitted, hunder⟩

/-- All children of a run without a limit get tasks. -/
lemma Dispatch.spawnAll_grows (first : Nat) (cs : List Action) (h : s.InOrder k o)
    (fair : d.env.context.Fair k o) (bound : d.run < s.runs) (gentle : allGentle cs) :
    s.Grows k o o (d.spawnAll first cs s).2 ∧ ∀ child ∈ (d.spawnAll first cs s).1,
      child.Stands k o (d.spawnAll first cs s).2.runs d.env.context := by
  induction cs generalizing s first with
  | nil => exact ⟨.refl h, by simp [Dispatch.spawnAll]⟩
  | cons a rest ih =>
      rw [Dispatch.spawnAll]
      obtain ⟨hspawn, htask⟩ := d.spawn_grows h fair bound first a
      obtain ⟨hgrows, hnew⟩ := ih (first + 1) hspawn.order bound gentle.2
      exact ⟨hspawn.trans hgrows, List.forall_mem_cons.mpr ⟨⟨htask, gentle.1⟩, hnew⟩⟩

/-- A child has ended.  If the run is throttled and the child has asked to skip the remainder, the
scope of the children is cancelled. -/
theorem Dispatch.childEnded_grows (h : s.InOrder k o) (bound : d.run < s.runs)
    (passes : d.PassesOn o c) (index : Nat) (name : String) (e : Exit) :
    s.Grows k o o (d.childEnded index name e s).2 ∧
      (d.childEnded index name e s).1 = { d with gate := d.gate.map (· + 1) } := by
  obtain ⟨run, env, gate, queue, collected, failure⟩ := d
  unfold Dispatch.PassesOn at passes
  cases gate with
  | none =>
      simp only [Option.isSome_none, Bool.false_eq_true, if_false] at passes
      exact ⟨.mark h bound _ (.inr passes.2), rfl⟩
  | some free =>
      simp only [Option.isSome_some, if_true] at passes
      obtain ⟨n, hn, henv⟩ := passes
      refine ⟨?_, rfl⟩
      unfold Dispatch.childEnded
      dsimp only at henv ⊢
      split
      · refine Grows.skip h ?_
        rw [henv]
        exact hn
      · rename_i hne
        refine .mark h bound _ (.inl fun i hi => ?_)
        cases hi
        exact hne rfl

end

end Workflow
