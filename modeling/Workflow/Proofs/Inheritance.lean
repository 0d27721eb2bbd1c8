import Workflow.Proofs.Scopes
import Workflow.Proofs.Turns

/-!
# Contexts are handed down

Whatever code runs, and wherever it stops, it stands under the context that it was handed, and so
does everything that it has started; nothing of the caller's is cancelled on the way.

* `Action.start_moved`: an action is run from its beginning;
* **`Proc.resume_moved`**: a task's own code goes on;
* **`Proc.resumeAt_moved`**: a task goes on that may stand anywhere below a process.
-/

namespace Workflow

open Store

section

variable {k : Caller} {o : Nat → Origin} {s : Store} {c : Context}

/-! ## Going on after a part -/

/-- A body goes on after an action that it ran. -/
lemma Body.after_moved {env : Env} {guards : List Guard} {handle : Option Nat}
    {next : Option Failure → Body} {out : Store × Progress} (gentle : ∀ f, (next f).Gentle)
    (enters : env.context.Enters k o handle c) (moved : Moved k o s c out)
    (after : ∀ f o' s', s.Grows k o o' s' →
      Moved k o' s' env.context ((next f).resume env guards s')) :
    Moved k o s env.context (Body.after env guards handle next out) := by
  match out, moved with
  | (s', .paused p), ⟨o', hgrows, hunder⟩ =>
      exact ⟨o', hgrows, .within gentle (enters.keeps hgrows.keeps) hunder⟩
  | (s', .ended e), ⟨o', hgrows⟩ =>
      have hleave := hgrows.trans (.leave hgrows.order enters.mine)
      cases e with
      | done => exact .of_grows hleave (after none _ _ hleave)
      | failed f => exact .of_grows hleave (after (some f) _ _ hleave)
      | panicked payload => exact ⟨o', hleave.trans (.endGuards hleave.order guards)⟩

/-- A linear run stops at a child that did not succeed.  No scope is concerned. -/
lemma stopLinear_moved (h : s.InOrder k o) {run : Nat} (bound : run < s.runs)
    (noScope : NoScope o run) (index : Nat) (name : String) (e : Exit) :
    Moved k o s c (stopLinear run index name e s) := by
  have hmark := Grows.mark h bound (.ended index e) (.inr noScope)
  have hreport := fun event => hmark.trans (.report hmark.order bound event)
  unfold stopLinear
  match e with
  | .done | .panicked _ => exact .finishRun hmark bound _
  | .failed f => cases f <;> exact .finishRun (hreport _) bound _

/-- A linear run goes on after one of its children. -/
lemma afterChild_moved {run index : Nat} {env : Env} {name : String} {rest : List Action}
    {out : Store × Progress} (bound : run < s.runs) (noScope : NoScope o run)
    (gentle : allGentle rest) (moved : Moved k o s env.context out)
    (after : ∀ o' s', s.Grows k o o' s' →
      Moved k o' s' env.context (startRest run env (index + 1) s' rest)) :
    Moved k o s env.context (afterChild run env index name rest out) := by
  match out, moved with
  | (s', .paused p), ⟨o', hgrows, hunder⟩ =>
      exact ⟨o', hgrows, .linear gentle (bound.trans_le hgrows.runs_le)
        (hgrows.noScope bound noScope) hunder⟩
  | (s', .ended e), ⟨o', hgrows⟩ =>
      have hbound := bound.trans_le hgrows.runs_le
      have hscope := hgrows.noScope bound noScope
      have hstop := fun e => Moved.of_grows hgrows
        (stopLinear_moved (c := env.context) hgrows.order hbound hscope index name e)
      cases e with
      | done =>
          have hmark := hgrows.trans (.mark hgrows.order hbound (.ended index .done) (.inr hscope))
          exact .of_grows hmark (after _ _ hmark)
      | failed f => exact hstop (.failed f)
      | panicked payload => exact hstop (.panicked payload)

/-! ## The beginnings of runs -/

/-- A run begins and says so. -/
lemma Store.Grows.newRun_report (h : s.InOrder k o) (a : Action) (event : Event) :
    s.Grows k o o ((s.newRun a).2.report s.runs event) ∧ NoScope o s.runs ∧
      ¬((s.newRun a).2.report s.runs event).Skipped s.runs := by
  obtain ⟨hnew, hscope, hskip⟩ := Grows.newRun h a
  refine ⟨hnew.trans (.report hnew.order (Nat.lt_succ_self _) event), hscope, ?_⟩
  rintro ⟨i, hi⟩
  rw [report_eq_mark, marks_mark, List.mem_append, List.mem_singleton] at hi
  exact hskip ⟨i, hi.resolve_right (by simp)⟩

/-- The children of a run without a limit get its own context. -/
lemma startAsync_moved (h : s.InOrder k o) {run : Nat} {env : Env} {cs : List Action}
    (fair : env.context.Fair k o) (bound : run < s.runs) (noScope : NoScope o run)
    (gentle : allGentle cs) : Moved k o s env.context (startAsync run env cs s) := by
  rw [startAsync, if_neg (by rw [h.tidy.isOpen]; simp)]
  set d : Dispatch := ⟨run, env, none, [], 0, none⟩ with hd
  obtain ⟨hgrows, hnew⟩ := Dispatch.spawnAll_grows (d := d) 0 cs h fair bound gentle
  exact .of_grows hgrows (Dispatch.advance_moved hgrows.order fair (Proc.under_concurrent.mpr
    ⟨⟨rfl, noScope⟩, bound.trans_le hgrows.runs_le, trivial, hnew⟩))

/-- The children of a throttled run get its scope. -/
lemma startThrottled_moved {s' : Store} (h : s.Grows k o o s') {run : Nat} {env : Env}
    {limit : Limit} {cs : List Action} (fair : env.context.Fair k o) (new : s.runs ≤ run)
    (bound : run < s'.runs) (noScope : NoScope o run) (unasked : ¬s'.Skipped run)
    (gentle : allGentle cs) :
    Moved k o s env.context (startThrottled run env limit cs s') := by
  unfold startThrottled
  split_ifs
  · exact .finishRun h bound _
  have hderive := h.derive new bound noScope unasked env.context
  exact .of_grows hderive (Dispatch.advance_moved hderive.order (fair.keeps hderive.keeps)
    (Proc.under_concurrent.mpr
      ⟨⟨s'.contexts.supply, Function.update_self .., rfl⟩, bound, gentle, by simp⟩))

/-! ## From the beginning of an action -/

mutual

/-- An action is run from its beginning. -/
theorem Action.start_moved {env : Env} {o : Nat → Origin} {s : Store} (h : s.InOrder k o)
    (fair : env.context.Fair k o) :
    (a : Action) → a.Gentle → Moved k o s env.context (a.start env s)
  | .leaf kind name body, gentle => by
      obtain ⟨own, s', hown, hsame, hcontexts, heq⟩ := Action.start_leaf env s kind name body
      have hgrows := Grows.aside h hsame hcontexts
      rw [heq, ← hown.context]
      exact .of_grows hgrows
        (Body.resume_moved hgrows.order (by rw [hown.context]; exact fair) [] body gentle)
  | .linear children, gentle => by
      rw [Action.start]
      obtain ⟨hgrows, hscope, -⟩ :=
        Grows.newRun_report h (.linear children) (.linearStart children.length)
      exact .of_grows hgrows
        (startRest_moved hgrows.order fair (Nat.lt_succ_self _) hscope 0 children gentle)
  | .async children, gentle => by
      rw [Action.start_async]
      obtain ⟨hgrows, hscope, -⟩ :=
        Grows.newRun_report h (.async children) (.asyncDispatch children.length)
      exact .of_grows hgrows (startAsync_moved hgrows.order fair (Nat.lt_succ_self _) hscope gentle)
  | .throttled limit children, gentle => by
      rw [Action.start_throttled]
      obtain ⟨hgrows, hscope, hskip⟩ := Grows.newRun_report h (.throttled limit children)
        (.throttledDispatch limit.value children.length)
      exact startThrottled_moved hgrows fair (le_refl _) (Nat.lt_succ_self _) hscope hskip gentle
  | .named _ inner, gentle => by
      rw [Action.start]
      exact Action.start_moved h fair inner gentle
  | .boxed inner, gentle => by
      rw [Action.start]
      exact Action.start_moved h fair inner gentle

/-- A body goes on. -/
theorem Body.resume_moved {env : Env} {o : Nat → Origin} {s : Store} (h : s.InOrder k o)
    (fair : env.context.Fair k o) (guards : List Guard) :
    (b : Body) → b.Gentle → Moved k o s env.context (b.resume env guards s)
  | .finish e, _ => by
      rw [Body.resume]
      exact ⟨o, .endGuards h guards⟩
  | .ask e next, gentle => by
      rw [Body.resume]
      cases hperform : s.perform? env e with
      | none => exact ⟨o, .refl h, .leaf gentle⟩
      | some granted =>
          obtain ⟨reply, s'⟩ := granted
          have hgrows := Grows.perform? h gentle.1 hperform
          exact .of_grows hgrows
            (Body.resume_moved hgrows.order fair guards (next reply) (gentle.2 reply))
  | .giveWay next, gentle => by
      rw [Body.resume]
      exact ⟨o, .refl h, .leaf gentle⟩
  | .guard g next, gentle => by
      rw [Body.resume]
      have hgrows := Grows.raiseGuard h g
      exact .of_grows hgrows (Body.resume_moved hgrows.order fair (guards ++ [g]) next gentle)
  | .run inner under next, gentle => by
      rw [Body.resume_run]
      obtain ⟨o', hgrows, henters⟩ := s.enter_grows h fair under
      have hfair := fair.keeps hgrows.keeps
      refine .of_grows hgrows (Body.after_moved gentle.2 henters
        (Action.start_moved hgrows.order (henters.fair hfair) inner gentle.1) ?_)
      intro f o'' s'' hgrows'
      exact Body.resume_moved hgrows'.order (hfair.keeps hgrows'.keeps) guards (next f) (gentle.2 f)

/-- A linear run goes on with the next child. -/
theorem startRest_moved {env : Env} {run : Nat} {o : Nat → Origin} {s : Store} (h : s.InOrder k o)
    (fair : env.context.Fair k o) (bound : run < s.runs) (noScope : NoScope o run) (index : Nat) :
    (rest : List Action) → allGentle rest → Moved k o s env.context (startRest run env index s rest)
  | [], _ => by
      rw [startRest]
      exact .finishRun (.refl h) bound _
  | a :: rest, gentle => by
      rw [startRest_cons]
      have hgrows := Grows.mark h bound (.started index a) (.inr noScope)
      refine .of_grows hgrows (afterChild_moved bound noScope gentle.2
        (Action.start_moved hgrows.order fair a gentle.1) ?_)
      intro o' s' hgrows'
      exact startRest_moved hgrows'.order (fair.keeps hgrows'.keeps)
        (bound.trans_le hgrows'.runs_le) (hgrows'.noScope bound noScope) (index + 1) rest gentle.2

end

/-! ## Going on -/

/-- **A task's own code goes on.**  It stays under the context that it was handed. -/
theorem Proc.resume_moved {p : Proc} (under : p.Under k o s.runs c) (h : s.InOrder k o)
    (fair : c.Fair k o) : Moved k o s c (p.resume s) := by
  induction under with
  | leaf gentle => exact Body.resume_moved h fair _ _ gentle
  | within gentle enters _ ih =>
      rw [Proc.resume_within]
      refine Body.after_moved gentle enters (ih (enters.fair fair)) ?_
      intro f o' s' hgrows
      exact Body.resume_moved hgrows.order (fair.keeps hgrows.keeps) _ _ (gentle f)
  | linear gentle bound noScope _ ih =>
      rw [Proc.resume_linear]
      refine afterChild_moved bound noScope gentle (ih fair) ?_
      intro o' s' hgrows
      exact startRest_moved hgrows.order (fair.keeps hgrows.keeps)
        (bound.trans_le hgrows.runs_le) (hgrows.noScope bound noScope) _ _ gentle
  | concurrent passes bound queue spawned mine below =>
      exact Dispatch.advance_moved h fair (.concurrent passes bound queue spawned mine below)

/-! ## A task below a process -/

/-- The code of a child has stopped or ended, and the run above it takes notice of that. -/
lemma Child.after_moved {d : Dispatch} {task : Nat} {out : Store × Progress}
    (bound : d.run < s.runs) (passes : d.PassesOn o c) (mine : k.supply ≤ task)
    (moved : Moved k o s d.env.context out) (index : Nat) (name : String) :
    ∃ o' s' gate child', Child.after d index task name out = (s', { d with gate }, child') ∧
      gate.isSome = d.gate.isSome ∧ s.Grows k o o' s' ∧
      child'.Stands k o' s'.runs d.env.context := by
  match out, moved with
  | (s', .paused p), ⟨o', hgrows, hunder⟩ =>
      exact ⟨o', s', d.gate, .running task name p, rfl, rfl, hgrows, mine, hunder⟩
  | (s', .ended e), ⟨o', hgrows⟩ =>
      obtain ⟨hended, hd⟩ := d.childEnded_grows hgrows.order (bound.trans_le hgrows.runs_le)
        (passes.mono bound hgrows.keeps hgrows.fresh) index name e
      refine ⟨o', _, d.gate.map (· + 1), .ended name e, by rw [Child.after, hd], by simp, ?_,
        trivial⟩
      exact hgrows.trans (hended.trans (.endTask hended.order mine))

/-- A task goes on that is a child of the run or stands below one.  What is known about tasks
further down is taken from `down`. -/
lemma Child.resumeAt_moved {d : Dispatch} {child : Child} (h : s.InOrder k o)
    (bound : d.run < s.runs) (passes : d.PassesOn o c) (fair : d.env.context.Fair k o)
    (index : Nat) (path : List Nat) (stands : child.Stands k o s.runs d.env.context)
    (down : ∀ task name p i path, child = .running task name p → ∃ o',
      s.Grows k o o' (p.resumeAt s i path).1 ∧
        (p.resumeAt s i path).2.Under k o' (p.resumeAt s i path).1.runs d.env.context) :
    ∃ o' s' gate child', child.resumeAt s d index path = (s', { d with gate }, child') ∧
      gate.isSome = d.gate.isSome ∧ s.Grows k o o' s' ∧
      child'.Stands k o' s'.runs d.env.context := by
  match child, path with
  | .spawned task a, [] =>
      rw [Child.resumeAt_spawned]
      have hmark := Grows.mark h bound (.started index a) (.inl fun i => by simp)
      exact Child.after_moved bound passes stands.1 (.of_grows hmark
        (Action.start_moved hmark.order fair a stands.2)) index a.name
  | .running task name p, [] =>
      rw [Child.resumeAt_running]
      exact Child.after_moved bound passes stands.1 (Proc.resume_moved stands.2 h fair) index name
  | .running task name p, i :: path =>
      obtain ⟨o', hgrows, hp⟩ := down task name p i path rfl
      exact ⟨o', _, d.gate, .running task name (p.resumeAt s i path).2, by rw [Child.resumeAt], rfl,
        hgrows, stands.1, hp⟩
  | .spawned _ _, _ :: _ | .ended _ _, _ | .lost _, _ =>
      refine ⟨o, s, d.gate, _, ?_, rfl, .refl h, stands⟩
      rw [Child.resumeAt]
      all_goals simp

/-- **A task goes on.**  It and everything around it stays under the context that it was handed. -/
theorem Proc.resumeAt_moved {p : Proc} (under : p.Under k o s.runs c) (h : s.InOrder k o)
    (fair : c.Fair k o) (index : Nat) (path : List Nat) :
    ∃ o', s.Grows k o o' (p.resumeAt s index path).1 ∧
      (p.resumeAt s index path).2.Under k o' (p.resumeAt s index path).1.runs c := by
  induction under generalizing index path with
  | leaf gentle =>
      rw [Proc.resumeAt]
      exact ⟨o, .refl h, .leaf gentle⟩
  | within gentle enters _ ih =>
      rw [Proc.resumeAt]
      obtain ⟨o', hgrows, hunder⟩ := ih (enters.fair fair) index path
      exact ⟨o', hgrows, .within gentle (enters.keeps hgrows.keeps) hunder⟩
  | linear gentle bound noScope _ ih =>
      rw [Proc.resumeAt]
      obtain ⟨o', hgrows, hunder⟩ := ih fair index path
      exact ⟨o', hgrows, .linear gentle (bound.trans_le hgrows.runs_le)
        (hgrows.noScope bound noScope) hunder⟩
  | @concurrent c d children passes bound queue spawned mine below ih =>
      have hunder : (Proc.concurrent d children).Under k o s.runs c :=
        .concurrent passes bound queue spawned mine below
      obtain ⟨-, -, -, stands⟩ := Proc.under_concurrent.mp hunder
      rw [Proc.resumeAt, resumeAmong_eq, Nat.zero_add]
      cases hplace : children[index]? with
      | none => exact ⟨o, .refl h, hunder⟩
      | some child =>
          have hmem := List.mem_of_getElem? hplace
          obtain ⟨o', s', gate, child', heq, hgate, hgrows, hstands⟩ :=
            Child.resumeAt_moved h bound passes (passes.fair fair) index path (stands _ hmem)
              fun task name p i path hc => ih task name p (hc ▸ hmem) (passes.fair fair) i path
          simp only [heq]
          refine ⟨o', hgrows, Proc.under_concurrent.mpr
            ⟨(passes.mono bound hgrows.keeps hgrows.fresh).gate hgate,
              bound.trans_le hgrows.runs_le, queue, fun x hx => ?_⟩⟩
          rcases List.mem_or_eq_of_mem_set hx with hx | rfl
          · exact (stands x hx).grows hgrows
          · exact hstands

end

end Workflow
