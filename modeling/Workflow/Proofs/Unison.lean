import Workflow.Proofs.Mirror

/-!
# The same code in unison

What code does in a store and in the same store with one more token.  It does the same, it is ready
at the same places and waits for the same times, as long as it spares the context that it was given:
it neither cancels that context nor asks the run on top to skip the remainder.

* **From a beginning.**  `Action.start_mirrored`, together with bodies and linear runs.
* **Going on.**  `Proc.resume_mirrored` is about a task's own code; **`Proc.resumeAt_mirrored`** is
  about a task further down.
* **Children of a run.**  `resumeAmong_mirrored` also speaks of the run on top, which has a gate in
  one of the stores only.
* **Rest.**  `Proc.isReadyAt_shift` and `Proc.wakeTimes_shift`.

The laws ask for code that spares its context in one of the stores, either one.
-/

namespace Workflow

open Store

section

variable {g k run : Nat} {s t : Store} {env : Env} {xs ys : List Act} {out out' : Store × Progress}

/-! ## Going on after a part -/

/-- A body goes on after an action that it ran. -/
lemma Body.after_mirrored {guards : List Guard} {handle : Option Nat} {next : Option Failure → Body}
    (own : env.context.IsOwn g k) (mirrored : Mirrored g k xs ys out out')
    (spared : Spared g k run
      (xs ++ actsAfter (env.shift k) guards (handle.map (past k)) next out)
      (ys ++ actsAfter env guards handle next out'))
    (after : ∀ f s t, t.Shifted g k s →
      Spared g k run ((next f).acts (env.shift k) guards s) ((next f).acts env guards t) →
      Mirrored g k ((next f).acts (env.shift k) guards s) ((next f).acts env guards t)
        ((next f).resume (env.shift k) guards s) ((next f).resume env guards t)) :
    Mirrored g k (xs ++ actsAfter (env.shift k) guards (handle.map (past k)) next out)
      (ys ++ actsAfter env guards handle next out')
      (Body.after (env.shift k) guards (handle.map (past k)) next out)
      (Body.after env guards handle next out') := by
  obtain ⟨s, progress⟩ := out
  obtain ⟨t, progress'⟩ := out'
  obtain ⟨hacts, hstore, hprogress, hown⟩ := mirrored
  dsimp only at hstore hprogress hown
  subst hprogress
  have hleave := hstore.leave handle
  refine Mirrored.append ?_ hacts
  cases progress' with
  | paused p => exact .paused hstore .nil (.within own (hown p rfl))
  | ended e =>
      cases e with
      | done => exact after none _ _ hleave spared.right
      | failed f => exact after (some f) _ _ hleave spared.right
      | panicked payload =>
          exact .ended (hleave.endGuards guards) (.cons (hleave.act own _) .nil) _

/-- A linear run stops at a child that did not succeed. -/
lemma stopLinear_mirrored (h : t.Shifted g k s) (r index : Nat) (name : String) (e : Exit) :
    Mirrored g k [] [] (stopLinear r index name e s) (stopLinear r index name e t) := by
  have hmark := h.mark r (.ended index e)
  unfold stopLinear
  cases e with
  | done | panicked => exact .finishRun hmark r _
  | failed f => cases f <;> exact .finishRun (hmark.mark r _) r _

/-- A linear run goes on after one of its children. -/
lemma afterChild_mirrored {r index : Nat} {name : String} {rest : List Action}
    (own : env.context.IsOwn g k) (mirrored : Mirrored g k xs ys out out')
    (spared : Spared g k run (xs ++ actsAfterChild r (env.shift k) index rest out)
      (ys ++ actsAfterChild r env index rest out'))
    (after : ∀ s t, t.Shifted g k s →
      Spared g k run (restActs r (env.shift k) (index + 1) s rest)
        (restActs r env (index + 1) t rest) →
      Mirrored g k (restActs r (env.shift k) (index + 1) s rest)
        (restActs r env (index + 1) t rest) (startRest r (env.shift k) (index + 1) s rest)
        (startRest r env (index + 1) t rest)) :
    Mirrored g k (xs ++ actsAfterChild r (env.shift k) index rest out)
      (ys ++ actsAfterChild r env index rest out')
      (afterChild r (env.shift k) index name rest out) (afterChild r env index name rest out') := by
  obtain ⟨s, progress⟩ := out
  obtain ⟨t, progress'⟩ := out'
  obtain ⟨hacts, hstore, hprogress, hown⟩ := mirrored
  dsimp only at hstore hprogress hown
  subst hprogress
  refine Mirrored.append ?_ hacts
  cases progress' with
  | paused p => exact .paused hstore .nil (.linear own (hown p rfl))
  | ended e =>
      cases e with
      | done => exact after _ _ (hstore.mark r _) spared.right
      | failed f => exact stopLinear_mirrored hstore r index name (.failed f)
      | panicked payload => exact stopLinear_mirrored hstore r index name (.panicked payload)

/-! ## From the beginning of an action -/

/-- The children of a run without a limit have its own context. -/
lemma startAsync_mirrored (h : t.Shifted g k s) (own : env.context.IsOwn g k) (r : Nat)
    (cs : List Action) :
    Mirrored g k [] [] (startAsync r (env.shift k) cs s) (startAsync r env cs t) := by
  unfold startAsync
  rw [h.closed]
  split_ifs
  · exact .finishRun h r _
  · set d : Dispatch := ⟨r, env, none, [], 0, none⟩
    obtain ⟨s', heq, hshifted, hchildren⟩ := Dispatch.spawnAll_shift (d := d) 0 cs h
    have hproc : (Proc.concurrent d (d.spawnAll 0 cs t).1).IsOwn g k :=
      Proc.isOwn_concurrent.mpr ⟨own, by simp [d], hchildren⟩
    have hadvance := Dispatch.advance_mirrored hshifted hproc
    dsimp only [Dispatch.shift] at heq hadvance ⊢
    rw [heq]
    exact hadvance

/-- The children of a throttled run have a context that was made for them. -/
lemma startThrottled_mirrored (h : t.Shifted g k s) (r : Nat) (limit : Limit) (cs : List Action) :
    Mirrored g k [] [] (startThrottled r (env.shift k) limit cs s)
      (startThrottled r env limit cs t) := by
  unfold startThrottled
  split_ifs
  · exact .finishRun h r _
  · have hchild : s.contexts.child (env.context.shift k) =
        ((t.contexts.child env.context).1.shift k, (t.contexts.child env.context).2.shift k) := by
      rw [h.contexts, Contexts.child_shift h.le]
    dsimp only [Env.shift]
    rw [hchild]
    set scope := (t.contexts.child env.context).1
    set x := (t.contexts.child env.context).2
    have hown : k ≤ scope.token.number := h.le
    have hsupply : k ≤ x.supply := h.le.trans (Nat.le_succ _)
    have hstore : Shifted g k (({ t with contexts := x } : Store).mark r (.derived scope))
        (({ s with contexts := x.shift k } : Store).mark r (.derived (scope.shift k))) :=
      (h.ledger hsupply rfl t.signals s.signals).note _ _ _ _
    have hproc : (Proc.concurrent ⟨r, { env with context := scope }, some limit.value, cs, 0, none⟩
        []).IsOwn g k :=
      Proc.isOwn_concurrent.mpr ⟨.inr hown, fun _ => hown, by simp⟩
    exact Dispatch.advance_mirrored hstore hproc

mutual

/-- An action is run from its beginning. -/
theorem Action.start_mirrored {env : Env} {s t : Store} (h : t.Shifted g k s)
    (own : env.context.IsOwn g k) :
    (a : Action) → Spared g k run (a.acts (env.shift k) s) (a.acts env t) →
      Mirrored g k (a.acts (env.shift k) s) (a.acts env t) (a.start (env.shift k) s)
        (a.start env t)
  | .leaf .contextFunction name body, spared => by
      have hnumber : s.states.length = t.states.length := congrArg _ h.states
      have hacts : (Action.leaf .contextFunction name body).acts (env.shift k) s =
          s.act (env.context.shift k) (.begin name) ::
            body.acts (({ env with state := t.states.length } : Env).shift k) []
              (s.newState .empty).2 := by
        rw [Action.acts, ← hnumber]
        rfl
      have hstart : (Action.leaf .contextFunction name body).start (env.shift k) s =
          body.resume (({ env with state := t.states.length } : Env).shift k) []
            (s.newState .empty).2 := by
        rw [Action.start, ← hnumber]
        rfl
      rw [hacts] at spared ⊢
      rw [hstart, Action.start]
      rw [Action.acts] at spared ⊢
      have hown : ({ env with state := t.states.length } : Env).context.IsOwn g k := own
      exact (Body.resume_mirrored (h.newState .empty) hown [] body spared.tail).cons (h.act own _)
  | .leaf .function name body, spared | .leaf .readyMade name body, spared => by
      rw [Action.acts, Action.acts] at spared ⊢
      · rw [Action.start, Action.start]
        · exact (Body.resume_mirrored h own [] body spared.tail).cons (h.act own _)
        all_goals simp
      all_goals simp
  | .linear children, spared => by
      rw [Action.acts, Action.acts] at spared ⊢
      rw [Action.start, Action.start]
      have hrun := h.newRun (.linear children) (.linear children) (.linearStart children.length)
        (.linearStart children.length)
      dsimp only [Store.newRun] at hrun spared ⊢
      rw [h.runs] at hrun spared ⊢
      exact startRest_mirrored hrun own t.runs 0 children spared
  | .async children, _ => by
      rw [Action.acts, Action.acts, Action.start_async, Action.start_async]
      have hrun := h.newRun (.async children) (.async children) (.asyncDispatch children.length)
        (.asyncDispatch children.length)
      rw [h.runs] at hrun ⊢
      exact startAsync_mirrored hrun own t.runs children
  | .throttled limit children, _ => by
      rw [Action.acts, Action.acts, Action.start_throttled, Action.start_throttled]
      have hrun := h.newRun (.throttled limit children) (.throttled limit children)
        (.throttledDispatch limit.value children.length)
        (.throttledDispatch limit.value children.length)
      rw [h.runs] at hrun ⊢
      exact startThrottled_mirrored hrun t.runs limit children
  | .named _ inner, spared | .boxed inner, spared => by
      rw [Action.acts, Action.acts] at spared ⊢
      rw [Action.start, Action.start]
      exact Action.start_mirrored h own inner spared

/-- A body goes on. -/
theorem Body.resume_mirrored {env : Env} {s t : Store} (h : t.Shifted g k s)
    (own : env.context.IsOwn g k) (guards : List Guard) :
    (b : Body) → Spared g k run (b.acts (env.shift k) guards s) (b.acts env guards t) →
      Mirrored g k (b.acts (env.shift k) guards s) (b.acts env guards t)
        (b.resume (env.shift k) guards s) (b.resume env guards t)
  | .finish e, _ => by
      rw [Body.acts, Body.acts, Body.resume, Body.resume]
      exact .ended (h.endGuards guards) (.cons (h.act own _) .nil) e
  | .ask e next, spared => by
      -- Here the code has to spare its context: whatever else it cancels it has made itself.
      have hcancel : e = .cancel → k ≤ env.context.token.number := by
        rintro rfl
        have hhead : (env.context.token.number != g) = true :=
          spared.head (h.act own (.ask .cancel ()))
        exact own.le (bne_iff_ne.mp hhead)
      rw [Body.acts, Body.acts] at spared ⊢
      rw [Body.resume, Body.resume]
      rcases h.perform? e hcancel with ⟨ht, hs⟩ | ⟨reply, t', s', ht, hs, hshifted⟩
      · rw [ht, hs]
        exact .paused h (.cons (h.act own _) .nil) (.leaf own)
      · rw [ht, hs] at spared ⊢
        exact (Body.resume_mirrored hshifted own guards (next reply) spared.tail).cons (h.act own _)
  | .giveWay next, _ => by
      rw [Body.acts, Body.acts, Body.resume, Body.resume]
      exact .paused h (.cons (h.act own _) .nil) (.leaf own)
  | .guard x next, spared => by
      rw [Body.acts, Body.acts] at spared ⊢
      rw [Body.resume, Body.resume]
      exact (Body.resume_mirrored (h.raiseGuard x) own (guards ++ [x]) next spared.tail).cons
        (h.act own _)
  | .run inner under next, spared => by
      obtain ⟨henv, hhandle, hstore, hown⟩ := h.enter own under
      rw [Body.acts_run, Body.acts_run, henv, hhandle] at spared ⊢
      rw [Body.resume_run, Body.resume_run, henv, hhandle]
      refine (Body.after_mirrored own (Action.start_mirrored hstore hown inner spared.tail.left)
        spared.tail ?_).cons (h.act own _)
      intro f s' t' hshifted hspared
      exact Body.resume_mirrored hshifted own guards (next f) hspared

/-- A linear run goes on with the next child. -/
theorem startRest_mirrored {env : Env} {s t : Store} (h : t.Shifted g k s)
    (own : env.context.IsOwn g k) (r index : Nat) :
    (rest : List Action) →
      Spared g k run (restActs r (env.shift k) index s rest) (restActs r env index t rest) →
      Mirrored g k (restActs r (env.shift k) index s rest) (restActs r env index t rest)
        (startRest r (env.shift k) index s rest) (startRest r env index t rest)
  | [], _ => by
      rw [restActs, restActs, startRest, startRest]
      exact .finishRun h r _
  | a :: rest, spared => by
      rw [restActs_cons, restActs_cons] at spared ⊢
      rw [startRest_cons, startRest_cons]
      have hmark := h.mark r (.started index a)
      refine afterChild_mirrored own (Action.start_mirrored hmark own a spared.left) spared ?_
      intro s' t' hshifted hspared
      exact startRest_mirrored hshifted own r (index + 1) rest hspared

end

end

/-! ## Going on -/

section

variable {g k run : Nat} {s t : Store} {p : Proc} {d : Dispatch} {children : List Child}
  {child : Child} {xs ys : List Act} {out out' : Store × Progress} {top : Bool} {gate : Option Nat}

/-- A task's own code goes on. -/
theorem Proc.resume_mirrored (own : p.IsOwn g k) (h : t.Shifted g k s)
    (spared : Spared g k run ((p.shift k).acts s) (p.acts t)) :
    Mirrored g k ((p.shift k).acts s) (p.acts t) ((p.shift k).resume s) (p.resume t) := by
  induction own with
  | leaf own => exact Body.resume_mirrored h own _ _ spared
  | within own _ ih =>
      rw [Proc.shift, Proc.acts, Proc.acts] at spared ⊢
      rw [Proc.resume_within, Proc.resume_within]
      refine Body.after_mirrored own (ih spared.left) spared ?_
      intro f s' t' hshifted hspared
      exact Body.resume_mirrored hshifted own _ _ hspared
  | linear own _ ih =>
      rw [Proc.shift, Proc.acts, Proc.acts] at spared ⊢
      rw [Proc.resume_linear, Proc.resume_linear]
      refine afterChild_mirrored own (ih spared.left) spared ?_
      intro s' t' hshifted hspared
      exact startRest_mirrored hshifted own _ _ _ hspared
  | concurrent own scope below =>
      rw [Proc.shift, Proc.acts, Proc.acts, Proc.resume, Proc.resume, shiftAmong_eq]
      exact Dispatch.advance_mirrored h (.concurrent own scope below)

/-- A child of a concurrent run has done the same in two stores, and has come to the same. -/
structure ChildMirrored (g k : Nat) (top : Bool) (d : Dispatch) (xs ys : List Act)
    (out out' : Store × Dispatch × Child) : Prop where
  acts : List.Forall₂ (Act.Mirrors g k) xs ys
  store : out'.1.Shifted g k out.1
  dispatch : ∃ gate, out.2.1 = { out'.2.1.shift k with gate } ∧ Gates top gate out'.2.1.gate
  same : ∃ gate, out'.2.1 = { d with gate } ∧ gate.isSome = d.gate.isSome
  child : out.2.2 = out'.2.2.shift k
  own : out'.2.2.IsOwn g k

/-- The code of a child has stopped or ended, and the run above it takes notice of that. -/
lemma Child.after_mirrored (own : (Proc.concurrent d children).IsOwn g k)
    (gates : Gates top gate d.gate) (numbered : top = true → d.run = run)
    (mirrored : Mirrored g k xs ys out out') (index task : Nat) (name : String)
    (spared : Spared g k run (xs ++ ({ d.shift k with gate } : Dispatch).givenBack index out)
      (ys ++ d.givenBack index out')) :
    ChildMirrored g k top d (xs ++ ({ d.shift k with gate } : Dispatch).givenBack index out)
      (ys ++ d.givenBack index out')
      (Child.after { d.shift k with gate } index (past k task) name out)
      (Child.after d index task name out') := by
  obtain ⟨hown, hscope, -⟩ := Proc.isOwn_concurrent.mp own
  obtain ⟨s, progress⟩ := out
  obtain ⟨t, progress'⟩ := out'
  obtain ⟨hacts, hstore, hprogress, howned⟩ := mirrored
  dsimp only at hstore hprogress howned
  subst hprogress
  cases progress' with
  | paused p =>
      exact ⟨List.rel_append hacts .nil, hstore, ⟨gate, rfl, gates⟩, ⟨d.gate, rfl, rfl⟩, rfl,
        howned p rfl⟩
  | ended e =>
      have hact := hstore.act hown (.giveBack d.run index e)
      -- To a request the run with a gate would answer by cancelling the scope, the other one not.
      have hunasked : top = true → e ≠ .failed .skipRemainder := by
        rintro htop rfl
        have hhead : (d.run != run) = true := spared.right.head hact
        exact bne_iff_ne.mp hhead (numbered htop)
      obtain ⟨s', gate', hended, hshifted, hgates, hsame⟩ :=
        Dispatch.childEnded_shift hstore gates index name e (fun _ => hscope) hunasked
      refine ⟨List.rel_append hacts (.cons hact .nil), ?_, ?_, hsame, rfl, trivial⟩
      · have hs' : (({ d.shift k with gate } : Dispatch).childEnded index name e s).2 = s' :=
          congrArg Prod.snd hended
        have hendTask := hshifted.endTask task
        rw [← hs'] at hendTask
        exact hendTask
      · exact ⟨gate', congrArg Prod.fst hended, hgates⟩

/-- A task goes on that is a child of the run or stands below one.  What is known about tasks
further down is taken from `down`. -/
lemma Child.resumeAt_mirrored (own : (Proc.concurrent d children).IsOwn g k) (h : t.Shifted g k s)
    (gates : Gates top gate d.gate) (numbered : top = true → d.run = run)
    (mem : child ∈ children) (index : Nat) (path : List Nat)
    (spared : Spared g k run ((child.shift k).actsAt s { d.shift k with gate } index path)
      (child.actsAt t d index path))
    (down : ∀ task name p i path, child = .running task name p →
      Spared g k run ((p.shift k).actsAt s i path) (p.actsAt t i path) →
      Mirrored g k ((p.shift k).actsAt s i path) (p.actsAt t i path)
        (((p.shift k).resumeAt s i path).1, .paused ((p.shift k).resumeAt s i path).2)
        ((p.resumeAt t i path).1, .paused (p.resumeAt t i path).2)) :
    ChildMirrored g k top d ((child.shift k).actsAt s { d.shift k with gate } index path)
      (child.actsAt t d index path)
      ((child.shift k).resumeAt s { d.shift k with gate } index path)
      (child.resumeAt t d index path) := by
  obtain ⟨hown, hscope, hall⟩ := Proc.isOwn_concurrent.mp own
  have hchild := hall child mem
  have hstay : ChildMirrored g k top d [] [] (s, { d.shift k with gate }, child.shift k)
      (t, d, child) :=
    ⟨.nil, h, ⟨gate, rfl, gates⟩, ⟨d.gate, rfl, rfl⟩, rfl, hchild⟩
  cases child with
  | spawned task a =>
      cases path with
      | nil =>
          rw [Child.shift, Child.actsAt, Child.actsAt] at spared ⊢
          rw [Child.resumeAt_spawned, Child.resumeAt_spawned]
          have hmark := h.mark d.run (.started index a)
          exact Child.after_mirrored own gates numbered
            (Action.start_mirrored hmark hown a spared.left) index task a.name spared
      | cons i path =>
          rw [Child.shift, Child.resumeAt, Child.resumeAt, Child.actsAt, Child.actsAt] <;>
            first | exact hstay | simp
  | running task name p =>
      cases path with
      | nil =>
          rw [Child.shift, Child.actsAt, Child.actsAt] at spared ⊢
          rw [Child.resumeAt_running, Child.resumeAt_running]
          exact Child.after_mirrored own gates numbered
            (Proc.resume_mirrored hchild h spared.left) index task name spared
      | cons i path =>
          rw [Child.shift, Child.actsAt, Child.actsAt] at spared ⊢
          obtain ⟨hacts, hstore, hprogress, howned⟩ := down task name p i path rfl spared
          rw [Child.resumeAt, Child.resumeAt]
          refine ⟨hacts, hstore, ⟨gate, rfl, gates⟩, ⟨d.gate, rfl, rfl⟩, ?_, howned _ rfl⟩
          exact congrArg (Child.running (past k task) name) (Progress.paused.inj hprogress)
  | ended | lost =>
      rw [Child.shift, Child.resumeAt, Child.resumeAt, Child.actsAt, Child.actsAt] <;>
        first | exact hstay | simp

/-- A task goes on below one of the children. -/
lemma resumeAmong_mirrored (own : (Proc.concurrent d children).IsOwn g k) (h : t.Shifted g k s)
    (gates : Gates top gate d.gate) (numbered : top = true → d.run = run)
    (index : Nat) (path : List Nat)
    (spared : Spared g k run
      (actsAmong s { d.shift k with gate } 0 (children.map (Child.shift k)) index path)
      (actsAmong t d 0 children index path))
    (down : ∀ task name p i path, .running task name p ∈ children →
      Spared g k run ((p.shift k).actsAt s i path) (p.actsAt t i path) →
      Mirrored g k ((p.shift k).actsAt s i path) (p.actsAt t i path)
        (((p.shift k).resumeAt s i path).1, .paused ((p.shift k).resumeAt s i path).2)
        ((p.resumeAt t i path).1, .paused (p.resumeAt t i path).2)) :
    ∃ s' gate' t' own' children',
      resumeAmong s { d.shift k with gate } 0 (children.map (Child.shift k)) index path =
        (s', { d.shift k with gate := gate' }, children'.map (Child.shift k)) ∧
      resumeAmong t d 0 children index path = (t', { d with gate := own' }, children') ∧
      List.Forall₂ (Act.Mirrors g k)
        (actsAmong s { d.shift k with gate } 0 (children.map (Child.shift k)) index path)
        (actsAmong t d 0 children index path) ∧
      t'.Shifted g k s' ∧ Gates top gate' own' ∧
      (Proc.concurrent { d with gate := own' } children').IsOwn g k := by
  rw [actsAmong_eq, actsAmong_eq, List.getElem?_map, Nat.zero_add] at spared ⊢
  rw [resumeAmong_eq, resumeAmong_eq, List.getElem?_map, Nat.zero_add]
  cases hplace : children[index]? with
  | none => exact ⟨s, gate, t, d.gate, children, rfl, rfl, .nil, h, gates, own⟩
  | some child =>
      rw [hplace] at spared
      obtain ⟨hown, hscope, hall⟩ := Proc.isOwn_concurrent.mp own
      have hmem := List.mem_of_getElem? hplace
      obtain ⟨hacts, hstore, ⟨gate', hdispatch, hgates⟩, ⟨own', hsame, hsome⟩, hchild, howned⟩ :=
        Child.resumeAt_mirrored own h gates numbered hmem index path spared
          fun task name p i path hc => down task name p i path (hc ▸ hmem)
      dsimp only [Option.map_some, Option.elim] at hacts ⊢
      rw [hdispatch, hchild, hsame]
      rw [hsame] at hgates
      refine ⟨_, gate', _, own', children.set index _, ?_, rfl, hacts, hstore, hgates,
        Proc.isOwn_concurrent.mpr ⟨hown, fun hgate => hscope (hsome ▸ hgate), fun x hx => ?_⟩⟩
      · rw [List.map_set]
        rfl
      · rcases List.mem_or_eq_of_mem_set hx with hx | rfl
        · exact hall x hx
        · exact howned

/-- **A task goes on.** -/
theorem Proc.resumeAt_mirrored (own : p.IsOwn g k) (h : t.Shifted g k s) (index : Nat)
    (path : List Nat)
    (spared : Spared g k run ((p.shift k).actsAt s index path) (p.actsAt t index path)) :
    Mirrored g k ((p.shift k).actsAt s index path) (p.actsAt t index path)
      (((p.shift k).resumeAt s index path).1, .paused ((p.shift k).resumeAt s index path).2)
      ((p.resumeAt t index path).1, .paused (p.resumeAt t index path).2) := by
  induction own generalizing index path with
  | leaf own =>
      rw [Proc.shift, Proc.resumeAt, Proc.resumeAt, Proc.actsAt, Proc.actsAt]
      exact .paused h .nil (.leaf own)
  | within own _ ih =>
      rw [Proc.shift, Proc.actsAt, Proc.actsAt] at spared ⊢
      rw [Proc.resumeAt, Proc.resumeAt]
      obtain ⟨hacts, hstore, hprogress, howned⟩ := ih index path spared
      have hinner := Progress.paused.inj hprogress
      dsimp only at hinner ⊢
      rw [hinner]
      exact .paused hstore hacts (.within own (howned _ rfl))
  | linear own _ ih =>
      rw [Proc.shift, Proc.actsAt, Proc.actsAt] at spared ⊢
      rw [Proc.resumeAt, Proc.resumeAt]
      obtain ⟨hacts, hstore, hprogress, howned⟩ := ih index path spared
      have hcurrent := Progress.paused.inj hprogress
      dsimp only at hcurrent ⊢
      rw [hcurrent]
      exact .paused hstore hacts (.linear own (howned _ rfl))
  | @concurrent d children own scope below ih =>
      rw [Proc.shift, Proc.actsAt, Proc.actsAt, shiftAmong_eq] at spared ⊢
      rw [Proc.resumeAt, Proc.resumeAt]
      have hgates : Gates false d.gate d.gate := rfl
      obtain ⟨s', gate', t', own', children', hT, hA, hacts, hstore, hgate, howned⟩ :=
        resumeAmong_mirrored (.concurrent own scope below) h hgates (by simp) index path spared
          fun task name p i path hp => ih task name p hp i path
      have hsame : gate' = own' := hgate
      have hshift : d.shift k = { d.shift k with gate := d.gate } := rfl
      rw [hshift, hT, hA, hsame]
      have hproc : (Proc.concurrent { d with gate := own' } children').shift k =
          .concurrent { d.shift k with gate := own' } (children'.map (Child.shift k)) := by
        rw [Proc.shift, shiftAmong_eq]
        rfl
      dsimp only
      rw [← hproc]
      exact .paused hstore hacts howned

/-! ## What can go on -/

lemma Body.isReady_shift (h : t.Shifted g k s) (env : Env) (b : Body) :
    b.isReady s (env.shift k) = b.isReady t env := by
  cases b with
  | ask e next => exact h.grants env e
  | finish | giveWay | guard | run => rfl

/-- Whether a run that has admitted all its children can go on does not depend on its gate. -/
lemma Dispatch.isReady_shift (gate : Option Nat) (same : gate = d.gate ∨ d.queue = [])
    (children : List Child) :
    ({ d.shift k with gate } : Dispatch).isReady (children.map (Child.shift k)) =
      d.isReady children := by
  obtain ⟨run, env, gate', queue, collected, failure⟩ := d
  cases queue with
  | nil =>
      simp only [Dispatch.isReady, Dispatch.shift, List.isEmpty_nil, if_true, List.getElem?_map]
      cases children[collected]? with
      | none => rfl
      | some c => exact congrArg (!·) (c.isLive_shift k)
  | cons a rest =>
      rcases same with rfl | hnil
      · rfl
      · cases hnil

lemma Proc.isReady_shift (h : t.Shifted g k s) :
    (p : Proc) → (p.shift k).isReady s = p.isReady t
  | .leaf env _ body => Body.isReady_shift h env body
  | .within _ _ _ inner _ => Proc.isReady_shift h inner
  | .linear _ _ _ _ current _ => Proc.isReady_shift h current
  | .concurrent d children => by
      rw [Proc.shift, Proc.isReady, Proc.isReady, shiftAmong_eq]
      exact Dispatch.isReady_shift d.gate (.inl rfl) children

mutual

lemma Proc.isReadyAt_shift (h : t.Shifted g k s) : (p : Proc) → (index : Nat) → (path : List Nat) →
    (p.shift k).isReadyAt s index path = p.isReadyAt t index path
  | .leaf _ _ _, _, _ => rfl
  | .within _ _ _ inner _, index, path => Proc.isReadyAt_shift h inner index path
  | .linear _ _ _ _ current _, index, path => Proc.isReadyAt_shift h current index path
  | .concurrent _ children, index, path => isReadyAmong_shift h children index path

lemma isReadyAmong_shift (h : t.Shifted g k s) : (children : List Child) → (index : Nat) →
    (path : List Nat) →
    isReadyAmong s (shiftAmong k children) index path = isReadyAmong t children index path
  | [], _, _ => rfl
  | c :: _, 0, path => Child.isReadyAt_shift h c path
  | _ :: rest, index + 1, path => isReadyAmong_shift h rest index path

lemma Child.isReadyAt_shift (h : t.Shifted g k s) : (child : Child) → (path : List Nat) →
    (child.shift k).isReadyAt s path = child.isReadyAt t path
  | .spawned _ _, [] | .spawned _ _, _ :: _ => rfl
  | .running _ _ p, [] => Proc.isReady_shift h p
  | .running _ _ p, i :: path => Proc.isReadyAt_shift h p i path
  | .ended _ _, [] | .ended _ _, _ :: _ | .lost _, [] | .lost _, _ :: _ => rfl

end

mutual

lemma Proc.wakeTimes_shift (k : Nat) : (p : Proc) → (p.shift k).wakeTimes = p.wakeTimes
  | .leaf _ _ (.ask _ _) => rfl
  | .leaf _ _ (.finish _) | .leaf _ _ (.giveWay _) | .leaf _ _ (.guard _ _)
  | .leaf _ _ (.run _ _ _) => rfl
  | .within _ _ _ inner _ => Proc.wakeTimes_shift k inner
  | .linear _ _ _ _ current _ => Proc.wakeTimes_shift k current
  | .concurrent _ children => wakeTimesAmong_shift k children

lemma wakeTimesAmong_shift (k : Nat) : (children : List Child) →
    wakeTimesAmong (shiftAmong k children) = wakeTimesAmong children
  | [] => rfl
  | c :: rest => congrArg₂ (· ++ ·) (Child.wakeTimes_shift k c) (wakeTimesAmong_shift k rest)

lemma Child.wakeTimes_shift (k : Nat) : (child : Child) →
    (child.shift k).wakeTimes = child.wakeTimes
  | .running _ _ p => Proc.wakeTimes_shift k p
  | .spawned _ _ | .ended _ _ | .lost _ => rfl

end

end

end Workflow
