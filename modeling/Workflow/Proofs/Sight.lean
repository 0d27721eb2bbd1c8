import Workflow.Proofs.Inheritance

/-!
# What leaves see

A leaf can ask for its context at any point of its body, also between two waits.  The points that
the bodies of leaves come to while code runs are `Action.Sees`, `Body.Sees`, `restSees` and
`Proc.Sees`: each follows the function that runs the code, and says at which stores, and with which
contexts, bodies are on the way.

An action that a body runs with a deadline of its own is left out, as its context is not the
engine's.

**`Action.sees_along`, `Proc.sees_along`**: at every such point the store has grown from that at the
beginning, and the context of the leaf says what the context says that the action was handed or the
process stands under.
-/

namespace Workflow

open Store

/-! ## The points that bodies come to -/

/-- The result of code that has ended by a return. -/
def Progress.result? : Progress → Option (Option Failure)
  | .ended .done => some none
  | .ended (.failed f) => some (some f)
  | _ => none

mutual

/-- When the action is run from its beginning in the store `s`, a leaf whose context is `c` comes to
a point in the store `t`. -/
def Action.Sees (c : Context) (t : Store) (env : Env) (s : Store) : Action → Prop
  | .leaf .contextFunction _ body =>
      body.Sees c t { env with state := (s.newState .empty).1 } (s.newState .empty).2
  | .leaf _ _ body => body.Sees c t env s
  | .linear children =>
      restSees c t s.runs env 0
        ((s.newRun (.linear children)).2.report s.runs (.linearStart children.length)) children
  | .async _ => False
  | .throttled _ _ => False
  | .named _ inner => inner.Sees c t env s
  | .boxed inner => inner.Sees c t env s

/-- When the body goes on in the store `s`, it or a leaf that it runs comes to such a point. -/
def Body.Sees (c : Context) (t : Store) (env : Env) (s : Store) : Body → Prop
  | .finish _ => c = env.context ∧ t = s
  | .ask e k => (c = env.context ∧ t = s) ∨
      ∃ reply s', s.perform? env e = some (reply, s') ∧ (k reply).Sees c t env s'
  | .giveWay _ => c = env.context ∧ t = s
  | .guard g k => (c = env.context ∧ t = s) ∨ k.Sees c t env (s.raiseGuard g)
  | .run inner under k => (c = env.context ∧ t = s) ∨
      ((s.enter env under).2.1 = none ∧
        inner.Sees c t (s.enter env under).1 (s.enter env under).2.2) ∨
      ∃ f, (inner.start (s.enter env under).1 (s.enter env under).2.2).2.result? = some f ∧
        (k f).Sees c t env ((inner.start (s.enter env under).1 (s.enter env under).2.2).1.leave
          (s.enter env under).2.1)

/-- When a linear run goes on with its child `index`, a leaf comes to such a point. -/
def restSees (c : Context) (t : Store) (run : Nat) (env : Env) (index : Nat) (s : Store) :
    List Action → Prop
  | [] => False
  | a :: rest => a.Sees c t env (s.mark run (.started index a)) ∨
      ((a.start env (s.mark run (.started index a))).2.result? = some none ∧
        restSees c t run env (index + 1)
          ((a.start env (s.mark run (.started index a))).1.mark run (.ended index .done)) rest)

end

/-- When a task's own code goes on in the store `s`, a leaf comes to such a point. -/
def Proc.Sees (c : Context) (t s : Store) : Proc → Prop
  | .leaf env _ body => body.Sees c t env s
  | .within env _ handle inner k => (handle = none ∧ inner.Sees c t s) ∨
      ∃ f, (inner.resume s).2.result? = some f ∧
        (k f).Sees c t env ((inner.resume s).1.leave handle)
  | .linear run env index _ current rest => current.Sees c t s ∨
      ((current.resume s).2.result? = some none ∧
        restSees c t run env (index + 1) ((current.resume s).1.mark run (.ended index .done)) rest)
  | .concurrent _ _ => False

/-! ## Contexts that are cancelled together -/

/-- The context `c` was derived from `c₀` by tokens that nobody cancels. -/
structure Context.Follows (o : Nat → Origin) (c c₀ : Context) : Prop where
  deadline : c.deadline = c₀.deadline
  path : ∃ between, c.token.path = between ++ c₀.token.path ∧ ∀ n ∈ between, o n = .plain

/-- From the store `s` code that was handed the context `c₀` comes to the store `t`, and there `c`
follows that context. -/
def Along (k : Caller) (o : Nat → Origin) (s : Store) (c₀ c : Context) (t : Store) : Prop :=
  ∃ o', s.Grows k o o' t ∧ c.Follows o' c₀

section

variable {k : Caller} {o o' : Nat → Origin} {s s' t : Store} {c c' c₀ : Context}

lemma Context.Follows.refl (o : Nat → Origin) (c : Context) : c.Follows o c :=
  ⟨rfl, [], rfl, by simp⟩

lemma Context.Follows.trans (h : c.Follows o c') (h' : c'.Follows o c₀) : c.Follows o c₀ := by
  obtain ⟨hdeadline, between, hpath, hplain⟩ := h
  obtain ⟨hdeadline', between', hpath', hplain'⟩ := h'
  refine ⟨hdeadline.trans hdeadline', between ++ between', ?_, ?_⟩
  · rw [hpath, hpath', List.append_assoc]
  · exact List.forall_mem_append.mpr ⟨hplain, hplain'⟩

lemma Context.Follows.keeps (h : c.Follows o c₀) (keeps : Keeps o o') : c.Follows o' c₀ := by
  obtain ⟨hdeadline, between, hpath, hplain⟩ := h
  exact ⟨hdeadline, between, hpath, fun n hn => keeps.eq (hplain n hn) (by simp)⟩

lemma Context.Enters.follows (h : c₀.Enters k o none c) : c.Follows o c₀ := by
  cases h with
  | same => exact .refl o _
  | child plain => exact ⟨rfl, [_], rfl, by simpa using plain⟩

/-- One is cancelled if and only if the other is. -/
lemma Context.Follows.isCancelled_eq (h : c.Follows o c₀) (order : t.InOrder k o) :
    t.isCancelled c = t.isCancelled c₀ := by
  obtain ⟨hdeadline, between, hpath, hplain⟩ := h
  have hbetween : between.any t.contexts.cancelled.contains = false := by
    refine List.any_eq_false.mpr fun n hn => ?_
    rw [List.contains_iff_mem]
    exact order.plain_notMem (hplain n hn)
  rw [Store.isCancelled, Store.isCancelled, Contexts.isCancelled, Contexts.isCancelled, hdeadline,
    Contexts.isTokenCancelled, Contexts.isTokenCancelled, hpath, List.any_append, hbetween,
    Bool.false_or]

lemma Along.here (h : s.InOrder k o) : Along k o s c c s :=
  ⟨o, .refl h, .refl o c⟩

lemma Along.of_grows (grows : s.Grows k o o' s') (along : Along k o' s' c₀ c t) :
    Along k o s c₀ c t := by
  obtain ⟨o'', hgrows, hfollows⟩ := along
  exact ⟨o'', grows.trans hgrows, hfollows⟩

lemma Along.of_follows (follows : c'.Follows o c₀) (along : Along k o s c' c t) :
    Along k o s c₀ c t := by
  obtain ⟨o', hgrows, hfollows⟩ := along
  exact ⟨o', hgrows, hfollows.trans (follows.keeps hgrows.keeps)⟩

lemma Moved.grows {out : Store × Progress} (moved : Moved k o s c out) :
    ∃ o', s.Grows k o o' out.1 := by
  match out, moved with
  | (_, .paused _), ⟨o', hgrows, _⟩ => exact ⟨o', hgrows⟩
  | (_, .ended _), ⟨o', hgrows⟩ => exact ⟨o', hgrows⟩

end

/-! ## From the beginning of an action -/

section

variable {k : Caller} {c : Context} {t : Store}

mutual

theorem Action.sees_along {env : Env} {o : Nat → Origin} {s : Store} (h : s.InOrder k o)
    (fair : env.context.Fair k o) :
    (a : Action) → a.Gentle → a.Sees c t env s → Along k o s env.context c t
  | .leaf kind name body, gentle, sees => by
      cases kind with
      | contextFunction =>
          have hgrows := Grows.aside h (s.sameRuns_newState .empty) rfl
          let own : Env := { env with state := (s.newState .empty).1 }
          have halong : Along k o (s.newState .empty).2 own.context c t :=
            Body.sees_along hgrows.order fair body gentle sees
          exact .of_grows hgrows halong
      | function | readyMade => exact Body.sees_along h fair body gentle sees
  | .linear children, gentle, sees => by
      obtain ⟨hgrows, hscope, -⟩ :=
        Grows.newRun_report h (.linear children) (.linearStart children.length)
      exact .of_grows hgrows
        (restSees_along hgrows.order fair (Nat.lt_succ_self _) hscope 0 children gentle sees)
  | .async _, _, sees => sees.elim
  | .throttled _ _, _, sees => sees.elim
  | .named _ inner, gentle, sees => Action.sees_along h fair inner gentle sees
  | .boxed inner, gentle, sees => Action.sees_along h fair inner gentle sees

theorem Body.sees_along {env : Env} {o : Nat → Origin} {s : Store} (h : s.InOrder k o)
    (fair : env.context.Fair k o) :
    (b : Body) → b.Gentle → b.Sees c t env s → Along k o s env.context c t
  | .finish _, _, ⟨hc, ht⟩ => by
      subst hc ht
      exact .here h
  | .ask e next, gentle, sees => by
      rcases sees with ⟨rfl, rfl⟩ | ⟨reply, s', granted, sees⟩
      · exact .here h
      · have hgrows := Grows.perform? h gentle.1 granted
        exact .of_grows hgrows
          (Body.sees_along hgrows.order fair (next reply) (gentle.2 reply) sees)
  | .giveWay _, _, ⟨hc, ht⟩ => by
      subst hc ht
      exact .here h
  | .guard g next, gentle, sees => by
      rcases sees with ⟨rfl, rfl⟩ | sees
      · exact .here h
      · have hgrows := Grows.raiseGuard h g
        exact .of_grows hgrows (Body.sees_along hgrows.order fair next gentle sees)
  | .run inner under next, gentle, sees => by
      obtain ⟨o', hgrows, henters⟩ := s.enter_grows h fair under
      have hfair := fair.keeps hgrows.keeps
      have hinner := henters.fair hfair
      rcases sees with ⟨rfl, rfl⟩ | ⟨hhandle, sees⟩ | ⟨f, -, sees⟩
      · exact .here h
      · rw [hhandle] at henters
        exact .of_grows hgrows (.of_follows henters.follows
          (Action.sees_along hgrows.order hinner inner gentle.1 sees))
      · obtain ⟨o'', hmoved⟩ := (Action.start_moved hgrows.order hinner inner gentle.1).grows
        have hleave := hmoved.trans (.leave hmoved.order (henters.keeps hmoved.keeps).mine)
        exact .of_grows (hgrows.trans hleave)
          (Body.sees_along hleave.order (hfair.keeps hleave.keeps) (next f) (gentle.2 f) sees)

theorem restSees_along {env : Env} {run : Nat} {o : Nat → Origin} {s : Store} (h : s.InOrder k o)
    (fair : env.context.Fair k o) (bound : run < s.runs) (noScope : NoScope o run) (index : Nat) :
    (rest : List Action) → allGentle rest → restSees c t run env index s rest →
      Along k o s env.context c t
  | [], _, sees => sees.elim
  | a :: rest, gentle, sees => by
      have hstarted := Grows.mark h bound (.started index a) (.inr noScope)
      rcases sees with sees | ⟨-, sees⟩
      · exact .of_grows hstarted (Action.sees_along hstarted.order fair a gentle.1 sees)
      · obtain ⟨o', hmoved⟩ := (Action.start_moved hstarted.order fair a gentle.1).grows
        have hgrows := hstarted.trans hmoved
        have hbound := bound.trans_le hgrows.runs_le
        have hscope := hgrows.noScope bound noScope
        have hended := hgrows.trans (.mark hgrows.order hbound (.ended index .done) (.inr hscope))
        exact .of_grows hended (restSees_along hended.order (fair.keeps hended.keeps) hbound hscope
          (index + 1) rest gentle.2 sees)

end

/-- **A task's own code.**  On the way every leaf has a context that follows that of the task. -/
theorem Proc.sees_along {p : Proc} {o : Nat → Origin} {s : Store} {c₀ : Context}
    (under : p.Under k o s.runs c₀) (h : s.InOrder k o) (fair : c₀.Fair k o) (sees : p.Sees c t s) :
    Along k o s c₀ c t := by
  induction under with
  | leaf gentle => exact Body.sees_along h fair _ gentle sees
  | within gentle enters inner ih =>
      rcases sees with ⟨rfl, sees⟩ | ⟨f, -, sees⟩
      · exact .of_follows enters.follows (ih (enters.fair fair) sees)
      · obtain ⟨o', hmoved⟩ := (Proc.resume_moved inner h (enters.fair fair)).grows
        have hleave := hmoved.trans (.leave hmoved.order (enters.keeps hmoved.keeps).mine)
        exact .of_grows hleave
          (Body.sees_along hleave.order (fair.keeps hleave.keeps) _ (gentle f) sees)
  | @linear run env index name p rest gentle bound noScope current ih =>
      rcases sees with sees | ⟨-, sees⟩
      · exact ih fair sees
      · obtain ⟨o', hmoved⟩ := (Proc.resume_moved current h fair).grows
        have hbound := bound.trans_le hmoved.runs_le
        have hscope := hmoved.noScope bound noScope
        have hended := hmoved.trans (.mark hmoved.order hbound (.ended index .done) (.inr hscope))
        exact .of_grows hended
          (restSees_along hended.order (fair.keeps hended.keeps) hbound hscope _ rest gentle sees)
  | concurrent => exact sees.elim

end

end Workflow
