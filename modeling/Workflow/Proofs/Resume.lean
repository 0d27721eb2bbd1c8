import Workflow.Process.Run
import Workflow.Proofs.Dispatch

/-!
# Running code keeps the law

A task's own code runs from one wait to the next.  In the course of that it may start runs, end
them, and pass over many children of a linear run; whatever it does, it stops at the rest of the
action that it is the code of, and lets go only of runs that are over.

**Going on after a part.**  What a body does after an action that it ran, and what a linear run does
after one of its children, is the same whether the part was just started or was resumed:
`Body.after` and `afterChild`.

**The results.**  `Action.start_ran` is about an action run from its beginning, and
**`Proc.resume_ran`** about a process that goes on.
-/

namespace Workflow

open Store

/-! ## Going on after a part -/

/-- What a body does after it ran an action, whose context was held under `handle`. -/
def Body.after (env : Env) (guards : List Guard) (handle : Option Nat) (k : Option Failure → Body) :
    Store × Progress → Store × Progress
  | (s, .paused p) => (s, .paused (.within env guards handle p k))
  | (s, .ended .done) => (k none).resume env guards (s.leave handle)
  | (s, .ended (.failed f)) => (k (some f)).resume env guards (s.leave handle)
  | (s, .ended (.panicked payload)) =>
      ((s.leave handle).endGuards guards, .ended (.panicked payload))

/-- What a linear run does after its child `index`, called `name`. -/
def afterChild (run : Nat) (env : Env) (index : Nat) (name : String) (rest : List Action) :
    Store × Progress → Store × Progress
  | (s, .paused p) => (s, .paused (.linear run env index name p rest))
  | (s, .ended .done) => startRest run env (index + 1) (s.mark run (.ended index .done)) rest
  | (s, .ended e) => stopLinear run index name e s

lemma Body.resume_run (env : Env) (guards : List Guard) (s : Store) (inner : Action) (under : Under)
    (k : Option Failure → Body) :
    (Body.run inner under k).resume env guards s =
      Body.after env guards (s.enter env under).2.1 k
        (inner.start (s.enter env under).1 (s.enter env under).2.2) := by
  rw [Body.resume]
  obtain ⟨env', handle, s'⟩ := s.enter env under
  dsimp only
  rcases inner.start env' s' with ⟨s, p | (_ | _ | _)⟩ <;> rfl

/-- A leaf starts with its body, in its own surroundings. -/
lemma Action.start_leaf (env : Env) (s : Store) (kind : LeafKind) (name : String) (body : Body) :
    ∃ own s', env.OfLeaf kind own ∧ s.SameRuns s' ∧ s'.contexts = s.contexts ∧
      (Action.leaf kind name body).start env s = body.resume own [] s' := by
  cases kind with
  | contextFunction =>
      refine ⟨_, _, ⟨?_, fun h => absurd rfl h⟩, s.sameRuns_newState .empty, rfl,
        by rw [Action.start]⟩
      rfl
  | function => exact ⟨env, s, ⟨rfl, fun _ => rfl⟩, .refl s, rfl, by rw [Action.start]; simp⟩
  | readyMade => exact ⟨env, s, ⟨rfl, fun _ => rfl⟩, .refl s, rfl, by rw [Action.start]; simp⟩

lemma Proc.resume_within (s : Store) (env : Env) (guards : List Guard) (handle : Option Nat)
    (inner : Proc) (k : Option Failure → Body) :
    (Proc.within env guards handle inner k).resume s =
      Body.after env guards handle k (inner.resume s) := by
  rw [Proc.resume]
  rcases inner.resume s with ⟨s, p | (_ | _ | _)⟩ <;> rfl

lemma startRest_cons (run : Nat) (env : Env) (index : Nat) (s : Store) (a : Action)
    (rest : List Action) :
    startRest run env index s (a :: rest) =
      afterChild run env index a.name rest (a.start env (s.mark run (.started index a))) := by
  rw [startRest]
  rcases a.start env (s.mark run (.started index a)) with ⟨s, p | (_ | _ | _)⟩ <;> rfl

lemma Proc.resume_linear (s : Store) (run : Nat) (env : Env) (index : Nat) (name : String)
    (current : Proc) (rest : List Action) :
    (Proc.linear run env index name current rest).resume s =
      afterChild run env index name rest (current.resume s) := by
  rw [Proc.resume]
  rcases current.resume s with ⟨s, p | (_ | _ | _)⟩ <;> rfl

/-! ## Bodies -/

section

variable {s s₀ : Store} {env own : Env} {a : Action} {kind : LeafKind} {name : String}
  {b₀ : Body} {guards : List Guard} {runs : List Nat}

/-- Code that does nothing that concerns runs and then ends. -/
lemma Ran.of_sameRuns {s' : Store} {e : Exit} (h : s.SameRuns s') (t : s.Tidy) :
    Ran none [] s env a (s', .ended e) :=
  ⟨.of_sameRuns h t List.nodup_nil (by simp), by simp⟩

/-- A body goes on after an action that it ran. -/
lemma Body.after_ran {inner : Action} {under : Under} {k : Option Failure → Body}
    {handle : Option Nat} {top : Option Nat} {before : Store} {out : Store × Progress}
    (bare : a.bare = .leaf kind name b₀) (leads : b₀.LeadsTo (.run inner under k))
    (surroundings : env.OfLeaf kind own)
    (ran : Ran top runs s₀ (before.enter own under).1 inner out)
    (next : ∀ f s, s.Tidy → Ran none [] s env a ((k f).resume own guards s)) :
    Ran none runs s₀ env a (Body.after own guards handle k out) := by
  match out, ran with
  | (s, .paused p), ⟨hand, rest, _⟩ =>
      exact ⟨hand, .within before bare leads surroundings rest, rfl⟩
  | (s, .ended e), ⟨hand, _⟩ =>
      have hleave := s.sameRuns_leave handle
      have hown := hand.trans (.of_sameRuns hleave hand.tidy List.nodup_nil (by simp))
      cases e with
      | done => exact (next none _ hown.tidy).of_handover hown
      | failed f => exact (next (some f) _ hown.tidy).of_handover hown
      | panicked payload =>
          exact (Ran.of_sameRuns ((s.leave handle).sameRuns_endGuards guards) hown.tidy).of_handover
            hown

end

/-! ## Linear runs -/

lemma linearOutcome?_done (cs : List Action) :
    linearOutcome? (cs.map Action.name) (List.replicate cs.length (.ended .done)) = some .done := by
  induction cs with
  | nil => rfl
  | cons c cs ih => simpa [linearOutcome?, List.replicate_succ] using ih

lemma linearOutcome?_stopping (before after : List Action) (c : Action) {e : Exit}
    (he : e ≠ .done) :
    linearOutcome? ((before ++ c :: after).map Action.name)
      (List.replicate before.length (.ended .done) ++ [.ended e]) = some (e.stopping c.name) := by
  induction before with
  | nil => simp [linearOutcome?, he]
  | cons b before ih => simpa [linearOutcome?, List.replicate_succ] using ih

section

variable {s s₀ : Store} {env : Env} {a c : Action} {before after : List Action} {run : Nat}

/-- The chronicle of a linear run whose first children have succeeded, and which may have started
one more. -/
def linearAt (a : Action) (index : Nat) (more : List Stage) : Chronicle :=
  { runner := a.bare, stages := List.replicate index (.ended .done) ++ more }

lemma move_linearAt (a : Action) (index : Nat) (st st' : Stage) :
    (linearAt a index [st]).move index st st' = some (linearAt a index [st']) := by
  simp [Chronicle.move, linearAt]

/-- A linear run stops at a child that did not succeed. -/
lemma stopLinear_ran {e : Exit} (t : s.Tidy) (bare : a.bare = .linear (before ++ c :: after))
    (chronicle : s.chronicle? run = some (linearAt a before.length [.running]))
    (bound : run < s.runs) (he : e ≠ .done) :
    Ran (some run) [run] s env a (stopLinear run before.length c.name e s) := by
  have hended : (s.mark run (.ended before.length e)).chronicle? run
      = some (linearAt a before.length [.ended e]) := by
    rw [chronicle?_mark chronicle]; exact move_linearAt ..
  have houtcome : (linearAt a before.length [.ended e]).outcome? = some (e.stopping c.name) := by
    simp only [Chronicle.outcome?, linearAt, bare]
    exact linearOutcome?_stopping before after c he
  have htouch := Touches.mark run s (.ended before.length e)
  have hevent : ∀ event, ((s.mark run (.ended before.length e)).report run event).chronicle? run
      = some (linearAt a before.length [.ended e]) := by
    intro event
    rw [report_eq_mark, chronicle?_mark hended]; rfl
  unfold stopLinear
  cases e with
  | done => exact absurd rfl he
  | panicked payload => exact .finishRun htouch t bound hended rfl rfl houtcome
  | failed f =>
      cases f <;>
        exact .finishRun (htouch.trans (.mark run _ _)) t bound (hevent _) rfl rfl houtcome

/-- A linear run goes on after one of its children. -/
lemma afterChild_ran {top : Option Nat} {runs : List Nat} {out : Store × Progress}
    (bare : a.bare = .linear (before ++ c :: after))
    (chronicle : s₀.chronicle? run = some (linearAt a before.length [.running]))
    (nodup : (run :: runs).Nodup) (bound : ∀ r ∈ run :: runs, r < s₀.runs)
    (ran : Ran top runs s₀ env c out)
    (next : ∀ s, s.Tidy → run < s.runs →
      s.chronicle? run = some (linearAt a (before.length + 1) []) →
      Ran (some run) [run] s env a (startRest run env (before.length + 1) s after)) :
    Ran (some run) (run :: runs) s₀ env a
      (afterChild run env before.length c.name after out) := by
  have hrun : run < s₀.runs := bound run List.mem_cons_self
  have hkept : ∀ {own' s}, Handover runs s₀ own' s →
      s.chronicle? run = some (linearAt a before.length [.running]) := by
    intro own' s hand
    rw [chronicle?_congr (hand.others run hrun (List.nodup_cons.mp nodup).1)]
    exact chronicle
  match out, ran with
  | (s, .paused p), ⟨hand, rest, _⟩ =>
      exact ⟨hand.cons nodup hrun, .linear bare rfl rfl (hkept hand) rest, rfl⟩
  | (s, .ended e), ⟨hand, _⟩ =>
      have hown := hand.cons nodup hrun
      by_cases he : e = .done
      · subst he
        have htouch := Touches.mark run s (.ended before.length .done)
        have hrun' := hown.bound run List.mem_cons_self
        refine (next _ (htouch.tidy hown.tidy hrun') hrun' ?_).of_handover (hown.trans
          (.of_touches htouch hown.tidy List.mem_cons_self hown.nodup hown.bound))
        rw [chronicle?_mark (hkept hand)]
        exact (move_linearAt ..).trans (by simp [linearAt, List.replicate_succ'])
      · have hstop : Ran (some run) (run :: runs) s₀ env a _ :=
          (stopLinear_ran hown.tidy bare (hkept hand) (hown.bound run List.mem_cons_self)
            he).of_handover hown
        match e, he with
        | .failed _, _ | .panicked _, _ => exact hstop

end

/-! ## The beginnings of runs -/

section

variable {s : Store}

/-- A run begins and says so. -/
lemma newRun_report (t : s.Tidy) (a : Action) (event : Event) :
    Handover [] s [s.runs] ((s.newRun a).2.report s.runs event) ∧
      ((s.newRun a).2.report s.runs event).chronicle? s.runs = some { runner := a } := by
  have hnew := Handover.newRun t a
  refine ⟨hnew.trans (.of_touches (.mark s.runs _ _) hnew.tidy List.mem_cons_self hnew.nodup
    hnew.bound), ?_⟩
  rw [report_eq_mark, chronicle?_mark (chronicle?_newRun t a)]
  rfl

/-- How a run without a limit goes on after it has begun. -/
def startAsync (run : Nat) (env : Env) (cs : List Action) (s : Store) : Store × Progress :=
  if s.closed && !cs.isEmpty then finishRun run (.panicked (some closedPanic)) s
  else
    let d : Dispatch := ⟨run, env, none, [], 0, none⟩
    d.advance (d.spawnAll 0 cs s).1 (d.spawnAll 0 cs s).2

/-- How a throttled run goes on after it has begun. -/
def startThrottled (run : Nat) (env : Env) (limit : Limit) (cs : List Action) (s : Store) :
    Store × Progress :=
  if maxSlots < limit.value then finishRun run (.panicked (some slotsPanic)) s
  else
    let (scope, contexts) := s.contexts.child env.context
    Dispatch.advance ⟨run, { env with context := scope }, some limit.value, cs, 0, none⟩ []
      ({ s with contexts }.mark run (.derived scope))

lemma Action.start_async (env : Env) (s : Store) (cs : List Action) :
    (Action.async cs).start env s = startAsync s.runs env cs
      ((s.newRun (.async cs)).2.report s.runs (.asyncDispatch cs.length)) := by
  rw [Action.start]; rfl

lemma Action.start_throttled (env : Env) (s : Store) (limit : Limit) (cs : List Action) :
    (Action.throttled limit cs).start env s = startThrottled s.runs env limit cs
      ((s.newRun (.throttled limit cs)).2.report s.runs
        (.throttledDispatch limit.value cs.length)) := by
  rw [Action.start]; rfl

/-- A run without a limit has given all its children tasks, and none has started yet. -/
lemma startAsync_accounts {run : Nat} {env : Env} {cs : List Action} {d : Dispatch}
    (chronicle : s.chronicle? run = some { runner := .async cs })
    (hd : d = ⟨run, env, none, [], 0, none⟩) :
    Dispatch.Accounts (d.spawnAll 0 cs s).2 env (.async cs) none cs d (d.spawnAll 0 cs s).1 ∧
      Touches run s (d.spawnAll 0 cs s).2 ∧
      ∀ c ∈ (d.spawnAll 0 cs s).1, ∃ task a, c = .spawned task a := by
  subst hd
  obtain ⟨new, s', heq, hch, htouch, hlen, hget⟩ :=
    Dispatch.spawnAll_spec (d := ⟨run, env, none, [], 0, none⟩) rfl cs s _ chronicle rfl rfl rfl
  have heq : Dispatch.spawnAll ⟨run, env, none, [], 0, none⟩ 0 cs s = (new, s') := heq
  have hspawned : ∀ (i : Nat) child, new[i]? = some child → ∃ task c, cs[i]? = some c ∧
      child = .spawned task c := by
    intro i child hchild
    obtain ⟨hi, -⟩ := List.getElem?_eq_some_iff.mp hchild
    obtain ⟨task, h⟩ := hget i cs[i] (List.getElem?_eq_getElem (by omega))
    exact ⟨task, _, List.getElem?_eq_getElem (by omega), by rw [h] at hchild; exact (Option.some.inj
      hchild).symm⟩
  rw [heq]
  refine ⟨?_, htouch, fun c hc => ?_⟩
  · exact {
      chronicle := by simpa using hch
      surroundings := rfl
      length_le := hlen.le
      slots_le := by simp
      queue := by rw [hlen, List.drop_length]
      whole := fun _ => rfl
      free := rfl
      fits := by
        intro i child c hchild hc
        obtain ⟨task, c', hc', rfl⟩ := hspawned i child hchild
        rw [hc] at hc'
        exact (Option.some.inj hc').symm
      collected := ⟨[], new, rfl, rfl, by simp, rfl⟩ }
  · obtain ⟨i, hi⟩ := List.mem_iff_getElem?.mp hc
    obtain ⟨task, c', -, h⟩ := hspawned i c hi
    exact ⟨task, c', h⟩

/-- A run without a limit gives all its children tasks, and waits for them. -/
lemma startAsync_ran {run : Nat} {env : Env} {cs : List Action} (t : s.Tidy) (bound : run < s.runs)
    (chronicle : s.chronicle? run = some { runner := .async cs }) :
    Ran (some run) [run] s env (.async cs) (startAsync run env cs s) := by
  rw [startAsync, if_neg (by rw [t.isOpen]; simp)]
  obtain ⟨hnode, htouch, hfresh⟩ := @startAsync_accounts s run env cs _ chronicle rfl
  have hnil := runsAmong_spawned hfresh
  have hrun : run < (Dispatch.spawnAll ⟨run, env, none, [], 0, none⟩ 0 cs s).2.runs := by
    rw [htouch.runs]
    exact bound
  have hran := Dispatch.advance_ran (a := .async cs) (htouch.tidy t bound) rfl hnode
    (fun i task name p c hchild _ => by
      obtain ⟨_, _, heq⟩ := hfresh _ (List.mem_of_getElem? hchild)
      cases heq)
    (by rw [hnil]; exact List.nodup_singleton _) (by simpa [hnil] using hrun)
  rw [hnil] at hran
  exact hran.of_handover
    (.of_touches htouch t List.mem_cons_self (List.nodup_singleton _) (by simpa using bound))

/-- A throttled run has made a context for its children, and none has been given a task yet. -/
lemma startThrottled_accounts {run : Nat} {env : Env} {limit : Limit} {cs : List Action}
    (chronicle : s.chronicle? run = some { runner := .throttled limit cs })
    (made : limit.value ≤ maxSlots) :
    Dispatch.Accounts
      (Store.mark { s with contexts := (s.contexts.child env.context).2 } run
        (.derived (s.contexts.child env.context).1))
      env (.throttled limit cs) (some limit.value) cs
      ⟨run, { env with context := (s.contexts.child env.context).1 }, some limit.value, cs, 0, none⟩
      [] where
  chronicle := by
    have hsame : s.SameRuns { s with contexts := (s.contexts.child env.context).2 } :=
      .of_trace rfl rfl rfl rfl
    rw [chronicle?_mark ((chronicle?_congr (hsame.notes run)).trans chronicle)]
    simp [Chronicle.next?, Chronicle.spawns, Action.dispatch?]
  surroundings := ⟨s.contexts.supply, rfl⟩
  length_le := Nat.zero_le _
  slots_le := by
    intro n hn
    cases hn
    exact made
  queue := rfl
  whole := by simp
  free := by simp
  fits := by simp
  collected := ⟨[], [], rfl, rfl, by simp, rfl⟩

/-- A throttled run makes a context for its children, and gives as many of them tasks as it has
slots. -/
lemma startThrottled_ran {run : Nat} {env : Env} {limit : Limit} {cs : List Action} (t : s.Tidy)
    (bound : run < s.runs)
    (chronicle : s.chronicle? run = some { runner := .throttled limit cs }) :
    Ran (some run) [run] s env (.throttled limit cs) (startThrottled run env limit cs s) := by
  unfold startThrottled
  split_ifs with hslots
  · refine .finishRun (.refl _ _) t bound chronicle rfl rfl ?_
    simp [Chronicle.outcome?, hslots]
  have hnode := @startThrottled_accounts s run env limit cs chronicle (Nat.not_lt.mp hslots)
  have hsame : s.SameRuns { s with contexts := (s.contexts.child env.context).2 } :=
    .of_trace rfl rfl rfl rfl
  have htouch := (Touches.of_sameRuns hsame run).trans
    (.mark run _ (.derived (s.contexts.child env.context).1))
  exact (Dispatch.advance_ran (a := .throttled limit cs) (htouch.tidy t bound) rfl hnode (by simp)
    (List.nodup_singleton _) (by simpa [runsAmong] using bound)).of_handover
    (.of_touches htouch t List.mem_cons_self (List.nodup_singleton _) (by simpa using bound))

end

/-! ## From the beginning of an action -/

section

mutual

/-- **An action is started.**  It runs to the rest of itself, or to its end. -/
theorem Action.start_ran (env : Env) (s : Store) (t : s.Tidy) :
    (a : Action) → Ran (a.run? s.runs) [] s env a (a.start env s)
  | .leaf kind name body => by
      obtain ⟨own, s', hown, hsame, -, heq⟩ := Action.start_leaf env s kind name body
      rw [heq]
      exact (Body.resume_ran (a := .leaf kind name body) env own [] rfl hown s' (hsame.tidy t) body
        .refl).of_handover (.of_sameRuns hsame t List.nodup_nil (by simp))
  | .linear children => by
      rw [Action.start]
      obtain ⟨hand, hch⟩ := newRun_report t (.linear children) (.linearStart children.length)
      exact (startRest_ran (a := .linear children) env s.runs _ hand.tidy
        (hand.bound _ List.mem_cons_self) [] children rfl hch).of_handover hand
  | .async children => by
      rw [Action.start_async]
      obtain ⟨hand, hch⟩ := newRun_report t (.async children) (.asyncDispatch children.length)
      exact (startAsync_ran hand.tidy (hand.bound _ List.mem_cons_self) hch).of_handover hand
  | .throttled limit children => by
      rw [Action.start_throttled]
      obtain ⟨hand, hch⟩ := newRun_report t (.throttled limit children)
        (.throttledDispatch limit.value children.length)
      exact (startThrottled_ran hand.tidy (hand.bound _ List.mem_cons_self) hch).of_handover hand
  | .named _ inner => by
      rw [Action.start]
      exact (Action.start_ran env s t inner).of_bare rfl
  | .boxed inner => by
      rw [Action.start]
      exact (Action.start_ran env s t inner).of_bare rfl

/-- A body goes on. -/
theorem Body.resume_ran {a : Action} {kind : LeafKind} {name : String} {b₀ : Body} (env own : Env)
    (guards : List Guard) (bare : a.bare = .leaf kind name b₀) (surroundings : env.OfLeaf kind own)
    (s : Store) (t : s.Tidy) :
    (b : Body) → b₀.LeadsTo b → Ran none [] s env a (b.resume own guards s)
  | .finish e, _ => by
      rw [Body.resume]
      exact .of_sameRuns (s.sameRuns_endGuards guards) t
  | .ask e k, leads => by
      rw [Body.resume]
      cases hperform : s.perform? own e with
      | none => exact ⟨.refl t List.nodup_nil (by simp), .leaf bare leads surroundings, rfl⟩
      | some granted =>
          obtain ⟨reply, s'⟩ := granted
          have hsame := sameRuns_perform? hperform
          exact (Body.resume_ran env own guards bare surroundings s' (hsame.tidy t) (k reply)
            (leads.reply reply)).of_handover (.of_sameRuns hsame t List.nodup_nil (by simp))
  | .giveWay k, leads => by
      rw [Body.resume]
      exact ⟨.refl t List.nodup_nil (by simp), .leaf bare leads.giveWay surroundings, rfl⟩
  | .guard g k, leads => by
      rw [Body.resume]
      have hsame := s.sameRuns_raiseGuard g
      exact (Body.resume_ran env own (guards ++ [g]) bare surroundings _ (hsame.tidy t) k
        leads.guard).of_handover (.of_sameRuns hsame t List.nodup_nil (by simp))
  | .run inner under k, leads => by
      rw [Body.resume_run]
      have hsame := s.sameRuns_enter own under
      have hran := (Action.start_ran (s.enter own under).1 _ (hsame.tidy t) inner).of_handover
        (.of_sameRuns hsame t List.nodup_nil (by simp))
      exact Body.after_ran bare leads surroundings hran fun f s' t' =>
        Body.resume_ran env own guards bare surroundings s' t' (k f) (leads.ran f)

/-- A linear run goes on with the next child. -/
theorem startRest_ran {a : Action} (env : Env) (run : Nat) (s : Store) (t : s.Tidy)
    (bound : run < s.runs) (before : List Action) :
    (rest : List Action) → a.bare = .linear (before ++ rest) →
      s.chronicle? run = some (linearAt a before.length []) →
      Ran (some run) [run] s env a (startRest run env before.length s rest)
  | [], bare, chronicle => by
      rw [startRest]
      refine .finishRun (.refl run s) t bound chronicle rfl rfl ?_
      simp only [Chronicle.outcome?, linearAt, bare, List.append_nil]
      exact linearOutcome?_done before
  | c :: rest, bare, chronicle => by
      rw [startRest_cons]
      have htouch := Touches.mark run s (.started before.length c)
      have hown : Handover [run] s [run] _ :=
        .of_touches htouch t List.mem_cons_self (List.nodup_singleton _) (by simpa using bound)
      have hstarted : (s.mark run (.started before.length c)).chronicle? run
          = some (linearAt a before.length [.running]) := by
        rw [chronicle?_mark chronicle]
        simp [Chronicle.next?, Chronicle.spawns, Chronicle.startsNext, Chronicle.children, linearAt,
          bare, Action.dispatch?, Action.children?]
      refine (afterChild_ran bare hstarted (by simp) hown.bound
        (Action.start_ran env _ hown.tidy c) ?_).of_handover hown
      intro s' t' bound' chronicle'
      have := startRest_ran (a := a) env run s' t' bound' (before ++ [c]) rest (by simpa using bare)
        (by simpa using chronicle')
      simpa using this

end

end

/-! ## Going on -/

/-- **A task's own code goes on.**  It stops at the rest of the same action, or ends. -/
theorem Proc.resume_ran {s : Store} {env : Env} {a : Action} {p : Proc} (rest : p.RestOf s env a)
    (t : s.Tidy) (nodup : p.runs.Nodup) (bound : ∀ r ∈ p.runs, r < s.runs) :
    Ran p.run? p.runs s env a (p.resume s) := by
  induction rest with
  | leaf bare leads surroundings => exact Body.resume_ran _ _ _ bare surroundings s t _ leads
  | within before bare leads surroundings rest ih =>
      rw [Proc.resume_within]
      exact Body.after_ran bare leads surroundings (ih nodup bound) fun f s' t' =>
        Body.resume_ran _ _ _ bare surroundings s' t' _ (leads.ran f)
  | @linear env a c before after run index name p bare place called chronicle rest ih =>
      rw [Proc.resume_linear]
      subst place called
      have hnodup := (List.nodup_cons.mp nodup).2
      refine afterChild_ran bare chronicle nodup bound
        (ih hnodup fun r hr => bound r (List.mem_cons_of_mem _ hr))
        fun s' t' bound' chronicle' => ?_
      simpa using startRest_ran env run s' t' bound' (before ++ [c]) after (by simpa using bare)
        (by simpa using chronicle')
  | concurrent bare node below => exact Dispatch.advance_ran t bare node below nodup bound

end Workflow
