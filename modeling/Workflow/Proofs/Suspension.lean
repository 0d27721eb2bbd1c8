import Workflow.Proofs.Occupancy
import Workflow.Proofs.Waiting

/-!
# What a run waits for

Runners wait for their children: a linear run for the current one, a throttled run for a slot or for
the next end to collect, a run without a limit for the latter.  None of these waits is ever the last
one.  Where no task can go on, every run that is not over has a child whose body has started and not
ended, and going down from child to child one comes to a leaf that waits for something else: for a
time, for a cell, or for its context to be cancelled.

**Waits of leaves.**  `Effect.Pends` says what the world has to look like for a wait not to be over;
nothing else keeps a body from going on (`Body.isReady_eq_false_iff`).

**Parts.**  `Proc.parts` are the processes that a process is made of, and all parts of an idle
process are idle (`Proc.RestOf.part`).  Each has a leaf that waits: `Proc.RestOf.exists_pending`.

**Polling.**  Whether a task can go on is read off the state, so the question is whether it says
enough.  It does: polling a task that cannot go on changes nothing at all (`Proc.resume_of_isReady`,
`Proc.resumeAt_of_isReadyAt`).
-/

namespace Workflow

open Store

/-! ## Waits of leaves -/

/-- A body that asks for the effect has to wait: the time has not come, the context is not
cancelled, or the cell is pending and its future is still there to settle it. -/
def Effect.Pends (s : Store) (env : Env) : Effect → Prop
  | .sleepUntil time => s.clock < time
  | .untilCancelled => s.isTokenCancelled env.context = false
  | .sleepUnlessCancelled time => s.clock < time ∧ s.isTokenCancelled env.context = false
  | .await cell => s.isTokenCancelled env.context = false ∧
      ∃ c, s.cells[cell]? = some c ∧ c.slot = .pending ∧ c.owned = true
  | _ => False

lemma Store.grants_eq_false_iff {s : Store} {env : Env} {e : Effect} :
    s.grants env e = false ↔ e.Pends s env := by
  cases e with
  | sleepUntil time =>
      simp [grants, perform?, Effect.Pends, apply_ite Option.isSome]
  | untilCancelled =>
      simp [grants, perform?, Effect.Pends, apply_ite Option.isSome]
  | sleepUnlessCancelled time =>
      simp [grants, perform?, Effect.Pends, apply_ite Option.isSome]
  | await cell =>
      simp only [grants, perform?, Effect.Pends, Option.isSome_map, answer?]
      cases hc : s.cells[cell]? with
      | none => simp
      | some c =>
          dsimp only
          rw [Cell.answer?_eq]
          obtain ⟨slot, owned⟩ := c
          cases slot <;> cases owned <;> simp [Cell.isPending, apply_ite Option.isSome]
  | _ => simp [grants, perform?, Effect.Pends]

/-- A body cannot go on exactly when it asks for something that it has to wait for. -/
lemma Body.isReady_eq_false_iff {s : Store} {env : Env} {b : Body} :
    b.isReady s env = false ↔ ∃ e k, b = .ask e k ∧ e.Pends s env := by
  cases b with
  | ask e k =>
      rw [Body.isReady, grants_eq_false_iff]
      constructor
      · intro h
        exact ⟨e, k, rfl, h⟩
      · rintro ⟨e', k', heq, h⟩
        cases heq
        exact h
  | _ => simp [Body.isReady]

/-! ## Parts -/

mutual

/-- The processes that a process is made of, itself the first. -/
def Proc.parts : Proc → List Proc
  | .leaf env guards body => [.leaf env guards body]
  | .within env guards handle inner k => .within env guards handle inner k :: inner.parts
  | .linear run env index name current rest =>
      .linear run env index name current rest :: current.parts
  | .concurrent d children => .concurrent d children :: partsAmong children

/-- The processes that children are made of. -/
def partsAmong : List Child → List Proc
  | [] => []
  | c :: rest => c.parts ++ partsAmong rest

/-- The processes that a child is made of. -/
def Child.parts : Child → List Proc
  | .running _ _ p => p.parts
  | _ => []

end

lemma Proc.mem_parts_self (p : Proc) : p ∈ p.parts := by
  cases p <;> simp [Proc.parts]

lemma mem_partsAmong {q : Proc} {cs : List Child} :
    q ∈ partsAmong cs ↔ ∃ (i : Nat) (task : Nat) (name : String) (p : Proc),
      cs[i]? = some (.running task name p) ∧ q ∈ p.parts := by
  induction cs with
  | nil => simp [partsAmong]
  | cons c cs ih =>
      rw [partsAmong, List.mem_append, ih]
      constructor
      · rintro (hq | ⟨i, task, name, p, hp, hq⟩)
        · cases c with
          | running task name p => exact ⟨0, task, name, p, rfl, hq⟩
          | spawned | ended | lost => simp [Child.parts] at hq
        · exact ⟨i + 1, task, name, p, hp, hq⟩
      · rintro ⟨i, task, name, p, hp, hq⟩
        cases i with
        | zero =>
            obtain rfl : c = .running task name p := by simpa using hp
            exact .inl hq
        | succ i => exact .inr ⟨i, task, name, p, hp, hq⟩

/-- The process has a leaf that is suspended: it waits for something that is none of the engine's
business, and the wait is not over. -/
def Proc.HasPending (s : Store) (p : Proc) : Prop :=
  ∃ env guards e k, .leaf env guards (.ask e k) ∈ p.parts ∧ e.Pends s env

lemma Proc.HasPending.of_parts {s : Store} {p q : Proc} (h : q.HasPending s)
    (sub : ∀ x ∈ q.parts, x ∈ p.parts) : p.HasPending s := by
  obtain ⟨env, guards, e, k, hmem, pends⟩ := h
  exact ⟨env, guards, e, k, sub _ hmem, pends⟩

section

variable {s : Store} {env : Env} {a : Action} {p q : Proc} {d : Dispatch} {children : List Child}

/-! ## Idle processes -/

/-- All parts of an idle process are idle, and each is the rest of some action. -/
lemma Proc.RestOf.part (rest : p.RestOf s env a) (idle : p.IsIdle s) (hq : q ∈ p.parts) :
    q.IsIdle s ∧ ∃ env' a', q.RestOf s env' a' := by
  induction rest with
  | leaf bare leads surroundings =>
      rw [Proc.parts, List.mem_singleton] at hq
      subst hq
      exact ⟨idle, _, _, .leaf bare leads surroundings⟩
  | within before bare leads surroundings inner ih =>
      rcases List.mem_cons.mp hq with rfl | hq
      · exact ⟨idle, _, _, .within before bare leads surroundings inner⟩
      · exact ih ⟨idle.code, idle.tasks⟩ hq
  | linear bare place called chronicle current ih =>
      rcases List.mem_cons.mp hq with rfl | hq
      · exact ⟨idle, _, _, .linear bare place called chronicle current⟩
      · exact ih ⟨idle.code, idle.tasks⟩ hq
  | concurrent bare node below ih =>
      rcases List.mem_cons.mp hq with rfl | hq
      · exact ⟨idle, _, _, .concurrent bare node below⟩
      · obtain ⟨i, task, name, p, hp, hq⟩ := mem_partsAmong.mp hq
        obtain ⟨c, hc⟩ := node.getElem? hp
        exact ih i task name p c hp hc (idle.running hp) hq

/-- A dispatcher that cannot go on has a child that has not ended.  If it waits for an end to
collect it is that of a child, and if it waits for a slot they are all taken, and there is one. -/
lemma Dispatch.Accounts.exists_live {runner : Action} {slots : Option Nat} {cs : List Action}
    (node : d.Accounts s env runner slots cs children)
    (bare : runner.dispatch? = some (slots, cs)) (waits : d.isReady children = false) :
    ∃ c ∈ children, c.isLive = true := by
  unfold Dispatch.isReady at waits
  by_cases hqueue : d.queue.isEmpty = true
  · rw [if_pos hqueue] at waits
    cases hnext : children[d.collected]? with
    | none => simp [hnext] at waits
    | some c =>
        rw [hnext] at waits
        exact ⟨c, List.mem_of_getElem? hnext, by simpa using waits⟩
  · rw [if_neg hqueue] at waits
    have hfree := node.free
    cases slots with
    | none => simp [node.whole rfl] at hqueue
    | some n =>
        have hpos : 0 < n := by
          cases runner <;> simp only [Action.dispatch?, Option.some.injEq, Prod.mk.injEq,
            reduceCtorEq, false_and] at bare
          obtain ⟨rfl, -⟩ := bare
          exact Limit.pos _
        match hgate : d.gate with
        | none => simp [hgate] at hfree
        | some (free + 1) => simp [hgate] at waits
        | some 0 =>
            rw [hgate, Option.map_some, Option.some.injEq, Nat.zero_add] at hfree
            exact List.countP_pos_iff.mp (hfree ▸ hpos)

/-- An idle concurrent run has a child whose body has started and not ended. -/
lemma Dispatch.Accounts.exists_running {runner : Action} {slots : Option Nat} {cs : List Action}
    (node : d.Accounts s env runner slots cs children)
    (bare : runner.dispatch? = some (slots, cs)) (idle : (Proc.concurrent d children).IsIdle s) :
    ∃ (i task : Nat) (name : String) (p : Proc), children[i]? = some (.running task name p) := by
  obtain ⟨c, hmem, live⟩ := node.exists_live bare idle.code
  obtain ⟨i, hi⟩ := List.mem_iff_getElem?.mp hmem
  have hrunning := Child.isRunning_of_isLive live (idle.child hi [])
  cases c with
  | running task name p => exact ⟨i, task, name, p, hi⟩
  | spawned | ended | lost => simp [Child.isRunning] at hrunning

/-- **Every wait points at a leaf.**  An idle process has a leaf that is suspended. -/
theorem Proc.RestOf.exists_pending (rest : p.RestOf s env a) (idle : p.IsIdle s) :
    p.HasPending s := by
  induction rest with
  | leaf bare leads surroundings =>
      obtain ⟨e, k, rfl, pends⟩ := Body.isReady_eq_false_iff.mp idle.code
      exact ⟨_, _, e, k, Proc.mem_parts_self _, pends⟩
  | within _ _ _ _ _ ih | linear _ _ _ _ _ ih =>
      exact (ih ⟨idle.code, idle.tasks⟩).of_parts fun x hx => List.mem_cons_of_mem _ hx
  | concurrent bare node below ih =>
      obtain ⟨i, task, name, p, hp⟩ := node.exists_running bare idle
      obtain ⟨c, hc⟩ := node.getElem? hp
      refine (ih i task name p c hp hc (idle.running hp)).of_parts fun x hx => ?_
      exact List.mem_cons_of_mem _ (mem_partsAmong.mpr ⟨i, task, name, p, hp, hx⟩)

/-- A run that a process holds is the run of one of its parts. -/
lemma Proc.RestOf.exists_part (rest : p.RestOf s env a) {r : Nat} (hr : r ∈ p.runs) :
    ∃ q ∈ p.parts, q.run? = some r := by
  induction rest with
  | leaf => cases hr
  | within _ _ _ _ _ ih =>
      obtain ⟨q, hq, hrun⟩ := ih hr
      exact ⟨q, List.mem_cons_of_mem _ hq, hrun⟩
  | linear _ _ _ _ _ ih =>
      rcases List.mem_cons.mp hr with rfl | hr
      · exact ⟨_, Proc.mem_parts_self _, rfl⟩
      · obtain ⟨q, hq, hrun⟩ := ih hr
        exact ⟨q, List.mem_cons_of_mem _ hq, hrun⟩
  | concurrent bare node below ih =>
      rcases List.mem_cons.mp hr with rfl | hr
      · exact ⟨_, Proc.mem_parts_self _, rfl⟩
      · obtain ⟨child, hchild, hr⟩ := mem_runsAmong.mp hr
        obtain ⟨i, hi⟩ := List.mem_iff_getElem?.mp hchild
        obtain ⟨c, hc⟩ := node.getElem? hi
        match child, hr with
        | .running task name p, hr =>
            obtain ⟨q, hq, hrun⟩ := ih i task name p c hi hc hr
            exact ⟨q, List.mem_cons_of_mem _ (mem_partsAmong.mpr ⟨i, task, name, p, hi, hq⟩), hrun⟩

/-- A run whose code is idle has a child in flight. -/
lemma Proc.RestOf.inFlight_ne_nil (rest : p.RestOf s env a) (idle : p.IsIdle s) {r : Nat}
    (hr : p.run? = some r) : inFlight (s.marks r) ≠ [] := by
  cases rest with
  | leaf | within => cases hr
  | @linear _ a c before after run index name p bare place called chronicle current =>
      cases hr
      refine List.ne_nil_of_mem ((Chronicle.mem_inFlight chronicle index).mpr ?_)
      simp
  | concurrent bare node below =>
      cases hr
      obtain ⟨i, task, name, p, hp⟩ := node.exists_running bare idle
      refine List.ne_nil_of_mem ((Chronicle.mem_inFlight node.chronicle i).mpr ?_)
      rw [List.getElem?_map, hp]
      rfl

/-! ## Polling -/

/-- A dispatcher that cannot go on stays as it is when it is polled. -/
lemma Dispatch.advance_of_isReady (isOpen : s.closed = false) (waits : d.isReady children = false) :
    d.advance children s = (s, .paused (.concurrent d children)) := by
  obtain ⟨run, env, gate, queue, collected, failure⟩ := d
  rw [Dispatch.advance, Dispatch.refused?_eq_none _ isOpen]
  cases queue with
  | nil =>
      simp only [Dispatch.isReady, List.isEmpty_nil, if_true] at waits
      cases hnext : children[collected]? with
      | none => simp [hnext] at waits
      | some c =>
          have hverdict : c.verdict? = none := by
            rw [hnext] at waits
            cases c <;> simp_all [Child.isLive, Child.task?, Child.verdict?]
          obtain ⟨hlt, rfl⟩ := List.getElem?_eq_some_iff.mp hnext
          have hcollect : Dispatch.collect ⟨run, env, gate, [], collected, failure⟩
              (children.drop collected) s =
                (⟨run, env, gate, [], collected, failure⟩, s, false) := by
            rw [List.drop_eq_getElem_cons hlt, Dispatch.collect, hverdict]
          simp [Dispatch.admitAll, hcollect]
  | cons x queue =>
      rcases gate with - | - | free
      · simp [Dispatch.admitAll]
      · simp [Dispatch.admitAll]
      · simp [Dispatch.isReady] at waits

/-- **A task's own code** that cannot go on stays as it is when it is polled. -/
lemma Proc.resume_of_isReady (isOpen : s.closed = false) (p : Proc) (waits : p.isReady s = false) :
    p.resume s = (s, .paused p) := by
  match p with
  | .leaf env guards body =>
      obtain ⟨e, k, rfl, pends⟩ := Body.isReady_eq_false_iff.mp waits
      have hnone : s.perform? env e = none := by
        simpa [grants] using grants_eq_false_iff.mpr pends
      rw [Proc.resume, Body.resume, hnone]
  | .within env guards handle inner k =>
      rw [Proc.resume_within, Proc.resume_of_isReady isOpen inner waits]
      rfl
  | .linear run env index name current rest =>
      rw [Proc.resume_linear, Proc.resume_of_isReady isOpen current waits]
      rfl
  | .concurrent d children =>
      rw [Proc.resume]
      exact Dispatch.advance_of_isReady isOpen waits

/-- A child that cannot go on stays as it is. -/
lemma Child.resumeAt_of_isReadyAt (isOpen : s.closed = false) {child : Child} (index : Nat)
    (path : List Nat) (waits : child.isReadyAt s path = false)
    (down : ∀ task name p i path, child = .running task name p → p.isReadyAt s i path = false →
      p.resumeAt s i path = (s, p)) : child.resumeAt s d index path = (s, d, child) := by
  cases child with
  | spawned task a =>
      cases path with
      | nil => simp [Child.isReadyAt] at waits
      | cons i path => simp [Child.resumeAt]
  | running task name p =>
      cases path with
      | nil =>
          rw [Child.resumeAt_running, Proc.resume_of_isReady isOpen p waits]
          rfl
      | cons i path =>
          rw [Child.resumeAt, down task name p i path rfl waits]
  | ended | lost => simp [Child.resumeAt]

/-- **A task below a process** that cannot go on stays as it is when it is polled. -/
lemma Proc.RestOf.resumeAt_of_isReadyAt (isOpen : s.closed = false) (rest : p.RestOf s env a)
    (index : Nat) (path : List Nat) (waits : p.isReadyAt s index path = false) :
    p.resumeAt s index path = (s, p) := by
  induction rest generalizing index path with
  | leaf => rw [Proc.resumeAt]
  | within _ _ _ _ _ ih | linear _ _ _ _ _ ih =>
      rw [Proc.resumeAt, ih index path waits]
  | @concurrent env a slots cs d children bare node below ih =>
      rw [Proc.isReadyAt, isReadyAmong_eq] at waits
      rw [Proc.resumeAt, resumeAmong_eq]
      cases hchild : children[index]? with
      | none => rfl
      | some child =>
          rw [hchild, Option.any_some] at waits
          obtain ⟨c, hc⟩ := node.getElem? hchild
          dsimp only
          rw [Child.resumeAt_of_isReadyAt isOpen _ path waits fun task name p i path heq =>
            ih index task name p c (heq ▸ hchild) hc i path]
          simp only [set_of_getElem? hchild]

end

namespace World

variable {base : Nat} {env : Env} {a : Action} {w : World}

/-- Polling tasks changes nothing where no task can go on. -/
lemma Accounted.take_of_isIdle (h : w.Accounted base env a) (idle : w.IsIdle) {t : Turn}
    (task : t.isTask = true) : w.take t = w := by
  have alone := idle.orphans_nil
  have hready := idle t task
  cases t with
  | root =>
      rw [World.take, World.pollRoot]
      cases hp : w.root with
      | running p =>
          dsimp only
          rw [Proc.resume_of_isReady h.tidy.isOpen p (idle.proc hp).code]
          simp only [Root.ofProgress, ← hp]
      | unstarted => simp [isReady, hp] at hready
      | ended | dropped => rfl
  | task index path =>
      rw [World.take]
      cases hp : w.root with
      | running p =>
          obtain ⟨rest, -⟩ := h.of_running hp
          dsimp only
          rw [rest.resumeAt_of_isReadyAt h.tidy.isOpen index path ((idle.proc hp).tasks index path)]
          simp only [← hp]
      | unstarted | ended | dropped => rfl
  | orphan place | orphanTask place index path => simp [World.take, alone]
  | timer | appointment => cases task

/-- **No run hangs by itself.**  Take any world that an opening world leads to, whatever the order
of the turns, in which no task can go on and the run is neither over nor given up.

* Every process in it is the rest of an action that has started and not ended, and has a leaf that
  is suspended: its body has stopped at a wait, and the time for that has not come, or the context
  is not cancelled, or the cell is pending.  So a runner, whatever it waits for itself, has such a
  leaf below it.
* Every run that has not ended, at whatever depth, has a child in flight.
* No end has gone unnoticed: polling any task would change nothing. -/
theorem never_stuck {w₀ : World} (opens : w₀.Opens env a) (leads : Leads w₀ w) (idle : w.IsIdle)
    (unfinished : w.root.isOver = false) :
    (∃ p, w.root = .running p ∧ ∀ q ∈ p.parts, q.HasPending w.store ∧
      ∃ env' c, q.RestOf w.store env' c) ∧
    (∀ r runner, w₀.store.runs ≤ r → .begun runner ∈ w.store.marks r →
      (∀ e, .finished e ∉ w.store.marks r) → inFlight (w.store.marks r) ≠ []) ∧
    ∀ t : Turn, t.isTask = true → w.take t = w := by
  have acc := leads.accounted opens
  obtain ⟨p, hp⟩ : ∃ p, w.root = .running p := by
    have hready := idle .root rfl
    cases hroot : w.root with
    | running p => exact ⟨p, rfl⟩
    | unstarted => simp [isReady, hroot] at hready
    | ended | dropped => simp [hroot, Root.isOver] at unfinished
  obtain ⟨rest, -⟩ := acc.of_running hp
  have hidle := idle.proc hp
  refine ⟨⟨p, hp, fun q hq => ?_⟩, fun r runner hb begun unended => ?_,
    fun t ht => acc.take_of_isIdle idle ht⟩
  · obtain ⟨hq', env', c, hrest⟩ := rest.part hidle hq
    exact ⟨hrest.exists_pending hq', env', c, hrest⟩
  · obtain ⟨ch, hch⟩ := acc.chronicle_of_mem hb begun
    have hr : r ∈ p.runs := by
      by_contra hn
      have hlt : r < w.store.runs := by
        by_contra hge
        rw [Store.marks, acc.tidy.fresh r (by omega)] at begun
        cases begun
      obtain ⟨a', e, ch', hch', -, hexit⟩ :=
        acc.ended (by rw [hp]; simp) r hb hlt (by rw [hp]; exact hn)
      exact unended e ((Chronicle.finished_mem hch' e).mpr hexit)
    obtain ⟨q, hq, hrun⟩ := rest.exists_part hr
    obtain ⟨hq', env', c, hrest⟩ := rest.part hidle hq
    exact hrest.inFlight_ne_nil hq' hrun

end World

/-- A leaf that sleeps in the only slot of a throttled run, which is a task in a run that is the
child of another one. -/
def Action.queued : Action :=
  .linear [.async [.throttled .one [.sleeping 5, .yielding "next"]]]

/-- While it sleeps, three runs wait, the innermost for a slot. -/
theorem World.never_stuck_queued :
    let w := (((opening ⟨default, 0⟩ .queued).take .root).take (.task 0 [])).take (.task 0 [0])
    w.IsIdle ∧ inFlight (w.store.marks 2) ≠ [] ∧ ∃ p, w.root = .running p ∧ p.HasPending w.store := by
  intro w
  have hleads : Leads (opening ⟨default, 0⟩ .queued) w :=
    .step (.step (.step .refl (.turn .root rfl)) (.turn (.task 0 []) rfl)) (.turn (.task 0 [0]) rfl)
  have horphans : w.orphans = [] := rfl
  have hidle : w.IsIdle := by
    intro t ht
    cases t with
    | root => rfl
    | task index path =>
        rcases index with _ | index
        · rcases path with _ | ⟨_ | i, _ | ⟨j, path⟩⟩ <;> rfl
        · rfl
    | orphan place => simp [isReady, horphans]
    | orphanTask place index path => simp [isReady, horphans]
    | timer t => cases ht
    | appointment place => cases ht
  have hunended : (w.store.marks 2).any Mark.isFinish = false := rfl
  obtain ⟨⟨p, hp, hparts⟩, hflight, -⟩ :=
    never_stuck (opening_opens ⟨default, 0⟩ .queued) hleads hidle rfl
  refine ⟨hidle, ?_, p, hp, (hparts p p.mem_parts_self).1⟩
  exact hflight 2 _ (Nat.zero_le 2) (List.mem_of_getElem? (i := 0) rfl)
    fun e he => List.any_eq_false.mp hunended _ he rfl

end Workflow
