import Mathlib.Algebra.GroupWithZero.Nat
import Workflow.Proofs.Accounted

/-!
# What becomes of a run that is over

When a run is over, by itself or because it was given up, its code does nothing more.  If it was
given up, the tasks that it had spawned are orphans, and each of them waits for the turn in which it
is dropped; until then the tasks below it go on.

**No more children.**  What is dropped neither spawns nor starts anything (`Store.Closes`), so a run
without code gets no further child: `Accounted.closes`.

**An end.**  An orphan can always be dropped, so time stands still until there are none left
(`Step.clock_eq`); dropping them one by one comes to an end (`Accounted.drains`); and when none are
left every child has ended (`Accounted.isOver`) and nothing goes on any more (`Reachable.still`).
-/

namespace Workflow

open Store

/-! ## Dropping starts nothing -/

/-- The run got new marks that neither spawn nor start a child, or none. -/
def Store.Closes (r : Nat) (s s' : Store) : Prop :=
  ∃ ms, s'.marks r = s.marks r ++ ms ∧ ∀ m ∈ ms, m.spawned? = none ∧ m.started? = none

namespace Store.Closes

variable {r : Nat} {s s' s'' : Store}

lemma of_notes (h : s'.notes r = s.notes r) : Closes r s s' :=
  ⟨[], by rw [List.append_nil, marks_congr h], by simp⟩

lemma trans (h : Closes r s s') (h' : Closes r s' s'') : Closes r s s'' := by
  obtain ⟨ms, hms, hn⟩ := h
  obtain ⟨ms', hms', hn'⟩ := h'
  refine ⟨ms ++ ms', by rw [hms', hms, List.append_assoc], fun m hm => ?_⟩
  exact (List.mem_append.mp hm).elim (hn m) (hn' m)

lemma mark (run : Nat) {m : Mark} (h : m.spawned? = none ∧ m.started? = none) :
    Closes r s (s.mark run m) := by
  by_cases hr : r = run
  · subst hr
    exact ⟨[m], marks_mark s r m, by simpa using h⟩
  · exact .of_notes (notes_mark_of_ne s m hr)

lemma spawned (h : Closes r s s') :
    (s'.marks r).filterMap Mark.spawned? = (s.marks r).filterMap Mark.spawned? := by
  obtain ⟨ms, hms, hn⟩ := h
  rw [hms, List.filterMap_append, List.filterMap_eq_nil_iff.mpr fun m hm => (hn m hm).1,
    List.append_nil]

lemma started (h : Closes r s s') :
    (s'.marks r).filterMap Mark.started? = (s.marks r).filterMap Mark.started? := by
  obtain ⟨ms, hms, hn⟩ := h
  rw [hms, List.filterMap_append, List.filterMap_eq_nil_iff.mpr fun m hm => (hn m hm).2,
    List.append_nil]

end Store.Closes

lemma Proc.drop_closes (s : Store) (r : Nat) : (p : Proc) → Closes r s (p.drop s).1
  | .leaf _ guards _ => .of_notes ((s.sameRuns_endGuards guards).notes r)
  | .within _ guards handle inner _ =>
      (Proc.drop_closes s r inner).trans (.of_notes
        ((((inner.drop s).1.sameRuns_leave handle).trans (sameRuns_endGuards _ guards)).notes r))
  | .linear run _ _ _ current _ => (Proc.drop_closes s r current).trans (.mark run ⟨rfl, rfl⟩)
  | .concurrent _ _ => .of_notes rfl

lemma Orphan.drop_closes (s : Store) (o : Orphan) (r : Nat) : Closes r s (o.drop s).1 := by
  obtain ⟨run, index, child⟩ := o
  cases child with
  | spawned task a =>
      exact (Closes.of_notes ((s.sameRuns_endTask task).notes r)).trans (.mark run ⟨rfl, rfl⟩)
  | running task name p =>
      exact ((p.drop_closes s r).trans (.of_notes
        (((p.drop s).1.sameRuns_endTask task).notes r))).trans (.mark run ⟨rfl, rfl⟩)
  | ended | lost => exact .of_notes rfl

/-- The code of a run that was dropped is held by none of the orphans. -/
lemma Proc.RestOf.not_held {s : Store} {env : Env} {a : Action} {p : Proc} (rest : p.RestOf s env a)
    (nodup : p.runs.Nodup) {r : Nat} (hr : p.run? = some r) : r ∉ heldBy (p.drop s).2 := by
  cases rest with
  | leaf | within => cases hr
  | linear _ _ _ _ rest =>
      cases hr
      obtain ⟨hn, hnodup⟩ := List.nodup_cons.mp nodup
      exact fun hm => hn ((Proc.drop_drops rest hnodup).left.held _ hm)
  | @concurrent _ _ slots cs d children =>
      cases hr
      rw [Proc.drop, heldBy_orphansOf]
      exact (List.nodup_cons.mp nodup).1

/-- An orphan that is dropped hands on no run that it did not hold. -/
lemma Store.LeftTo.drop_held {s : Store} {own : Nat → Prop} {orphans : List Orphan} {o : Orphan}
    (h : s.LeftTo own orphans) (ho : o ∈ orphans) {r : Nat} (hr : r ∈ heldBy (o.drop s).2) :
    r ∈ o.child.runs := by
  obtain ⟨run, index, child⟩ := o
  match child, hr with
  | .running task name p, hr =>
      obtain ⟨env, a, rest⟩ := h.rest _ ho task name p rfl
      have hnodup : p.runs.Nodup := by
        have := (List.nodup_flatMap.mp h.nodup).1 _ ho
        exact this
      exact (Proc.drop_drops rest hnodup).left.held r hr

/-- What happens from outside leaves the logs and the run states alone. -/
lemma Store.suffer_eq (s : Store) (d : Deed) :
    (s.suffer d).log = s.log ∧ (s.suffer d).calls = s.calls ∧ (s.suffer d).states = s.states := by
  cases d with
  | cancel | disown => exact ⟨rfl, rfl, rfl⟩
  | settle cell how =>
      simp only [suffer, settle]
      split
      · exact ⟨rfl, rfl, rfl⟩
      · split
        · cases how <;> dsimp only <;> split <;> exact ⟨rfl, rfl, rfl⟩
        · exact ⟨rfl, rfl, rfl⟩

/-! ## Dropping comes to an end -/

/-- How many tasks have to be dropped before nothing is left of an orphan. -/
def Orphan.weight (o : Orphan) : Nat :=
  1 + o.child.liveBelow.length

lemma weight_orphansOf (run first : Nat) (children : List Child) :
    ((orphansOf run first children).map Orphan.weight).sum
      = (liveAmong run first children).length := by
  induction children generalizing first with
  | nil => rfl
  | cons c rest ih =>
      rw [orphansOf, liveAmong]
      split_ifs with hlive
      · simp only [List.map_cons, List.sum_cons, ih, Orphan.weight, List.length_append,
          List.length_singleton]
      · have hnil : c.liveBelow = [] := by
          cases c <;> simp_all [Child.isLive, Child.task?, Child.liveBelow]
        rw [ih, hnil, List.nil_append, List.nil_append]

lemma Proc.drop_weight (s : Store) : (p : Proc) →
    ((p.drop s).2.map Orphan.weight).sum = p.liveTasks.length
  | .leaf _ _ _ => by rw [Proc.drop, Proc.liveTasks]; rfl
  | .within _ _ _ inner _ => by rw [Proc.drop, Proc.liveTasks]; exact Proc.drop_weight s inner
  | .linear _ _ _ _ current _ => by rw [Proc.drop, Proc.liveTasks]; exact Proc.drop_weight s current
  | .concurrent d children => by
      rw [Proc.drop, Proc.liveTasks]; exact weight_orphansOf d.run 0 children

/-- An orphan that is dropped is one task less. -/
lemma Orphan.drop_weight (s : Store) (o : Orphan) :
    ((o.drop s).2.map Orphan.weight).sum + 1 = o.weight := by
  obtain ⟨run, index, child⟩ := o
  cases child with
  | running task name p =>
      rw [weight, Child.liveBelow, ← p.drop_weight s, Nat.add_comm]
      rfl
  | spawned | ended | lost => rfl

namespace World

variable {base : Nat} {env : Env} {a : Action} {w v : World}

/-! ## Steps of a world whose run is over -/

lemma abandon_isOver (w : World) : w.abandon.root.isOver = true := by
  cases hroot : w.root <;> simp [abandon, hroot, Root.isOver]

/-- What a step can be once the root is over: an orphan is dropped, a task below one goes on,
something happens from outside, or, when there is no orphan, time moves. -/
inductive Aftermath (w : World) : World → Prop where
  | drop (place : Nat) (o : Orphan) (ho : w.orphans[place]? = some o) :
      Aftermath w { w with store := (o.drop w.store).1
                           orphans := w.orphans.eraseIdx place ++ (o.drop w.store).2 }
  | resume (place index : Nat) (path : List Nat) (o : Orphan) (ho : w.orphans[place]? = some o) :
      Aftermath w { w with store := (o.resumeAt w.store index path).1
                           orphans := w.orphans.set place (o.resumeAt w.store index path).2 }
  | outside (s : Store) (agenda : List Appointment) (same : w.store.SameRuns s)
      (logs : s.log = w.store.log ∧ s.calls = w.store.calls ∧ s.states = w.store.states) :
      Aftermath w { w with store := s, agenda }
  | tick (time : Nat) (alone : w.orphans = []) : Aftermath w (w.advance time)

lemma Step.aftermath (h : Step w v) (isOver : w.root.isOver = true) : Aftermath w v := by
  cases h with
  | tick quiet =>
      refine .tick _ ?_
      cases ho : w.orphans with
      | nil => rfl
      | cons o orphans =>
          have := quiet (.orphan 0)
          simp [isReady, ho] at this
  | turn t ready =>
      cases t with
      | root | task => cases hroot : w.root <;> simp [isReady, hroot, Root.isOver] at ready isOver
      | orphan place =>
          cases ho : w.orphans[place]? with
          | none => simp [isReady, ho] at ready
          | some o => simp only [take, ho]; exact .drop place o ho
      | orphanTask place index path =>
          cases ho : w.orphans[place]? with
          | none => simp [isReady, ho] at ready
          | some o => simp only [take, ho]; exact .resume place index path o ho
      | timer t =>
          exact .outside _ w.agenda (sameRuns_withContexts _ (Contexts.clock_fire _ _))
            ⟨rfl, rfl, rfl⟩
      | appointment place =>
          cases ha : w.agenda[place]? with
          | none => simp [isReady, ha] at ready
          | some x =>
              simp only [take, ha]
              exact .outside _ _ (sameRuns_suffer _ _) (Store.suffer_eq _ _)

namespace Aftermath

lemma root_eq (h : Aftermath w v) : v.root = w.root := by
  cases h <;> rfl

/-- Where there are no orphans, none come up. -/
lemma orphans_nil (h : Aftermath w v) (alone : w.orphans = []) : v.orphans = [] := by
  cases h with
  | drop place o ho => rw [alone] at ho; cases ho
  | resume place index path o ho => rw [alone] at ho; cases ho
  | outside | tick => exact alone

/-- Nothing goes on where there are no orphans. -/
lemma still (h : Aftermath w v) (alone : w.orphans = []) :
    v.store.log = w.store.log ∧ v.store.calls = w.store.calls ∧
      v.store.states = w.store.states ∧ ∀ r, v.store.notes r = w.store.notes r := by
  cases h with
  | drop place o ho => rw [alone] at ho; cases ho
  | resume place index path o ho => rw [alone] at ho; cases ho
  | outside s agenda same logs => exact ⟨logs.1, logs.2.1, logs.2.2, same.notes⟩
  | tick => exact ⟨rfl, rfl, rfl, fun _ => rfl⟩

/-- Time stands still as long as there are orphans. -/
lemma clock_eq (h : Aftermath w v) (acc : w.Accounted base env a) (orphans : v.orphans ≠ []) :
    v.store.clock = w.store.clock := by
  cases h with
  | drop place o ho =>
      exact (acc.left.first ho).drop.2.1
  | resume place index path o ho =>
      obtain ⟨run, i, child⟩ := o
      match child with
      | .spawned _ _ | .ended _ _ | .lost _ => rfl
      | .running task name p =>
          exact (acc.resumeOrphan (List.mem_of_getElem? ho) rfl index path).1.clock
  | outside s agenda same => exact same.clock
  | tick time alone => exact absurd alone orphans

/-- A run without code gets no more children. -/
lemma closes (h : Aftermath w v) (acc : w.Accounted base env a) {r : Nat} (hr : r < w.store.runs)
    (free : r ∉ heldBy w.orphans) :
    Closes r w.store v.store ∧ r < v.store.runs ∧ r ∉ heldBy v.orphans := by
  cases h with
  | drop place o ho =>
      have hmem := List.mem_of_getElem? ho
      have hruns := (acc.left.first ho).drop.2.2.1
      refine ⟨Orphan.drop_closes w.store _ r, hr.trans_eq hruns.symm, ?_⟩
      rw [heldBy_append, List.mem_append]
      rintro (hm | hm)
      · obtain ⟨o', ho', hr'⟩ := mem_heldBy.mp hm
        exact free (mem_heldBy.mpr ⟨o', List.mem_of_mem_eraseIdx ho', hr'⟩)
      · exact free (mem_heldBy.mpr ⟨_, hmem, acc.left.drop_held hmem hm⟩)
  | resume place index path o ho =>
      have hset : w.orphans.set place o = w.orphans := set_of_getElem? ho
      have hmem := List.mem_of_getElem? ho
      obtain ⟨run, i, child⟩ := o
      match child with
      | .spawned _ _ | .ended _ _ | .lost _ =>
          rw [Orphan.resumeAt, hset]
          exact ⟨.of_notes rfl, hr, free⟩
      | .running task name p =>
          have hand := (acc.resumeOrphan hmem rfl index path).1
          have hn : r ∉ p.runs := fun hp => free (LeftTo.mem_held hmem rfl hp)
          refine ⟨.of_notes (hand.others r hr hn), hr.trans_le hand.runs_le, fun hm => ?_⟩
          obtain ⟨o', ho', hr'⟩ := mem_heldBy.mp hm
          rcases List.mem_or_eq_of_mem_set ho' with ho' | rfl
          · exact free (mem_heldBy.mpr ⟨o', ho', hr'⟩)
          · exact hand.kept hr hn hr'
  | outside s agenda same =>
      exact ⟨.of_notes (same.notes r), hr.trans_eq same.runs.symm, free⟩
  | tick => exact ⟨.of_notes rfl, hr, free⟩

end Aftermath

/-! ## Whole runs -/

namespace Reachable

lemma trans {u : World} (h : Reachable w v) (h' : Reachable v u) : Reachable w u := by
  induction h' with
  | refl => exact h
  | step _ s ih => exact ih.step s

lemma accounted (h : Reachable w v) (acc : w.Accounted base env a) : v.Accounted base env a := by
  induction h with
  | refl => exact acc
  | step _ s ih => exact ih.step s

lemma root_eq (h : Reachable w v) (isOver : w.root.isOver = true) : v.root = w.root := by
  induction h with
  | refl => rfl
  | step _ s ih => exact (s.aftermath (by rw [ih]; exact isOver)).root_eq.trans ih

lemma orphans_nil (h : Reachable w v) (isOver : w.root.isOver = true) (alone : w.orphans = []) :
    v.orphans = [] := by
  induction h with
  | refl => exact alone
  | step h s ih => exact (s.aftermath (by rw [h.root_eq isOver]; exact isOver)).orphans_nil ih

/-- **Nothing goes on** once a run is over and there are no orphans: no log is written, no run state
is touched, and no run gets another mark. -/
theorem still (h : Reachable w v) (isOver : w.root.isOver = true) (alone : w.orphans = []) :
    v.store.log = w.store.log ∧ v.store.calls = w.store.calls ∧
      v.store.states = w.store.states ∧ ∀ r, v.store.notes r = w.store.notes r := by
  induction h with
  | refl => exact ⟨rfl, rfl, rfl, fun _ => rfl⟩
  | step h s ih =>
      obtain ⟨hlog, hcalls, hstates, hnotes⟩ :=
        (s.aftermath (by rw [h.root_eq isOver]; exact isOver)).still (h.orphans_nil isOver alone)
      exact ⟨hlog.trans ih.1, hcalls.trans ih.2.1, hstates.trans ih.2.2.1,
        fun r => (hnotes r).trans (ih.2.2.2 r)⟩

/-- **Time stands still** as long as there are orphans. -/
theorem clock_eq (h : Reachable w v) (acc : w.Accounted base env a) (isOver : w.root.isOver = true)
    (orphans : v.orphans ≠ []) : v.store.clock = w.store.clock := by
  induction h with
  | refl => rfl
  | step h s ih =>
      have haft := s.aftermath (by rw [h.root_eq isOver]; exact isOver)
      exact (haft.clock_eq (h.accounted acc) orphans).trans
        (ih fun alone => orphans (haft.orphans_nil alone))

/-- **No more children.**  A run whose code is gone gets no further child. -/
theorem closes (h : Reachable w v) (acc : w.Accounted base env a) (isOver : w.root.isOver = true)
    {r : Nat} (hr : r < w.store.runs) (free : r ∉ heldBy w.orphans) :
    Closes r w.store v.store ∧ r < v.store.runs ∧ r ∉ heldBy v.orphans := by
  induction h with
  | refl => exact ⟨.of_notes rfl, hr, free⟩
  | step h s ih =>
      obtain ⟨hcloses, hr', hfree⟩ := ih
      obtain ⟨hcloses', h'⟩ :=
        (s.aftermath (by rw [h.root_eq isOver]; exact isOver)).closes (h.accounted acc) hr' hfree
      exact ⟨hcloses.trans hcloses', h'⟩

end Reachable

/-- No turn gives the run up. -/
lemma root_take_ne_dropped (hw : w.root ≠ .dropped) (t : Turn) : (w.take t).root ≠ .dropped := by
  cases t with
  | timer => exact hw
  | root =>
      simp only [take, pollRoot]
      split
      · simp only [Root.ofProgress]; split <;> simp
      · simp only [Root.ofProgress]; split <;> simp
      · exact hw
  | task | orphan | orphanTask | appointment =>
      simp only [take]
      split
      · first | exact hw | exact Root.noConfusion
      · exact hw

lemma Drifts.root_ne_dropped {acts : List Act} (h : Drifts w acts v) (hw : w.root ≠ .dropped) :
    v.root ≠ .dropped := by
  induction h with
  | refl => exact hw
  | turn _ t _ ih => exact root_take_ne_dropped ih t
  | pass _ _ ih => exact ih

lemma Reachable.root_ne_dropped (h : Reachable w v) (hw : w.root ≠ .dropped) :
    v.root ≠ .dropped := by
  obtain ⟨_, drifts⟩ := h.drifts
  exact drifts.root_ne_dropped hw

/-- Dropping the orphans one by one comes to an end, without time passing. -/
theorem Accounted.drains (acc : w.Accounted base env a) (isOver : w.root.isOver = true) :
    ∃ v, Reachable w v ∧ v.orphans = [] ∧ v.store.clock = w.store.clock := by
  induction hn : (w.orphans.map Orphan.weight).sum using Nat.strongRecOn generalizing w with
  | _ n ih =>
      cases ho : w.orphans with
      | nil => exact ⟨w, .refl, ho, rfl⟩
      | cons o rest =>
          have hready : w.isReady (.orphan 0) = true := by simp [isReady, ho]
          have htake : w.take (.orphan 0) = { w with store := (o.drop w.store).1
                                                     orphans := rest ++ (o.drop w.store).2 } := by
            simp [World.take, ho]
          have hacc := acc.take (.orphan 0)
          rw [htake] at hacc
          have hdrop := acc.left
          rw [ho] at hdrop
          have hweight := o.drop_weight w.store
          rw [ho, List.map_cons, List.sum_cons] at hn
          obtain ⟨v, hv, halone, hclock⟩ := ih _ (by
            rw [List.map_append, List.sum_append]; omega) hacc isOver rfl
          rw [← htake] at hv
          exact ⟨v, .trans (.step .refl (.turn _ hready)) hv, halone, hclock.trans hdrop.drop.2.1⟩

/-! ## Idle worlds -/

end World

/-- Every child of a run that has begun since the number of runs was `base`, if it was given a task
or started, has ended exactly once, be it that it was given up. -/
def Store.AllEnded (s : Store) (base : Nat) : Prop :=
  ∀ r, base ≤ r → ∀ i, lifeOf i (s.marks r) ≠ [] → (lifeOf i (s.marks r)).countP Mark.isLast = 1

namespace World

variable {base : Nat} {env : Env} {a : Action} {w v : World}

/-- No task can go on. -/
def IsIdle (w : World) : Prop :=
  ∀ t : Turn, t.isTask = true → w.isReady t = false

lemma IsIdle.orphans_nil (h : w.IsIdle) : w.orphans = [] := by
  cases ho : w.orphans with
  | nil => rfl
  | cons o orphans =>
      have := h (.orphan 0) rfl
      simp [isReady, ho] at this

lemma isIdle_of_alone (isOver : w.root.isOver = true) (alone : w.orphans = []) : w.IsIdle := by
  intro t ht
  cases t with
  | root | task => cases hroot : w.root <;> simp [isReady, hroot, Root.isOver] at isOver ⊢
  | orphan | orphanTask => simp [isReady, alone]
  | timer | appointment => cases ht

/-- **Everything has ended** once a run is over and there are no orphans. -/
theorem Accounted.allEnded (h : w.Accounted base env a) (isOver : w.root.isOver = true)
    (alone : w.orphans = []) : w.store.AllEnded base := by
  intro r hr i hlife
  obtain ⟨m, hm⟩ := List.exists_mem_of_ne_nil _ hlife
  have hlt : r < w.store.runs := by
    by_contra hge
    rw [Store.marks, h.tidy.fresh r (by omega)] at hm
    cases hm
  have hroot : w.root.runs = [] := by
    cases hr : w.root <;> simp [hr, Root.isOver, Root.runs] at isOver ⊢
  obtain ⟨ch, hch, hlive⟩ := h.left.settled r ⟨hr, hlt, by rw [hroot]; simp⟩ (by rw [alone]; simp)
  rw [Chronicle.lifeOf_eq hch] at hlife ⊢
  cases hst : ch.stages[i]? with
  | none => rw [hst] at hlife; exact absurd rfl hlife
  | some st =>
      have hdead : st.isLive = false := by
        by_contra hl
        have := hlive i st hst (by simpa using hl)
        rw [alone] at this
        cases this
      cases hs : ch.spawns <;> cases st <;> simp_all [Stage.life, Stage.isLive, Mark.isLast]

/-- Giving a run up starts nothing, takes no time, and leaves its own runner without code. -/
lemma Accounted.abandon_frees (h : w.Accounted base env a) (hroot : w.root ≠ .dropped) {r : Nat}
    (hr : r ∈ a.run? base) :
    Closes r w.store w.abandon.store ∧
      (w.abandon.orphans = [] ∨ r < w.abandon.store.runs ∧ r ∉ heldBy w.abandon.orphans) := by
  have halone := h.alone hroot
  cases hp : w.root with
  | unstarted | ended =>
      simp only [World.abandon, hp]
      exact ⟨.of_notes rfl, .inl halone⟩
  | dropped => exact absurd hp hroot
  | running p =>
      obtain ⟨rest, nodup, bound, hrun⟩ := h.of_running hp
      have hr' : p.run? = some r := hrun.trans hr
      have hmem : r ∈ p.runs := by
        cases p <;> simp_all [Proc.run?, Proc.runs]
      simp only [World.abandon, hp, halone, List.nil_append]
      refine ⟨p.drop_closes w.store r, .inr ⟨?_, rest.not_held nodup hr'⟩⟩
      rw [(Proc.drop_drops rest nodup).runs]
      exact (bound r hmem).2

lemma Accounted.abandon_clock (h : w.Accounted base env a) :
    w.abandon.store.clock = w.store.clock := by
  cases hp : w.root with
  | unstarted | ended | dropped => simp only [World.abandon, hp]
  | running p =>
      obtain ⟨rest, nodup, -⟩ := h.of_running hp
      simp only [World.abandon, hp]
      exact (Proc.drop_drops rest nodup).clock

/-- **No orphan work.**  Take any world that turns lead to from an opening world, whenever time goes
on.  If the run has returned or panicked, it has left no task, and all that it had spawned or
started at any depth has ended.

If the run is given up there, then, whatever steps follow: its own runner starts and spawns no
further child; as long as any task is left no time passes; and as soon as no task can go on none is
left, all that was spawned or started at any depth has ended exactly once, and nothing goes on after
that, however time moves.  It comes to that without time passing when the orphans are dropped. -/
theorem no_orphan_work {w₀ w : World} {env : Env} {a : Action} (opens : w₀.Opens env a)
    {acts : List Act} (drifts : Drifts w₀ acts w) :
    (∀ e, w.root = .ended e → w.orphans = [] ∧ w.store.AllEnded w₀.store.runs) ∧
      (∀ v, Reachable w.abandon v →
        (∀ r ∈ a.run? w₀.store.runs,
          (v.store.marks r).filterMap Mark.spawned? = (w.store.marks r).filterMap Mark.spawned? ∧
          (v.store.marks r).filterMap Mark.started? = (w.store.marks r).filterMap Mark.started?) ∧
        (v.orphans = [] ∨ v.store.clock = w.store.clock) ∧
        (v.IsIdle → v.root.isOver = true ∧ v.orphans = [] ∧ v.store.AllEnded w₀.store.runs ∧
          ∀ u, Reachable v u → u.IsIdle ∧ u.store.log = v.store.log ∧
            u.store.calls = v.store.calls ∧ u.store.states = v.store.states ∧
            ∀ r, u.store.marks r = v.store.marks r)) ∧
      ∃ v, Reachable w.abandon v ∧ v.IsIdle ∧ v.store.clock = w.store.clock := by
  have hacc := drifts.leads.accounted opens
  have hroot : w.root ≠ .dropped := drifts.root_ne_dropped (by rw [opens.root]; simp)
  have hacc' := hacc.abandon
  have hover' := abandon_isOver w
  refine ⟨fun e he => ?_, fun v hv => ⟨fun r hr => ?_, ?_, fun hidle => ?_⟩, ?_⟩
  · have halone := hacc.alone hroot
    exact ⟨halone, hacc.allEnded (by rw [he]; rfl) halone⟩
  · obtain ⟨hcloses, hfree⟩ := hacc.abandon_frees hroot hr
    have hlater : Closes r w.abandon.store v.store := by
      rcases hfree with halone | ⟨hlt, hfree⟩
      · exact .of_notes ((hv.still hover' halone).2.2.2 r)
      · exact (hv.closes hacc' hover' hlt hfree).1
    exact ⟨(hcloses.trans hlater).spawned, (hcloses.trans hlater).started⟩
  · by_cases halone : v.orphans = []
    · exact .inl halone
    · exact .inr ((hv.clock_eq hacc' hover' halone).trans hacc.abandon_clock)
  · have hover : v.root.isOver = true := by rw [hv.root_eq hover']; exact hover'
    have halone := hidle.orphans_nil
    refine ⟨hover, halone, (hv.accounted hacc').allEnded hover halone, fun u hu => ?_⟩
    obtain ⟨hlog, hcalls, hstates, hnotes⟩ := hu.still hover halone
    exact ⟨isIdle_of_alone (by rw [hu.root_eq hover]; exact hover) (hu.orphans_nil hover halone),
      hlog, hcalls, hstates, fun r => marks_congr (hnotes r)⟩
  · obtain ⟨v, hv, halone, hclock⟩ := hacc'.drains hover'
    exact ⟨v, hv, isIdle_of_alone (by rw [hv.root_eq hover']; exact hover') halone,
      hclock.trans hacc.abandon_clock⟩

end World

/-- A leaf two levels down that waits for a while. -/
def Action.deepSleep : Action :=
  .async [.async [.sleeping 5]]

/-- When the leaf has slept, the run returns with nothing left.  When the run is given up instead
while the leaf sleeps, the task above it is an orphan, and the leaf is one when that was dropped. -/
theorem World.no_orphan_work_deepSleep :
    let w := (((opening ⟨default, 0⟩ .deepSleep).take .root).take (.task 0 [])).take (.task 0 [0])
    let u := (((w.advance 5).take (.task 0 [0])).take (.task 0 [])).take .root
    let v := (w.abandon.take (.orphan 0)).take (.orphan 0)
    (u.root = .ended .done ∧ u.orphans = [] ∧ u.store.AllEnded 0) ∧
      w.abandon.orphans.length = 1 ∧
      (v.store.marks 0).filterMap Mark.spawned? = (w.store.marks 0).filterMap Mark.spawned? ∧
      (v.orphans = [] ∧ v.store.AllEnded 0 ∧
        ∀ x, Reachable v x → x.store.states = v.store.states) ∧
      ∃ x, Reachable w.abandon x ∧ x.IsIdle ∧ x.store.clock = w.store.clock := by
  intro w u v
  have opens := opening_opens ⟨default, 0⟩ .deepSleep
  have drifts : Drifts (opening ⟨default, 0⟩ .deepSleep) _ w :=
    .turn (.turn (.turn .refl .root rfl) (.task 0 []) rfl) (.task 0 [0]) rfl
  have ended : Drifts (opening ⟨default, 0⟩ .deepSleep) _ u :=
    .turn (.turn (.turn (.pass drifts (Nat.zero_le 5)) (.task 0 [0]) rfl) (.task 0 []) rfl)
      .root rfl
  have dropped : Reachable w.abandon v :=
    .step (.step .refl (.turn (.orphan 0) rfl)) (.turn (.orphan 0) rfl)
  obtain ⟨returned, -, -⟩ := no_orphan_work opens ended
  obtain ⟨-, left, drains⟩ := no_orphan_work opens drifts
  obtain ⟨same, -, still⟩ := left v dropped
  obtain ⟨-, alone, allEnded, after⟩ := still (isIdle_of_alone rfl rfl)
  exact ⟨⟨rfl, returned _ rfl⟩, rfl, (same 0 rfl).1,
    ⟨alone, allEnded, fun x hx => (after x hx).2.2.2.1⟩, drains⟩

end Workflow
