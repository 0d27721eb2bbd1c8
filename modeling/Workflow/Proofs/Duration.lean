import Workflow.Proofs.Occupancy

/-!
# Actions that take a fixed time

An action lasts `d` if it ends `d` after its start, whatever else goes on meanwhile.  What that can
be is a matter of the store: so nothing is assumed of the stores in which such an action goes on,
but that they show the time.

**Processes.**  `Proc.EndsAt` says of the rest of an action that it ends at a given time, and
`Action.Lasts` of the action that it ends so long after its start.  It does not matter how it spends
the time: it may wait many times and have tasks of its own, as long as none of this makes a
difference to when it ends.

**Bodies.**  A body that waits for a while, and ends in the same turn in which it goes on, takes
that time (`Body.takes_sleep`).

**Ends.**  Such a process takes finitely many turns at any one time (`Proc.EndsAt.acc`), and so do
many of them side by side (`acc_oneStep`).
-/

namespace Workflow

open Store

/-! ## Processes -/

/-- The process ends at the time `T`, if it is `t` now.  Whatever the store is, as long as it shows
the time and lets tasks be spawned: when the process or one of its tasks goes on, it either ends and
it is that time, or stays one that ends then; and when nothing of it can go on, it waits for a time,
and stays so until the next one that it waits for. -/
inductive Proc.EndsAt (T : Nat) : Nat → Proc → Prop where
  | intro {t : Nat} {p : Proc}
      (ends : ∀ (s : Store) e, s.clock = t → s.closed = false → p.isReady s = true →
        (p.resume s).2 = .ended e → t = T)
      (goesOn : ∀ (s : Store) q, s.clock = t → s.closed = false → p.isReady s = true →
        (p.resume s).2 = .paused q → EndsAt T t q)
      (below : ∀ (s : Store) index path, s.clock = t → s.closed = false →
        p.isReadyAt s index path = true → EndsAt T t (p.resumeAt s index path).2)
      (waits : ∀ s : Store, s.clock = t → s.closed = false → p.IsIdle s →
        ∃ time ∈ p.wakeTimes, t < time)
      (later : ∀ (s : Store) t', s.clock = t → s.closed = false → p.IsIdle s → t < t' →
        (∀ time ∈ p.wakeTimes, t < time → t' ≤ time) → EndsAt T t' p) : EndsAt T t p

/-- Code that has stopped at the time `t` ends at the time `T`. -/
def Progress.EndsAt (T t : Nat) : Progress → Prop
  | .paused p => p.EndsAt T t
  | .ended _ => t = T

/-- The action ends `d` after its start, under any surroundings and whatever else goes on. -/
def Action.Lasts (d : Nat) (a : Action) : Prop :=
  ∀ (env : Env) (s : Store), s.closed = false →
    (a.start env s).2.EndsAt (s.clock + d) s.clock

lemma Proc.EndsAt.resume {T : Nat} {s : Store} {p : Proc} (h : p.EndsAt T s.clock)
    (isOpen : s.closed = false) (ready : p.isReady s = true) :
    (p.resume s).2.EndsAt T s.clock := by
  cases h with
  | intro ends goesOn =>
      cases hout : (p.resume s).2 with
      | paused q => exact goesOn s q rfl isOpen ready hout
      | ended e => exact ends s e rfl isOpen ready hout

lemma Proc.EndsAt.resumeAt {T : Nat} {s : Store} {p : Proc} (h : p.EndsAt T s.clock)
    (isOpen : s.closed = false) {index : Nat} {path : List Nat}
    (ready : p.isReadyAt s index path = true) : (p.resumeAt s index path).2.EndsAt T s.clock := by
  cases h with
  | intro _ _ below => exact below s index path rfl isOpen ready

lemma Proc.EndsAt.waits {T : Nat} {s : Store} {p : Proc} (h : p.EndsAt T s.clock)
    (isOpen : s.closed = false) (idle : p.IsIdle s) : ∃ time ∈ p.wakeTimes, s.clock < time := by
  cases h with
  | intro _ _ _ waits => exact waits s rfl isOpen idle

lemma Proc.EndsAt.later {T t : Nat} {s : Store} {p : Proc} (h : p.EndsAt T s.clock)
    (isOpen : s.closed = false) (idle : p.IsIdle s) (lt : s.clock < t)
    (next : ∀ time ∈ p.wakeTimes, s.clock < time → t ≤ time) : p.EndsAt T t := by
  cases h with
  | intro _ _ _ _ later => exact later s t rfl isOpen idle lt next

/-- A store with nothing in it but the time. -/
def Store.at (t : Nat) : Store :=
  { contexts := { clock := t } }

/-- A process that ends at a time has not passed it. -/
lemma Proc.EndsAt.le {T t : Nat} {p : Proc} (h : p.EndsAt T t) : t ≤ T := by
  induction h with
  | @intro t p ends _ _ _ _ goesOn below later =>
      by_cases ready : p.isReady (.at t) = true
      · cases hout : (p.resume (.at t)).2 with
        | paused q => exact goesOn (.at t) q rfl rfl ready hout
        | ended e => exact (ends (.at t) e rfl rfl ready hout).le
      · by_cases task : ∃ index path, p.isReadyAt (.at t) index path = true
        · obtain ⟨index, path, htask⟩ := task
          exact below (.at t) index path rfl rfl htask
        · have idle : p.IsIdle (.at t) :=
            ⟨by simpa using ready, fun index path => by
              simpa using fun htask => task ⟨index, path, htask⟩⟩
          have hnext := later (.at t) (t + 1) rfl rfl idle (Nat.lt_succ_self t)
            fun _ _ htime => htime
          omega

/-! ## Bodies -/

/-- The body ends in the turn in which it goes on. -/
def Body.IsQuick (b : Body) : Prop :=
  ∀ env guards (s : Store), ∃ e, (b.resume env guards s).2 = .ended e

/-- The body ends `d` after its start. -/
def Body.Takes (d : Nat) (b : Body) : Prop :=
  ∀ env guards (s : Store), s.closed = false →
    (b.resume env guards s).2.EndsAt (s.clock + d) s.clock

lemma Body.isQuick_finish (e : Exit) : (Body.finish e).IsQuick := by
  intro env guards s
  exact ⟨e, by rw [Body.resume]⟩

/-- What is granted at once takes no time. -/
lemma Body.IsQuick.ask {e : Effect} {k : e.Reply → Body}
    (granted : ∀ env (s : Store), s.grants env e = true) (h : ∀ reply, (k reply).IsQuick) :
    (Body.ask e k).IsQuick := by
  intro env guards s
  obtain ⟨⟨reply, s'⟩, hreply⟩ := Option.isSome_iff_exists.mp (granted env s)
  rw [Body.resume, hreply]
  exact h reply env guards s'

/-- It takes no time. -/
lemma Body.IsQuick.takes {b : Body} (quick : b.IsQuick) : b.Takes 0 := by
  intro env guards s _
  obtain ⟨e, he⟩ := quick env guards s
  rw [he]
  exact (Nat.add_zero _).symm

/-- A leaf that waits for a time and then ends at once. -/
lemma Proc.endsAt_sleepUntil {T t : Nat} (le : t ≤ T) (env : Env) (guards : List Guard) {k : Body}
    (quick : k.IsQuick) :
    (Proc.leaf env guards (.ask (.sleepUntil T) fun _ => k)).EndsAt T t := by
  have hready : ∀ s : Store, (Proc.leaf env guards
      (.ask (.sleepUntil T) fun _ => k)).isReady s = decide (T ≤ s.clock) := by
    intro s
    simp only [Proc.isReady, Body.isReady, grants, perform?]
    by_cases h : T ≤ s.clock <;> simp [h]
  have hwakes : T ∈ (Proc.leaf env guards (.ask (.sleepUntil T) fun _ => k)).wakeTimes := by
    simp [Proc.wakeTimes, wakeTime?]
  induction hn : T - t using Nat.strongRecOn generalizing t with
  | ind n ih =>
    refine .intro ?_ ?_ ?_ ?_ ?_
    · rintro s e rfl _ ready _
      rw [hready] at ready
      exact le_antisymm le (of_decide_eq_true ready)
    · rintro s q rfl _ ready hq
      rw [hready] at ready
      obtain ⟨e, he⟩ := quick env guards s
      rw [Proc.resume, Body.resume, perform?, if_pos (of_decide_eq_true ready), he] at hq
      cases hq
    · rintro s index path rfl _ ready
      cases ready
    · rintro s rfl _ ⟨code, -⟩
      rw [hready] at code
      exact ⟨T, hwakes, Nat.lt_of_not_le (of_decide_eq_false code)⟩
    · rintro s t' rfl _ ⟨code, -⟩ htime hnext
      rw [hready] at code
      have hle : t' ≤ T := hnext T hwakes (Nat.lt_of_not_le (of_decide_eq_false code))
      exact ih (T - t') (by omega) hle rfl

/-- **A body that waits for a while takes that time.** -/
lemma Body.takes_sleep (ms : Nat) {k : Body} (quick : k.IsQuick) : (Body.sleep ms k).Takes ms := by
  intro env guards s _
  rw [Body.sleep, Body.resume, perform?]
  dsimp only
  rw [Body.resume, perform?]
  by_cases h : s.clock + ms ≤ s.clock
  · rw [if_pos h]
    obtain ⟨e, he⟩ := quick env guards s
    dsimp only
    rw [he]
    exact le_antisymm (Nat.le_add_right ..) h
  · rw [if_neg h]
    exact Proc.endsAt_sleepUntil (Nat.le_add_right ..) env guards quick

lemma Body.Takes.guard {d : Nat} {b : Body} (h : b.Takes d) (g : Guard) :
    (Body.guard g b).Takes d := by
  intro env guards s isOpen
  rw [Body.resume]
  have hsame := s.sameRuns_raiseGuard g
  have hends := h env (guards ++ [g]) (s.raiseGuard g) (hsame.closed.trans isOpen)
  rwa [hsame.clock] at hends

lemma Body.Takes.lasts {d : Nat} {b : Body} (h : b.Takes d) (kind : LeafKind) (name : String) :
    (Action.leaf kind name b).Lasts d := by
  intro env s isOpen
  obtain ⟨own, s', -, hsame, -, heq⟩ := Action.start_leaf env s kind name b
  rw [heq]
  have hends := h own [] s' (hsame.closed.trans isOpen)
  rwa [hsame.clock] at hends

/-- A recording action that pays no heed to cancellation lasts as long as its delay, if it has
one. -/
theorem Recording.lasts (r : Recording) (heedless : r.honorsCancel = false) :
    r.action.Lasts (r.delay.getD 0) := by
  have quick : r.work.IsQuick := by
    simp only [Recording.work, heedless, Bool.false_eq_true, if_false]
    exact Body.IsQuick.ask (fun _ _ => rfl) fun _ => Body.isQuick_finish _
  refine Body.Takes.lasts (Body.Takes.guard ?_ .inFlight) .readyMade r.name
  cases r.delay with
  | none => exact quick.takes
  | some ms => exact Body.takes_sleep ms quick

/-! ## Turns -/

/-- The child has a turn at the time `t`. -/
def Child.Turns (t : Nat) (after before : Child) : Prop :=
  ∃ (s : Store) (d : Dispatch) (index : Nat) (path : List Nat), s.clock = t ∧ s.closed = false ∧
    before.isReadyAt s path = true ∧ after = (before.resumeAt s d index path).2.2

/-- A child that has ended has no more turns. -/
lemma Child.acc_ended (t : Nat) (name : String) (e : Exit) :
    Acc (Child.Turns t) (.ended name e) := by
  refine ⟨_, ?_⟩
  rintro c ⟨s, d, index, path, -, -, ready, -⟩
  simp [Child.isReadyAt] at ready

/-- **A process that ends at a time has finitely many turns** before time moves. -/
theorem Proc.EndsAt.acc {T t : Nat} {p : Proc} (h : p.EndsAt T t) (task : Nat) (name : String) :
    Acc (Child.Turns t) (.running task name p) := by
  induction h with
  | @intro t p _ _ _ _ _ goesOn below _ =>
      refine ⟨_, ?_⟩
      rintro c ⟨s, d, index, path, hs, isOpen, ready, rfl⟩
      cases path with
      | nil =>
          rw [Child.resumeAt_running]
          have hready : p.isReady s = true := by simpa [Child.isReadyAt] using ready
          rcases hout : p.resume s with ⟨s', q | e⟩
          · exact goesOn s q hs isOpen hready (by rw [hout])
          · exact Child.acc_ended t name e
      | cons i path =>
          rw [Child.resumeAt]
          exact below s i path hs isOpen (by simpa [Child.isReadyAt] using ready)

/-- So does a child that has not started. -/
lemma Action.Lasts.acc {d : Nat} {a : Action} (h : a.Lasts d) (t task : Nat) :
    Acc (Child.Turns t) (.spawned task a) := by
  refine ⟨_, ?_⟩
  rintro c ⟨s, dispatch, index, path, hs, isOpen, ready, rfl⟩
  cases path with
  | cons i path => simp [Child.isReadyAt] at ready
  | nil =>
      rw [Child.resumeAt_spawned]
      have hstart := h dispatch.env (s.mark dispatch.run (.started index a)) isOpen
      rcases hout : a.start dispatch.env (s.mark dispatch.run (.started index a)) with ⟨s', p | e⟩
      · rw [hout] at hstart
        have hends : p.EndsAt (t + d) t := hs ▸ hstart
        exact hends.acc task a.name
      · exact Child.acc_ended t a.name e

/-- One item of a list is replaced by a smaller one. -/
def OneStep {α : Type} (R : α → α → Prop) (after before : List α) : Prop :=
  ∃ (i : Nat) (x y : α), before[i]? = some x ∧ R y x ∧ after = before.set i y

lemma acc_oneStep_cons {α : Type} {R : α → α → Prop} {x : α} {l : List α} (hx : Acc R x)
    (hl : Acc (OneStep R) l) : Acc (OneStep R) (x :: l) := by
  induction hx generalizing l with
  | intro x _ ihx =>
      induction hl with
      | intro l hl ihl =>
          refine ⟨_, ?_⟩
          rintro _ ⟨i, z, y, hz, hy, rfl⟩
          cases i with
          | zero =>
              cases hz
              exact ihx y hy ⟨l, hl⟩
          | succ i => exact ihl _ ⟨i, z, y, hz, hy, rfl⟩

/-- Finitely many steps are possible if each item can take finitely many. -/
theorem acc_oneStep {α : Type} {R : α → α → Prop} {l : List α} (h : ∀ x ∈ l, Acc R x) :
    Acc (OneStep R) l := by
  induction l with
  | nil =>
      refine ⟨_, ?_⟩
      rintro _ ⟨i, x, y, hx, -⟩
      cases hx
  | cons x l ih =>
      rw [List.forall_mem_cons] at h
      exact acc_oneStep_cons h.1 (ih h.2)

end Workflow
