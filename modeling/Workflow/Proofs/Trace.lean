import Mathlib.Data.List.Nodup
import Mathlib.Data.Nat.Basic
import Mathlib.Order.Basic
import Workflow.World
import Workflow.Proofs.Ledger

/-!
# What the trace says about one run

Every run of a runner has a number, and its part of the trace is the list of the notes under that
number.  This file reads the trace by runs, in two groups.

**Reading.**  `Store.notes` and `Store.marks` are the part of one run; a store is `Tidy` when no
number that has not been given out occurs and tasks can be spawned.

**Writing.**  Noting a mark makes the part of its own run one longer and leaves all other parts
alone (`notes_mark`, `notes_mark_of_ne`).  Everything else that is done to a store — effects of
bodies, guards, contexts, handles of tasks — leaves the parts of all runs alone: `Store.SameRuns`.
-/

namespace Workflow

namespace Store

/-- The notes of a run, in the order they were made. -/
def notes (s : Store) (run : Nat) : List Note :=
  s.trace.toList.filter fun n => n.run == some run

/-- The marks of a run, in the order they were noted. -/
def marks (s : Store) (run : Nat) : List Mark :=
  (s.notes run).map Note.mark

/-- Numbers not yet given to a run occur nowhere, and whoever asks for a task gets one. -/
structure Tidy (s : Store) : Prop where
  fresh : ∀ r, s.runs ≤ r → s.notes r = []
  isOpen : s.closed = false

/-- The two stores agree in all that concerns runs, and in the time. -/
structure SameRuns (s s' : Store) : Prop where
  clock : s'.clock = s.clock
  runs : s'.runs = s.runs
  closed : s'.closed = s.closed
  notes : ∀ r, s'.notes r = s.notes r

/-! ## Writing -/

lemma notes_note (s : Store) (x : Option Nat) (m : Mark) (r : Nat) :
    (s.note x m).notes r = s.notes r ++ if x = some r then [⟨s.clock, x, m⟩] else [] := by
  by_cases h : x = some r <;> simp [note, notes, h]

lemma notes_mark (s : Store) (r : Nat) (m : Mark) :
    (s.mark r m).notes r = s.notes r ++ [⟨s.clock, some r, m⟩] := by
  simp [mark, notes_note]

lemma notes_mark_of_ne (s : Store) {r r' : Nat} (m : Mark) (h : r' ≠ r) :
    (s.mark r m).notes r' = s.notes r' := by
  simp [mark, notes_note, Ne.symm h]

@[simp] lemma marks_mark (s : Store) (r : Nat) (m : Mark) :
    (s.mark r m).marks r = s.marks r ++ [m] := by
  simp [marks, notes_mark]

@[simp] lemma runs_mark (s : Store) (r : Nat) (m : Mark) : (s.mark r m).runs = s.runs := rfl

lemma report_eq_mark (s : Store) (r : Nat) (e : Event) : s.report r e = s.mark r (.event e) := rfl

/-- The parts of runs depend on the trace alone. -/
lemma notes_congr {s s' : Store} (h : s'.trace = s.trace) (r : Nat) : s'.notes r = s.notes r := by
  simp only [notes, h]

lemma marks_congr {s s' : Store} {r : Nat} (h : s'.notes r = s.notes r) :
    s'.marks r = s.marks r := by
  rw [marks, marks, h]

/-! ## What does not concern runs -/

namespace SameRuns

variable {s s' s'' : Store}

lemma refl (s : Store) : s.SameRuns s := ⟨rfl, rfl, rfl, fun _ => rfl⟩

lemma trans (h : s.SameRuns s') (h' : s'.SameRuns s'') : s.SameRuns s'' :=
  ⟨h'.clock.trans h.clock, h'.runs.trans h.runs, h'.closed.trans h.closed,
    fun r => (h'.notes r).trans (h.notes r)⟩

lemma of_trace (clock : s'.clock = s.clock) (runs : s'.runs = s.runs)
    (closed : s'.closed = s.closed) (trace : s'.trace = s.trace) : s.SameRuns s' :=
  ⟨clock, runs, closed, notes_congr trace⟩

lemma marks (h : s.SameRuns s') (r : Nat) : s'.marks r = s.marks r :=
  marks_congr (h.notes r)

lemma tidy (h : s.SameRuns s') (t : s.Tidy) : s'.Tidy :=
  ⟨fun r hr => by rw [h.notes]; exact t.fresh r (by rw [← h.runs]; exact hr),
    h.closed.trans t.isOpen⟩

end SameRuns

lemma sameRuns_withContexts (s : Store) {c : Contexts} (h : c.clock = s.contexts.clock) :
    s.SameRuns (s.withContexts c) :=
  .of_trace h rfl rfl rfl

lemma sameRuns_newState (s : Store) (m : RunState) : s.SameRuns (s.newState m).2 :=
  .of_trace rfl rfl rfl rfl

lemma sameRuns_newTask (s : Store) (c : Context) : s.SameRuns (s.newTask c).2 :=
  .of_trace rfl rfl rfl rfl

lemma sameRuns_endTask (s : Store) (task : Nat) : s.SameRuns (s.endTask task) :=
  s.sameRuns_withContexts (Contexts.clock_release _ _)

lemma sameRuns_cancel (s : Store) (c : Context) : s.SameRuns (s.cancel c) :=
  .of_trace rfl rfl rfl rfl

lemma sameRuns_enter (s : Store) (env : Env) (under : Under) :
    s.SameRuns (s.enter env under).2.2 := by
  cases under <;> exact .of_trace rfl rfl rfl rfl

lemma sameRuns_leave (s : Store) (handle : Option Nat) : s.SameRuns (s.leave handle) := by
  cases handle with
  | none => exact .refl s
  | some handle => exact s.sameRuns_withContexts (Contexts.clock_release _ _)

lemma sameRuns_raiseGuard (s : Store) (g : Guard) : s.SameRuns (s.raiseGuard g) := by
  cases g <;> exact .of_trace rfl rfl rfl rfl

lemma sameRuns_endGuard (s : Store) (g : Guard) : s.SameRuns (s.endGuard g) := by
  cases g <;> exact .of_trace rfl rfl rfl rfl

lemma sameRuns_endGuards (s : Store) (gs : List Guard) : s.SameRuns (s.endGuards gs) := by
  induction gs generalizing s with
  | nil => exact .refl s
  | cons g gs ih => exact (s.sameRuns_endGuard g).trans (ih _)

/-- Events of cells belong to no run. -/
lemma sameRuns_settle (s : Store) (cell : Nat) (how : Settlement Datum) :
    s.SameRuns (s.settle cell how).2 := by
  unfold settle
  split
  · exact .refl s
  · split
    · dsimp only
      split
      · exact ⟨rfl, rfl, rfl, fun r => by simp [note, notes]⟩
      · exact .of_trace rfl rfl rfl rfl
    · exact .refl s

lemma sameRuns_disown (s : Store) (cell : Nat) : s.SameRuns (s.disown cell) :=
  .of_trace rfl rfl rfl rfl

/-- No effect of a body concerns runs. -/
lemma sameRuns_perform? {s s' : Store} {env : Env} {e : Effect} {reply : e.Reply}
    (h : s.perform? env e = some (reply, s')) : s.SameRuns s' := by
  cases e <;> simp only [perform?, Option.some.injEq, Prod.mk.injEq] at h
  case clock | deadline | isCancelled => obtain ⟨-, rfl⟩ := h; exact .refl s
  case cancel => obtain ⟨-, rfl⟩ := h; exact s.sameRuns_cancel _
  case log | record | state => obtain ⟨-, rfl⟩ := h; exact .of_trace rfl rfl rfl rfl
  case settle cell how =>
    have := s.sameRuns_settle cell how
    rwa [h] at this
  case await =>
    obtain ⟨v, -, h⟩ := Option.map_eq_some_iff.mp h
    cases h; exact .refl s
  all_goals
    split_ifs at h <;> cases h <;> exact .refl s

lemma sameRuns_suffer (s : Store) (d : Deed) : s.SameRuns (s.suffer d) := by
  cases d with
  | cancel c => exact s.sameRuns_cancel c
  | settle cell how => exact s.sameRuns_settle cell how
  | disown cell => exact s.sameRuns_disown cell

end Store

end Workflow
