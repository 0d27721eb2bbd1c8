import Mathlib.Algebra.GroupWithZero.Nat
import Mathlib.Data.List.Forall2
import Mathlib.Order.Lattice.Nat

/-!
# Timetables

When things of fixed durations start and end if they are admitted in order and no more than `n` of
them go on at once: each starts as soon as the one before it has started and there is a vacancy.
`IsTimetable` says so of a list of times, and `timetable` is such a list.

**Times.**  `IsTimetable.room` and `IsTimetable.start_le` bound a start from below and from above by
the number of those that have not ended; `finish` is when all have ended.

**Comparison.**  `timetable_le`: with more slots nothing starts or ends later.
`finish_timetable_one` and `finish_timetable_of_le`: with one slot the durations add up, and with as
many slots as there are things the longest of them counts.
-/

namespace Workflow

/-- The time from a start to an end. -/
structure Span where
  start : Nat
  stop : Nat

/-- Nothing about the first is later than about the second. -/
def Span.NoLater (x y : Span) : Prop :=
  x.start ≤ y.start ∧ x.stop ≤ y.stop

/-- How many of those with the given ends have not ended at a time. -/
def unendedAt (t : Nat) (stops : List Nat) : Nat :=
  stops.countP (t < ·)

/-- The earliest time at which fewer than `n` of those with the given ends have not ended. -/
noncomputable def vacancy (n : Nat) (stops : List Nat) : Nat :=
  sInf {t | unendedAt t stops < n}

/-- The ends of the first `k` of a list. -/
def stopsBefore (plan : List Span) (k : Nat) : List Nat :=
  (plan.take k).map Span.stop

/-- The times of things of the given durations that are admitted in order from the time `t₀` on,
each as soon as fewer than `n` of those before it have not ended. -/
structure IsTimetable (n t₀ : Nat) (ds : List Nat) (plan : List Span) : Prop where
  length : plan.length = ds.length
  stop : ∀ (k : Nat) x d, plan[k]? = some x → ds[k]? = some d → x.stop = x.start + d
  first : ∀ x, plan[0]? = some x → x.start = t₀
  next : ∀ (k : Nat) y x, plan[k]? = some y → plan[k + 1]? = some x →
    x.start = max y.start (vacancy n (stopsBefore plan (k + 1)))

/-- The time at which all have ended that began at `t₀`. -/
def finish (t₀ : Nat) (plan : List Span) : Nat :=
  (plan.map Span.stop).foldl max t₀

/-! ## Vacancies -/

section

variable {m n t t' : Nat} {stops stops' : List Nat}

lemma unendedAt_mono (h : t ≤ t') : unendedAt t' stops ≤ unendedAt t stops :=
  List.countP_mono_left fun stop _ hstop => by
    simp only [decide_eq_true_eq] at hstop ⊢
    omega

lemma unendedAt_le_of_forall₂ (h : List.Forall₂ (· ≤ ·) stops' stops) :
    unendedAt t stops' ≤ unendedAt t stops := by
  induction h with
  | nil => exact le_refl _
  | @cons x y _ _ hxy _ ih =>
      unfold unendedAt at ih ⊢
      simp only [List.countP_cons, decide_eq_true_eq]
      split_ifs <;> omega

lemma exists_unendedAt_eq_zero (stops : List Nat) : ∃ t, unendedAt t stops = 0 := by
  induction stops with
  | nil => exact ⟨0, rfl⟩
  | cons stop stops ih =>
      obtain ⟨t, ht⟩ := ih
      refine ⟨max stop t, ?_⟩
      have hle : unendedAt (max stop t) stops ≤ unendedAt t stops :=
        unendedAt_mono (Nat.le_max_right ..)
      unfold unendedAt at ht hle ⊢
      rw [List.countP_cons, if_neg (by simp)]
      omega

lemma unendedAt_vacancy (pos : 0 < n) (stops : List Nat) :
    unendedAt (vacancy n stops) stops < n := by
  obtain ⟨t, ht⟩ := exists_unendedAt_eq_zero stops
  have hroom : unendedAt t stops < n := by rw [ht]; exact pos
  exact Nat.sInf_mem (s := {t | unendedAt t stops < n}) ⟨t, hroom⟩

lemma vacancy_le (h : unendedAt t stops < n) : vacancy n stops ≤ t :=
  Nat.sInf_le h

/-- With more slots and earlier ends there is a vacancy earlier. -/
lemma vacancy_le_vacancy (pos : 0 < m) (le : m ≤ n) (h : List.Forall₂ (· ≤ ·) stops' stops) :
    vacancy n stops' ≤ vacancy m stops :=
  vacancy_le ((unendedAt_le_of_forall₂ h).trans_lt
    ((unendedAt_vacancy pos stops).trans_le le))

/-- As long as there are fewer than `n` there is always a vacancy. -/
lemma vacancy_eq_zero (h : stops.length < n) : vacancy n stops = 0 :=
  Nat.le_zero.mp (vacancy_le (List.countP_le_length.trans_lt h))

/-- With one slot there is no vacancy before all have ended. -/
lemma le_vacancy_one {stop : Nat} (h : stop ∈ stops) : stop ≤ vacancy 1 stops := by
  have hzero := Nat.lt_one_iff.mp (unendedAt_vacancy Nat.one_pos stops)
  have hnot := List.countP_eq_zero.mp hzero stop h
  simpa using hnot

lemma vacancy_one_concat {u : Nat} (h : ∀ stop ∈ stops, stop ≤ u) :
    vacancy 1 (stops ++ [u]) = u := by
  refine le_antisymm (vacancy_le ?_) (le_vacancy_one (by simp))
  refine Nat.lt_one_iff.mpr (List.countP_eq_zero.mpr fun stop hstop => ?_)
  have hle : stop ≤ u := by
    rcases List.mem_append.mp hstop with hstop | hstop
    · exact h stop hstop
    · exact (List.mem_singleton.mp hstop).le
  simpa using hle

end

/-! ## Times of a timetable -/

namespace IsTimetable

variable {n t₀ t k : Nat} {ds : List Nat} {plan : List Span} {x y : Span}

lemma start_mono (h : IsTimetable n t₀ ds plan) {i j : Nat} (le : i ≤ j) (hy : plan[i]? = some y)
    (hx : plan[j]? = some x) : y.start ≤ x.start := by
  induction le generalizing x with
  | refl => rw [hy] at hx; cases hx; exact le_refl _
  | @step j le ih =>
      have hlt : j < plan.length := by
        have := (List.getElem?_eq_some_iff.mp hx).1
        omega
      have hj := List.getElem?_eq_getElem hlt
      exact (ih hj).trans (h.next j _ x hj hx ▸ Nat.le_max_left ..)

/-- When one starts, fewer than `n` of those before it have not ended. -/
lemma room (h : IsTimetable n t₀ ds plan) (pos : 0 < n) (hx : plan[k]? = some x) :
    unendedAt x.start (stopsBefore plan k) < n := by
  cases k with
  | zero => simpa [stopsBefore, unendedAt] using pos
  | succ k =>
      have hlt : k < plan.length := by
        have := (List.getElem?_eq_some_iff.mp hx).1
        omega
      rw [h.next k _ x (List.getElem?_eq_getElem hlt) hx]
      exact (unendedAt_mono (Nat.le_max_right ..)).trans_lt (unendedAt_vacancy pos _)

/-- One has started by the time at which the one before it has started and fewer than `n` of those
before it have not ended. -/
lemma start_le (h : IsTimetable n t₀ ds plan) (hx : plan[k]? = some x) (begun : t₀ ≤ t)
    (before : ∀ j y, k = j + 1 → plan[j]? = some y → y.start ≤ t)
    (room : unendedAt t (stopsBefore plan k) < n) : x.start ≤ t := by
  cases k with
  | zero => rwa [h.first x hx]
  | succ k =>
      have hlt : k < plan.length := by
        have := (List.getElem?_eq_some_iff.mp hx).1
        omega
      have hy := List.getElem?_eq_getElem hlt
      rw [h.next k _ x hy hx]
      exact Nat.max_le.mpr ⟨before k _ rfl hy, vacancy_le room⟩

end IsTimetable

/-! ## Making a timetable -/

/-- The times of things of the given durations when the one before them starts at `t` and those
before them have the given ends. -/
noncomputable def timetable (n : Nat) : Nat → List Nat → List Nat → List Span
  | _, _, [] => []
  | t, stops, d :: ds =>
      let start := max t (vacancy n stops)
      ⟨start, start + d⟩ :: timetable n start (stops ++ [start + d]) ds

section

variable {m n t t' t₀ : Nat} {ds : List Nat} {stops stops' : List Nat}

lemma length_timetable (n t : Nat) (stops ds : List Nat) :
    (timetable n t stops ds).length = ds.length := by
  induction ds generalizing t stops with
  | nil => rfl
  | cons d ds ih => exact congrArg (· + 1) (ih _ _)

lemma stop_timetable {k d : Nat} {x : Span} (hx : (timetable n t stops ds)[k]? = some x)
    (hd : ds[k]? = some d) : x.stop = x.start + d := by
  induction ds generalizing t stops k with
  | nil => cases hx
  | cons d' ds ih =>
      cases k with
      | zero => cases hx; cases hd; rfl
      | succ k => exact ih hx hd

lemma next_timetable {k : Nat} {x y : Span} (hy : (timetable n t stops ds)[k]? = some y)
    (hx : (timetable n t stops ds)[k + 1]? = some x) :
    x.start = max y.start
      (vacancy n (stops ++ stopsBefore (timetable n t stops ds) (k + 1))) := by
  induction ds generalizing t stops k with
  | nil => cases hx
  | cons d ds ih =>
      cases k with
      | zero =>
          cases hy
          cases ds with
          | nil => cases hx
          | cons d' ds => cases hx; rfl
      | succ k =>
          have htail := ih hy hx
          rw [List.append_assoc] at htail
          exact htail

/-- **What is made is a timetable.** -/
theorem isTimetable_timetable (pos : 0 < n) (t₀ : Nat) (ds : List Nat) :
    IsTimetable n t₀ ds (timetable n t₀ [] ds) where
  length := length_timetable ..
  stop _ _ _ := stop_timetable
  first x hx := by
    cases ds with
    | nil => cases hx
    | cons d ds =>
        cases hx
        exact (congrArg (max t₀) (vacancy_eq_zero pos)).trans (Nat.max_eq_left (Nat.zero_le _))
  next _ _ _ hy hx := next_timetable hy hx

/-! ## Comparison -/

/-- **With more slots nothing starts or ends later.** -/
theorem timetable_le (pos : 0 < m) (le : m ≤ n) (start : t' ≤ t)
    (h : List.Forall₂ (· ≤ ·) stops' stops) :
    List.Forall₂ Span.NoLater (timetable n t' stops' ds) (timetable m t stops ds) := by
  induction ds generalizing t t' stops stops' with
  | nil => exact .nil
  | cons d ds ih =>
      have hstart : max t' (vacancy n stops') ≤ max t (vacancy m stops) :=
        max_le_max start (vacancy_le_vacancy pos le h)
      have hstop := Nat.add_le_add_right hstart d
      exact .cons ⟨hstart, hstop⟩ (ih hstart (List.rel_append h (.cons hstop .nil)))

lemma finish_cons (t₀ : Nat) (x : Span) (plan : List Span) :
    finish t₀ (x :: plan) = finish (max t₀ x.stop) plan :=
  rfl

lemma finish_le_iff {plan : List Span} :
    finish t₀ plan ≤ t ↔ t₀ ≤ t ∧ ∀ x ∈ plan, x.stop ≤ t := by
  induction plan generalizing t₀ with
  | nil => simp [finish]
  | cons x plan ih =>
      rw [finish_cons, ih, Nat.max_le, List.forall_mem_cons, and_assoc]

lemma finish_le {plan plan' : List Span} (start : t' ≤ t)
    (h : List.Forall₂ Span.NoLater plan' plan) : finish t' plan' ≤ finish t plan := by
  induction h generalizing t t' with
  | nil => exact start
  | cons hx _ ih => exact ih (max_le_max start hx.2)

/-- With one slot the durations add up. -/
lemma finish_timetable_one (t : Nat) (stops ds : List Nat) :
    finish (max t (vacancy 1 stops)) (timetable 1 t stops ds)
      = max t (vacancy 1 stops) + ds.sum := by
  induction ds generalizing t stops with
  | nil => rfl
  | cons d ds ih =>
      set u := max t (vacancy 1 stops) with hu
      have hmax : max u (vacancy 1 (stops ++ [u + d])) = u + d := by
        rw [vacancy_one_concat fun stop hstop => ?_, Nat.max_eq_right (Nat.le_add_right u d)]
        exact (le_vacancy_one hstop).trans ((Nat.le_max_right ..).trans (Nat.le_add_right u d))
      have htail := ih u (stops ++ [u + d])
      rw [hmax] at htail
      have hcons : finish u (timetable 1 t stops (d :: ds))
          = finish (max u (u + d)) (timetable 1 u (stops ++ [u + d]) ds) := rfl
      rw [hcons, Nat.max_eq_right (Nat.le_add_right u d), htail, List.sum_cons, Nat.add_assoc]

/-- With as many slots as there are things the longest of them counts. -/
lemma finish_timetable_of_le (a : Nat) (enough : stops.length + ds.length ≤ n) :
    finish (t + a) (timetable n t stops ds) = t + ds.foldl max a := by
  induction ds generalizing stops a with
  | nil => rfl
  | cons d ds ih =>
      rw [List.length_cons] at enough
      have hstart : max t (vacancy n stops) = t := by
        rw [vacancy_eq_zero (by omega), Nat.max_eq_left (Nat.zero_le t)]
      have hcons : finish (t + a) (timetable n t stops (d :: ds))
          = finish (max (t + a) (t + d)) (timetable n t (stops ++ [t + d]) ds) := by
        rw [timetable, hstart]
        rfl
      have htail : (stops ++ [t + d]).length + ds.length ≤ n := by
        rw [List.length_append, List.length_singleton]
        omega
      rw [hcons, Nat.add_max_add_left, ih _ htail]
      rfl

end

end Workflow
