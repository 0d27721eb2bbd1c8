import Mathlib.Data.List.Induction
import Mathlib.Order.Bounds.Basic
import Mathlib.Order.MinMax
import Workflow.CallLog

/-!
# A log of calls counts exactly

However the steps on a log follow one another, the count is the number of visits in flight, and the
calls are those that were noted, in that order.  The greatest count is more delicate, since a visit
is counted before the greatest count is raised to it.  It is always a number that was in flight at
some moment (`Attendance.Exact.reached`), and nothing that was reached is lost: a number that it
does not show yet is on its way in a visit between its two steps (`Attendance.Exact.kept`).

`Attendance.Exact.step` is what one step keeps, and `exact_of_after?` what follows for all of them.
Whoever enters with nobody in between takes two of these steps in a row (`perform?_enter`).
-/

namespace Workflow

namespace Attendance

variable {steps earlier : List Step} {x : Step} {a b : Attendance}

/-! ## One step after another -/

lemma after?_append (steps more : List Step) :
    after? (steps ++ more) = (after? steps).bind fun a => more.foldlM perform? a := by
  rw [after?, List.foldlM_append]
  rfl

lemma after?_snoc (h : after? (steps ++ [x]) = some b) :
    ∃ a, after? steps = some a ∧ a.perform? x = some b := by
  rw [after?_append] at h
  obtain ⟨a, ha, h⟩ := Option.bind_eq_some_iff.mp h
  exact ⟨a, ha, by simpa using h⟩

/-- The steps that somebody can take. -/
lemma perform?_cases (h : a.perform? x = some b) :
    (x = .countUp ∧ b = ⟨a.log.countUp.2, a.visits ++ [.entering a.log.countUp.1]⟩) ∨
    (∃ place seen, x = .raise place ∧ a.visits[place]? = some (.entering seen) ∧
      b = ⟨a.log.raise seen, a.visits.set place .inside⟩) ∨
    (∃ place, x = .leave place ∧ a.visits[place]? = some .inside ∧
      b = ⟨a.log.leave, a.visits.set place .left⟩) ∨
    ∃ name, x = .record name ∧ b = { a with log := a.log.record name } := by
  cases x with
  | countUp => exact .inl ⟨rfl, (Option.some.inj h).symm⟩
  | raise place =>
      simp only [perform?] at h
      split at h
      · next seen hvisit => exact .inr (.inl ⟨place, seen, rfl, hvisit, (Option.some.inj h).symm⟩)
      · cases h
  | leave place =>
      simp only [perform?] at h
      split at h
      · next hvisit => exact .inr (.inr (.inl ⟨place, rfl, hvisit, (Option.some.inj h).symm⟩))
      · cases h
  | record name => exact .inr (.inr (.inr ⟨name, rfl, (Option.some.inj h).symm⟩))

/-! ## How many are in flight -/

lemma present_count (log : CallLog) (visits : List Visit) (seen : Int) :
    present ⟨log, visits ++ [.entering seen]⟩ = visits.countP Visit.isInFlight + 1 := by
  simp [present, Visit.isInFlight]

/-- Between the two steps of entering the number does not change. -/
lemma present_raise {place : Nat} {seen : Int} (h : a.visits[place]? = some (.entering seen))
    (log : CallLog) : present ⟨log, a.visits.set place .inside⟩ = a.present := by
  obtain ⟨hlt, hget⟩ := List.getElem?_eq_some_iff.mp h
  have hpos : 0 < a.visits.countP Visit.isInFlight :=
    List.countP_pos_iff.mpr ⟨_, List.getElem_mem hlt, by rw [hget]; rfl⟩
  rw [present, present, List.countP_set hlt, hget]
  simp only [Visit.isInFlight, if_true]
  omega

/-- With its guard a visit is gone. -/
lemma present_leave {place : Nat} (h : a.visits[place]? = some .inside) (log : CallLog) :
    present ⟨log, a.visits.set place .left⟩ + 1 = a.present := by
  obtain ⟨hlt, hget⟩ := List.getElem?_eq_some_iff.mp h
  have hpos : 0 < a.visits.countP Visit.isInFlight :=
    List.countP_pos_iff.mpr ⟨_, List.getElem_mem hlt, by rw [hget]; rfl⟩
  rw [present, present, List.countP_set hlt, hget]
  simp only [Visit.isInFlight, if_true, Bool.false_eq_true, if_false]
  omega

/-- The numbers that were in flight at some moment of a history. -/
def levels (steps : List Step) : Set Int :=
  {n | ∃ earlier a, earlier <+: steps ∧ after? earlier = some a ∧ n = a.present}

/-- One more step adds the number that is in flight after it. -/
lemma mem_levels_snoc (h : after? (steps ++ [x]) = some b) {n : Int} :
    n ∈ levels (steps ++ [x]) ↔ n ∈ levels steps ∨ n = b.present := by
  constructor
  · rintro ⟨earlier, a, hprefix, ha, rfl⟩
    rcases List.prefix_concat_iff.mp hprefix with rfl | hprefix
    · rw [h] at ha
      cases ha
      exact .inr rfl
    · exact .inl ⟨earlier, a, hprefix, ha, rfl⟩
  · rintro (⟨earlier, a, hprefix, ha, rfl⟩ | rfl)
    · exact ⟨earlier, a, hprefix.trans (List.prefix_append ..), ha, rfl⟩
    · exact ⟨_, b, List.prefix_rfl, h, rfl⟩

/-! ## What a history leaves -/

/-- The log agrees with the history of the attendance. -/
structure Exact (steps : List Step) (a : Attendance) : Prop where
  inFlight : a.log.inFlight = a.present
  /-- The greatest count was in flight at some moment. -/
  reached : a.log.maxInFlight ∈ levels steps
  seen : ∀ n, .entering n ∈ a.visits → n ∈ levels steps
  /-- Whatever was in flight shows in the greatest count, or somebody is about to raise it. -/
  kept : ∀ n ∈ levels steps,
    n ≤ a.log.maxInFlight ∨ ∃ m, .entering m ∈ a.visits ∧ n ≤ m
  calls : a.log.calls.toList = steps.filterMap Step.noted?

/-- A visit that is not the one put in a place was there before. -/
lemma mem_of_mem_set {visits : List Visit} {place : Nat} {v v' : Visit} (h : v ∈ visits.set place v')
    (ne : v ≠ v') : v ∈ visits :=
  (List.mem_or_eq_of_mem_set h).resolve_right ne

/-- A visit that is not the one in a place stays when that is replaced. -/
lemma mem_set_of_mem {visits : List Visit} {place : Nat} {v v' w : Visit} (h : v ∈ visits)
    (old : visits[place]? = some w) (ne : v ≠ w) : v ∈ visits.set place v' := by
  obtain ⟨i, hi⟩ := List.mem_iff_getElem?.mp h
  refine List.mem_iff_getElem?.mpr ⟨i, ?_⟩
  rw [List.getElem?_set_ne, hi]
  rintro rfl
  rw [old] at hi
  exact ne (Option.some.inj hi).symm

lemma noted_snoc (h : x.noted? = none) :
    (steps ++ [x]).filterMap Step.noted? = steps.filterMap Step.noted? := by
  simp [h]

namespace Exact

/-- When no more are in flight than before, only the numbers reached before have to be kept. -/
lemma of_le (e : Exact steps a) (ha : after? steps = some a) (hb : after? (steps ++ [x]) = some b)
    (inFlight : b.log.inFlight = b.present) (le : b.present ≤ a.present)
    (reached : b.log.maxInFlight ∈ levels steps)
    (seen : ∀ n, .entering n ∈ b.visits → .entering n ∈ a.visits)
    (kept : ∀ n, (n ≤ a.log.maxInFlight ∨ ∃ m, .entering m ∈ a.visits ∧ n ≤ m) →
      n ≤ b.log.maxInFlight ∨ ∃ m, .entering m ∈ b.visits ∧ n ≤ m)
    (calls : b.log.calls.toList = (steps ++ [x]).filterMap Step.noted?) :
    Exact (steps ++ [x]) b where
  inFlight := inFlight
  reached := (mem_levels_snoc hb).mpr (.inl reached)
  seen n hn := (mem_levels_snoc hb).mpr (.inl (e.seen n (seen n hn)))
  kept n hn := by
    refine kept n ?_
    rcases (mem_levels_snoc hb).mp hn with hn | rfl
    · exact e.kept n hn
    · have hle : (b.present : Int) ≤ a.present := Int.ofNat_le.mpr le
      exact (e.kept a.present ⟨steps, a, List.prefix_rfl, ha, rfl⟩).imp (hle.trans ·)
        fun ⟨m, hm, hm'⟩ => ⟨m, hm, hle.trans hm'⟩
  calls := calls

/-- Somebody is counted.  The number that is reached with that is what the visit has seen. -/
lemma count (e : Exact steps a)
    (hb : after? (steps ++ [.countUp])
      = some ⟨a.log.countUp.2, a.visits ++ [.entering a.log.countUp.1]⟩) :
    Exact (steps ++ [.countUp]) ⟨a.log.countUp.2, a.visits ++ [.entering a.log.countUp.1]⟩ where
  inFlight := by
    rw [present_count]
    show a.log.inFlight + 1 = _
    rw [e.inFlight, present]
    rfl
  reached := (mem_levels_snoc hb).mpr (.inl e.reached)
  seen n hn := by
    refine (mem_levels_snoc hb).mpr ?_
    rcases List.mem_append.mp hn with hn | hn
    · exact .inl (e.seen n hn)
    · cases List.mem_singleton.mp hn
      rw [present_count]
      exact .inr (congrArg (· + 1) e.inFlight)
  kept n hn := by
    rcases (mem_levels_snoc hb).mp hn with hn | rfl
    · exact (e.kept n hn).imp_right fun ⟨m, hm, hle⟩ => ⟨m, List.mem_append_left _ hm, hle⟩
    · refine .inr ⟨a.log.countUp.1, by simp, ?_⟩
      rw [present_count]
      exact (congrArg (· + 1) e.inFlight).ge
  calls := e.calls.trans (noted_snoc rfl).symm

/-- **One step** keeps the log in agreement with the history. -/
theorem step (e : Exact steps a) (ha : after? steps = some a) (hx : a.perform? x = some b) :
    Exact (steps ++ [x]) b := by
  have hb : after? (steps ++ [x]) = some b := by
    rw [after?_append, ha]
    simpa using hx
  rcases perform?_cases hx with ⟨rfl, rfl⟩ | ⟨place, seen, rfl, hvisit, rfl⟩ |
    ⟨place, rfl, hvisit, rfl⟩ | ⟨name, rfl, rfl⟩
  · exact e.count hb
  · have hpresent := present_raise hvisit (a.log.raise seen)
    refine e.of_le ha hb (by rw [hpresent]; exact e.inFlight) hpresent.le ?_
      (fun n hn => mem_of_mem_set hn (by simp)) ?_ (e.calls.trans (noted_snoc rfl).symm)
    · show max a.log.maxInFlight seen ∈ _
      rcases max_choice a.log.maxInFlight seen with heq | heq <;> rw [heq]
      · exact e.reached
      · exact e.seen seen (List.mem_of_getElem? hvisit)
    · -- What was on its way in this visit has arrived.
      rintro n (hle | ⟨m, hm, hle⟩)
      · exact .inl (hle.trans (le_max_left ..))
      · by_cases heq : m = seen
        · exact .inl (hle.trans (heq ▸ le_max_right ..))
        · exact .inr ⟨m, mem_set_of_mem hm hvisit (by simpa using heq), hle⟩
  · have hpresent := present_leave hvisit a.log.leave
    refine e.of_le ha hb ?_ (by omega) e.reached (fun n hn => mem_of_mem_set hn (by simp)) ?_
      (e.calls.trans (noted_snoc rfl).symm)
    · show a.log.inFlight - 1 = _
      rw [e.inFlight, ← hpresent]
      simp
    · exact fun n h => h.imp_right fun ⟨m, hm, hle⟩ => ⟨m, mem_set_of_mem hm hvisit (by simp), hle⟩
  · exact e.of_le ha hb e.inFlight le_rfl e.reached (fun n hn => hn) (fun n h => h)
      (by simp [CallLog.record, Step.noted?, e.calls])

/-- A new log agrees with the history in which nothing has happened. -/
lemma empty : Exact [] {} where
  inFlight := rfl
  reached := ⟨[], {}, List.prefix_rfl, rfl, rfl⟩
  seen n hn := absurd hn (by simp)
  kept n hn := by
    obtain ⟨earlier, a, hprefix, ha, rfl⟩ := hn
    rw [List.prefix_nil.mp hprefix] at ha
    cases ha
    exact .inl le_rfl
  calls := rfl

end Exact

/-- **All steps.**  After any of them the log agrees with the history. -/
theorem exact_of_after? (h : after? steps = some a) : Exact steps a := by
  induction steps using List.reverseRecOn generalizing a with
  | nil => cases h; exact .empty
  | append_singleton steps x ih =>
      obtain ⟨a₀, ha₀, hx⟩ := after?_snoc h
      exact (ih ha₀).step ha₀ hx

/-- No step lowers the greatest count. -/
lemma maxInFlight_le_of_perform? (h : a.perform? x = some b) :
    a.log.maxInFlight ≤ b.log.maxInFlight := by
  rcases perform?_cases h with ⟨-, rfl⟩ | ⟨_, seen, -, -, rfl⟩ | ⟨_, -, -, rfl⟩ | ⟨_, -, rfl⟩
  · exact le_rfl
  · exact le_max_left ..
  · exact le_rfl
  · exact le_rfl

lemma maxInFlight_le_of_after? {more : List Step} (ha : after? steps = some a)
    (hb : after? (steps ++ more) = some b) : a.log.maxInFlight ≤ b.log.maxInFlight := by
  induction more using List.reverseRecOn generalizing b with
  | nil =>
      rw [List.append_nil, ha] at hb
      cases hb
      exact le_rfl
  | append_singleton more x ih =>
      rw [← List.append_assoc] at hb
      obtain ⟨b₀, hb₀, hx⟩ := after?_snoc hb
      exact (ih hb₀).trans (maxInFlight_le_of_perform? hx)

/-- **A log of calls counts exactly.**  Take any history of a log: any number of visits, whose two
steps of entering may have others between them and whose guards are dropped at any time, and calls
noted by anybody.  The count is the number of visits that were counted and whose guard was not
dropped, so it is never below zero.  The greatest count was in flight at some moment, so it is never
above the greatest number that ever was; when nobody is between the two steps of entering it is that
number; and it is never lowered.  The calls are those that were noted, all of them, in the order in
which they were. -/
theorem counts_exactly {steps : List Step} {a : Attendance} (history : after? steps = some a) :
    (a.log.inFlight = a.visits.countP Visit.isInFlight ∧ 0 ≤ a.log.inFlight) ∧
    a.log.maxInFlight ∈ levels steps ∧
    ((∀ v ∈ a.visits, v.isEntering = false) → IsGreatest (levels steps) a.log.maxInFlight) ∧
    (∀ more b, after? (steps ++ more) = some b → a.log.maxInFlight ≤ b.log.maxInFlight) ∧
    a.log.calls.toList = steps.filterMap Step.noted? := by
  have e := exact_of_after? history
  refine ⟨⟨e.inFlight, ?_⟩, e.reached, fun nobody => ⟨e.reached, fun n hn => ?_⟩, ?_, e.calls⟩
  · rw [e.inFlight]
    exact Int.natCast_nonneg _
  · rcases e.kept n hn with hle | ⟨m, hm, -⟩
    · exact hle
    · exact absurd (nobody _ hm) (by simp [Visit.isEntering])
  · exact fun more b hb => maxInFlight_le_of_after? history hb

/-- The second visit is over before the first has raised the greatest count, and both count. -/
theorem counts_exactly_overtaken :
    let steps : List Step :=
      [.countUp, .countUp, .raise 1, .record "second", .leave 1, .raise 0, .record "first"]
    ∃ a, after? steps = some a ∧ a.log.inFlight = 1 ∧ IsGreatest (levels steps) 2 ∧
      a.log.calls.toList = ["second", "first"] := by
  intro steps
  have history : after? steps = some _ := rfl
  obtain ⟨⟨hcount, -⟩, -, hgreatest, -, hcalls⟩ := counts_exactly history
  exact ⟨_, rfl, hcount, hgreatest (by decide), hcalls⟩

/-- Entering with nobody in between is the two steps in a row. -/
lemma perform?_enter (a : Attendance) :
    (a.perform? .countUp).bind (·.perform? (.raise a.visits.length))
      = some ⟨a.log.enter, a.visits ++ [.inside]⟩ := by
  simp [perform?, CallLog.enter]

end Attendance

end Workflow
