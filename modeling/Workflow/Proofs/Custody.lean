import Workflow.Proofs.Chronicle

/-!
# Who holds which run

Every run that is not over is held by one process: the one whose code it is.  A `Handover` says what
code has done with the runs it holds when it has gone on for a while: it has left the notes of all
other runs alone, every run it holds now is one that it held before or a new one, and every run that
it no longer holds has ended.

Handovers compose (`Handover.trans`), and what is held next to the runs of the code that goes on
stays as it was (`Handover.frame`).  So what is proved of a piece of code on its own holds wherever
the code stands in a tree of processes.
-/

namespace Workflow

namespace Store

/-- What the marks of a run add up to. -/
noncomputable def chronicle? (s : Store) (run : Nat) : Option Chronicle :=
  Chronicle.ofMarks? (s.marks run)

/-- Whether a run has no child left that has not ended. -/
def IsOver (s : Store) (run : Nat) : Prop :=
  ∃ ch, s.chronicle? run = some ch ∧ ch.IsOver

lemma chronicle?_congr {s s' : Store} {r : Nat} (h : s'.notes r = s.notes r) :
    s'.chronicle? r = s.chronicle? r := by
  rw [chronicle?, chronicle?, marks_congr h]

lemma chronicle?_mark {s : Store} {r : Nat} {ch : Chronicle} (h : s.chronicle? r = some ch)
    (m : Mark) : (s.mark r m).chronicle? r = ch.next? m := by
  rw [chronicle?, marks_mark, Chronicle.ofMarks?_snoc h]

lemma IsOver.congr {s s' : Store} {r : Nat} (h : s'.notes r = s.notes r) (o : s.IsOver r) :
    s'.IsOver r := by
  obtain ⟨ch, hch, ho⟩ := o
  exact ⟨ch, by rw [chronicle?_congr h, hch], ho⟩

/-- Whether a run of the action `a` has ended with `e`. -/
def HasFinished (s : Store) (run : Nat) (a : Action) (e : Exit) : Prop :=
  ∃ ch, s.chronicle? run = some ch ∧ ch.runner = a ∧ ch.exit = some e

lemma HasFinished.congr {s s' : Store} {r : Nat} {a : Action} {e : Exit}
    (h : s'.notes r = s.notes r) (f : s.HasFinished r a e) : s'.HasFinished r a e := by
  obtain ⟨ch, hch, hf⟩ := f
  exact ⟨ch, by rw [chronicle?_congr h, hch], hf⟩

/-- Whether a run has ended. -/
def HasEnded (s : Store) (run : Nat) : Prop :=
  ∃ a e, s.HasFinished run a e

lemma HasEnded.congr {s s' : Store} {r : Nat} (h : s'.notes r = s.notes r) (f : s.HasEnded r) :
    s'.HasEnded r := by
  obtain ⟨a, e, hf⟩ := f
  exact ⟨a, e, hf.congr h⟩

/-- A run ends only when all its children have. -/
lemma HasEnded.isOver {s : Store} {r : Nat} (f : s.HasEnded r) : s.IsOver r := by
  obtain ⟨_, e, ch, hch, -, hexit⟩ := f
  exact ⟨ch, hch, Chronicle.isOver_of_outcome? (Chronicle.outcome?_of_exit hch hexit)⟩

/-- A run can end with the exit that the ends of its children command. -/
lemma chronicle?_finished {s : Store} {r : Nat} {ch : Chronicle} {e : Exit}
    (h : s.chronicle? r = some ch) (exit : ch.exit = none) (outcome : ch.outcome? = some e) :
    (s.mark r (.finished e)).chronicle? r = some { ch with exit := some e } := by
  rw [chronicle?_mark h]
  exact if_pos ⟨exit, outcome⟩

/-! ## Changes to one run -/

/-- Of all runs only the run `r` may have got new notes. -/
structure Touches (r : Nat) (s s' : Store) : Prop where
  clock : s'.clock = s.clock
  runs : s'.runs = s.runs
  closed : s'.closed = s.closed
  notes : ∀ r', r' ≠ r → s'.notes r' = s.notes r'

namespace Touches

variable {r : Nat} {s s' s'' : Store}

lemma of_sameRuns (h : s.SameRuns s') (r : Nat) : Touches r s s' :=
  ⟨h.clock, h.runs, h.closed, fun r' _ => h.notes r'⟩

lemma refl (r : Nat) (s : Store) : Touches r s s :=
  of_sameRuns (.refl s) r

lemma trans (h : Touches r s s') (h' : Touches r s' s'') : Touches r s s'' :=
  ⟨h'.clock.trans h.clock, h'.runs.trans h.runs, h'.closed.trans h.closed,
    fun r' hr => (h'.notes r' hr).trans (h.notes r' hr)⟩

lemma mark (r : Nat) (s : Store) (m : Mark) : Touches r s (s.mark r m) :=
  ⟨rfl, rfl, rfl, fun _ hr => s.notes_mark_of_ne m hr⟩

lemma tidy (h : Touches r s s') (t : s.Tidy) (hr : r < s.runs) : s'.Tidy where
  fresh r' hr' := by
    rw [h.runs] at hr'
    rw [h.notes r' (by omega)]
    exact t.fresh r' hr'
  isOpen := h.closed.trans t.isOpen

end Touches

/-! ## Handovers -/

/-- Code that held the runs `own` has gone on, from the store `s` to the store `s'`, and now holds
the runs `own'`. -/
structure Handover (own : List Nat) (s : Store) (own' : List Nat) (s' : Store) : Prop where
  tidy : s'.Tidy
  clock : s'.clock = s.clock
  runs_le : s.runs ≤ s'.runs
  others : ∀ r, r < s.runs → r ∉ own → s'.notes r = s.notes r
  known : ∀ r ∈ own', r ∈ own ∨ s.runs ≤ r
  bound : ∀ r ∈ own', r < s'.runs
  nodup : own'.Nodup
  ended : ∀ r, r < s'.runs → r ∈ own ∨ s.runs ≤ r → r ∉ own' → s'.HasEnded r

namespace Handover

variable {own own' own'' : List Nat} {s s' s'' : Store}

/-- A run that is no longer held is over. -/
lemma isOver (h : Handover own s own' s') {r : Nat} (hr : r < s'.runs)
    (held : r ∈ own ∨ s.runs ≤ r) (hn : r ∉ own') : s'.IsOver r :=
  (h.ended r hr held hn).isOver

/-- Only notes of a run that is held were made. -/
lemma of_touches {r : Nat} (h : Touches r s s') (t : s.Tidy) (mem : r ∈ own) (nodup : own.Nodup)
    (bound : ∀ r ∈ own, r < s.runs) : Handover own s own s' where
  tidy := h.tidy t (bound r mem)
  clock := h.clock
  runs_le := h.runs.ge
  others r' _ hr' := h.notes r' (by rintro rfl; exact hr' mem)
  known r' hr' := .inl hr'
  bound r' hr' := by rw [h.runs]; exact bound r' hr'
  nodup := nodup
  ended r' hr' h' hn := by
    rw [h.runs] at hr'
    rcases h' with h' | h'
    · exact absurd h' hn
    · omega

/-- Nothing was done that concerns runs. -/
lemma of_sameRuns (h : s.SameRuns s') (t : s.Tidy) (nodup : own.Nodup)
    (bound : ∀ r ∈ own, r < s.runs) : Handover own s own s' where
  tidy := h.tidy t
  clock := h.clock
  runs_le := h.runs.ge
  others r' _ _ := h.notes r'
  known r' hr' := .inl hr'
  bound r' hr' := by rw [h.runs]; exact bound r' hr'
  nodup := nodup
  ended r' hr' h' hn := by
    rw [h.runs] at hr'
    rcases h' with h' | h'
    · exact absurd h' hn
    · omega

lemma refl (t : s.Tidy) (nodup : own.Nodup) (bound : ∀ r ∈ own, r < s.runs) :
    Handover own s own s :=
  of_sameRuns (.refl s) t nodup bound

/-- A run that is held by nobody keeps its notes. -/
lemma kept (h : Handover own s own' s') {r : Nat} (hr : r < s.runs) (hn : r ∉ own) :
    r ∉ own' := by
  intro hr'
  rcases h.known r hr' with h' | h'
  · exact hn h'
  · omega

theorem trans (h : Handover own s own' s') (h' : Handover own' s' own'' s'') :
    Handover own s own'' s'' where
  tidy := h'.tidy
  clock := h'.clock.trans h.clock
  runs_le := h.runs_le.trans h'.runs_le
  others r hr hn := by
    rw [h'.others r (hr.trans_le h.runs_le) (h.kept hr hn), h.others r hr hn]
  known r hr := by
    rcases h'.known r hr with hr' | hr'
    · exact h.known r hr'
    · exact .inr (h.runs_le.trans hr')
  bound := h'.bound
  nodup := h'.nodup
  ended r hr h₀ hn := by
    by_cases hlt : r < s'.runs
    · by_cases hr' : r ∈ own'
      · exact h'.ended r hr (.inl hr') hn
      · exact (h.ended r hlt h₀ hr').congr (h'.others r hlt hr')
    · exact h'.ended r hr (.inr (by omega)) hn

/-- What is held next to the runs of the code that goes on stays as it was. -/
theorem frame (h : Handover own s own' s') (pre post : List Nat)
    (nodup : (pre ++ (own ++ post)).Nodup) (bound : ∀ r ∈ pre ++ post, r < s.runs) :
    Handover (pre ++ (own ++ post)) s (pre ++ (own' ++ post)) s' where
  tidy := h.tidy
  clock := h.clock
  runs_le := h.runs_le
  others r hr hn := by
    simp only [List.mem_append, not_or] at hn
    exact h.others r hr hn.2.1
  known r hr := by
    simp only [List.mem_append] at hr ⊢
    rcases hr with hr | hr | hr
    · exact .inl (.inl hr)
    · rcases h.known r hr with hr' | hr'
      · exact .inl (.inr (.inl hr'))
      · exact .inr hr'
    · exact .inl (.inr (.inr hr))
  bound r hr := by
    simp only [List.mem_append] at hr bound
    rcases hr with hr | hr | hr
    · exact (bound r (.inl hr)).trans_le h.runs_le
    · exact h.bound r hr
    · exact (bound r (.inr hr)).trans_le h.runs_le
  nodup := by
    simp only [List.nodup_append, List.mem_append] at nodup bound ⊢
    obtain ⟨hpre, ⟨-, hpost, hop⟩, hdis⟩ := nodup
    refine ⟨hpre, ⟨h.nodup, hpost, ?_⟩, ?_⟩
    · rintro a ha b hb rfl
      rcases h.known a ha with ha' | ha'
      · exact hop a ha' a hb rfl
      · exact absurd (bound a (.inr hb)) (by omega)
    · rintro a ha b (hb | hb) rfl
      · rcases h.known a hb with hb' | hb'
        · exact hdis a ha a (.inl hb') rfl
        · exact absurd (bound a (.inl ha)) (by omega)
      · exact hdis a ha a (.inr hb) rfl
  ended r hr h₀ hn := by
    simp only [List.mem_append, not_or] at h₀ hn
    refine h.ended r hr ?_ hn.2.1
    rcases h₀ with (h₀ | h₀ | h₀) | h₀
    · exact absurd h₀ hn.1
    · exact .inl h₀
    · exact absurd h₀ hn.2.2
    · exact .inr h₀

/-- A run that is held above the code that goes on stays as it was. -/
lemma cons (h : Handover own s own' s') {r : Nat} (nodup : (r :: own).Nodup) (bound : r < s.runs) :
    Handover (r :: own) s (r :: own') s' := by
  simpa using h.frame [r] [] (by simpa using nodup) (by simpa using bound)

/-- In which order the runs are listed makes no difference. -/
lemma perm {own₁ own₁' : List Nat} (h : Handover own s own' s') (before : own.Perm own₁)
    (after : own'.Perm own₁') : Handover own₁ s own₁' s' where
  tidy := h.tidy
  clock := h.clock
  runs_le := h.runs_le
  others r hr hn := h.others r hr fun hm => hn (before.mem_iff.mp hm)
  known r hr := (h.known r (after.mem_iff.mpr hr)).imp_left before.mem_iff.mp
  bound r hr := h.bound r (after.mem_iff.mpr hr)
  nodup := after.nodup_iff.mp h.nodup
  ended r hr h₀ hn :=
    h.ended r hr (h₀.imp_left before.mem_iff.mpr) fun hm => hn (after.mem_iff.mp hm)

/-- A run that has ended need not be held any longer. -/
lemma letGo {r : Nat} (h : Touches r s s') (t : s.Tidy) (bound : r < s.runs) (o : s'.HasEnded r) :
    Handover [r] s [] s' where
  tidy := h.tidy t bound
  clock := h.clock
  runs_le := h.runs.ge
  others r' _ hr' := h.notes r' (by simpa using hr')
  known r' hr' := by cases hr'
  bound r' hr' := by cases hr'
  nodup := List.nodup_nil
  ended r' hr' h' _ := by
    rw [h.runs] at hr'
    rcases h' with h' | h'
    · rw [List.mem_singleton.mp h']; exact o
    · omega

end Handover

/-! ## The beginning of a run -/

lemma tidy_newRun {s : Store} (t : s.Tidy) (a : Action) : (s.newRun a).2.Tidy where
  fresh r hr := by
    have hr : s.runs + 1 ≤ r := hr
    rw [newRun, notes_mark_of_ne _ _ (by omega : r ≠ s.runs)]
    exact t.fresh r (by omega)
  isOpen := t.isOpen

/-- A run that begins is new, and whoever begins it holds it. -/
lemma Handover.newRun {s : Store} (t : s.Tidy) (a : Action) :
    Handover [] s [s.runs] (s.newRun a).2 where
  tidy := tidy_newRun t a
  clock := rfl
  runs_le := Nat.le_succ _
  others r hr _ := by
    rw [Store.newRun, notes_mark_of_ne _ _ (by omega : r ≠ s.runs)]; rfl
  known r hr := by simp only [List.mem_singleton] at hr; exact .inr hr.ge
  bound r hr := by simp only [List.mem_singleton] at hr; subst hr; exact Nat.lt_succ_self _
  nodup := List.nodup_singleton _
  ended r hr h hn := by
    have hr : r < s.runs + 1 := hr
    simp only [List.not_mem_nil, List.mem_singleton, false_or] at h hn
    omega

lemma chronicle?_newRun {s : Store} (t : s.Tidy) (a : Action) :
    (s.newRun a).2.chronicle? s.runs = some { runner := a } := by
  have h : s.marks s.runs = [] := by rw [marks, t.fresh _ (le_refl _)]; rfl
  have h' : ({ s with runs := s.runs + 1 } : Store).marks s.runs = [] := h
  rw [chronicle?, newRun, marks_mark, h']
  rfl

end Store

end Workflow
