import Workflow.Proofs.Outcome

/-!
# What a run tells

The events among the marks of a run are what an observer is told.  This file says how they go
together with the other marks, which no observer sees.

**Phrases.**  A throttled run notes some of its marks in pairs: that a child is admitted and is given
a task, and that a child asks to skip the remainder and has ended with that (`Phrased`).  So every
admission is told before the child does anything, and every such request before anything else
happens in the run.

**Reports.**  When a concurrent run has come to a result it has reported every child that failed, in
order (`reports`).

`Narrative` is both together.  It is kept by every mark that is none of the kinds in question
(`Narrative.plain`), and `Narrative.admitted`, `Narrative.skipped`, `Narrative.failed` and
`Narrative.finished` are about the others.
-/

namespace Workflow

/-! ## Events -/

namespace Mark

/-- The event that a mark is. -/
def event? : Mark → Option Event
  | event e => some e
  | _ => none

/-- The child that has asked to skip the remainder, when a mark is its end. -/
def skipped? : Mark → Option Nat
  | ended i (.failed .skipRemainder) => some i
  | _ => none

lemma skipped?_eq_some {m : Mark} {i : Nat} :
    m.skipped? = some i ↔ m = .ended i (.failed .skipRemainder) := by
  constructor
  · intro h
    unfold skipped? at h
    split at h <;> simp_all
  · rintro rfl
    rfl

/-- Whether a mark may stand alone in a throttled run. -/
def isPlain : Mark → Bool
  | event (.throttledAdmit ..) | event (.throttledSkip ..) => false
  | spawned .. => false
  | m => m.skipped?.isNone

end Mark

/-- The events of the given name among the marks of a run, in order. -/
def told (name : String) (ms : List Mark) : List Event :=
  (ms.filterMap Mark.event?).filter fun e => e.name == name

@[simp] lemma told_nil (name : String) : told name [] = [] := rfl

lemma told_append (name : String) (ms ms' : List Mark) :
    told name (ms ++ ms') = told name ms ++ told name ms' := by
  simp [told]

@[simp] lemma told_event (name : String) (e : Event) (ms : List Mark) :
    told name (.event e :: ms) = if e.name = name then e :: told name ms else told name ms := by
  by_cases h : e.name = name <;> simp [told, Mark.event?, h]

@[simp] lemma told_spawned (name : String) (i : Nat) (c : Action) (ms : List Mark) :
    told name (.spawned i c :: ms) = told name ms := rfl

@[simp] lemma told_ended (name : String) (i : Nat) (e : Exit) (ms : List Mark) :
    told name (.ended i e :: ms) = told name ms := rfl

lemma mem_told {name : String} {ms : List Mark} {e : Event} :
    e ∈ told name ms ↔ .event e ∈ ms ∧ e.name = name := by
  have hevent : e ∈ ms.filterMap Mark.event? ↔ .event e ∈ ms := by
    rw [List.mem_filterMap]
    constructor
    · rintro ⟨m, hm, h⟩
      cases m <;> simp [Mark.event?] at h
      rwa [← h]
    · exact fun h => ⟨_, h, rfl⟩
  rw [told, List.mem_filter, hevent, beq_iff_eq]

/-- A mark that may stand alone tells of no admission and no request to skip the remainder. -/
lemma Mark.of_isPlain {m : Mark} (h : m.isPlain = true) :
    told "conflux.throttled.admit" [m] = [] ∧ told "conflux.throttled.skip" [m] = [] ∧
      m.spawned? = none ∧ m.skipped? = none := by
  cases m with
  | event e => cases e <;> simp_all [isPlain, Event.name, spawned?, skipped?]
  | ended i e =>
      refine ⟨rfl, rfl, rfl, ?_⟩
      simpa [isPlain] using h
  | spawned => simp [isPlain] at h
  | begun | derived | started | dropped | discarded | finished => exact ⟨rfl, rfl, rfl, rfl⟩

/-! ## Phrases -/

/-- The marks of a throttled run over the children `cs`, some of which are noted in pairs. -/
inductive Phrased (cs : List Action) : List Mark → Prop where
  | nil : Phrased cs []
  | plain {ms : List Mark} {m : Mark} (h : Phrased cs ms) (plain : m.isPlain = true) :
      Phrased cs (ms ++ [m])
  | admitted {ms : List Mark} (h : Phrased cs ms) (i : Nat) (c : Action) :
      Phrased cs (ms ++ [.event (.throttledAdmit i c.name)] ++ [.spawned i c])
  | skipped {ms : List Mark} (h : Phrased cs ms) {i : Nat} {c : Action} (child : cs[i]? = some c) :
      Phrased cs (ms ++ [.ended i (.failed .skipRemainder)] ++ [.event (.throttledSkip i c.name)])

namespace Phrased

variable {cs : List Action} {ms : List Mark}

/-- The children whose admissions are told are those that were given tasks. -/
lemma told_admission (h : Phrased cs ms) : told "conflux.throttled.admit" ms =
    (ms.filterMap Mark.spawned?).map fun c => .throttledAdmit c.2 c.1.name := by
  induction h with
  | nil => rfl
  | plain h plain ih =>
      obtain ⟨hadmitted, -, hspawned, -⟩ := Mark.of_isPlain plain
      simp [told_append, hadmitted, hspawned, ih]
  | admitted h i c ih =>
      simp only [List.append_assoc, told_append, List.filterMap_append, List.map_append, ih]
      rfl
  | skipped h child ih => simp [told_append, ih, Mark.spawned?, Event.name]

/-- The requests that are told are those of the children that have ended with one. -/
lemma told_skip (h : Phrased cs ms) : told "conflux.throttled.skip" ms =
    (ms.filterMap Mark.skipped?).filterMap fun i =>
      (cs[i]?).map fun c => .throttledSkip i c.name := by
  induction h with
  | nil => rfl
  | plain h plain ih =>
      obtain ⟨-, hskip, -, hskipped⟩ := Mark.of_isPlain plain
      simp [told_append, hskip, hskipped, ih]
  | admitted h i c ih => simp [told_append, ih, Mark.skipped?, Event.name]
  | skipped h child ih => simp [told_append, ih, Mark.skipped?, Event.name, child]

/-- A child that was given a task was told of. -/
lemma admit_mem (h : Phrased cs ms) {i : Nat} {c : Action} (hm : .spawned i c ∈ ms) :
    .event (.throttledAdmit i c.name) ∈ ms := by
  have htold : .throttledAdmit i c.name ∈ told "conflux.throttled.admit" ms := by
    rw [h.told_admission, List.mem_map]
    exact ⟨(c, i), List.mem_filterMap.mpr ⟨_, hm, rfl⟩, rfl⟩
  exact (mem_told.mp htold).1

/-- A child that has asked to skip the remainder was told of. -/
lemma skip_mem (h : Phrased cs ms) {i : Nat} {c : Action} (child : cs[i]? = some c)
    (hm : .ended i (.failed .skipRemainder) ∈ ms) : .event (.throttledSkip i c.name) ∈ ms := by
  have htold : .throttledSkip i c.name ∈ told "conflux.throttled.skip" ms := by
    rw [h.told_skip, List.mem_filterMap]
    exact ⟨i, List.mem_filterMap.mpr ⟨_, hm, rfl⟩, by rw [child]; rfl⟩
  exact (mem_told.mp htold).1

/-- In front of any mark the marks are whole phrases, or the mark is the second of a pair. -/
lemma split_cases (h : Phrased cs ms) {before : List Mark} {m : Mark} (hb : before ++ [m] <+: ms) :
    Phrased cs before ∨ ∃ ms', Phrased cs ms' ∧ ∃ i c,
      (before = ms' ++ [.event (.throttledAdmit i c.name)] ∧ m = .spawned i c ∨
        before = ms' ++ [.ended i (.failed .skipRemainder)] ∧ cs[i]? = some c ∧
          m = .event (.throttledSkip i c.name)) := by
  induction h with
  | nil => simp at hb
  | plain h plain ih =>
      rcases List.prefix_concat_iff.mp hb with heq | hb
      · obtain ⟨rfl, -⟩ := List.append_inj' heq rfl
        exact .inl h
      · exact ih hb
  | @admitted ms h i c ih =>
      rcases List.prefix_concat_iff.mp hb with heq | hb
      · obtain ⟨rfl, hm⟩ := List.append_inj' heq rfl
        exact .inr ⟨ms, h, i, c, .inl ⟨rfl, List.singleton_inj.mp hm⟩⟩
      · rcases List.prefix_concat_iff.mp hb with heq | hb
        · obtain ⟨rfl, -⟩ := List.append_inj' heq rfl
          exact .inl h
        · exact ih hb
  | @skipped ms h i c child ih =>
      rcases List.prefix_concat_iff.mp hb with heq | hb
      · obtain ⟨rfl, hm⟩ := List.append_inj' heq rfl
        exact .inr ⟨ms, h, i, c, .inr ⟨rfl, child, List.singleton_inj.mp hm⟩⟩
      · rcases List.prefix_concat_iff.mp hb with heq | hb
        · obtain ⟨rfl, -⟩ := List.append_inj' heq rfl
          exact .inl h
        · exact ih hb

/-- **A child is told of first.**  Whatever is noted behind the mark that gives it a task, its
admission was told before. -/
lemma admit_before (h : Phrased cs ms) {before : List Mark} {m : Mark} (hb : before ++ [m] <+: ms)
    {i : Nat} {c : Action} (hm : .spawned i c ∈ before) :
    .event (.throttledAdmit i c.name) ∈ before := by
  rcases h.split_cases hb with h | ⟨ms', h, j, c', ⟨rfl, -⟩ | ⟨rfl, -⟩⟩
  · exact h.admit_mem hm
  all_goals
    rw [List.mem_append, List.mem_singleton] at hm ⊢
    rcases hm with hm | hm
    · exact .inl (h.admit_mem hm)
    · cases hm

/-- **A request is told at once.**  When anything else is noted behind the end of a child that asks
to skip the remainder, it was told of. -/
lemma skip_before (h : Phrased cs ms) {before : List Mark} {m : Mark} (hb : before ++ [m] <+: ms)
    {i : Nat} {c : Action} (child : cs[i]? = some c) (other : m ≠ .event (.throttledSkip i c.name))
    (hm : .ended i (.failed .skipRemainder) ∈ before) :
    .event (.throttledSkip i c.name) ∈ before := by
  rcases h.split_cases hb with h | ⟨ms', h, j, c', ⟨rfl, -⟩ | ⟨rfl, child', rfl⟩⟩
  · exact h.skip_mem child hm
  · rw [List.mem_append, List.mem_singleton] at hm ⊢
    rcases hm with hm | hm
    · exact .inl (h.skip_mem child hm)
    · cases hm
  · rw [List.mem_append, List.mem_singleton] at hm ⊢
    rcases hm with hm | hm
    · exact .inl (h.skip_mem child hm)
    · cases hm
      rw [child] at child'
      cases child'
      exact absurd rfl other

end Phrased

/-- A child asks to skip the remainder once at most. -/
lemma Chronicle.nodup_skipped {ms : List Mark} {ch : Chronicle} (h : ofMarks? ms = some ch) :
    (ms.filterMap Mark.skipped?).Nodup := by
  refine induction (P := fun ms _ => (ms.filterMap Mark.skipped?).Nodup) ?_ ?_ h
  · intro runner
    exact List.nodup_nil
  · intro ms ch m ch' h ih hm
    rw [List.filterMap_append]
    cases hs : m.skipped? with
    | none => simpa [hs] using ih
    | some i =>
        obtain rfl := Mark.skipped?_eq_some.mp hs
        refine List.nodup_append.mpr ⟨ih, by simp [hs], ?_⟩
        rintro j hj k hk rfl
        obtain rfl : j = i := by simpa [Mark.skipped?] using hk
        obtain ⟨m, hmem, hj⟩ := List.mem_filterMap.mp hj
        obtain rfl := Mark.skipped?_eq_some.mp hj
        have hended := ended_mem h hmem
        rw [(move_eq_some.mp hm).1] at hended
        cases hended

/-! ## Reports -/

/-- What a concurrent run is called in its events, given its slots. -/
def runnerName (slots : Option Nat) : String :=
  if slots.isSome then "throttled" else "async"

/-- The report of a child called `name` that came to the exit `x`, if that counts as a failure. -/
def Exit.report? (runner name : String) (x : Exit) : Option Event :=
  (x.failureOf name).map fun f => .childFailed runner name f.message

/-- The report of a child called `name`, if it has ended and failed. -/
def Stage.report? (runner name : String) : Stage → Option Event
  | .ended e => e.report? runner name
  | _ => none

/-- The reports of all children that have failed, in the order in which they were submitted. -/
def reports (runner : String) (cs : List Action) (stages : List Stage) : List Event :=
  (cs.zip stages).filterMap fun x => x.2.report? runner x.1.name

/-- When the run has come to a result, every child that failed has been reported. -/
def Reported (ms : List Mark) : Prop :=
  ∀ ch slots cs f, Chronicle.ofMarks? ms = some ch → ch.runner.dispatch? = some (slots, cs) →
    ch.exit = some (.ofResult f) →
    told "conflux.child.failed" ms = reports (runnerName slots) cs ch.stages

/-- A mark that neither reports a child nor ends the run makes no difference. -/
lemma Reported.snoc {ms : List Mark} (h : Reported ms) {m : Mark}
    (silent : told "conflux.child.failed" [m] = []) (goesOn : ∀ e, m ≠ .finished e) :
    Reported (ms ++ [m]) := by
  intro ch slots cs f hch hd hexit
  have hms : ms ≠ [] := by
    rintro rfl
    cases m <;> simp [Chronicle.ofMarks?] at hch
    subst hch
    cases hexit
  obtain ⟨ch₀, h₀, hnext⟩ := Chronicle.of_append hch hms
  replace hnext : ch₀.next? m = some ch := by simpa using hnext
  have hrunner := (Chronicle.change_of_next? hnext).1
  rcases Chronicle.exit_of_next? hnext with ⟨e, rfl, -⟩ | ⟨-, hsame⟩
  · exact absurd rfl (goesOn e)
  rw [hsame] at hexit
  have hover := Chronicle.isOver_of_outcome? (Chronicle.outcome?_of_exit h₀ hexit)
  rw [told_append, silent, List.append_nil, Chronicle.stages_of_next? hnext hexit hover]
  exact h ch₀ slots cs f h₀ (by rw [← hrunner]; exact hd) hexit

/-! ## The law of events -/

/-- The action that marks are the run of. -/
def runnerOf? : List Mark → Option Action
  | .begun a :: _ => some a
  | _ => none

lemma runnerOf?_snoc {ms : List Mark} {a : Action} (h : runnerOf? ms = some a) (m : Mark) :
    runnerOf? (ms ++ [m]) = some a := by
  match ms, h with
  | .begun _ :: _, h => exact h

lemma Chronicle.runnerOf?_eq {ms : List Mark} {ch : Chronicle} (h : ofMarks? ms = some ch) :
    runnerOf? ms = some ch.runner := by
  match ms, h with
  | .begun a :: ms, h => exact congrArg some (runner_of_foldlM h).symm

/-- What the marks of a run tell an observer is what they say. -/
structure Narrative (ms : List Mark) : Prop where
  phrased : ∀ limit cs, runnerOf? ms = some (.throttled limit cs) → Phrased cs ms
  reported : Reported ms

namespace Narrative

variable {ms : List Mark} {m : Mark}

lemma nil : Narrative [] := by
  refine ⟨fun _ _ h => ?_, fun _ _ _ _ h => ?_⟩ <;> cases h

/-- What one mark more makes of a throttled run: it has just begun, or it was one before. -/
lemma phrased_init (h : Narrative ms) {limit : Limit} {cs : List Action}
    (hr : runnerOf? (ms ++ [m]) = some (.throttled limit cs)) : Phrased cs ms := by
  match ms, h, hr with
  | [], _, _ => exact .nil
  | .begun _ :: _, h, hr => exact h.phrased limit cs hr

/-- Marks of a run that has no tasks of its own say nothing of the kind. -/
lemma of_linear {a : Action} (hr : runnerOf? ms = some a) (hd : a.dispatch? = none) :
    Narrative ms := by
  refine ⟨fun limit cs h => ?_, fun ch slots cs f hch hd' _ => ?_⟩
  · rw [hr] at h
    cases h
    cases hd
  · have hsame := Chronicle.runnerOf?_eq hch
    rw [hr] at hsame
    cases hsame
    rw [hd] at hd'
    cases hd'

/-- One mark more that may stand alone. -/
lemma plain (h : Narrative ms) (plain : m.isPlain = true)
    (silent : told "conflux.child.failed" [m] = []) (goesOn : ∀ e, m ≠ .finished e) :
    Narrative (ms ++ [m]) :=
  ⟨fun _ _ hr => (h.phrased_init hr).plain plain, h.reported.snoc silent goesOn⟩

/-- In a run without a limit no marks go together. -/
lemma async (h : Narrative ms) {cs : List Action} (hr : runnerOf? ms = some (.async cs))
    (silent : told "conflux.child.failed" [m] = []) (goesOn : ∀ e, m ≠ .finished e) :
    Narrative (ms ++ [m]) := by
  refine ⟨fun limit cs h => ?_, h.reported.snoc silent goesOn⟩
  rw [runnerOf?_snoc hr] at h
  cases h

/-- A child is admitted. -/
lemma admitted (h : Narrative ms) (i : Nat) (c : Action) :
    Narrative (ms ++ [.event (.throttledAdmit i c.name)] ++ [.spawned i c]) := by
  refine ⟨fun limit cs hr => .admitted ?_ i c,
    (h.reported.snoc (by simp [Event.name]) (by simp)).snoc (by simp) (by simp)⟩
  match ms, h, hr with
  | .begun _ :: _, h, hr => exact h.phrased limit cs hr

/-- A child of a throttled run has ended with a request to skip the remainder. -/
lemma skipped (h : Narrative ms) {limit : Limit} {cs : List Action}
    (hr : runnerOf? ms = some (.throttled limit cs)) {i : Nat} {c : Action}
    (child : cs[i]? = some c) :
    Narrative (ms ++ [.ended i (.failed .skipRemainder)] ++
      [.event (.throttledSkip i c.name)]) := by
  refine ⟨fun limit' cs' hr' => ?_,
    (h.reported.snoc (by simp) (by simp)).snoc (by simp [Event.name]) (by simp)⟩
  rw [runnerOf?_snoc (runnerOf?_snoc hr _) _] at hr'
  cases hr'
  exact (h.phrased limit cs hr).skipped child

/-- A failure is reported in a run that has not ended. -/
lemma failed (h : Narrative ms) {ch : Chronicle} (chronicle : Chronicle.ofMarks? ms = some ch)
    (going : ch.exit = none) (runner name text : String) :
    Narrative (ms ++ [.event (.childFailed runner name text)]) := by
  refine ⟨fun _ _ hr => (h.phrased_init hr).plain rfl, fun ch' slots cs f hch _ hexit => ?_⟩
  rw [Chronicle.ofMarks?_snoc chronicle] at hch
  cases hch
  rw [going] at hexit
  cases hexit

/-- A run ends, and if it has come to a result its failures have been reported. -/
lemma finished (h : Narrative ms) {e : Exit}
    (reported : ∀ ch slots cs f, Chronicle.ofMarks? ms = some ch →
      ch.runner.dispatch? = some (slots, cs) → e = .ofResult f →
      told "conflux.child.failed" ms = reports (runnerName slots) cs ch.stages) :
    Narrative (ms ++ [.finished e]) := by
  refine ⟨fun _ _ hr => (h.phrased_init hr).plain rfl, fun ch slots cs f hch hd hexit => ?_⟩
  have hms : ms ≠ [] := by
    rintro rfl
    cases hch
  obtain ⟨ch₀, h₀, hnext⟩ := Chronicle.of_append hch hms
  replace hnext : ch₀.next? (.finished e) = some ch := by simpa using hnext
  rcases Chronicle.exit_of_next? hnext with ⟨e', he, -, -, rfl⟩ | ⟨hne, -⟩
  · cases he
    rw [told_append, show told "conflux.child.failed" [.finished e] = [] from rfl, List.append_nil]
    exact reported ch₀ slots cs f h₀ hd (Option.some.inj hexit)
  · exact absurd rfl (hne e)

end Narrative

end Workflow
