import Workflow.Proofs.Duration
import Workflow.Proofs.Suspension
import Workflow.Proofs.Timetable

/-!
# A throttled run keeps its timetable

The children of a throttled run that last fixed times start and end as a timetable says, whoever has
turns in what order.

**Notes.**  `Store.Keeps` says that all notes of a run have the times that the timetable says.

**The run.**  `Dispatch.OnTime` is what is true of a dispatcher and its children at any moment:
those that have started did so on time, and nobody is late.  A turn of the dispatcher keeps it
(`Dispatch.advance_onTime`), a turn of a child keeps it (`Dispatch.resumeAt_onTime`), and so does
time, which moves no further than to the next end (`Dispatch.OnTime.later`).

**Turns.**  The dispatcher has less to do after each turn in which it could go on
(`Dispatch.advance_left`), and before time moves the children have finitely many turns
(`Dispatch.OnTime.acc`).
-/

namespace Workflow

open Store

/-! ## Notes -/

/-- The note of a run that began at `t₀` has the time that the timetable says. -/
def Note.Keeps (t₀ : Nat) (plan : List Span) (n : Note) : Prop :=
  match n.mark with
  | .started i _ => ∃ x, plan[i]? = some x ∧ n.time = x.start
  | .ended i _ => ∃ x, plan[i]? = some x ∧ n.time = x.stop
  | .finished _ => n.time = finish t₀ plan
  | _ => True

/-- All notes of a run have the times that the timetable says. -/
def Store.Keeps (s : Store) (r t₀ : Nat) (plan : List Span) : Prop :=
  ∀ n ∈ s.notes r, n.Keeps t₀ plan

section

variable {s s' : Store} {r t₀ : Nat} {plan : List Span}

lemma Store.Keeps.congr (h : s.Keeps r t₀ plan) (notes : s'.notes r = s.notes r) :
    s'.Keeps r t₀ plan := by
  intro n hn
  rw [notes] at hn
  exact h n hn

lemma Store.Keeps.mark (h : s.Keeps r t₀ plan) {m : Mark}
    (hm : Note.Keeps t₀ plan ⟨s.clock, some r, m⟩) : (s.mark r m).Keeps r t₀ plan := by
  intro n hn
  rw [notes_mark] at hn
  rcases List.mem_append.mp hn with hn | hn
  · exact h n hn
  · rw [List.mem_singleton.mp hn]
    exact hm

/-- Events have no time to keep. -/
lemma Store.Keeps.report (h : s.Keeps r t₀ plan) (e : Event) : (s.report r e).Keeps r t₀ plan :=
  h.mark trivial

end

/-- Code that has run has left the time and the notes of other runs alone. -/
lemma Ran.others {top : Option Nat} {own : List Nat} {s : Store} {env : Env} {a : Action}
    {out : Store × Progress} (ran : Ran top own s env a out) :
    out.1.clock = s.clock ∧ ∀ r, r < s.runs → r ∉ own → out.1.notes r = s.notes r := by
  match out, ran with
  | (_, .paused _), ⟨hand, _⟩ | (_, .ended _), ⟨hand, _⟩ => exact ⟨hand.clock, hand.others⟩

/-! ## Children -/

/-- The child keeps its time, if it is `t` now. -/
def Child.OnTime (x : Span) (t : Nat) : Child → Prop
  | .spawned _ _ => x.start = t
  | .running _ _ p => x.start ≤ t ∧ p.EndsAt x.stop t
  | .ended _ _ => x.start ≤ t ∧ x.stop ≤ t
  | .lost _ => False

/-- The children last as long as the timetable says. -/
def Fills (plan : List Span) (cs : List Action) : Prop :=
  ∀ (i : Nat) (c : Action) x, cs[i]? = some c → plan[i]? = some x →
    ∃ d, c.Lasts d ∧ x.stop = x.start + d

section

variable {s : Store} {env : Env} {runner : Action} {slots : Option Nat} {cs : List Action}
  {d : Dispatch} {children : List Child} {child : Child} {i t t₀ : Nat} {plan : List Span}
  {x : Span}

lemma Child.OnTime.start_le (h : child.OnTime x t) : x.start ≤ t := by
  cases child with
  | spawned => exact h.le
  | running | ended => exact h.1
  | lost => exact h.elim

/-- A child that has not ended by its time is live. -/
lemma Child.OnTime.isLive (h : child.OnTime x t) (unended : t < x.stop) : child.isLive = true := by
  cases child with
  | spawned | running => rfl
  | ended => exact absurd h.2 (by omega)
  | lost => exact h.elim

/-- The dispatcher takes notice of the end of a child. -/
lemma Dispatch.childEnded_keeps (d : Dispatch) (i : Nat) (name : String) (e : Exit)
    (keeps : s.Keeps d.run t₀ plan) (hx : plan[i]? = some x) (stop : s.clock = x.stop) :
    (d.childEnded i name e s).2.Keeps d.run t₀ plan := by
  have hmark : (s.mark d.run (.ended i e)).Keeps d.run t₀ plan := keeps.mark ⟨x, hx, stop⟩
  obtain ⟨run, env, gate, queue, collected, failure⟩ := d
  cases gate with
  | none => exact hmark
  | some free =>
      unfold childEnded
      dsimp only
      split
      · exact (hmark.report _).congr (sameRuns_cancel _ _ |>.notes _)
      · exact hmark

/-- The code of a child has stopped. -/
lemma Child.after_onTime (task : Nat) (name : String) {out : Store × Progress}
    (keeps : out.1.Keeps d.run t₀ plan) (hx : plan[i]? = some x) (started : x.start ≤ out.1.clock)
    (ends : out.2.EndsAt x.stop out.1.clock) :
    (Child.after d i task name out).1.Keeps d.run t₀ plan ∧
      (Child.after d i task name out).2.2.OnTime x out.1.clock := by
  match out, ends with
  | (s', .paused p), ends => exact ⟨keeps, started, ends⟩
  | (s', .ended e), ends =>
      have hended := d.childEnded_keeps i name e keeps hx ends
      exact ⟨hended.congr ((sameRuns_endTask _ task).notes d.run), started, ends.ge⟩

/-- **A turn of a child.**  It keeps its time. -/
theorem Child.resumeAt_onTime (path : List Nat) (tidy : s.Tidy)
    (node : d.Accounts s env runner slots cs children) (place : children[i]? = some child)
    (rest : ∀ task name p c, child = .running task name p → cs[i]? = some c → p.RestOf s d.env c)
    (nodup : (d.run :: child.runs).Nodup) (bound : ∀ r ∈ d.run :: child.runs, r < s.runs)
    (ready : child.isReadyAt s path = true) (fills : Fills plan cs) (hx : plan[i]? = some x)
    (keeps : s.Keeps d.run t₀ plan) (onTime : child.OnTime x s.clock) :
    (child.resumeAt s d i path).1.Keeps d.run t₀ plan ∧
      (child.resumeAt s d i path).2.2.OnTime x s.clock := by
  have hrun : d.run < s.runs := bound d.run List.mem_cons_self
  obtain ⟨hnot, hnodup⟩ := List.nodup_cons.mp nodup
  obtain ⟨c, hc⟩ := node.getElem? place
  match child, path, onTime with
  | .spawned task a, [], onTime =>
      obtain rfl : a = c := node.fits i _ c place hc
      obtain ⟨lasting, hlasts, hstop⟩ := fills i a x hc hx
      have hstart : x.start = s.clock := onTime
      have hmark : (s.mark d.run (.started i a)).Keeps d.run t₀ plan :=
        keeps.mark ⟨x, hx, hstart.symm⟩
      have htidy := (Touches.mark d.run s (.started i a)).tidy tidy hrun
      obtain ⟨hclock, hothers⟩ := (Action.start_ran d.env _ htidy a).others
      have hends := hlasts d.env (s.mark d.run (.started i a)) tidy.isOpen
      have hclock' : (a.start d.env (s.mark d.run (.started i a))).1.clock = s.clock := hclock
      rw [Child.resumeAt_spawned]
      have hafter := Child.after_onTime (i := i) (d := d) (x := x) task a.name
        (hmark.congr (hothers d.run hrun List.not_mem_nil)) hx (by rw [hclock', hstart])
        (by rw [hclock', hstop, hstart]; exact hends)
      rwa [hclock'] at hafter
  | .running task name p, [], onTime =>
      obtain ⟨started, ends⟩ := onTime
      obtain ⟨hclock, hothers⟩ := (Proc.resume_ran (rest task name p c rfl hc) tidy hnodup
        fun r hr => bound r (List.mem_cons_of_mem _ hr)).others
      have hends := ends.resume tidy.isOpen (by simpa [Child.isReadyAt] using ready)
      rw [Child.resumeAt_running]
      have hafter := Child.after_onTime (i := i) (d := d) (x := x) task name
        (keeps.congr (hothers d.run hrun hnot)) hx (by rw [hclock]; exact started)
        (by rw [hclock]; exact hends)
      rwa [hclock] at hafter
  | .running task name p, index :: path, onTime =>
      obtain ⟨started, ends⟩ := onTime
      obtain ⟨hand, -⟩ := Proc.resumeAt_ran (rest task name p c rfl hc) tidy hnodup
        (fun r hr => bound r (List.mem_cons_of_mem _ hr)) index path
      rw [Child.resumeAt]
      exact ⟨keeps.congr (hand.others d.run hrun hnot), started,
        ends.resumeAt tidy.isOpen (by simpa [Child.isReadyAt] using ready)⟩
  | .spawned _ _, _ :: _, _ | .ended _ _, _, _ => simp [Child.isReadyAt] at ready

end

/-! ## The dispatcher -/

/-- A dispatcher and its children keep to the timetable.  Time has not gone past the start of the
next child, nor past the end of the run. -/
structure Dispatch.OnTime (t₀ : Nat) (plan : List Span) (s : Store) (d : Dispatch)
    (children : List Child) : Prop where
  begun : t₀ ≤ s.clock
  within : s.clock ≤ finish t₀ plan
  each : ∀ (i : Nat) child x, children[i]? = some child → plan[i]? = some x →
    child.OnTime x s.clock
  next : ∀ x, plan[children.length]? = some x → s.clock ≤ x.start
  notes : s.Keeps d.run t₀ plan

/-- How much a dispatcher has to do yet: children to admit, and ends to collect, out of `total`. -/
def Dispatch.left (total : Nat) (d : Dispatch) : Nat :=
  d.queue.length + (total - d.collected)

section

variable {s s' : Store} {env : Env} {runner : Action} {n t t₀ : Nat} {cs : List Action}
  {d d' : Dispatch} {children new : List Child} {ds : List Nat} {plan : List Span}

/-- If the items of one list that are counted have counted ones beside them in the other, there are
no more of them. -/
lemma countP_le_countP {α β : Type} {p : α → Bool} {q : β → Bool} {l : List α} {l' : List β}
    (length : l.length ≤ l'.length)
    (h : ∀ (i : Nat) x y, l[i]? = some x → l'[i]? = some y → p x = true → q y = true) :
    l.countP p ≤ l'.countP q := by
  induction l generalizing l' with
  | nil => exact Nat.zero_le _
  | cons x l ih =>
      cases l' with
      | nil => simp at length
      | cons y l' =>
          have htail := ih (by simpa using length) fun i => h (i + 1)
          have hhead := h 0 x y rfl rfl
          simp only [List.countP_cons]
          split_ifs with hx hy
          · omega
          · exact absurd (hhead hx) hy
          all_goals omega

/-- The children that have not ended by their times are live. -/
lemma unendedAt_le {k : Nat} (le : k ≤ children.length)
    (live : ∀ (i : Nat) child x, children[i]? = some child → plan[i]? = some x → t < x.stop →
      child.isLive = true) :
    unendedAt t (stopsBefore plan k) ≤ (children.take k).countP Child.isLive := by
  unfold unendedAt stopsBefore
  rw [List.countP_map]
  have hlength : (plan.take k).length ≤ (children.take k).length := by
    simp only [List.length_take]
    omega
  refine countP_le_countP hlength fun i x child hx hchild late => ?_
  rw [List.getElem?_take] at hx hchild
  split_ifs at hx hchild
  exact live i child x hchild hx (of_decide_eq_true late)

/-- It is a matter of the time and of the notes. -/
lemma Dispatch.OnTime.congr (h : d.OnTime t₀ plan s children) (clock : s'.clock = s.clock)
    (notes : s'.Keeps d'.run t₀ plan) : d'.OnTime t₀ plan s' children where
  begun := by rw [clock]; exact h.begun
  within := by rw [clock]; exact h.within
  each i child x hchild hx := by rw [clock]; exact h.each i child x hchild hx
  next x hx := by rw [clock]; exact h.next x hx
  notes := notes

/-- Those that have not been admitted start no earlier than now. -/
lemma Dispatch.OnTime.le_start (h : d.OnTime t₀ plan s children) (table : IsTimetable n t₀ ds plan)
    {k : Nat} {x : Span} (le : children.length ≤ k) (hx : plan[k]? = some x) :
    s.clock ≤ x.start := by
  have hlt := (List.getElem?_eq_some_iff.mp hx).1
  have hy := List.getElem?_eq_getElem (le.trans_lt hlt)
  exact (h.next _ hy).trans (table.start_mono le hy hx)

/-- Those that are admitted start now: one that is given a slot finds a vacancy. -/
lemma Dispatch.OnTime.start_eq (h : d.OnTime t₀ plan s children)
    (table : IsTimetable n t₀ ds plan)
    (node : d'.Accounts s' env runner (some n) cs (children ++ new))
    (fresh : ∀ c ∈ new, ∃ task a, c = .spawned task a) {k : Nat} {x : Span}
    (ge : children.length ≤ k) (lt : k < (children ++ new).length) (hx : plan[k]? = some x) :
    x.start = s.clock := by
  induction k using Nat.strongRecOn generalizing x with
  | ind k ih =>
    refine le_antisymm ?_ (h.le_start table ge hx)
    have hnew : ∀ (i : Nat) child, children.length ≤ i → (children ++ new)[i]? = some child →
        child.isLive = true := by
      intro i child hi hchild
      rw [List.getElem?_append_right hi] at hchild
      obtain ⟨task, a, rfl⟩ := fresh child (List.mem_of_getElem? hchild)
      rfl
    have hunended : unendedAt s.clock (stopsBefore plan k)
        ≤ ((children ++ new).take k).countP Child.isLive := by
      refine unendedAt_le lt.le fun i child y hchild hy late => ?_
      rcases Nat.lt_or_ge i children.length with hi | hi
      · rw [List.getElem?_append_left hi] at hchild
        exact (h.each i child y hchild hy).isLive late
      · exact hnew i child hi hchild
    -- The child itself has one of the slots.
    have hslots : ((children ++ new).take k).countP Child.isLive < n := by
      obtain ⟨⟨free, -, hfree⟩, -⟩ := node.within_limit
      have hself := hnew k _ ge (List.getElem?_eq_getElem lt)
      have hsub := (List.take_sublist (k + 1) (children ++ new)).countP_le (p := Child.isLive)
      rw [List.take_succ_eq_append_getElem lt, List.countP_append, List.countP_singleton,
        if_pos hself] at hsub
      omega
    refine table.start_le hx h.begun (fun j y hj hy => ?_) (hunended.trans_lt hslots)
    rcases Nat.lt_or_ge j children.length with hi | hi
    · exact (h.each j _ y (List.getElem?_eq_getElem hi) hy).start_le
    · exact (ih j (by omega) hi (by omega) hy).le

/-- **Children are admitted.** -/
lemma Dispatch.OnTime.admit (h : d.OnTime t₀ plan s children) (table : IsTimetable n t₀ ds plan)
    (node : d'.Accounts s' env runner (some n) cs (children ++ new))
    (fresh : ∀ c ∈ new, ∃ task a, c = .spawned task a) (clock : s'.clock = s.clock)
    (keeps : s'.Keeps d'.run t₀ plan) : d'.OnTime t₀ plan s' (children ++ new) where
  begun := by rw [clock]; exact h.begun
  within := by rw [clock]; exact h.within
  each i child x hchild hx := by
    rw [clock]
    rcases Nat.lt_or_ge i children.length with hi | hi
    · rw [List.getElem?_append_left hi] at hchild
      exact h.each i child x hchild hx
    · have hlt := (List.getElem?_eq_some_iff.mp hchild).1
      have hstart := h.start_eq table node fresh hi hlt hx
      rw [List.getElem?_append_right hi] at hchild
      obtain ⟨task, a, rfl⟩ := fresh child (List.mem_of_getElem? hchild)
      exact hstart
  next x hx := by
    rw [clock]
    exact h.le_start table (by rw [List.length_append]; exact Nat.le_add_right ..) hx
  notes := keeps

/-- Admitting children notes nothing that has a time to keep. -/
lemma Dispatch.admitAll_keeps (queue : List Action) (d : Dispatch) (children : List Child)
    (s : Store) (keeps : s.Keeps d.run t₀ plan) :
    (d.admitAll queue children s).2.2.Keeps d.run t₀ plan := by
  induction queue generalizing d children s with
  | nil => exact keeps
  | cons a queue ih =>
      unfold admitAll
      split
      · next free hfree =>
          refine ih { d with gate := some free } _ _ (Keeps.mark ?_ trivial)
          exact (keeps.report _).congr ((sameRuns_newTask _ _).notes d.run)
      · exact keeps

/-- So does collecting ends. -/
lemma Dispatch.collect_keeps (rest : List Child) (d : Dispatch) (s : Store)
    (keeps : s.Keeps d.run t₀ plan) : (d.collect rest s).2.1.Keeps d.run t₀ plan := by
  induction rest generalizing d s with
  | nil => exact keeps
  | cons c rest ih =>
      unfold collect
      split
      · exact keeps
      · exact ih { d with collected := d.collected + 1 } s keeps
      · next f _ =>
          exact ih { d with collected := d.collected + 1, failure := d.failure <|> some f } _
            (keeps.report _)

lemma Child.isLive_of_verdict?_eq_none {c : Child} (h : c.verdict? = none) : c.isLive = true := by
  cases c with
  | spawned | running => rfl
  | lost => cases h
  | ended name e =>
      match e, h with
      | .failed f, h => cases f <;> cases h

/-- Admitting makes the queue shorter if there is a free slot. -/
lemma Dispatch.admitAll_queue (queue : List Action) (d : Dispatch) (children : List Child)
    (s : Store) : (d.admitAll queue children s).1.collected = d.collected ∧
      (d.admitAll queue children s).1.queue.length ≤ queue.length ∧
      ∀ free, d.gate = some (free + 1) → queue ≠ [] →
        (d.admitAll queue children s).1.queue.length < queue.length := by
  induction queue generalizing d children s with
  | nil => exact ⟨rfl, le_refl _, fun _ _ hne => absurd rfl hne⟩
  | cons a queue ih =>
      unfold admitAll
      split
      · next free hfree =>
          have htail := ih { d with gate := some free }
          exact ⟨(htail ..).1, (htail ..).2.1.trans (Nat.le_succ _),
            fun _ _ _ => Nat.lt_succ_of_le (htail ..).2.1⟩
      · next hnone => exact ⟨rfl, le_refl _, fun free hfree => absurd hfree (hnone free)⟩

/-- Ends are collected one after another, the first of them if it is there. -/
lemma Dispatch.collect_collected (rest : List Child) (d : Dispatch) (s : Store) :
    (d.collect rest s).1.queue = d.queue ∧ d.collected ≤ (d.collect rest s).1.collected ∧
      ∀ c, rest.head? = some c → c.isLive = false →
        d.collected < (d.collect rest s).1.collected := by
  induction rest generalizing d s with
  | nil => exact ⟨rfl, le_refl _, fun c hc => by cases hc⟩
  | cons c rest ih =>
      unfold collect
      split
      · next hnone =>
          refine ⟨rfl, le_refl _, fun c' hc' ended => ?_⟩
          cases hc'
          rw [Child.isLive_of_verdict?_eq_none hnone] at ended
          cases ended
      · obtain ⟨hqueue, hle, -⟩ := ih { d with collected := d.collected + 1 } s
        exact ⟨hqueue, (Nat.le_succ _).trans hle, fun _ _ _ => hle⟩
      · next f _ =>
          obtain ⟨hqueue, hle, -⟩ :=
            ih { d with collected := d.collected + 1, failure := d.failure <|> some f }
              (s.report d.run (.childFailed d.runner c.name f.message))
          exact ⟨hqueue, (Nat.le_succ _).trans hle, fun _ _ _ => hle⟩

/-- What is left to do when the dispatcher has collected ends and still has to wait. -/
lemma Dispatch.wrapUp_left (h : d.wrapUp children s = (s', .paused (.concurrent d' new))) :
    new = children ∧ d'.queue = d.queue ∧ d.collected ≤ d'.collected ∧
      ∃ c, children[d.collected]? = some c ∧
        (c.isLive = false → d.collected < d'.collected) := by
  unfold wrapUp at h
  obtain ⟨hqueue, hle, hlt⟩ := d.collect_collected (children.drop d.collected) s
  cases hout : d.collect (children.drop d.collected) s with
  | mk d₁ out =>
      obtain ⟨s₁, complete⟩ := out
      rw [hout] at h hqueue hle hlt
      cases complete with
      | true => cases h
      | false =>
          cases h
          refine ⟨rfl, hqueue, hle, ?_⟩
          cases hc : children[d.collected]? with
          | none =>
              rw [List.drop_eq_nil_of_le (List.getElem?_eq_none_iff.mp hc)] at hout
              cases hout
          | some c => exact ⟨c, rfl, hlt c (by rw [List.head?_drop, hc])⟩

/-- **The dispatcher has less to do** after a turn in which it could go on. -/
lemma Dispatch.advance_left {total : Nat} (isOpen : s.closed = false)
    (le : children.length ≤ total) (ready : d.isReady children = true)
    (h : d.advance children s = (s', .paused (.concurrent d' new))) :
    d'.left total < d.left total := by
  by_cases admitted : d.queue = []
  · rw [advance_of_admitted admitted] at h
    obtain ⟨-, hqueue, -, c, hc, hlt⟩ := wrapUp_left h
    have hended : c.isLive = false := by
      simpa [Dispatch.isReady, admitted, hc] using ready
    have hlength := (List.getElem?_eq_some_iff.mp hc).1
    have := hlt hended
    simp only [left, hqueue]
    omega
  · obtain ⟨free, hfree⟩ : ∃ free, d.gate = some (free + 1) := by
      unfold Dispatch.isReady at ready
      rw [if_neg (by simpa using admitted)] at ready
      rcases hgate : d.gate with - | - | free
      · simp [hgate] at ready
      · simp [hgate] at ready
      · exact ⟨free, rfl⟩
    obtain ⟨hcollected, -, hlt⟩ := d.admitAll_queue d.queue children s
    have hqueue := hlt free hfree admitted
    rw [advance_eq (d.refused?_eq_none isOpen)] at h
    generalize d.admitAll d.queue children s = out at h hcollected hqueue
    by_cases hdone : out.1.queue.isEmpty = true
    · rw [if_pos hdone] at h
      obtain ⟨-, hsame, hle, -⟩ := wrapUp_left h
      simp only [left, hsame]
      omega
    · rw [if_neg hdone] at h
      cases h
      simp only [left, hcollected]
      omega

/-- When all children have ended the time has come for the run to end. -/
lemma Dispatch.OnTime.clock_eq (h : d.OnTime t₀ plan s children)
    (length : plan.length = children.length) (isOver : ∀ c ∈ children, c.isLive = false) :
    s.clock = finish t₀ plan := by
  refine le_antisymm h.within (finish_le_iff.mpr ⟨h.begun, fun x hx => ?_⟩)
  obtain ⟨i, hi⟩ := List.mem_iff_getElem?.mp hx
  have hlt : i < children.length := length ▸ (List.getElem?_eq_some_iff.mp hi).1
  have hchild := List.getElem?_eq_getElem hlt
  by_contra late
  have hlive := (h.each i _ x hchild hi).isLive (Nat.lt_of_not_le late)
  rw [isOver _ (List.mem_of_getElem? hchild)] at hlive
  cases hlive

end

/-- The run with the number `r` keeps to the timetable: its code has not started, or is on its way,
or has ended. -/
def Root.OnTime (s : Store) (r t₀ : Nat) (plan : List Span) : Root → Prop
  | .unstarted _ _ => s.clock = t₀
  | .running (.concurrent d children) => d.run = r ∧ d.OnTime t₀ plan s children
  | .ended _ => s.Keeps r t₀ plan
  | _ => False

section

variable {s s' : Store} {env : Env} {runner : Action} {n t t₀ : Nat} {cs : List Action}
  {d d' : Dispatch} {children new : List Child} {ds : List Nat} {plan : List Span}

/-- **Ends are collected.**  The run ends with the last of them. -/
lemma Dispatch.wrapUp_onTime (node : d.Accounts s env runner (some n) cs children)
    (admitted : d.queue = []) (length : plan.length = cs.length)
    (h : d.OnTime t₀ plan s children) :
    (Root.ofProgress (d.wrapUp children s).2).OnTime (d.wrapUp children s).1 d.run t₀ plan := by
  obtain ⟨done, rest, hsplit, hdone, hover, hfail⟩ := node.collected
  have hrest : children.drop d.collected = rest := by rw [hsplit, ← hdone, List.drop_left]
  have hkeeps := d.collect_keeps rest s h.notes
  have hall : children.length = cs.length := by
    have := List.drop_eq_nil_iff.mp (node.queue.symm.trans admitted)
    have := node.length_le
    omega
  rw [hsplit] at node
  obtain ⟨d', s', complete, heq, -, htouch, hrun, -, -, hcomplete⟩ :=
    collect_accounts rest d done s node hdone hover hfail
  rw [heq] at hkeeps
  unfold wrapUp
  rw [hrest, heq]
  cases complete with
  | true =>
      rw [← hsplit] at hcomplete
      have hclock := h.clock_eq (length.trans hall.symm) (hcomplete rfl).1
      have hended := hkeeps.mark (m := .finished (.ofResult d'.failure))
        (htouch.clock.trans hclock)
      rwa [← hrun] at hended ⊢
  | false => exact ⟨hrun, h.congr htouch.clock (by rwa [hrun])⟩

/-- **The dispatcher's turn.**  It keeps to the timetable. -/
theorem Dispatch.advance_onTime (isOpen : s.closed = false)
    (bare : runner.dispatch? = some (some n, cs))
    (node : d.Accounts s env runner (some n) cs children) (table : IsTimetable n t₀ ds plan)
    (length : ds.length = cs.length) (h : d.OnTime t₀ plan s children) :
    (Root.ofProgress (d.advance children s).2).OnTime (d.advance children s).1 d.run t₀ plan := by
  have hkeeps := d.admitAll_keeps d.queue children s h.notes
  obtain ⟨d', new, s', heq, hacc, htouch, hrun, -, hnew⟩ :=
    admitAll_accounts bare d.queue d children s node
  rw [heq] at hkeeps
  have honTime : d'.OnTime t₀ plan s' (children ++ new) :=
    h.admit table hacc hnew htouch.clock (by rwa [hrun])
  rw [advance_eq (d.refused?_eq_none isOpen), heq]
  by_cases hqueue : d'.queue.isEmpty = true
  · rw [if_pos hqueue, ← hrun]
    exact wrapUp_onTime hacc (List.isEmpty_iff.mp hqueue) (table.length.trans length) honTime
  · rw [if_neg hqueue]
    exact ⟨hrun, honTime⟩

/-! ## Turns of children -/

/-- A turn of a child changes nothing of the dispatcher but the number of free slots. -/
lemma Child.resumeAt_dispatch (s : Store) (d : Dispatch) (i : Nat) (child : Child)
    (path : List Nat) : ∃ gate, (child.resumeAt s d i path).2.1 = { d with gate } := by
  have hafter : ∀ task name out, ∃ gate, (Child.after d i task name out).2.1 = { d with gate } := by
    rintro task name ⟨s', p | e⟩
    · exact ⟨d.gate, rfl⟩
    · obtain ⟨run, env, gate, queue, collected, failure⟩ := d
      cases gate <;> exact ⟨_, rfl⟩
  match child, path with
  | .spawned task a, [] =>
      rw [Child.resumeAt_spawned]
      exact hafter ..
  | .running task name p, [] =>
      rw [Child.resumeAt_running]
      exact hafter ..
  | .running task name p, _ :: _ =>
      rw [Child.resumeAt]
      exact ⟨d.gate, rfl⟩
  | .spawned _ _, _ :: _ | .ended _ _, _ | .lost _, _ =>
      rw [Child.resumeAt]
      · exact ⟨d.gate, rfl⟩
      all_goals simp

/-- Another child that keeps its time stands in the place of one. -/
lemma Dispatch.OnTime.set {i : Nat} {child : Child} {x : Span} (h : d.OnTime t₀ plan s children)
    (clock : s'.clock = s.clock) (notes : s'.Keeps d'.run t₀ plan) (hx : plan[i]? = some x)
    (onTime : child.OnTime x s.clock) : d'.OnTime t₀ plan s' (children.set i child) where
  begun := by rw [clock]; exact h.begun
  within := by rw [clock]; exact h.within
  each j c y hc hy := by
    rw [clock]
    rw [List.getElem?_set] at hc
    split_ifs at hc with hj
    · subst hj
      cases hc
      rw [hx] at hy
      cases hy
      exact onTime
    · exact h.each j c y hc hy
  next y hy := by
    rw [clock]
    rw [List.length_set] at hy
    exact h.next y hy
  notes := notes

/-- **A task goes on.**  The run keeps to the timetable. -/
theorem Dispatch.resumeAt_onTime {a : Action} {index : Nat} {path : List Nat} (tidy : s.Tidy)
    (bare : a.bare.dispatch? = some (some n, cs))
    (rest : (Proc.concurrent d children).RestOf s env a)
    (nodup : (Proc.concurrent d children).runs.Nodup)
    (bound : ∀ r ∈ (Proc.concurrent d children).runs, r < s.runs)
    (ready : (Proc.concurrent d children).isReadyAt s index path = true) (fills : Fills plan cs)
    (length : plan.length = cs.length) (h : d.OnTime t₀ plan s children) :
    ∃ s' d' children', (Proc.concurrent d children).resumeAt s index path
        = (s', .concurrent d' children') ∧ s'.clock = s.clock ∧ d'.run = d.run ∧
      (∀ total, d'.left total = d.left total) ∧
      OneStep (Child.Turns s.clock) children' children ∧ d'.OnTime t₀ plan s' children' := by
  have hclock := (Proc.resumeAt_ran rest tidy nodup bound index path).1.clock
  rw [Proc.isReadyAt, isReadyAmong_eq] at ready
  rw [Proc.resumeAt, resumeAmong_eq] at hclock ⊢
  cases hplace : children[index]? with
  | none => simp [hplace] at ready
  | some child =>
      rw [hplace, Option.any_some] at ready
      rw [hplace] at hclock
      simp only [Nat.zero_add] at hclock ⊢
      cases rest with
      | @concurrent _ _ slots cs' _ _ bare' node below =>
          rw [bare] at bare'
          cases bare'
          have hlt := (List.getElem?_eq_some_iff.mp hplace).1
          have hx := List.getElem?_eq_getElem (hlt.trans_le (node.length_le.trans length.ge))
          obtain ⟨hnodup, hbound⟩ := runs_of_child hplace nodup bound
          obtain ⟨hkeeps, honTime⟩ := Child.resumeAt_onTime path tidy node hplace
            (fun task name p c hc => by subst hc; exact below index task name p c hplace) hnodup
            hbound ready fills hx h.notes (h.each index child _ hplace hx)
          obtain ⟨gate, hgate⟩ := Child.resumeAt_dispatch s d index child path
          refine ⟨_, _, _, rfl, hclock, by rw [hgate], fun total => by rw [hgate]; rfl, ?_, ?_⟩
          · exact ⟨index, child, _, hplace, ⟨s, d, index, path, rfl, tidy.isOpen, ready, rfl⟩, rfl⟩
          · exact h.set hclock (by rw [hgate]; exact hkeeps) hx honTime

/-- A run that keeps to its timetable has finitely many turns of children before time moves. -/
lemma Dispatch.OnTime.acc (h : d.OnTime t₀ plan s children)
    (node : d.Accounts s env runner (some n) cs children) (fills : Fills plan cs)
    (length : plan.length = cs.length) : Acc (OneStep (Child.Turns s.clock)) children := by
  refine acc_oneStep fun child hchild => ?_
  obtain ⟨i, hi⟩ := List.mem_iff_getElem?.mp hchild
  obtain ⟨c, hc⟩ := node.getElem? hi
  have hx := List.getElem?_eq_getElem ((List.getElem?_eq_some_iff.mp hc).1.trans_le length.ge)
  have honTime := h.each i child _ hi hx
  cases child with
  | spawned task a =>
      obtain rfl : a = c := node.fits i _ c hi hc
      obtain ⟨d', hlasts, -⟩ := fills i a _ hc hx
      exact hlasts.acc s.clock task
  | running task name p => exact honTime.2.acc task name
  | ended name e => exact Child.acc_ended s.clock name e
  | lost => exact honTime.elim

/-! ## Time -/

/-- The times that a running child waits for are among those that the run waits for. -/
lemma mem_wakeTimesAmong {i task time : Nat} {name : String} {p : Proc}
    (hp : children[i]? = some (.running task name p)) (h : time ∈ p.wakeTimes) :
    time ∈ wakeTimesAmong children := by
  induction children generalizing i with
  | nil => cases hp
  | cons c children ih =>
      rw [wakeTimesAmong, List.mem_append]
      cases i with
      | zero => cases hp; exact .inl h
      | succ i => exact .inr (ih hp)

/-- Where nothing is ready a child that keeps its time stays on time until somebody wakes. -/
lemma Child.OnTime.later {x : Span} {i : Nat} {child : Child} (isOpen : s.closed = false)
    (idle : (Proc.concurrent d children).IsIdle s) (place : children[i]? = some child)
    (lt : s.clock < t) (next : ∀ time ∈ wakeTimesAmong children, s.clock < time → t ≤ time)
    (h : child.OnTime x s.clock) : child.OnTime x t := by
  cases child with
  | spawned =>
      have hidle := idle.child place []
      simp [Child.isReadyAt] at hidle
  | running task name p =>
      obtain ⟨started, ends⟩ := h
      exact ⟨started.trans lt.le, ends.later isOpen (idle.running place) lt
        fun time htime => next time (mem_wakeTimesAmong place htime)⟩
  | ended => exact ⟨h.1.trans lt.le, h.2.trans lt.le⟩
  | lost => exact h.elim

/-- Children that are running at a time, and on time, have not ended before. -/
lemma countP_isRunning_le {time : Nat} (length : children.length ≤ plan.length)
    (onTime : ∀ (i : Nat) child x, children[i]? = some child → plan[i]? = some x →
      child.OnTime x time) (lt : t < time) :
    children.countP Child.isRunning ≤ unendedAt t (stopsBefore plan children.length) := by
  unfold unendedAt stopsBefore
  rw [List.countP_map]
  have hlength : children.length ≤ (plan.take children.length).length := by
    simp only [List.length_take]
    omega
  refine countP_le_countP hlength fun i child x hchild hx running => ?_
  rw [List.getElem?_take] at hx
  split_ifs at hx
  have honTime := onTime i child x hchild hx
  cases child with
  | running task name p =>
      have hstop := honTime.2.le
      simp only [Function.comp_apply, decide_eq_true_eq]
      omega
  | spawned | ended | lost => cases running

/-- **Time goes on.**  Where nothing is ready time moves to the next end at the latest: not past the
start of a child that is still in the queue, since that has to wait for an end. -/
theorem Dispatch.OnTime.later (h : d.OnTime t₀ plan s children) (isOpen : s.closed = false)
    (bare : runner.dispatch? = some (some n, cs))
    (node : d.Accounts s env runner (some n) cs children) (table : IsTimetable n t₀ ds plan)
    (length : ds.length = cs.length) (pos : 0 < n)
    (idle : (Proc.concurrent d children).IsIdle s) (lt : s.clock < s'.clock)
    (next : ∀ time ∈ wakeTimesAmong children, s.clock < time → s'.clock ≤ time)
    (notes : s'.notes d.run = s.notes d.run) : d.OnTime t₀ plan s' children := by
  have hall : plan.length = cs.length := table.length.trans length
  have heach : ∀ (i : Nat) child x, children[i]? = some child → plan[i]? = some x →
      child.OnTime x s'.clock :=
    fun i child x hchild hx => (h.each i child x hchild hx).later isOpen idle hchild lt next
  refine ⟨h.begun.trans lt.le, ?_, heach, fun x hx => ?_, h.notes.congr notes⟩
  · -- Somebody is running, and does not end before the new time.
    obtain ⟨i, task, name, p, hp⟩ := node.exists_running bare idle
    have hlt := (List.getElem?_eq_some_iff.mp hp).1
    have hx := List.getElem?_eq_getElem (hlt.trans_le (node.length_le.trans hall.ge))
    have hstop := (finish_le_iff.mp (le_refl (finish t₀ plan))).2 _ (List.mem_of_getElem? hx)
    exact (heach i _ _ hp hx).2.le.trans hstop
  · by_contra late
    have hqueued : children.length < cs.length := hall ▸ (List.getElem?_eq_some_iff.mp hx).1
    have hrunning : children.countP Child.isRunning = n := by
      refine (node.running_eq idle.code fun c hc hlive => ?_).2.2 hqueued
      obtain ⟨i, hi⟩ := List.mem_iff_getElem?.mp hc
      exact Child.isRunning_of_isLive hlive (idle.child hi [])
    -- All slots are taken, by children that have not ended when the next one is to start.
    have htaken := countP_isRunning_le (by omega) heach (Nat.lt_of_not_le late)
    have hroom := table.room pos hx
    omega

end

end Workflow
