import Workflow.Proofs.ErrorPath
import Workflow.Proofs.Succession

/-!
# Linear runs stop at the first child that does not succeed

A linear run is the fold of its children that stops early: each child is run on the surroundings of
the caller, when the one before it has succeeded, and the first one that does not succeed ends the
run.

**The marks.**  `FailFast` says what marks such a run makes.  The marks of a linear run, wherever it
stands, are of that form (`World.HasRun.failFast`).  What makes it so is that a linear run that
nobody holds any more has ended or was given up at its current child (`World.Leads.isStopped`).

**The worlds.**  `World.InSequence` says what a linear run comes to when it is run on its own: the
worlds that its children come to when each of them is run on its own, one after another.  A step of
the run is a step of its current child (`InSequence.step`).

**`World.fail_fast`** puts the two together.
-/

namespace Workflow

open Store

/-! ## The marks of a linear run -/

namespace Mark

/-- Whether a mark is an event for observers. -/
def isEvent : Mark → Bool
  | event _ => true
  | _ => false

end Mark

/-- The marks without the events for observers. -/
def silent (ms : List Mark) : List Mark :=
  ms.filter fun m => !m.isEvent

/-- The marks of a linear run that goes on with the children of a list, the first of which has the
index `i`: each is started when the one before it has succeeded.  When one does not succeed, the run
ends in the same moment: with success if the child has asked to skip the remainder, with its failure
under its name, or with its panic.  When the current child is given up there is nothing more. -/
inductive FailFast : Nat → List Action → List Mark → Prop where
  | finished {i : Nat} : FailFast i [] [.finished .done]
  | running {i : Nat} {c : Action} {cs : List Action} : FailFast i (c :: cs) [.started i c]
  | dropped {i : Nat} {c : Action} {cs : List Action} :
      FailFast i (c :: cs) [.started i c, .dropped i]
  | skipped {i : Nat} {c : Action} {cs : List Action} :
      FailFast i (c :: cs)
        [.started i c, .ended i (.failed .skipRemainder), .finished .done]
  | failed {i : Nat} {c : Action} {cs : List Action} {f : Failure} (hf : f ≠ .skipRemainder) :
      FailFast i (c :: cs)
        [.started i c, .ended i (.failed f), .finished (.failed (.failed c.name f))]
  | panicked {i : Nat} {c : Action} {cs : List Action} {payload : Option String} :
      FailFast i (c :: cs)
        [.started i c, .ended i (.panicked payload), .finished (.panicked payload)]
  | next {i : Nat} {c : Action} {cs : List Action} {ms : List Mark}
      (rest : FailFast (i + 1) cs ms) :
      FailFast i (c :: cs) (.started i c :: .ended i .done :: ms)

lemma FailFast.stopped {i : Nat} {c : Action} {cs : List Action} {x : Exit} (hx : x ≠ .done) :
    FailFast i (c :: cs) [.started i c, .ended i x, .finished (x.stopping c.name)] := by
  cases x with
  | done => exact absurd rfl hx
  | panicked payload => exact .panicked
  | failed f =>
      by_cases hf : f = .skipRemainder
      · subst hf
        exact .skipped
      · have hstopping : (Exit.failed f).stopping c.name = .failed (.failed c.name f) := by
          cases f <;> first | exact absurd rfl hf | rfl
        rw [hstopping]
        exact .failed hf

/-- The marks that bring children, the first of which has the index `i`, to their stages, one child
after another. -/
def lives : Nat → List Action → List Stage → List Mark
  | i, c :: cs, st :: sts => st.life false i c ++ lives (i + 1) cs sts
  | _, _, _ => []

lemma lives_concat {i : Nat} {cs : List Action} {sts : List Stage} {st : Stage} {c : Action}
    (hc : cs[sts.length]? = some c) :
    lives i cs (sts ++ [st]) = lives i cs sts ++ st.life false (i + sts.length) c := by
  induction sts generalizing i cs with
  | nil =>
      obtain ⟨cs, rfl⟩ : ∃ cs', cs = c :: cs' := by
        cases cs with
        | nil => cases hc
        | cons c' cs => cases hc; exact ⟨cs, rfl⟩
      cases cs <;> simp [lives]
  | cons st' sts ih =>
      cases cs with
      | nil => cases hc
      | cons c' cs =>
          rw [List.length_cons, List.getElem?_cons_succ] at hc
          rw [List.cons_append, lives, ih hc, lives, List.append_assoc, List.length_cons,
            Nat.add_right_comm, Nat.add_assoc]

/-- Children that have succeeded come before the others. -/
lemma FailFast.after {before rest : List Action} {i : Nat} {ms : List Mark}
    (h : FailFast (i + before.length) rest ms) :
    FailFast i (before ++ rest)
      (lives i (before ++ rest) (List.replicate before.length (.ended .done)) ++ ms) := by
  induction before generalizing i with
  | nil => simpa [lives] using h
  | cons c before ih =>
      rw [List.length_cons, ← Nat.add_assoc, Nat.add_right_comm] at h
      exact .next (ih h)

namespace Chronicle

variable {ms : List Mark} {ch ch' : Chronicle} {cs : List Action}

/-- In a linear run over `cs` all children but the last that was started have succeeded, and the
marks are those that bring its children to their stages one after another, and then the mark of its
end. -/
structure IsLine (ch : Chronicle) (cs : List Action) (ms : List Mark) : Prop where
  stages : ∃ k more, ch.stages = List.replicate k (.ended .done) ++ more ∧ more.length ≤ 1
  silent : silent ms = .begun (.linear cs) :: (lives 0 cs ch.stages ++ ch.exit.toList.map .finished)

/-- The child of a linear run that has not ended is the last that was started. -/
lemma IsLine.of_running (h : ch.IsLine cs ms) {i : Nat} (stage : ch.stages[i]? = some .running) :
    ch.stages = List.replicate i (.ended .done) ++ [.running] := by
  obtain ⟨k, more, hst, hmore⟩ := h.stages
  rw [hst] at stage ⊢
  match more, hmore with
  | [], _ =>
      rw [List.append_nil, List.getElem?_replicate] at stage
      split_ifs at stage
      cases stage
  | [st], _ =>
      rw [getElem?_concat, List.length_replicate] at stage
      split_ifs at stage with hi
      · subst hi; cases stage; rfl
      · rw [List.getElem?_replicate] at stage
        split_ifs at stage
        cases stage

lemma getElem?_children (hr : ch.runner = .linear cs) (i : Nat) : ch.children[i]? = cs[i]? := by
  rw [children, hr]
  rfl

/-- The current child of a linear run goes one stage further. -/
lemma IsLine.move (line : ch.IsLine cs ms) (h : ofMarks? ms = some ch)
    (hr : ch.runner = .linear cs) {i : Nat} {st : Stage} {m : Mark}
    (moved : ch.move i .running st = some ch') (notEvent : m.isEvent = false)
    (life : ∀ c, st.life false i c = [.started i c, m]) : ch'.IsLine cs (ms ++ [m]) := by
  obtain ⟨hst, rfl⟩ := move_eq_some.mp moved
  have hexit : ch.exit = none := by
    rw [Option.eq_none_iff_forall_ne_some]
    intro e he
    cases isOver_of_outcome? (outcome?_of_exit h he) _ (List.mem_of_getElem? hst)
  have hstages := line.of_running hst
  have hset : ch.stages.set i st = List.replicate i (.ended .done) ++ [st] := by
    rw [hstages]; simp
  have hc : ∃ c, cs[(List.replicate i (Stage.ended .done)).length]? = some c := by
    rw [List.length_replicate]
    have hle := length_le h
    have hlt := (List.getElem?_eq_some_iff.mp hst).1
    rw [children, hr] at hle
    exact ⟨_, List.getElem?_eq_getElem (hlt.trans_le hle)⟩
  obtain ⟨c, hc⟩ := hc
  refine ⟨⟨i, [st], hset, le_refl 1⟩, ?_⟩
  have hsnoc : Workflow.silent (ms ++ [m]) = Workflow.silent ms ++ [m] := by
    simp [Workflow.silent, notEvent]
  rw [hsnoc, line.silent]
  dsimp only
  rw [hset, hstages, lives_concat hc, lives_concat hc, hexit, List.length_replicate, Nat.zero_add,
    life]
  simp [Stage.life]

/-- **What the marks of a linear run are.** -/
theorem isLine (h : ofMarks? ms = some ch) (hr : ch.runner = .linear cs) : ch.IsLine cs ms := by
  revert hr
  refine induction (P := fun ms ch => ch.runner = .linear cs → ch.IsLine cs ms) ?_ ?_ h
  · rintro runner rfl
    exact ⟨⟨0, [], rfl, Nat.zero_le 1⟩, by simp [silent, Mark.isEvent, lives]⟩
  · intro ms ch m ch' h ih hm hr
    have hr₀ : ch.runner = .linear cs := (change_of_next? hm).1.symm.trans hr
    have line := ih hr₀
    have hspawns : ch.spawns = false := by simp [spawns, hr₀, Action.dispatch?]
    have hsnoc : silent (ms ++ [m]) = silent ms ++ silent [m] := List.filter_append ..
    cases m with
    | event e =>
        cases hm
        exact ⟨line.stages, by rw [hsnoc, line.silent]; simp [silent, Mark.isEvent]⟩
    | begun a => cases hm
    | derived c => simp [next?, hspawns] at hm
    | spawned i c => simp [next?, admits, hr₀, Action.dispatch?] at hm
    | discarded i => simp [next?, hspawns] at hm
    | started i c =>
        simp only [next?, hspawns, Bool.false_eq_true, if_false] at hm
        split_ifs at hm with hc hturn
        cases hm
        obtain ⟨rfl, hturn⟩ := hturn
        simp only [startsNext, hr₀, Bool.and_eq_true, List.all_eq_true, decide_eq_true_eq,
          Option.isNone_iff_eq_none] at hturn
        have hdone : ch.stages = List.replicate ch.stages.length (.ended .done) :=
          List.eq_replicate_iff.mpr ⟨rfl, hturn.2⟩
        rw [getElem?_children hr₀] at hc
        refine ⟨⟨ch.stages.length, [.running], by rw [← hdone], le_refl 1⟩, ?_⟩
        rw [hsnoc, line.silent, lives_concat hc, hturn.1]
        simp [silent, Mark.isEvent, Stage.life]
    | ended i e => exact line.move h hr₀ hm rfl fun c => rfl
    | dropped i => exact line.move h hr₀ hm rfl fun c => rfl
    | finished e =>
        simp only [next?] at hm
        split_ifs at hm with hexit
        cases hm
        exact ⟨line.stages, by rw [hsnoc, line.silent, hexit.1]; simp [silent, Mark.isEvent]⟩

/-- The children of a linear run that have succeeded are the first ones. -/
lemma exists_before (h : ofMarks? ms = some ch) (hr : ch.runner = .linear cs) {k : Nat}
    {more : List Stage} (stages : ch.stages = List.replicate k (.ended .done) ++ more) :
    ∃ before after, cs = before ++ after ∧ before.length = k ∧ more.length ≤ after.length := by
  have hle := length_le h
  rw [children, hr, stages, List.length_append, List.length_replicate] at hle
  replace hle : k + more.length ≤ cs.length := hle
  refine ⟨cs.take k, cs.drop k, (List.take_append_drop k cs).symm,
    List.length_take_of_le (by omega), ?_⟩
  rw [List.length_drop]
  omega

/-- The marks of a linear run that has come as far as its last child that was started. -/
lemma failFast_of_current (h : ofMarks? ms = some ch) (hr : ch.runner = .linear cs) {k : Nat}
    {st : Stage} (stages : ch.stages = List.replicate k (.ended .done) ++ [st])
    (current : ∀ c after, cs[k]? = some c →
      FailFast k (c :: after) (st.life false k c ++ ch.exit.toList.map .finished)) :
    ∃ ms', silent ms = .begun (.linear cs) :: ms' ∧ FailFast 0 cs ms' := by
  obtain ⟨before, after, rfl, rfl, hmore⟩ := exists_before h hr stages
  match after, hmore with
  | c :: after, _ =>
      refine ⟨_, (isLine h hr).silent, ?_⟩
      have hc : (before ++ c :: after)[(List.replicate before.length
          (Stage.ended .done)).length]? = some c := by simp
      rw [stages, lives_concat hc, List.length_replicate, Nat.zero_add, List.append_assoc]
      refine FailFast.after ?_
      rw [Nat.zero_add]
      exact current c after (by simp)

/-- The marks of a linear run that has ended. -/
lemma failFast_of_exit (h : ofMarks? ms = some ch) (hr : ch.runner = .linear cs) {e : Exit}
    (exit : ch.exit = some e) : ∃ ms', silent ms = .begun (.linear cs) :: ms' ∧
      FailFast 0 cs ms' := by
  have houtcome := outcome?_of_exit h exit
  rcases linear_cases hr houtcome with ⟨rfl, hdone⟩ | ⟨k, c, x, hc, hst, hx, rfl⟩
  · refine ⟨_, (isLine h hr).silent, ?_⟩
    have hlen : ch.stages = List.replicate cs.length (.ended .done) := by
      simp only [outcome?, hr] at houtcome
      rcases linearOutcome?_cases houtcome with ⟨hst, -⟩ | ⟨before, _, _, x, -, hst, hx, -⟩
      · rwa [List.length_map] at hst
      · have hlast : ch.stages[before.length]? = some (.ended x) := by rw [hst]; simp
        cases hdone _ _ hlast
        exact absurd rfl hx
    have hafter : FailFast 0 (cs ++ []) _ := .after .finished
    rw [List.append_nil, ← hlen] at hafter
    rw [exit]
    exact hafter
  · refine failFast_of_current h hr hst fun c' after hc' => ?_
    rw [hc] at hc'
    cases hc'
    rw [exit]
    exact .stopped hx

end Chronicle

/-! ## Runs that nobody holds -/

/-- If the run is a linear one, it has ended, or its current child was given up. -/
def Store.IsStopped (s : Store) (r : Nat) : Prop :=
  ∀ ch cs, s.chronicle? r = some ch → ch.runner = .linear cs → ch.exit ≠ none ∨
    ch.exit = none ∧ ∃ k, ch.stages = List.replicate k (.ended .done) ++ [.dropped]

namespace Store.IsStopped

variable {s s' : Store} {r : Nat}

lemma congr (h : s.IsStopped r) (notes : s'.notes r = s.notes r) : s'.IsStopped r := by
  intro ch cs hch
  rw [chronicle?_congr notes] at hch
  exact h ch cs hch

lemma of_hasEnded (h : s.HasEnded r) : s.IsStopped r := by
  obtain ⟨a, e, ch, hch, -, hexit⟩ := h
  intro ch' cs hch' _
  rw [hch] at hch'
  cases hch'
  exact .inl (by rw [hexit]; simp)

/-- A run whose children have tasks of their own is none. -/
lemma of_spawns {ch : Chronicle} (hch : s.chronicle? r = some ch) (hs : ch.spawns = true) :
    s.IsStopped r := by
  intro ch' cs hch' hr
  rw [hch] at hch'
  cases hch'
  simp [Chronicle.spawns, hr, Action.dispatch?] at hs

lemma mark_of_spawns {ch : Chronicle} (hch : s.chronicle? r = some ch) (hs : ch.spawns = true)
    (m : Mark) : (s.mark r m).IsStopped r := by
  intro ch' cs hch' hr
  rw [chronicle?_mark hch] at hch'
  have hs' : ch'.spawns = true :=
    (Chronicle.spawns_congr (Chronicle.change_of_next? hch').1).trans hs
  simp [Chronicle.spawns, hr, Action.dispatch?] at hs'

end Store.IsStopped

/-- A linear run that is held stands at a child that has not ended. -/
lemma Proc.RestOf.stages {s : Store} {env : Env} {a : Action} {p : Proc} (rest : p.RestOf s env a)
    {r : Nat} (hr : r ∈ p.runs) {ch : Chronicle} (hch : s.chronicle? r = some ch)
    {cs : List Action} (hlinear : ch.runner = .linear cs) :
    ch.exit = none ∧ ∃ k, ch.stages = List.replicate k (.ended .done) ++ [.running] := by
  induction rest with
  | leaf => cases hr
  | within _ _ _ _ _ ih => exact ih hr
  | linear bare place called chronicle rest ih =>
      rcases List.mem_cons.mp hr with rfl | hr
      · rw [chronicle] at hch
        cases hch
        exact ⟨rfl, _, rfl⟩
      · exact ih hr
  | @concurrent env a slots cs' d children bare node below ih =>
      rcases List.mem_cons.mp hr with rfl | hr
      · rw [node.chronicle] at hch
        cases hch
        replace hlinear : a.bare = .linear cs := hlinear
        rw [hlinear] at bare
        cases bare
      · obtain ⟨child, hchild, hr⟩ := mem_runsAmong.mp hr
        obtain ⟨i, hi⟩ := List.mem_iff_getElem?.mp hchild
        match child, hr with
        | .running task name p, hr =>
            have hlt : i < cs'.length :=
              Nat.lt_of_lt_of_le (List.getElem?_eq_some_iff.mp hi).1 node.length_le
            exact ih i task name p _ hi (List.getElem?_eq_getElem hlt) hr

/-- When a process is dropped, the linear runs that it held are given up at their current
children. -/
lemma Proc.drop_isStopped {s : Store} {env : Env} {a : Action} {p : Proc} (rest : p.RestOf s env a)
    (nodup : p.runs.Nodup) {r : Nat} (hr : r ∈ p.runs) (hn : r ∉ heldBy (p.drop s).2) :
    (p.drop s).1.IsStopped r := by
  induction rest with
  | leaf => cases hr
  | @within env own a inner kind name b₀ guards handle under k p before bare leads _ rest ih =>
      have hsame := ((p.drop s).1.sameRuns_leave handle).trans (sameRuns_endGuards _ guards)
      exact (ih nodup hr hn).congr (hsame.notes r)
  | @linear env a c before after run index name p bare place called chronicle rest ih =>
      obtain ⟨hrun, hnodup⟩ := List.nodup_cons.mp nodup
      have hothers := (Proc.drop_drops rest hnodup).others
      rcases List.mem_cons.mp hr with rfl | hmem
      · have hbefore : (p.drop s).1.chronicle? r = some (linearAt a index [.running]) :=
          (chronicle?_congr (hothers r hrun)).trans chronicle
        have hafter := (chronicle?_mark hbefore (.dropped index)).trans (move_linearAt ..)
        intro ch cs hch hlinear
        have heq : some ch = some (linearAt a index [.dropped]) := hch.symm.trans hafter
        cases heq
        exact .inr ⟨rfl, index, rfl⟩
      · have hne : r ≠ run := by rintro rfl; exact hrun hmem
        exact (ih hnodup hmem hn).congr (notes_mark_of_ne _ _ hne)
  | @concurrent env a slots cs d children bare node below _ =>
      rcases List.mem_cons.mp hr with rfl | hr
      · exact .of_spawns node.chronicle (by simp [Chronicle.spawns, bare])
      · exact absurd ((heldBy_orphansOf d.run 0 children).symm ▸ hr) hn

namespace World

variable {w v u z : World} {base : Nat} {env : Env} {a : Action} {r i : Nat}

/-- Of the runs that have begun since, all that nobody holds have stopped. -/
def Stopped (base : Nat) (w : World) : Prop :=
  ∀ r, base ≤ r → r < w.store.runs → r ∉ w.root.runs → r ∉ heldBy w.orphans → w.store.IsStopped r

lemma Accounted.stopped (h : w.Accounted base env a) (hroot : w.root ≠ .dropped) :
    w.Stopped base :=
  fun r hb hr hn _ => .of_hasEnded (h.ended hroot r hb hr hn)

/-- Nothing happens that concerns runs. -/
lemma Stopped.congr (h : w.Stopped base) {s : Store} (runs : s.runs = w.store.runs)
    (notes : ∀ r, s.notes r = w.store.notes r) (agenda : List Appointment) :
    ({ w with store := s, agenda } : World).Stopped base :=
  fun r hb hr hn hn' => (h r hb (by rw [← runs]; exact hr) hn hn').congr (notes r)

lemma Stopped.sameRuns (h : w.Stopped base) {s : Store} (same : w.store.SameRuns s)
    (agenda : List Appointment) : ({ w with store := s, agenda } : World).Stopped base :=
  h.congr same.runs same.notes agenda

lemma Stopped.advance (h : w.Stopped base) (time : Nat) : (w.advance time).Stopped base :=
  h.congr (s := (w.advance time).store) rfl (fun _ => rfl) w.agenda

/-- What an orphan does not hold, nor the others, is held by none of them. -/
lemma not_mem_heldBy {orphans : List Orphan} {place : Nat} {o : Orphan}
    (ho : orphans[place]? = some o) (hn : r ∉ o.child.runs)
    (hn' : r ∉ heldBy (orphans.eraseIdx place)) : r ∉ heldBy orphans := by
  obtain ⟨hlt, rfl⟩ := List.getElem?_eq_some_iff.mp ho
  intro hr
  obtain ⟨o', ho', hr⟩ := mem_heldBy.mp hr
  rcases List.mem_cons.mp ((List.getElem_cons_eraseIdx_perm hlt).mem_iff.mpr ho') with rfl | ho'
  · exact hn hr
  · exact hn' (mem_heldBy.mpr ⟨o', ho', hr⟩)

/-- An orphan is dropped. -/
lemma Stopped.dropOrphan (h : w.Stopped base) (account : w.Accounted base env a) {place : Nat}
    {o : Orphan} (ho : w.orphans[place]? = some o) :
    ({ w with store := (o.drop w.store).1
              orphans := w.orphans.eraseIdx place ++ (o.drop w.store).2 } : World).Stopped
      base := by
  have left := account.left.first ho
  obtain ⟨-, -, hruns, -⟩ := left.drop
  intro r hb hr hn hn'
  rw [heldBy_append, List.mem_append, not_or] at hn'
  obtain ⟨run, index, child⟩ := o
  obtain ⟨ch, hch, hspawns, -⟩ := left.stage _ List.mem_cons_self
  have hlt : r < w.store.runs := by rw [← hruns]; exact hr
  have hbefore : r ∉ child.runs → w.store.IsStopped r := fun hn'' =>
    h r hb hlt hn (not_mem_heldBy ho hn'' hn'.1)
  match child, left.live _ List.mem_cons_self with
  | .spawned task c, _ =>
      have hsame := w.store.sameRuns_endTask task
      by_cases hrun : r = run
      · subst hrun
        exact .mark_of_spawns ((chronicle?_congr (hsame.notes r)).trans hch) hspawns _
      · exact (hbefore List.not_mem_nil).congr
          ((notes_mark_of_ne _ _ hrun).trans (hsame.notes r))
  | .running task name p, _ =>
      obtain ⟨env', a', rest⟩ := left.rest _ List.mem_cons_self task name p rfl
      have hnodup : p.runs.Nodup := left.nodup_cons.1
      have hothers := (Proc.drop_drops rest hnodup).others
      have hsame := (p.drop w.store).1.sameRuns_endTask task
      by_cases hrun : r = run
      · subst hrun
        exact .mark_of_spawns ((chronicle?_congr ((hsame.notes r).trans
          (hothers r left.parent_head.2.1))).trans hch) hspawns _
      · have hmark := notes_mark_of_ne ((p.drop w.store).1.endTask task) (.dropped index) hrun
        by_cases hmem : r ∈ p.runs
        · exact (Proc.drop_isStopped rest hnodup hmem hn'.2).congr (hmark.trans (hsame.notes r))
        · exact (hbefore hmem).congr (hmark.trans ((hsame.notes r).trans (hothers r hmem)))

/-- A task below an orphan goes on. -/
lemma Stopped.pollOrphanTask (h : w.Stopped base) (account : w.Accounted base env a) {place : Nat}
    {o : Orphan} (ho : w.orphans[place]? = some o) (index : Nat) (path : List Nat) :
    ({ w with store := (o.resumeAt w.store index path).1
              orphans := w.orphans.set place (o.resumeAt w.store index path).2 } : World).Stopped
      base := by
  obtain ⟨hlt, -⟩ := List.getElem?_eq_some_iff.mp ho
  have hset : w.orphans.set place o = w.orphans := set_of_getElem? ho
  obtain ⟨run, i, child⟩ := o
  match child with
  | .spawned _ _ | .ended _ _ | .lost _ => rw [Orphan.resumeAt, hset]; exact h
  | .running task name p =>
      obtain ⟨hand, -⟩ := account.resumeOrphan (List.mem_of_getElem? ho) rfl index path
      intro r hb hr hn hn'
      have hperm := (List.set_perm_cons_eraseIdx hlt (⟨run, i, .running task name
        (p.resumeAt w.store index path).2⟩ : Orphan)).flatMap_right fun o => o.child.runs
      have hn' := mt hperm.mem_iff.mpr hn'
      rw [List.flatMap_cons, List.mem_append, not_or] at hn'
      by_cases hgone : r ∈ p.runs ∨ w.store.runs ≤ r
      · exact .of_hasEnded (hand.ended r hr hgone hn'.1)
      · rw [not_or, Nat.not_le] at hgone
        exact (h r hb hgone.2 hn (not_mem_heldBy ho hgone.1 hn'.2)).congr
          (hand.others r hgone.2 hgone.1)

/-- So does the root's own code. -/
lemma Stopped.pollRoot (h : w.Stopped base) (account : w.Accounted base env a) :
    w.pollRoot.Stopped base := by
  have account' := account.pollRoot
  unfold World.pollRoot at account' ⊢
  cases hroot : w.root with
  | ended | dropped => exact h
  | unstarted | running =>
      rw [hroot] at account'
      refine account'.stopped ?_
      simp only [Root.ofProgress]
      split <;> simp

/-- **Every turn leaves what nobody holds stopped.** -/
theorem Stopped.take (h : w.Stopped base) (account : w.Accounted base env a) (t : Turn) :
    (w.take t).Stopped base := by
  cases t with
  | root => exact h.pollRoot account
  | task index path =>
      unfold World.take
      match hp : w.root with
      | .running p => exact (account.pollTask hp index path).stopped (by simp)
      | .unstarted _ _ | .ended _ | .dropped => exact h
  | orphan place =>
      cases ho : w.orphans[place]? with
      | some o => simp only [World.take, ho]; exact h.dropOrphan account ho
      | none => simp only [World.take, ho]; exact h
  | orphanTask place index path =>
      cases ho : w.orphans[place]? with
      | some o => simp only [World.take, ho]; exact h.pollOrphanTask account ho index path
      | none => simp only [World.take, ho]; exact h
  | timer t => exact h.sameRuns (sameRuns_withContexts _ (Contexts.clock_fire _ _)) w.agenda
  | appointment place =>
      cases ha : w.agenda[place]? with
      | some x => simp only [World.take, ha]; exact h.sameRuns (sameRuns_suffer _ _) _
      | none => simp only [World.take, ha]; exact h

/-- The run is given up. -/
lemma Stopped.abandon (h : w.Stopped base) (account : w.Accounted base env a) :
    w.abandon.Stopped base := by
  unfold World.abandon
  match hroot : w.root with
  | .ended _ | .dropped => exact h
  | .unstarted _ _ =>
      intro r hb hr hn hn'
      exact h r hb hr (by rw [hroot]; exact List.not_mem_nil) hn'
  | .running p =>
      obtain ⟨rest, nodup, -⟩ := account.of_running hroot
      have hdrops := Proc.drop_drops rest nodup
      have halone := account.alone (by rw [hroot]; simp)
      intro r hb hr hn hn'
      dsimp only at hn'
      rw [halone, List.nil_append] at hn'
      by_cases hmem : r ∈ p.runs
      · exact Proc.drop_isStopped rest nodup hmem hn'
      · have hlt : r < w.store.runs := by rw [← hdrops.runs]; exact hr
        refine (h r hb hlt (by rw [hroot]; exact hmem) ?_).congr (hdrops.others r hmem)
        rw [halone]
        exact List.not_mem_nil

/-- **What nobody holds has stopped** in every world that an opening world leads to. -/
theorem Leads.isStopped {w₀ : World} (opens : w₀.Opens env a) (leads : Leads w₀ w) :
    w.Stopped w₀.store.runs := by
  induction leads with
  | refl => exact opens.accounted.stopped (by rw [opens.root]; simp)
  | @step w v leads step ih =>
      have account := leads.accounted opens
      cases step with
      | turn t => exact ih.take account t
      | tick => exact ih.advance _
  | pass _ _ ih => exact ih.advance _
  | @abandon w leads ih => exact ih.abandon (leads.accounted opens)

/-- **The marks of a linear run**, at whatever depth and whether it was given up or not. -/
theorem HasRun.failFast {cs : List Action} (run : w.HasRun r (.linear cs)) :
    ∃ ms, silent (w.store.marks r) = .begun (.linear cs) :: ms ∧ FailFast 0 cs ms := by
  obtain ⟨ch, hch, hrunner⟩ := run.chronicle
  obtain ⟨w₀, env, a, opens, leads, new, begun⟩ := run
  have account := leads.accounted opens
  have hlt : r < w.store.runs := by
    by_contra hge
    rw [Store.marks, account.tidy.fresh r (by omega)] at begun
    cases begun
  have hheld : ∀ {p : Proc} {env a}, p.RestOf w.store env a → r ∈ p.runs →
      ∃ ms, silent (w.store.marks r) = .begun (.linear cs) :: ms ∧ FailFast 0 cs ms := by
    intro p env a rest hr
    obtain ⟨hexit, k, hst⟩ := rest.stages hr hch hrunner
    refine Chronicle.failFast_of_current hch hrunner hst fun c after _ => ?_
    rw [hexit]
    exact .running
  by_cases hroot : r ∈ w.root.runs
  · obtain ⟨p, hp, hr⟩ := Root.exists_running hroot
    exact hheld (account.of_running hp).1 hr
  · by_cases hmem : r ∈ heldBy w.orphans
    · obtain ⟨o, ho, hr⟩ := mem_heldBy.mp hmem
      obtain ⟨task, name, p, hc, hr⟩ := Child.exists_running hr
      obtain ⟨env', a', rest⟩ := account.left.rest o ho task name p hc
      exact hheld rest hr
    · rcases leads.isStopped opens r new hlt hroot hmem ch cs hch hrunner with
        hexit | ⟨hexit, k, hst⟩
      · obtain ⟨e, he⟩ := Option.ne_none_iff_exists'.mp hexit
        exact Chronicle.failFast_of_exit hch hrunner he
      · refine Chronicle.failFast_of_current hch hrunner hst fun c after _ => ?_
        rw [hexit]
        exact .dropped

/-! ## The worlds of a linear run -/

/-- The world in which a linear run has begun. -/
def beginning (w : World) (cs : List Action) : World :=
  { w with store :=
      (w.store.newRun (.linear cs)).2.report w.store.runs (.linearStart cs.length) }

/-- What the linear run `r` that was started under `env` comes to, when it goes on in the world `w`
with the children of a list, the first of which has the index `i`.  The children are run on their
own, one after another, under `env` itself and each in the world that the one before has left
behind.  The run stands where the current child stands, ends where a child has not succeeded, and
ends with success when no child is left. -/
inductive InSequence (r : Nat) (env : Env) : Nat → World → List Action → World → Prop where
  | finished {i : Nat} {w : World} : InSequence r env i w []
      { w with store := w.store.mark r (.finished .done), root := .ended .done }
  | inside {i : Nat} {w u : World} {c : Action} {cs : List Action} {p : Proc}
      (runs : Reachable (((w.noting r (.started i c)).stage env c).take .root) u)
      (root : u.root = .running p) :
      InSequence r env i w (c :: cs) { u with root := .running (.linear r env i c.name p cs) }
  | stopped {i : Nat} {w u : World} {c : Action} {cs : List Action} {x : Exit}
      (runs : Reachable (((w.noting r (.started i c)).stage env c).take .root) u)
      (root : u.root = .ended x) (stops : x ≠ .done) :
      InSequence r env i w (c :: cs)
        { u with
          store := (stopLinear r i c.name x u.store).1
          root := .ended (x.stopping c.name) }
  | next {i : Nat} {w u z : World} {c : Action} {cs : List Action}
      (runs : Reachable (((w.noting r (.started i c)).stage env c).take .root) u)
      (root : u.root = .ended .done)
      (rest : InSequence r env (i + 1) (u.noting r (.ended i .done)) cs z) :
      InSequence r env i w (c :: cs) z

variable {c : Action} {cs rest : List Action} {name : String}

/-- **A step of a linear run is one of its current child.** -/
lemma step_inLine {p : Proc} (hroot : w.root = .running p) (alone : w.orphans = [])
    (step : Step (w.inLine r env i name rest) u) :
    ∃ v q, Step w v ∧ v.root = .ofProgress q ∧ u = v.inLine r env i name rest := by
  cases step with
  | turn t ready =>
      rw [isReady_inLine hroot] at ready
      obtain ⟨⟨q, hq⟩, -, htake⟩ := take_inLine hroot alone ready
      exact ⟨_, q, .turn t ready, hq, htake⟩
  | @tick time quiet next =>
      simp only [isReady_inLine hroot] at quiet
      rw [nextTime?_inLine hroot] at next
      exact ⟨_, .paused p, .tick quiet next, hroot, advance_inLine hroot time⟩

/-- The world in which a linear run goes on with the children of a list. -/
def goingOn (w : World) (r : Nat) (env : Env) (i : Nat) (cs : List Action) : World :=
  { w with
    store := (startRest r env i w.store cs).1
    root := .ofProgress (startRest r env i w.store cs).2 }

namespace InSequence

/-- The run stands where its current child has come to, if it has not gone on behind it. -/
lemma of_inLine {q : Progress}
    (runs : Reachable (((w.noting r (.started i c)).stage env c).take .root) u)
    (root : u.root = .ofProgress q)
    (rest : u.root = .ended .done → InSequence r env (i + 1) (u.noting r (.ended i .done)) cs
      (goingOn (u.noting r (.ended i .done)) r env (i + 1) cs)) :
    InSequence r env i w (c :: cs) (u.inLine r env i c.name cs) := by
  cases q with
  | paused p =>
      rw [inLine_running root]
      exact .inside runs root
  | ended x =>
      have hroot : u.root = .ended x := root
      by_cases hx : x = .done
      · subst hx
        have hline : u.inLine r env i c.name cs
            = goingOn (u.noting r (.ended i .done)) r env (i + 1) cs := by
          simp only [World.inLine, hroot]
          rfl
        rw [hline]
        exact .next runs hroot (rest hroot)
      · obtain ⟨s', hstop, -⟩ := stopLinear_eq r i c.name u.store hx
        have hline : u.inLine r env i c.name cs = { u with
            store := (stopLinear r i c.name x u.store).1
            root := .ended (x.stopping c.name) } := by
          have hafter : afterChild r env i c.name cs (u.store, .ended x)
              = stopLinear r i c.name x u.store := by
            cases x <;> first | exact absurd rfl hx | rfl
          simp only [World.inLine, hroot, hafter, hstop]
          rfl
        rw [hline]
        exact .stopped runs hroot hx

/-- The children are started in the same turn as long as they succeed in it. -/
lemma of_goingOn (cs : List Action) (i : Nat) (w : World) :
    InSequence r env i w cs (goingOn w r env i cs) := by
  induction cs generalizing i w with
  | nil => exact .finished
  | cons c cs ih =>
      rw [goingOn, ← inLine_startRest]
      exact of_inLine .refl rfl fun _ => ih (i + 1) _

/-- **A step of a linear run.** -/
theorem step (h : InSequence r env i w cs z) (running : z.root.isOver = false)
    (alone : z.orphans = []) (step : Step z v) : InSequence r env i w cs v := by
  induction h with
  | finished | stopped => cases running
  | next runs root rest ih => exact .next runs root (ih running alone step)
  | @inside i w u c cs p runs root =>
      rw [← inLine_running root] at step
      obtain ⟨u', q, hstep, hroot, rfl⟩ := step_inLine root alone step
      exact of_inLine (.step runs hstep) hroot fun _ => of_goingOn cs (i + 1) _

end InSequence

/-- **The worlds of a linear run** that is run on its own.  Before its first turn only what is due
outside happens. -/
theorem inSequence_of_reachable {w₀ : World} (opens : w₀.Opens env (.linear cs))
    (h : Reachable w₀ w) : ∃ v, w₀.Settles v ∧ (w = v ∨
      ∃ z, InSequence v.store.runs env 0 (v.beginning cs) cs z ∧
        (w = z ∨ z.root.isOver = true ∧ w.root = z.root ∧ Reachable z w)) := by
  have hstage : ∀ {v}, w₀.Settles v → v.stage env (.linear cs) = v := by
    intro v settles
    rw [stage, ← opens.root, ← settles.root_eq]
  rw [← hstage .refl] at h
  obtain ⟨v, settles, rfl | hreach⟩ := h.of_stage opens.orphans
  · exact ⟨v, settles, .inl (hstage settles)⟩
  · refine ⟨v, settles, .inr ?_⟩
    clear h
    have hfirst : Reachable w₀ ((v.stage env (.linear cs)).take .root) := by
      have hturn : Step v (v.take .root) :=
        .turn .root (by simp [isReady, settles.root_eq, opens.root])
      rw [hstage settles]
      exact .step (settles.course (o := { }) (c := env.context)).reachable hturn
    induction hreach with
    | refl =>
        have hbegun : (v.stage env (.linear cs)).take .root
            = .goingOn (v.beginning cs) v.store.runs env 0 cs := by
          simp only [take, pollRoot, stage]
          rw [Action.start]
          rfl
        rw [hbegun]
        exact ⟨_, .of_goingOn cs 0 _, .inl rfl⟩
    | @step u u' hu step ih =>
        obtain ⟨z, hz, rfl | ⟨isOver, hroot, hreach⟩⟩ := ih
        · by_cases running : u.root.isOver = false
          · have alone : u.orphans = [] := by
              refine ((hfirst.trans hu).leads.accounted opens).alone fun hroot => ?_
              rw [hroot] at running
              cases running
            exact ⟨_, hz.step running alone step, .inl rfl⟩
          · have hover : u.root.isOver = true := by simpa using running
            have hu' : Reachable u u' := .step .refl step
            exact ⟨u, hz, .inr ⟨hover, hu'.root_eq hover, hu'⟩⟩
        · have hu' : Reachable z u' := .step hreach step
          exact ⟨z, hz, .inr ⟨isOver, hu'.root_eq isOver, hu'⟩⟩

/-- **A linear run is the fold of its children that stops at the first one that does not succeed.**

Take a run over any children, at any depth of a world that an opening world has led to, whoever had
turns in what order and whether the run or what is around it was given up.  Its marks are of the
form `FailFast`: each child was started once, in order and right after the one before it had
succeeded; the end of the first child that did not succeed is the end of the run, which has the exit
that this child commands; and no child was started behind one that was given up.

When the run is the root of a world, with any surroundings, its caller gets that exit, and all the
worlds that it goes through are those of `InSequence`: its children are run on their own, one after
another, under the surroundings of the caller and each in the world that the one before has left
behind. -/
theorem fail_fast (cs : List Action) :
    (∀ (w : World) r, w.HasRun r (.linear cs) →
      ∃ ms, silent (w.store.marks r) = .begun (.linear cs) :: ms ∧ FailFast 0 cs ms) ∧
    ∀ (w₀ w : World) env, w₀.Opens env (.linear cs) →
      (∀ e, Leads w₀ w → w.root = .ended e → .finished e ∈ w.store.marks w₀.store.runs) ∧
      (Reachable w₀ w → ∃ v, w₀.Settles v ∧ (w = v ∨
        ∃ z, InSequence v.store.runs env 0 (v.beginning cs) cs z ∧
          (w = z ∨ z.root.isOver = true ∧ w.root = z.root ∧ Reachable z w))) :=
  ⟨fun _ _ run => run.failFast, fun _ _ _ opens =>
    ⟨fun _ leads ended => leads.finished opens rfl ended, inSequence_of_reachable opens⟩⟩

/-- The second child asks to skip the remainder, and the third would panic. -/
def enoughOfTwo : List Action :=
  [.yielding "first", .skipping "second", .panicking "third" "too late"]

/-- The run succeeds with the second child, in the same turn, and the third is not started. -/
theorem fail_fast_enoughOfTwo :
    let w₀ := opening ⟨default, 0⟩ (.linear enoughOfTwo)
    let w := (w₀.take .root).take .root
    w.root = .ended .done ∧
      FailFast 0 enoughOfTwo
        [.started 0 (.yielding "first"), .ended 0 .done, .started 1 (.skipping "second"),
          .ended 1 (.failed .skipRemainder), .finished .done] ∧
      .finished .done ∈ w.store.marks 0 ∧
      ∃ v, w₀.Settles v ∧ (w = v ∨ ∃ z,
        InSequence v.store.runs ⟨default, 0⟩ 0 (v.beginning enoughOfTwo) enoughOfTwo z ∧
          (w = z ∨ z.root.isOver = true ∧ w.root = z.root ∧ Reachable z w)) := by
  intro w₀ w
  have opens : w₀.Opens ⟨default, 0⟩ (.linear enoughOfTwo) := opening_opens _ _
  have hreach : Reachable w₀ w := .step (.step .refl (.turn .root rfl)) (.turn .root rfl)
  have hrun : w.HasRun 0 (.linear enoughOfTwo) :=
    ⟨_, _, _, opens, hreach.leads, Nat.zero_le 0, List.mem_of_getElem? (i := 0) rfl⟩
  obtain ⟨hmarks, hroot⟩ := fail_fast enoughOfTwo
  obtain ⟨ms, hms, hfold⟩ := hmarks w 0 hrun
  obtain ⟨hfinished, hworlds⟩ := hroot w₀ w ⟨default, 0⟩ opens
  cases hms.symm.trans (rfl : silent (w.store.marks 0) = .begun (.linear enoughOfTwo) :: _)
  exact ⟨rfl, hfold, hfinished .done hreach.leads rfl, hworlds hreach⟩

end World

end Workflow
