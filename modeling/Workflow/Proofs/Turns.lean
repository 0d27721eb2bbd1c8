import Workflow.Proofs.Resume

/-!
# Turns of tasks keep the law

When one task of a process goes on, the process around it stays where it is: it remains the rest of
the same action, and what changes is the child whose task went on, and in the run above it the stage
of that child and, if it ended, the number of free slots (`Dispatch.Accounts.update`).

* `Child.after_ran`: what the run above does when the code of a child has stopped or ended;
* **`Proc.resumeAt_ran`**: a task goes on that may stand anywhere below a process.
-/

namespace Workflow

open Store

/-! ## The child at a place -/

lemma set_of_getElem? {α : Type} {l : List α} {i : Nat} {a : α} (h : l[i]? = some a) :
    l.set i a = l := by
  obtain ⟨hi, rfl⟩ := List.getElem?_eq_some_iff.mp h
  exact List.set_getElem_self hi

/-- The turn of a task is the turn of the child on the way to it. -/
lemma resumeAmong_eq (s : Store) (d : Dispatch) (first : Nat) (children : List Child) (index : Nat)
    (path : List Nat) :
    resumeAmong s d first children index path =
      match children[index]? with
      | none => (s, d, children)
      | some c =>
          ((c.resumeAt s d (first + index) path).1, (c.resumeAt s d (first + index) path).2.1,
            children.set index (c.resumeAt s d (first + index) path).2.2) := by
  induction children generalizing first index with
  | nil => rw [resumeAmong]; rfl
  | cons c rest ih =>
      cases index with
      | zero => rw [resumeAmong]; rfl
      | succ index =>
          rw [resumeAmong, ih, List.getElem?_cons_succ, Nat.add_right_comm, Nat.add_assoc]
          cases rest[index]? <;> rfl

/-- Whether a task below one of the children can go on is a matter of that child. -/
lemma isReadyAmong_eq (s : Store) (children : List Child) (index : Nat) (path : List Nat) :
    isReadyAmong s children index path = (children[index]?).any (·.isReadyAt s path) := by
  induction children generalizing index with
  | nil => rw [isReadyAmong]; rfl
  | cons c rest ih =>
      cases index with
      | zero => rw [isReadyAmong]; rfl
      | succ index => rw [isReadyAmong, ih]; rfl

/-- What becomes of a child, and of the run above it, when its code has stopped or ended. -/
def Child.after (d : Dispatch) (index task : Nat) (name : String) :
    Store × Progress → Store × Dispatch × Child
  | (s, .paused p) => (s, d, .running task name p)
  | (s, .ended e) =>
      ((d.childEnded index name e s).2.endTask task, (d.childEnded index name e s).1,
        .ended name e)

lemma Child.resumeAt_spawned (s : Store) (d : Dispatch) (index task : Nat) (a : Action) :
    (Child.spawned task a).resumeAt s d index [] =
      Child.after d index task a.name (a.start d.env (s.mark d.run (.started index a))) := by
  rw [Child.resumeAt]
  rcases a.start d.env (s.mark d.run (.started index a)) with ⟨s, p | e⟩ <;> rfl

lemma Child.resumeAt_running (s : Store) (d : Dispatch) (index task : Nat) (name : String)
    (p : Proc) :
    (Child.running task name p).resumeAt s d index [] =
      Child.after d index task name (p.resume s) := by
  rw [Child.resumeAt]
  rcases p.resume s with ⟨s, p | e⟩ <;> rfl

/-- The run above a child that has ended notes that, and a slot becomes free. -/
lemma Dispatch.childEnded_spec (d : Dispatch) (index : Nat) (name : String) (e : Exit) (s : Store)
    {ch : Chronicle} (h : (s.chronicle? d.run).bind (·.next? (.ended index e)) = some ch) :
    (d.childEnded index name e s).1 = { d with gate := d.gate.map (· + 1) } ∧
      Touches d.run s (d.childEnded index name e s).2 ∧
      (d.childEnded index name e s).2.chronicle? d.run = some ch := by
  have hmark : (s.mark d.run (.ended index e)).chronicle? d.run = some ch := by
    obtain ⟨ch₀, h₀, h⟩ := Option.bind_eq_some_iff.mp h
    rw [chronicle?_mark h₀, h]
  have htouch := Touches.mark d.run s (.ended index e)
  obtain ⟨run, env, gate, queue, collected, failure⟩ := d
  cases gate with
  | none => exact ⟨rfl, htouch, hmark⟩
  | some free =>
      refine ⟨rfl, ?_⟩
      unfold childEnded
      dsimp only at hmark htouch ⊢
      split
      · -- The scope is cancelled, which concerns no run.
        have hsame := ((s.mark run (.ended index (.failed .skipRemainder))).report run
          (.throttledSkip index name)).sameRuns_cancel env.context
        refine ⟨htouch.trans ((Touches.mark run _ _).trans (.of_sameRuns hsame _)), ?_⟩
        rw [chronicle?_congr (hsame.notes run), report_eq_mark, chronicle?_mark hmark]
        rfl
      · exact ⟨htouch, hmark⟩

/-! ## One child of a run -/

section

variable {s s₀ s' : Store} {env : Env} {runner : Action} {slots : Option Nat} {cs : List Action}
  {d : Dispatch} {children : List Child} {child : Child} {i : Nat}

/-- A child that has not ended stands behind those whose ends were collected. -/
lemma Dispatch.Accounts.collected_le_of_isLive (h : d.Accounts s env runner slots cs children)
    (place : children[i]? = some child) (live : child.isLive = true) : d.collected ≤ i := by
  obtain ⟨done, more, rfl, hdone, hover, -⟩ := h.collected
  by_contra hlt
  rw [List.getElem?_append_left (by omega)] at place
  have hended := hover child (List.mem_of_getElem? place)
  rw [live] at hended
  cases hended

/-- Another child stands in the place of one that had not ended. -/
lemma Dispatch.Accounts.update (h : d.Accounts s env runner slots cs children) (child' : Child)
    (place : children[i]? = some child) (live : child.isLive = true)
    (fits : ∀ c, cs[i]? = some c → child'.Fits c) {gate : Option Nat}
    (chronicle : s'.chronicle? d.run = some
      { runner, scope := if slots.isSome then some d.env.context else none
        stages := (children.map Child.stage).set i child'.stage })
    (free : gate = if child'.isLive then d.gate else d.gate.map (· + 1)) :
    Dispatch.Accounts s' env runner slots cs { d with gate } (children.set i child') := by
  obtain ⟨hi, hget⟩ := List.getElem?_eq_some_iff.mp place
  refine { h with chronicle := ?_, length_le := ?_, queue := ?_, free := ?_, fits := ?_,
                  collected := ?_ }
  · rw [List.map_set]; exact chronicle
  · rw [List.length_set]; exact h.length_le
  · rw [List.length_set]; exact h.queue
  · have hpos : 0 < children.countP Child.isLive :=
      List.countP_pos_iff.mpr ⟨child, List.mem_of_getElem? place, live⟩
    rw [← h.free, free]
    show Option.map _ _ = _
    rw [List.countP_set hi, hget, if_pos live]
    cases hgate : d.gate with
    | none => split_ifs <;> rfl
    | some n =>
        split_ifs
        · simp only [Option.map_some, Option.some.injEq]; omega
        · simp only [Option.map_some, Option.some.injEq]; omega
  · intro j c' c hc' hc
    rw [List.getElem?_set] at hc'
    split_ifs at hc' with hij
    · cases hc'; subst hij; exact fits c hc
    · exact h.fits j c' c hc' hc
  · have hle := h.collected_le_of_isLive place live
    obtain ⟨done, more, rfl, hdone, hover, hfail⟩ := h.collected
    refine ⟨done, more.set (i - done.length) child', ?_, hdone, hover, hfail⟩
    rw [List.set_append_right _ _ (by omega)]

/-- The child `i` has gone on: another stands in its place, and what is known about the run above it
holds again. -/
def Child.Proceeds (s : Store) (env : Env) (runner : Action) (slots : Option Nat) (cs : List Action)
    (d : Dispatch) (children : List Child) (i : Nat) (child : Child)
    (out : Store × Dispatch × Child) : Prop :=
  ∃ gate, out.2.1 = { d with gate } ∧
    Handover (d.run :: child.runs) s (d.run :: out.2.2.runs) out.1 ∧
    Dispatch.Accounts out.1 env runner slots cs { d with gate } (children.set i out.2.2) ∧
    ∀ task name p c, out.2.2 = .running task name p → cs[i]? = some c → p.RestOf out.1 d.env c

/-- Nothing was done. -/
lemma Child.Proceeds.refl (t : s.Tidy) (h : d.Accounts s env runner slots cs children)
    (place : children[i]? = some child)
    (rest : ∀ task name p c, child = .running task name p → cs[i]? = some c → p.RestOf s d.env c)
    (nodup : (d.run :: child.runs).Nodup) (bound : ∀ r ∈ d.run :: child.runs, r < s.runs) :
    Child.Proceeds s env runner slots cs d children i child (s, d, child) :=
  ⟨d.gate, rfl, .refl t nodup bound, by rw [set_of_getElem? place]; exact h, rest⟩

/-- The code of a child has stopped or ended, and the run above it takes notice of that. -/
lemma Child.after_ran (task : Nat) {c : Action} {top : Option Nat} {out : Store × Progress}
    (h : d.Accounts s env runner slots cs children) (place : children[i]? = some child)
    (live : child.isLive = true) (action : cs[i]? = some c)
    (chronicle : s₀.chronicle? d.run = some
      { runner, scope := if slots.isSome then some d.env.context else none
        stages := (children.map Child.stage).set i .running })
    (nodup : (d.run :: child.runs).Nodup) (bound : ∀ r ∈ d.run :: child.runs, r < s₀.runs)
    (ran : Ran top child.runs s₀ d.env c out) :
    Child.Proceeds s₀ env runner slots cs d children i child (Child.after d i task c.name out) := by
  have hrun : d.run < s₀.runs := bound d.run List.mem_cons_self
  have hi : i < children.length := (List.getElem?_eq_some_iff.mp place).1
  have hfits : ∀ c', cs[i]? = some c' → c.name = c'.name := by
    intro c' hc'
    rw [action] at hc'
    rw [Option.some.inj hc']
  match out, ran with
  | (s', .paused p), ⟨hand, rest, _⟩ =>
      have hkept := chronicle?_congr (hand.others d.run hrun (List.nodup_cons.mp nodup).1)
      refine ⟨d.gate, rfl, hand.cons nodup hrun, ?_, ?_⟩
      · exact h.update (.running task c.name p) place live hfits (hkept.trans chronicle) rfl
      · intro task' name' p' c' hp hc
        cases hp
        rw [action] at hc
        cases hc
        exact rest
  | (s', .ended e), ⟨hand, _⟩ =>
      have hown := hand.cons nodup hrun
      have hkept := chronicle?_congr (hand.others d.run hrun (List.nodup_cons.mp nodup).1)
      have hnext : (s'.chronicle? d.run).bind (·.next? (.ended i e)) = some
          { runner, scope := if slots.isSome then some d.env.context else none
            stages := (children.map Child.stage).set i (.ended e) } := by
        rw [hkept, chronicle]
        simp [Chronicle.next?, Chronicle.move, hi]
      obtain ⟨hd', htouch, hch⟩ := d.childEnded_spec i c.name e s' hnext
      have hend := ((d.childEnded i c.name e s').2).sameRuns_endTask task
      have htouch' := htouch.trans (.of_sameRuns hend d.run)
      refine ⟨d.gate.map (· + 1), hd', ?_, ?_, ?_⟩
      · exact hown.trans (.of_touches htouch' hown.tidy List.mem_cons_self hown.nodup hown.bound)
      · refine h.update (.ended c.name e) place live hfits ?_ rfl
        exact (chronicle?_congr (hend.notes d.run)).trans hch
      · intro task' name' p' c' hp
        cases hp

/-- The task of a child starts. -/
lemma Child.spawned_ran {task : Nat} {c : Action} (t : s.Tidy)
    (hd : runner.dispatch? = some (slots, cs)) (h : d.Accounts s env runner slots cs children)
    (place : children[i]? = some (.spawned task c)) (action : cs[i]? = some c)
    (bound : d.run < s.runs) :
    Child.Proceeds s env runner slots cs d children i (.spawned task c)
      ((Child.spawned task c).resumeAt s d i []) := by
  have hnodup : [d.run].Nodup := List.nodup_singleton _
  have hown : Handover [d.run] s [d.run] (s.mark d.run (.started i c)) :=
    .of_touches (Touches.mark d.run s _) t List.mem_cons_self hnodup (by simpa using bound)
  have hstage : (children.map Child.stage)[i]? = some .waiting := by
    rw [List.getElem?_map, place]; rfl
  have hstarted : (s.mark d.run (.started i c)).chronicle? d.run = some
      { runner, scope := if slots.isSome then some d.env.context else none
        stages := (children.map Child.stage).set i .running } := by
    rw [chronicle?_mark h.chronicle, Chronicle.next?,
      if_pos (by rw [Chronicle.children_eq hd]; exact action),
      if_pos (by simp [Chronicle.spawns, hd])]
    exact if_pos hstage
  rw [Child.resumeAt_spawned]
  obtain ⟨gate, heq, hand, hrest⟩ := Child.after_ran task h place rfl action hstarted hnodup
    hown.bound (Action.start_ran d.env _ hown.tidy c)
  exact ⟨gate, heq, hown.trans hand, hrest⟩

/-- A task below a child goes on, and the child stays where it is. -/
lemma Child.deeper_ran {task : Nat} {name : String} {p p' : Proc} {c : Action}
    (h : d.Accounts s env runner slots cs children)
    (place : children[i]? = some (.running task name p)) (action : cs[i]? = some c)
    (nodup : (d.run :: p.runs).Nodup) (bound : d.run < s.runs)
    (hand : Handover p.runs s p'.runs s') (rest : p'.RestOf s' d.env c) :
    Child.Proceeds s env runner slots cs d children i (.running task name p)
      (s', d, .running task name p') := by
  have hstage : (children.map Child.stage)[i]? = some .running := by
    rw [List.getElem?_map, place]; rfl
  refine ⟨d.gate, rfl, hand.cons nodup bound, ?_, ?_⟩
  · refine h.update (.running task name p') place rfl (fun c hc => ?_) ?_ rfl
    · exact h.fits i (.running task name p) c place hc
    · rw [chronicle?_congr (hand.others d.run bound (List.nodup_cons.mp nodup).1), h.chronicle]
      exact congrArg (fun stages => some (Chronicle.mk runner _ stages none))
        (set_of_getElem? hstage).symm
  · intro task' name' q c' hq hc
    cases hq
    rw [action] at hc
    cases hc
    exact rest

/-- A task goes on that is a child of the run or stands below one.  What is known about tasks
further down is taken from `below`. -/
lemma Child.resumeAt_ran (path : List Nat) (t : s.Tidy)
    (hd : runner.dispatch? = some (slots, cs)) (h : d.Accounts s env runner slots cs children)
    (place : children[i]? = some child)
    (rest : ∀ task name p c, child = .running task name p → cs[i]? = some c → p.RestOf s d.env c)
    (nodup : (d.run :: child.runs).Nodup) (bound : ∀ r ∈ d.run :: child.runs, r < s.runs)
    (below : ∀ task name p c index path, child = .running task name p → cs[i]? = some c →
      Handover p.runs s (p.resumeAt s index path).2.runs (p.resumeAt s index path).1 ∧
        (p.resumeAt s index path).2.RestOf (p.resumeAt s index path).1 d.env c) :
    Child.Proceeds s env runner slots cs d children i child (child.resumeAt s d i path) := by
  have hlt : i < cs.length :=
    Nat.lt_of_lt_of_le (List.getElem?_eq_some_iff.mp place).1 h.length_le
  have haction : cs[i]? = some cs[i] := List.getElem?_eq_getElem hlt
  have hfits := h.fits i child _ place haction
  have hrun : d.run < s.runs := bound d.run List.mem_cons_self
  match child, path with
  | .spawned task a, [] =>
      obtain rfl : a = cs[i] := hfits
      exact Child.spawned_ran t hd h place haction hrun
  | .running task name p, [] =>
      obtain rfl : name = cs[i].name := hfits
      have hstage : (children.map Child.stage)[i]? = some .running := by
        rw [List.getElem?_map, place]; rfl
      have hset := set_of_getElem? hstage
      rw [Child.resumeAt_running]
      exact Child.after_ran task h place rfl haction (by rw [hset]; exact h.chronicle) nodup bound
        (Proc.resume_ran (rest task _ p _ rfl haction) t (List.nodup_cons.mp nodup).2
          fun r hr => bound r (List.mem_cons_of_mem _ hr))
  | .running task name p, index :: path =>
      obtain ⟨hand, hrest⟩ := below task name p _ index path rfl haction
      rw [Child.resumeAt]
      exact Child.deeper_ran h place haction nodup hrun hand hrest
  | .spawned _ _, _ :: _ | .ended _ _, _ | .lost _, _ =>
      rw [Child.resumeAt]
      · exact .refl t h place rest nodup bound
      all_goals simp

end

/-! ## A task below a process -/

lemma runsAmong_set {children : List Child} {i : Nat} (child : Child)
    (hi : i < children.length) :
    (runsAmong (children.set i child)).Perm (child.runs ++ runsAmong (children.eraseIdx i)) := by
  induction children generalizing i with
  | nil => simp at hi
  | cons c rest ih =>
      cases i with
      | zero => exact List.Perm.refl _
      | succ i =>
          simp only [List.set_cons_succ, List.eraseIdx_cons_succ, runsAmong]
          refine ((ih (by simpa using hi)).append_left c.runs).trans ?_
          rw [← List.append_assoc, ← List.append_assoc]
          exact List.perm_append_comm.append_right _

/-- Of the runs below a concurrent run, those of one child, and the others. -/
lemma runsAmong_split {children : List Child} {i : Nat} {child : Child}
    (place : children[i]? = some child) :
    (runsAmong children).Perm (child.runs ++ runsAmong (children.eraseIdx i)) := by
  have := runsAmong_set child (List.getElem?_eq_some_iff.mp place).1
  rwa [set_of_getElem? place] at this

/-- Of a run and those below it, the run itself and those of one child. -/
lemma runs_of_child {children : List Child} {i run bound : Nat} {child : Child}
    (place : children[i]? = some child) (nodup : (run :: runsAmong children).Nodup)
    (lt : ∀ r ∈ run :: runsAmong children, r < bound) :
    (run :: child.runs).Nodup ∧ ∀ r ∈ run :: child.runs, r < bound := by
  have hperm := (runsAmong_split place).cons run
  exact ⟨(List.nodup_append.mp (hperm.nodup_iff.mp nodup)).1,
    fun r hr => lt r (hperm.mem_iff.mpr (List.mem_append_left _ hr))⟩

/-- When one child has gone on, the runs below the others are not touched. -/
lemma Child.Proceeds.apart {s : Store} {env : Env} {runner : Action} {slots : Option Nat}
    {cs : List Action} {d : Dispatch} {children : List Child} {i j : Nat} {child other : Child}
    {out : Store × Dispatch × Child}
    (h : Child.Proceeds s env runner slots cs d children i child out)
    (place : children[i]? = some child) (nodup : (d.run :: runsAmong children).Nodup)
    (bound : ∀ r ∈ d.run :: runsAmong children, r < s.runs) (hij : i ≠ j)
    (hother : children[j]? = some other) {r : Nat} (hr : r ∈ other.runs) :
    out.1.notes r = s.notes r := by
  obtain ⟨gate, -, hand, -⟩ := h
  have hperm : (d.run :: runsAmong children).Perm
      ((d.run :: child.runs) ++ runsAmong (children.eraseIdx i)) :=
    (runsAmong_split place).cons d.run
  have hmem : r ∈ runsAmong (children.eraseIdx i) := mem_runsAmong.mpr ⟨_,
    List.mem_eraseIdx_iff_getElem?.mpr ⟨j, Ne.symm hij, hother⟩, hr⟩
  exact hand.others r (bound r (hperm.mem_iff.mpr (List.mem_append_right _ hmem)))
    fun hm => (List.nodup_append.mp (hperm.nodup_iff.mp nodup)).2.2 r hm r hmem rfl

/-- When one child has gone on, the others are as they were. -/
lemma Child.Proceeds.whole {s : Store} {env : Env} {a : Action} {slots : Option Nat}
    {cs : List Action} {d : Dispatch} {children : List Child} {i : Nat} {child : Child}
    {out : Store × Dispatch × Child}
    (h : Child.Proceeds s env a.bare slots cs d children i child out)
    (bare : a.bare.dispatch? = some (slots, cs)) (place : children[i]? = some child)
    (below : ∀ (j : Nat) task name p c, children[j]? = some (.running task name p) →
      cs[j]? = some c → p.RestOf s d.env c)
    (nodup : (d.run :: runsAmong children).Nodup)
    (bound : ∀ r ∈ d.run :: runsAmong children, r < s.runs) :
    Handover (d.run :: runsAmong children) s
        (d.run :: runsAmong (children.set i out.2.2)) out.1 ∧
      (Proc.concurrent out.2.1 (children.set i out.2.2)).RestOf out.1 env a := by
  obtain ⟨gate, heq, hand, hacc, hrest⟩ := id h
  have hi : i < children.length := (List.getElem?_eq_some_iff.mp place).1
  set others := runsAmong (children.eraseIdx i) with hothers
  have hperm : (d.run :: runsAmong children).Perm ((d.run :: child.runs) ++ others) :=
    (runsAmong_split place).cons d.run
  have hnodup := hperm.nodup_iff.mp nodup
  have hbound : ∀ r ∈ others, r < s.runs :=
    fun r hr => bound r (hperm.mem_iff.mpr (List.mem_append_right _ hr))
  have hframe := hand.frame [] others (by simpa using hnodup) (by simpa using hbound)
  rw [heq]
  refine ⟨hframe.perm hperm.symm ((runsAmong_set out.2.2 hi).cons d.run).symm,
    .concurrent bare hacc ?_⟩
  intro j task name p c hchild hc
  rw [List.getElem?_set] at hchild
  split_ifs at hchild with hij
  · subst hij
    exact hrest task name p c (Option.some.inj hchild) hc
  · exact (below j task name p c hchild hc).congr fun r hr => h.apart place nodup bound hij hchild hr

/-- **A task goes on.**  The process above it remains the rest of the same action. -/
theorem Proc.resumeAt_ran {s : Store} {env : Env} {a : Action} {p : Proc} (rest : p.RestOf s env a)
    (t : s.Tidy) (nodup : p.runs.Nodup) (bound : ∀ r ∈ p.runs, r < s.runs) (index : Nat)
    (path : List Nat) :
    Handover p.runs s (p.resumeAt s index path).2.runs (p.resumeAt s index path).1 ∧
      (p.resumeAt s index path).2.RestOf (p.resumeAt s index path).1 env a ∧
      (p.resumeAt s index path).2.run? = p.run? := by
  induction rest generalizing index path with
  | leaf bare leads surroundings =>
      rw [Proc.resumeAt]
      exact ⟨.refl t nodup bound, .leaf bare leads surroundings, rfl⟩
  | within before bare leads surroundings rest ih =>
      rw [Proc.resumeAt]
      obtain ⟨hand, hrest, -⟩ := ih nodup bound index path
      exact ⟨hand, .within before bare leads surroundings hrest, rfl⟩
  | @linear env a c before after run i name p bare place called chronicle rest ih =>
      rw [Proc.resumeAt]
      have hrun := bound run List.mem_cons_self
      obtain ⟨hand, hrest, -⟩ := ih (List.nodup_cons.mp nodup).2
        (fun r hr => bound r (List.mem_cons_of_mem _ hr)) index path
      refine ⟨hand.cons nodup hrun, .linear bare place called ?_ hrest, rfl⟩
      rw [chronicle?_congr (hand.others run hrun (List.nodup_cons.mp nodup).1)]
      exact chronicle
  | @concurrent env a slots cs d children bare node below ih =>
      rw [Proc.resumeAt, resumeAmong_eq]
      cases hplace : children[index]? with
      | none => exact ⟨.refl t nodup bound, .concurrent bare node below, rfl⟩
      | some child =>
          obtain ⟨hnodup, hbound⟩ := runs_of_child hplace nodup bound
          have hproceeds := Child.resumeAt_ran path t bare node hplace
            (fun task name p c hc => by subst hc; exact below index task name p c hplace)
            hnodup hbound
            (fun task name p c index' path' hc haction => by
              subst hc
              obtain ⟨h₁, h₂, -⟩ := ih index task name p c hplace haction
                (List.nodup_cons.mp hnodup).2 (fun r hr => hbound r (List.mem_cons_of_mem _ hr))
                index' path'
              exact ⟨h₁, h₂⟩)
          simp only [Nat.zero_add]
          obtain ⟨hand, hrest⟩ := hproceeds.whole bare hplace below nodup bound
          obtain ⟨gate, heq, -⟩ := hproceeds
          refine ⟨?_, hrest, ?_⟩
          · rw [heq]; exact hand
          · rw [heq]; rfl

/-- A task goes on that is a child of a run or stands below one. -/
lemma Child.resumeAt_proceeds {s : Store} {env : Env} {runner : Action} {slots : Option Nat}
    {cs : List Action} {d : Dispatch} {children : List Child} {child : Child} {i : Nat}
    (path : List Nat) (t : s.Tidy) (hd : runner.dispatch? = some (slots, cs))
    (h : d.Accounts s env runner slots cs children) (place : children[i]? = some child)
    (rest : ∀ task name p c, child = .running task name p → cs[i]? = some c → p.RestOf s d.env c)
    (nodup : (d.run :: child.runs).Nodup) (bound : ∀ r ∈ d.run :: child.runs, r < s.runs) :
    Child.Proceeds s env runner slots cs d children i child (child.resumeAt s d i path) := by
  refine Child.resumeAt_ran path t hd h place rest nodup bound ?_
  rintro task name p c index path rfl hc
  obtain ⟨hand, hrest, -⟩ := Proc.resumeAt_ran (rest task name p c rfl hc) t
    (List.nodup_cons.mp nodup).2 (fun r hr => bound r (List.mem_cons_of_mem _ hr)) index path
  exact ⟨hand, hrest⟩

end Workflow
