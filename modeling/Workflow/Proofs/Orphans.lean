import Mathlib.Data.List.Perm.Basic
import Workflow.Process.Drop
import Workflow.Proofs.Turns

/-!
# What given-up runs leave behind

When the code of a run is given up, the tasks that it has spawned become orphans, and its trace has
to be settled with them: a child that has not ended is an orphan, and every orphan is such a child.
That is `Store.LeftTo`.  It is about a set of runs whose code is gone or is held by one of the
orphans.

**Kept.**  `LeftTo.congr`, `LeftTo.widen` and `LeftTo.union`: while others go on, as runs come to
their ends, and for two sets together.

**Made.**  `Proc.drop_drops`: a process that is dropped leaves its runs to the orphans it makes; and
`LeftTo.drop`: an orphan that is dropped leaves what it held to the orphans below it, which are
fewer levels deep.
-/

namespace Workflow

open Store

/-- Where an orphan stood: its run and its index there. -/
def Orphan.place (o : Orphan) : Nat × Nat :=
  (o.run, o.index)

/-- The runs that orphans hold. -/
def heldBy (orphans : List Orphan) : List Nat :=
  orphans.flatMap fun o => o.child.runs

@[simp] lemma heldBy_nil : heldBy [] = [] := rfl

@[simp] lemma heldBy_cons (o : Orphan) (orphans : List Orphan) :
    heldBy (o :: orphans) = o.child.runs ++ heldBy orphans :=
  List.flatMap_cons

@[simp] lemma heldBy_append (orphans orphans' : List Orphan) :
    heldBy (orphans ++ orphans') = heldBy orphans ++ heldBy orphans' := by
  simp [heldBy]

lemma mem_heldBy {r : Nat} {orphans : List Orphan} :
    r ∈ heldBy orphans ↔ ∃ o ∈ orphans, r ∈ o.child.runs := by
  simp [heldBy]

/-- The runs in `own` have no code left but what the orphans hold, and the orphans are their
children that have not ended. -/
structure Store.LeftTo (s : Store) (own : Nat → Prop) (orphans : List Orphan) : Prop where
  /-- No child is an orphan twice. -/
  places : (orphans.map Orphan.place).Nodup
  nodup : (heldBy orphans).Nodup
  held : ∀ r ∈ heldBy orphans, own r
  live : ∀ o ∈ orphans, o.child.isLive = true
  /-- The run that an orphan was a child of has no code left. -/
  parent : ∀ o ∈ orphans, own o.run ∧ o.run ∉ heldBy orphans
  stage : ∀ o ∈ orphans, ∃ ch, s.chronicle? o.run = some ch ∧ ch.spawns = true ∧
    ch.stages[o.index]? = some o.child.stage
  rest : ∀ o ∈ orphans, ∀ task name p, o.child = .running task name p → ∃ env a, p.RestOf s env a
  settled : ∀ r, own r → r ∉ heldBy orphans → ∃ ch, s.chronicle? r = some ch ∧
    ∀ i st, ch.stages[i]? = some st → st.isLive = true → (r, i) ∈ orphans.map Orphan.place

namespace Store.LeftTo

variable {s s' : Store} {own own' : Nat → Prop} {orphans orphans' : List Orphan} {o : Orphan}

/-- Where no run is left, nobody is needed. -/
lemma nil (s : Store) : s.LeftTo (· ∈ ([] : List Nat)) [] where
  places := List.nodup_nil
  nodup := List.nodup_nil
  held _ h := h
  live _ h := absurd h List.not_mem_nil
  parent _ h := absurd h List.not_mem_nil
  stage _ h := absurd h List.not_mem_nil
  rest _ h := absurd h List.not_mem_nil
  settled _ h := absurd h List.not_mem_nil

lemma mem_held {task : Nat} {name : String} {p : Proc} (ho : o ∈ orphans)
    (hp : o.child = .running task name p) {r : Nat} (hr : r ∈ p.runs) : r ∈ heldBy orphans :=
  mem_heldBy.mpr ⟨o, ho, by rw [hp]; exact hr⟩

/-- It is about the notes of the runs in question. -/
lemma congr (h : s.LeftTo own orphans) (notes : ∀ r, own r → s'.notes r = s.notes r) :
    s'.LeftTo own orphans :=
  { h with
    stage := fun o ho => by
      obtain ⟨ch, hch, hst⟩ := h.stage o ho
      exact ⟨ch, (chronicle?_congr (notes _ (h.parent o ho).1)).trans hch, hst⟩
    rest := fun o ho task name p hp => by
      obtain ⟨env, a, hrest⟩ := h.rest o ho task name p hp
      exact ⟨env, a, hrest.congr fun r hr => notes r (h.held r (mem_held ho hp hr))⟩
    settled := fun r hr hn => by
      obtain ⟨ch, hch, hlive⟩ := h.settled r hr hn
      exact ⟨ch, (chronicle?_congr (notes r hr)).trans hch, hlive⟩ }

/-- Nobody is needed for a run that is over. -/
lemma of_isOver {r : Nat} (h : s.IsOver r) (places : List (Nat × Nat)) :
    ∃ ch, s.chronicle? r = some ch ∧
      ∀ i st, ch.stages[i]? = some st → st.isLive = true → (r, i) ∈ places := by
  obtain ⟨ch, hch, hover⟩ := h
  refine ⟨ch, hch, fun i st hst hlive => ?_⟩
  rw [hover st (List.mem_of_getElem? hst)] at hlive
  cases hlive

/-- Runs that are over can be added. -/
lemma widen (h : s.LeftTo own orphans) (sub : ∀ r, own r → own' r)
    (isOver : ∀ r, own' r → own r ∨ s.IsOver r) : s.LeftTo own' orphans :=
  { h with
    held := fun r hr => sub r (h.held r hr)
    parent := fun o ho => ⟨sub _ (h.parent o ho).1, (h.parent o ho).2⟩
    settled := fun r hr hn => by
      rcases isOver r hr with hr' | hover
      · exact h.settled r hr' hn
      · exact of_isOver hover _ }

/-- In which order the orphans are listed makes no difference. -/
lemma perm (h : s.LeftTo own orphans) (p : orphans.Perm orphans') : s.LeftTo own orphans' := by
  have hplaces := p.map Orphan.place
  have hheld : (heldBy orphans).Perm (heldBy orphans') := p.flatMap_right _
  exact {
    places := hplaces.nodup_iff.mp h.places
    nodup := hheld.nodup_iff.mp h.nodup
    held := fun r hr => h.held r (hheld.mem_iff.mpr hr)
    live := fun o ho => h.live o (p.mem_iff.mpr ho)
    parent := fun o ho => ⟨(h.parent o (p.mem_iff.mpr ho)).1,
      fun hr => (h.parent o (p.mem_iff.mpr ho)).2 (hheld.mem_iff.mpr hr)⟩
    stage := fun o ho => h.stage o (p.mem_iff.mpr ho)
    rest := fun o ho => h.rest o (p.mem_iff.mpr ho)
    settled := fun r hr hn => by
      obtain ⟨ch, hch, hlive⟩ := h.settled r hr fun hr' => hn (hheld.mem_iff.mp hr')
      exact ⟨ch, hch, fun i st hst hl => hplaces.mem_iff.mp (hlive i st hst hl)⟩ }

/-- Any of the orphans can be listed first. -/
lemma first (h : s.LeftTo own orphans) {place : Nat} (ho : orphans[place]? = some o) :
    s.LeftTo own (o :: orphans.eraseIdx place) := by
  obtain ⟨hlt, rfl⟩ := List.getElem?_eq_some_iff.mp ho
  exact h.perm (List.getElem_cons_eraseIdx_perm hlt).symm

/-- Two sets of runs that have nothing in common are left to the orphans of both. -/
lemma union (h : s.LeftTo own orphans) (h' : s.LeftTo own' orphans')
    (disjoint : ∀ r, own r → ¬ own' r) :
    s.LeftTo (fun r => own r ∨ own' r) (orphans ++ orphans') where
  places := by
    rw [List.map_append]
    refine List.nodup_append.mpr ⟨h.places, h'.places, ?_⟩
    rintro x hx y hy rfl
    obtain ⟨o, ho, rfl⟩ := List.mem_map.mp hx
    obtain ⟨o', ho', heq⟩ := List.mem_map.mp hy
    have hrun : o'.run = o.run := congrArg Prod.fst heq
    exact disjoint _ (h.parent o ho).1 (by rw [← hrun]; exact (h'.parent o' ho').1)
  nodup := by
    rw [heldBy_append]
    refine List.nodup_append.mpr ⟨h.nodup, h'.nodup, ?_⟩
    rintro r hr r' hr' rfl
    exact disjoint r (h.held r hr) (h'.held r hr')
  held r hr := by
    rw [heldBy_append, List.mem_append] at hr
    exact hr.imp (h.held r) (h'.held r)
  live o ho := (List.mem_append.mp ho).elim (h.live o) (h'.live o)
  parent o ho := by
    rw [heldBy_append, List.mem_append, not_or]
    rcases List.mem_append.mp ho with ho | ho
    · have := h.parent o ho
      exact ⟨.inl this.1, this.2, fun hr => disjoint _ this.1 (h'.held _ hr)⟩
    · have := h'.parent o ho
      exact ⟨.inr this.1, fun hr => disjoint _ (h.held _ hr) this.1, this.2⟩
  stage o ho := (List.mem_append.mp ho).elim (h.stage o) (h'.stage o)
  rest o ho := (List.mem_append.mp ho).elim (h.rest o) (h'.rest o)
  settled r hr hn := by
    rw [heldBy_append, List.mem_append, not_or] at hn
    rw [List.map_append]
    rcases hr with hr | hr
    · obtain ⟨ch, hch, hlive⟩ := h.settled r hr hn.1
      exact ⟨ch, hch, fun i st hst hl => List.mem_append_left _ (hlive i st hst hl)⟩
    · obtain ⟨ch, hch, hlive⟩ := h'.settled r hr hn.2
      exact ⟨ch, hch, fun i st hst hl => List.mem_append_right _ (hlive i st hst hl)⟩

/-! One of the orphans stands apart from the others. -/

lemma parent_head (h : s.LeftTo own (o :: orphans)) :
    own o.run ∧ o.run ∉ o.child.runs ∧ o.run ∉ heldBy orphans := by
  have := h.parent o List.mem_cons_self
  rwa [heldBy_cons, List.mem_append, not_or] at this

lemma parent_tail (h : s.LeftTo own (o :: orphans)) {o' : Orphan} (ho' : o' ∈ orphans) :
    own o'.run ∧ o'.run ∉ o.child.runs ∧ o'.run ∉ heldBy orphans := by
  have := h.parent o' (List.mem_cons_of_mem _ ho')
  rwa [heldBy_cons, List.mem_append, not_or] at this

lemma nodup_cons (h : s.LeftTo own (o :: orphans)) :
    o.child.runs.Nodup ∧ (heldBy orphans).Nodup ∧ ∀ r ∈ heldBy orphans, r ∉ o.child.runs := by
  have hnodup := h.nodup
  rw [heldBy_cons] at hnodup
  obtain ⟨hhead, htail, hdis⟩ := List.nodup_append.mp hnodup
  exact ⟨hhead, htail, fun r hr hr' => hdis r hr' r hr rfl⟩

lemma held_head (h : s.LeftTo own (o :: orphans)) {r : Nat} (hr : r ∈ o.child.runs) : own r := by
  refine h.held r ?_
  rw [heldBy_cons]
  exact List.mem_append_left _ hr

lemma held_tail (h : s.LeftTo own (o :: orphans)) {r : Nat} (hr : r ∈ heldBy orphans) : own r := by
  refine h.held r ?_
  rw [heldBy_cons]
  exact List.mem_append_right _ hr

/-- Two orphans of one run stood at different places. -/
lemma index_ne (h : s.LeftTo own (o :: orphans)) {o' : Orphan} (ho' : o' ∈ orphans)
    (hr : o'.run = o.run) : o.index ≠ o'.index := by
  intro hi
  refine (List.nodup_cons.mp h.places).1 (List.mem_map.mpr ⟨o', ho', ?_⟩)
  rw [Orphan.place, Orphan.place, hr, hi]

/-- An orphan comes to its end, and what it held is left to somebody else. -/
lemma remove (h : s.LeftTo own (o :: orphans)) (st : Stage) {ch : Chronicle}
    (before : s.chronicle? o.run = some ch) (isOver : st.isLive = false)
    (after : s'.chronicle? o.run = some { ch with stages := ch.stages.set o.index st })
    (notes : ∀ r, own r → r ∉ o.child.runs → r ≠ o.run → s'.notes r = s.notes r) :
    s'.LeftTo (fun r => own r ∧ r ∉ o.child.runs) orphans := by
  have hmem : ∀ {o'}, o' ∈ orphans → o' ∈ o :: orphans := List.mem_cons_of_mem _
  obtain ⟨-, hnodup, hdis⟩ := h.nodup_cons
  refine
    { places := (List.nodup_cons.mp h.places).2, nodup := hnodup, held := ?_,
      live := fun o' ho' => h.live o' (hmem ho'), parent := ?_, stage := ?_, rest := ?_,
      settled := ?_ }
  · exact fun r hr => ⟨h.held_tail hr, hdis r hr⟩
  · intro o' ho'
    obtain ⟨hown, hn, hn'⟩ := h.parent_tail ho'
    exact ⟨⟨hown, hn⟩, hn'⟩
  · intro o' ho'
    obtain ⟨ch', hch', hspawns, hst⟩ := h.stage o' (hmem ho')
    by_cases hr : o'.run = o.run
    · rw [hr, before] at hch'
      cases hch'
      refine ⟨{ ch with stages := ch.stages.set o.index st }, by rw [hr]; exact after, hspawns, ?_⟩
      rw [List.getElem?_set_ne (h.index_ne ho' hr)]
      exact hst
    · obtain ⟨hown, hn, -⟩ := h.parent_tail ho'
      exact ⟨ch', (chronicle?_congr (notes _ hown hn hr)).trans hch', hspawns, hst⟩
  · intro o' ho' task name p hp
    obtain ⟨env, a, hrest⟩ := h.rest o' (hmem ho') task name p hp
    refine ⟨env, a, hrest.congr fun r hr => ?_⟩
    have hr' := mem_held ho' hp hr
    exact notes r (h.held_tail hr') (hdis r hr') (by rintro rfl; exact h.parent_head.2.2 hr')
  · rintro r ⟨hr, hn⟩ hn'
    obtain ⟨ch', hch', hlive⟩ := h.settled r hr (by simpa using ⟨hn, hn'⟩)
    have htail : ∀ i st', ch'.stages[i]? = some st' → st'.isLive = true → (r, i) ≠ o.place →
        (r, i) ∈ orphans.map Orphan.place := by
      intro i st' hst hl hplace
      exact (List.mem_cons.mp (hlive i st' hst hl)).resolve_left hplace
    by_cases hro : r = o.run
    · subst hro
      rw [before] at hch'
      cases hch'
      refine ⟨_, after, fun i st' hst hl => ?_⟩
      rw [List.getElem?_set] at hst
      split_ifs at hst with hi
      · cases hst
        rw [isOver] at hl
        cases hl
      · exact htail i st' hst hl fun heq => hi (congrArg Prod.snd heq).symm
    · exact ⟨ch', (chronicle?_congr (notes r hr hn hro)).trans hch', fun i st' hst hl =>
        htail i st' hst hl fun heq => hro (congrArg Prod.fst heq)⟩

end Store.LeftTo

/-! ## Dropping a process -/

lemma mem_orphansOf {run first : Nat} {children : List Child} {o : Orphan} :
    o ∈ orphansOf run first children ↔
      ∃ i c, children[i]? = some c ∧ c.isLive = true ∧ o = ⟨run, first + i, c⟩ := by
  induction children generalizing first with
  | nil => simp [orphansOf]
  | cons c rest ih =>
      have hcons : (∃ i c', (c :: rest)[i]? = some c' ∧ c'.isLive = true ∧
          o = ⟨run, first + i, c'⟩) ↔
          c.isLive = true ∧ o = ⟨run, first, c⟩ ∨ ∃ i c', rest[i]? = some c' ∧ c'.isLive = true ∧
            o = ⟨run, first + 1 + i, c'⟩ := by
        constructor
        · rintro ⟨_ | i, c', hc', hlive, rfl⟩
          · cases hc'; exact .inl ⟨hlive, rfl⟩
          · exact .inr ⟨i, c', hc', hlive, by rw [Nat.add_assoc, Nat.add_comm 1 i]⟩
        · rintro (⟨hlive, rfl⟩ | ⟨i, c', hc', hlive, rfl⟩)
          · exact ⟨0, c, rfl, hlive, rfl⟩
          · exact ⟨i + 1, c', hc', hlive, by rw [Nat.add_assoc, Nat.add_comm 1 i]⟩
      rw [hcons, ← ih, orphansOf]
      split_ifs with hlive
      · simp [hlive]
      · simp [hlive]

lemma heldBy_orphansOf (run first : Nat) (children : List Child) :
    heldBy (orphansOf run first children) = runsAmong children := by
  induction children generalizing first with
  | nil => rfl
  | cons c rest ih =>
      rw [orphansOf, runsAmong]
      split_ifs with hlive
      · rw [heldBy_cons, ih]
      · have hnil : c.runs = [] := by cases c <;> simp_all [Child.isLive, Child.task?, Child.runs]
        rw [ih, hnil, List.nil_append]

lemma nodup_places_orphansOf (run first : Nat) (children : List Child) :
    ((orphansOf run first children).map Orphan.place).Nodup := by
  induction children generalizing first with
  | nil => exact List.nodup_nil
  | cons c rest ih =>
      rw [orphansOf]
      split_ifs with hlive
      · refine List.nodup_cons.mpr ⟨fun hmem => ?_, ih _⟩
        obtain ⟨o, ho, hplace⟩ := List.mem_map.mp hmem
        obtain ⟨i, c', -, -, rfl⟩ := mem_orphansOf.mp ho
        have hindex : first + 1 + i = first := congrArg Prod.snd hplace
        omega
      · exact ih _

/-- Code that held the runs `own` was dropped. -/
structure Store.Drops (s : Store) (own : List Nat) (out : Store × List Orphan) : Prop where
  clock : out.1.clock = s.clock
  runs : out.1.runs = s.runs
  closed : out.1.closed = s.closed
  others : ∀ r, r ∉ own → out.1.notes r = s.notes r
  left : out.1.LeftTo (· ∈ own) out.2

/-- A sequence whose child was dropped has no child left that has not ended. -/
lemma isOver_of_dropped {s : Store} {run index : Nat} {a : Action}
    (h : s.chronicle? run = some (linearAt a index [.running])) :
    (s.mark run (.dropped index)).IsOver run := by
  refine ⟨linearAt a index [.dropped], ?_, fun st hst => ?_⟩
  · rw [chronicle?_mark h]
    exact move_linearAt ..
  · simp only [linearAt, List.mem_append, List.mem_replicate, List.mem_singleton] at hst
    rcases hst with ⟨-, rfl⟩ | rfl <;> rfl

/-- A concurrent run that has lost its code is left to its children that have not ended. -/
lemma Dispatch.Accounts.leftTo {s : Store} {env : Env} {a : Action} {slots : Option Nat}
    {cs : List Action} {d : Dispatch} {children : List Child}
    (h : d.Accounts s env a slots cs children) (hd : a.dispatch? = some (slots, cs))
    (below : ∀ (i : Nat) task name p c, children[i]? = some (.running task name p) →
      cs[i]? = some c → p.RestOf s d.env c) (nodup : (d.run :: runsAmong children).Nodup) :
    s.LeftTo (· ∈ d.run :: runsAmong children) (orphansOf d.run 0 children) := by
  obtain ⟨hrun, hnodup⟩ := List.nodup_cons.mp nodup
  have hheld := heldBy_orphansOf d.run 0 children
  have hchild : ∀ o ∈ orphansOf d.run 0 children, ∃ i c, children[i]? = some c ∧
      c.isLive = true ∧ o = ⟨d.run, i, c⟩ := by
    intro o ho
    obtain ⟨i, c, hc, hlive, rfl⟩ := mem_orphansOf.mp ho
    exact ⟨i, c, hc, hlive, by rw [Nat.zero_add]⟩
  refine
    { places := nodup_places_orphansOf d.run 0 children, nodup := by rw [hheld]; exact hnodup,
      held := fun r hr => List.mem_cons_of_mem _ (hheld ▸ hr), live := ?_, parent := ?_,
      stage := ?_, rest := ?_, settled := ?_ }
  · intro o ho
    obtain ⟨i, c, hc, hlive, rfl⟩ := hchild o ho
    exact hlive
  · intro o ho
    obtain ⟨i, c, hc, hlive, rfl⟩ := hchild o ho
    rw [hheld]
    exact ⟨List.mem_cons_self, hrun⟩
  · intro o ho
    obtain ⟨i, c, hc, hlive, rfl⟩ := hchild o ho
    exact ⟨_, h.chronicle, by simp [Chronicle.spawns, hd], by simp [hc]⟩
  · intro o ho task name p hp
    obtain ⟨i, c, hc, hlive, rfl⟩ := hchild o ho
    obtain rfl : c = .running task name p := hp
    have hi : i < cs.length := Nat.lt_of_lt_of_le (List.getElem?_eq_some_iff.mp hc).1 h.length_le
    exact ⟨_, _, below i task name p _ hc (List.getElem?_eq_getElem hi)⟩
  · intro r hr hn
    rw [hheld] at hn
    obtain rfl : r = d.run := (List.mem_cons.mp hr).resolve_right hn
    refine ⟨_, h.chronicle, fun i st hst hlive => ?_⟩
    rw [List.getElem?_map] at hst
    obtain ⟨c, hc, rfl⟩ := Option.map_eq_some_iff.mp hst
    refine List.mem_map.mpr ⟨⟨d.run, i, c⟩, mem_orphansOf.mpr ⟨i, c, hc, ?_, by simp⟩, rfl⟩
    cases c <;> simp_all [Child.stage, Stage.isLive, Child.isLive, Child.task?]

/-- **A process is dropped.**  Its runs are left to the orphans it makes. -/
theorem Proc.drop_drops {s : Store} {env : Env} {a : Action} {p : Proc} (rest : p.RestOf s env a)
    (nodup : p.runs.Nodup) : s.Drops p.runs (p.drop s) := by
  induction rest with
  | @leaf env own a kind name b₀ b guards bare leads surroundings =>
      have hsame := s.sameRuns_endGuards guards
      exact ⟨hsame.clock, hsame.runs, hsame.closed, fun r _ => hsame.notes r, .nil _⟩
  | @within env own a inner kind name b₀ guards handle under k p before bare leads _ rest ih =>
      have h := ih nodup
      have hsame := ((p.drop s).1.sameRuns_leave handle).trans (sameRuns_endGuards _ guards)
      exact ⟨hsame.clock.trans h.clock, hsame.runs.trans h.runs, hsame.closed.trans h.closed,
        fun r hr => (hsame.notes r).trans (h.others r hr), h.left.congr fun r _ => hsame.notes r⟩
  | @linear env a c before after run index name p bare place called chronicle rest ih =>
      obtain ⟨hrun, hnodup⟩ := List.nodup_cons.mp nodup
      have h := ih hnodup
      have hne : ∀ {r}, r ∈ p.runs → r ≠ run := by rintro r hr rfl; exact hrun hr
      have hover : ((p.drop s).1.mark run (.dropped index)).IsOver run :=
        isOver_of_dropped ((chronicle?_congr (h.others run hrun)).trans chronicle)
      refine ⟨h.clock, h.runs, h.closed, fun r hr => ?_, ?_⟩
      · rw [Proc.runs, List.mem_cons, not_or] at hr
        exact (notes_mark_of_ne _ _ hr.1).trans (h.others r hr.2)
      · refine (h.left.congr fun r hr => notes_mark_of_ne _ _ (hne hr)).widen
          (fun r hr => List.mem_cons_of_mem _ hr) fun r hr => ?_
        rcases List.mem_cons.mp hr with rfl | hr
        · exact .inr hover
        · exact .inl hr
  | concurrent bare node below _ =>
      exact ⟨rfl, rfl, rfl, fun _ _ => rfl, node.leftTo bare below nodup⟩

/-! ## Dropping an orphan -/

namespace Store.LeftTo

variable {s : Store} {own : Nat → Prop} {orphans : List Orphan} {run index : Nat}

/-- What the task of an orphan that is dropped leaves once the orphans below it are made. -/
lemma drop_running {task : Nat} {name : String} {p : Proc}
    (h : s.LeftTo own (⟨run, index, .running task name p⟩ :: orphans))
    (drops : s.Drops p.runs (p.drop s)) :
    (((p.drop s).1.endTask task).mark run (.dropped index)).LeftTo own (orphans ++ (p.drop s).2) ∧
      ∀ r, r ∉ p.runs → r ≠ run →
        (((p.drop s).1.endTask task).mark run (.dropped index)).notes r = s.notes r := by
  obtain ⟨ch, hch, -, hst⟩ := h.stage _ List.mem_cons_self
  have hrun : run ∉ p.runs := h.parent_head.2.1
  have hsame := (p.drop s).1.sameRuns_endTask task
  have hothers : ∀ r, r ∉ p.runs → r ≠ run →
      (((p.drop s).1.endTask task).mark run (.dropped index)).notes r = s.notes r := by
    intro r hr hr'
    rw [notes_mark_of_ne _ _ hr', hsame.notes, drops.others r hr]
  have hold : (((p.drop s).1.endTask task).mark run (.dropped index)).LeftTo
      (fun r => own r ∧ r ∉ p.runs) orphans := by
    refine h.remove .dropped hch rfl ?_ fun r _ => hothers r
    rw [chronicle?_mark ((chronicle?_congr ((hsame.notes run).trans (drops.others run hrun))).trans
      hch)]
    exact if_pos hst
  have hnew : (((p.drop s).1.endTask task).mark run (.dropped index)).LeftTo (· ∈ p.runs)
      (p.drop s).2 := by
    refine drops.left.congr fun r hr => ?_
    rw [notes_mark_of_ne _ _ (by rintro rfl; exact hrun hr), hsame.notes]
  refine ⟨(hold.union hnew fun r hr => hr.2).widen (fun r hr => ?_) fun r hr => ?_, hothers⟩
  · exact hr.elim And.left h.held_head
  · exact .inl ((em (r ∈ p.runs)).symm.imp (fun hn => ⟨hr, hn⟩) id)

/-- The task of an orphan that has not started is dropped. -/
lemma drop_spawned {task : Nat} {a : Action}
    (h : s.LeftTo own (⟨run, index, .spawned task a⟩ :: orphans)) :
    ((s.endTask task).mark run (.discarded index)).LeftTo own orphans := by
  obtain ⟨ch, hch, hspawns, hst⟩ := h.stage _ List.mem_cons_self
  have hsame := s.sameRuns_endTask task
  refine (h.remove .discarded hch rfl ?_ ?_).widen (fun r hr => hr.1) fun r hr => ?_
  · rw [chronicle?_mark ((chronicle?_congr (hsame.notes run)).trans hch)]
    simp only [Chronicle.next?, hspawns, if_true]
    exact if_pos hst
  · intro r _ _ hr
    exact (notes_mark_of_ne _ _ hr).trans (hsame.notes r)
  · exact .inl ⟨hr, List.not_mem_nil⟩

/-- An orphan that is dropped touches the runs that it held and the one it was a child of. -/
lemma drop_others {o : Orphan} (h : s.LeftTo own (o :: orphans)) {r : Nat}
    (apart : r ∉ o.child.runs) (other : r ≠ o.run) : (o.drop s).1.notes r = s.notes r := by
  obtain ⟨run, index, child⟩ := o
  have hlive := h.live _ List.mem_cons_self
  match child, hlive with
  | .spawned task a, _ =>
      exact (notes_mark_of_ne _ _ other).trans ((s.sameRuns_endTask task).notes r)
  | .running task name p, _ =>
      obtain ⟨env, a, hrest⟩ := h.rest _ List.mem_cons_self task name p rfl
      exact (h.drop_running (Proc.drop_drops hrest h.nodup_cons.1)).2 r apart other

/-- **An orphan is dropped.**  What is left is left to the others and to the orphans below it. -/
theorem drop {o : Orphan} (h : s.LeftTo own (o :: orphans)) :
    (o.drop s).1.LeftTo own (orphans ++ (o.drop s).2) ∧ (o.drop s).1.clock = s.clock ∧
      (o.drop s).1.runs = s.runs ∧ (o.drop s).1.closed = s.closed ∧
      ∀ r, ¬ own r → (o.drop s).1.notes r = s.notes r := by
  have hothers : ∀ r, ¬ own r → (o.drop s).1.notes r = s.notes r := by
    refine fun r hr => h.drop_others (fun hr' => hr (h.held_head hr')) ?_
    rintro rfl
    exact hr h.parent_head.1
  obtain ⟨run, index, child⟩ := o
  have hlive := h.live _ List.mem_cons_self
  match child, hlive with
  | .spawned task a, _ =>
      have hsame := s.sameRuns_endTask task
      refine ⟨?_, hsame.clock, hsame.runs, hsame.closed, hothers⟩
      rw [Orphan.drop, List.append_nil]
      exact h.drop_spawned
  | .running task name p, _ =>
      obtain ⟨env, a, hrest⟩ := h.rest _ List.mem_cons_self task name p rfl
      have hdrops := Proc.drop_drops hrest h.nodup_cons.1
      have hsame := (p.drop s).1.sameRuns_endTask task
      exact ⟨(h.drop_running hdrops).1, hsame.clock.trans hdrops.clock,
        hsame.runs.trans hdrops.runs, hsame.closed.trans hdrops.closed, hothers⟩

end Store.LeftTo

/-! ## Going on next to orphans and below them -/

namespace Store.LeftTo

variable {s s' : Store} {own : Nat → Prop} {orphans : List Orphan} {o : Orphan}

/-- Other code goes on. -/
lemma handover {base : Nat} {runs runs' : List Nat} (hand : Handover runs s runs' s')
    (h : s.LeftTo (fun r => base ≤ r ∧ r < s.runs ∧ r ∉ runs) orphans) :
    s'.LeftTo (fun r => base ≤ r ∧ r < s'.runs ∧ r ∉ runs') orphans := by
  refine (h.congr fun r hr => hand.others r hr.2.1 hr.2.2).widen ?_ ?_
  · rintro r ⟨hb, hlt, hn⟩
    exact ⟨hb, hlt.trans_le hand.runs_le, hand.kept hlt hn⟩
  · rintro r ⟨hb, hlt, hn⟩
    by_cases hold : r < s.runs ∧ r ∉ runs
    · exact .inl ⟨hb, hold⟩
    · refine .inr (hand.isOver hlt ?_ hn)
      by_cases hlt' : r < s.runs
      · exact .inl (by_contra fun hn' => hold ⟨hlt', hn'⟩)
      · exact .inr (by omega)

/-- A task below an orphan goes on. -/
lemma resumeAt {task : Nat} {name : String} {p p' : Proc} {env : Env} {a : Action}
    (h : s.LeftTo own (⟨o.run, o.index, .running task name p⟩ :: orphans))
    (known : ∀ r, own r → r < s.runs) (hand : Handover p.runs s p'.runs s')
    (rest : p'.RestOf s' env a) :
    s'.LeftTo (fun r => own r ∨ s.runs ≤ r ∧ r < s'.runs)
      (⟨o.run, o.index, .running task name p'⟩ :: orphans) := by
  have hmem : ∀ {o'}, o' ∈ orphans → o' ∈ ⟨o.run, o.index, .running task name p⟩ :: orphans :=
    List.mem_cons_of_mem _
  -- What the other orphans hold stays as it was.
  have hframe : Handover (p.runs ++ heldBy orphans) s (p'.runs ++ heldBy orphans) s' :=
    hand.frame [] (heldBy orphans) (by simpa [Child.runs] using h.nodup)
      fun r hr => known r (h.held_tail hr)
  have hparent : ∀ {r}, own r → r ∉ p.runs → r ∉ heldBy orphans →
      (own r ∨ s.runs ≤ r ∧ r < s'.runs) ∧ r ∉ p'.runs ++ heldBy orphans := by
    intro r hr hn hn'
    exact ⟨.inl hr, hframe.kept (known r hr) (by simp [hn, hn'])⟩
  have hstage : ∀ {r i : Nat} {st : Stage}, own r → r ∉ p.runs →
      (∃ ch, s.chronicle? r = some ch ∧ ch.spawns = true ∧ ch.stages[i]? = some st) →
      ∃ ch, s'.chronicle? r = some ch ∧ ch.spawns = true ∧ ch.stages[i]? = some st := by
    rintro r i st hr hn ⟨ch, hch, h'⟩
    exact ⟨ch, (chronicle?_congr (hand.others r (known r hr) hn)).trans hch, h'⟩
  refine
    { places := h.places, nodup := by rw [heldBy_cons]; exact hframe.nodup, held := ?_, live := ?_,
      parent := ?_, stage := ?_, rest := ?_, settled := ?_ }
  · intro r hr
    rw [heldBy_cons] at hr
    exact (hframe.known r hr).imp (fun hr' => (List.mem_append.mp hr').elim h.held_head h.held_tail)
      fun hge => ⟨hge, hframe.bound r hr⟩
  · intro o' ho'
    rcases List.mem_cons.mp ho' with rfl | ho'
    · rfl
    · exact h.live o' (hmem ho')
  · intro o' ho'
    rcases List.mem_cons.mp ho' with rfl | ho'
    · exact hparent h.parent_head.1 h.parent_head.2.1 h.parent_head.2.2
    · obtain ⟨hown, hn, hn'⟩ := h.parent_tail ho'
      exact hparent hown hn hn'
  · intro o' ho'
    rcases List.mem_cons.mp ho' with rfl | ho'
    · exact hstage h.parent_head.1 h.parent_head.2.1 
        (h.stage ⟨o.run, o.index, .running task name p⟩ List.mem_cons_self)
    · exact hstage (h.parent_tail ho').1 (h.parent_tail ho').2.1 (h.stage o' (hmem ho'))
  · intro o' ho' task' name' q hq
    rcases List.mem_cons.mp ho' with rfl | ho'
    · cases hq
      exact ⟨env, a, rest⟩
    · obtain ⟨env', a', hrest⟩ := h.rest o' (hmem ho') task' name' q hq
      refine ⟨env', a', hrest.congr fun r hr => ?_⟩
      have hr' := mem_held ho' hq hr
      exact hand.others r (known r (h.held_tail hr')) (h.nodup_cons.2.2 r hr')
  · intro r hr hn
    rw [heldBy_cons] at hn
    by_cases hold : own r ∧ r ∉ p.runs ++ heldBy orphans
    · obtain ⟨ch, hch, hlive⟩ := h.settled r hold.1 hold.2
      exact ⟨ch, (chronicle?_congr (hframe.others r (known r hold.1) hold.2)).trans hch, hlive⟩
    · -- Everything else was held by the code that has gone on, or is new.
      have hgone : r ∈ p.runs ++ heldBy orphans ∨ s.runs ≤ r :=
        hr.imp (fun hr => by_contra fun hn' => hold ⟨hr, hn'⟩) And.left
      have hlt : r < s'.runs := hr.elim (fun hr => (known r hr).trans_le hand.runs_le) And.right
      exact of_isOver (hframe.isOver hlt hgone hn) _

end Store.LeftTo

end Workflow
