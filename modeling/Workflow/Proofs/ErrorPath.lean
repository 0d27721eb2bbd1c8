import Workflow.Proofs.Cascade
import Workflow.Proofs.Kinship
import Workflow.Proofs.Outcome

/-!
# The path of an error

When the run of a composition comes to an error, there is a path from the root down to one leaf that
says why: at a linear run it goes to the child that did not succeed, at a concurrent run to the
first child that failed.  The error names the children along the path, outermost first, and what is
left when the names are taken off is the error of the leaf.  A panic loses the names between the
leaf and the task that it broke off, the child of the deepest concurrent run on the path; without
such a run it reaches the caller.  The bare request to skip the remainder is handed up by no run.

**Paths.**  `Store.Trail` is a path through the runs of a trace, one `Hop` for each child, by a rule
that says which children may be chosen; `Store.AtFault` is the rule for errors.  `handUp` is what
the exit of a leaf becomes on the way up.

**What the trace says.**  `World.Told`: the exit of every child is that of its run.  So every path
of errors hands up what the run above has ended with (`Told.handUp_of_trail`), and there is such a
path for every error (`Told.exists_trail`).
-/

namespace Workflow

open Store

/-! ## Exits on their way up -/

/-- Whether the exit of a child decides that of its runner, when no earlier child's does.  The
children of the runner may have tasks of their own. -/
def Exit.Counts (tasks : Bool) (x : Exit) : Prop :=
  x ≠ .done ∧ (tasks = true → x ≠ .failed .skipRemainder)

/-- The exit of a runner that the exit of its child called `name` has decided. -/
def Exit.passed (tasks : Bool) (name : String) (x : Exit) : Exit :=
  if tasks then .ofResult (x.failureOf name) else x.stopping name

/-- One step of a path, from a runner to a child. -/
structure Hop where
  /-- The name of the child. -/
  name : String
  /-- Whether the children of the runner have tasks of their own. -/
  tasks : Bool

/-- What the exit of the last child on a path becomes on the way up to the first runner. -/
def handUp (hops : List Hop) (x : Exit) : Exit :=
  hops.foldr (fun h x => x.passed h.tasks h.name) x

lemma Exit.failureOf_eq_none_iff {name : String} {x : Exit} :
    x.failureOf name = none ↔ x = .done ∨ x = .failed .skipRemainder := by
  match x with
  | .done | .panicked _ => simp [failureOf]
  | .failed f => cases f <;> simp [failureOf]

lemma Exit.counts_tasks_iff {name : String} {x : Exit} :
    x.Counts true ↔ x.failureOf name ≠ none := by
  rw [Ne, failureOf_eq_none_iff, not_or]
  simp [Counts]

lemma Exit.passed_failed {f : Failure} (hf : f ≠ .skipRemainder) (tasks : Bool) (name : String) :
    (Exit.failed f).passed tasks name = .failed (.failed name f) := by
  cases f <;> cases tasks <;> first | rfl | exact absurd rfl hf

/-- Success and the request to skip the remainder are handed up as success. -/
lemma Exit.passed_of_not_failure {x : Exit} (h : x = .done ∨ x = .failed .skipRemainder)
    (tasks : Bool) (name : String) : x.passed tasks name = .done := by
  rcases h with rfl | rfl <;> cases tasks <;> rfl

section

variable {hops : List Hop}

/-- A failure gets the names of the path, and its root and the names in it stay. -/
lemma handUp_failed (hops : List Hop) {f : Failure} (hf : f ≠ .skipRemainder) :
    ∃ g, handUp hops (.failed f) = .failed g ∧ g ≠ .skipRemainder ∧
      g.chain = hops.map Hop.name ++ f.chain ∧ g.root = f.root := by
  induction hops with
  | nil => exact ⟨f, rfl, hf, rfl, rfl⟩
  | cons h hops ih =>
      obtain ⟨g, hg, hne, hchain, hroot⟩ := ih
      refine ⟨.failed h.name g, ?_, by simp, ?_, ?_⟩
      · rw [handUp, List.foldr_cons]
        exact (congrArg _ hg).trans (Exit.passed_failed hne _ _)
      · simp [Failure.chain, hchain]
      · simp [Failure.root, hroot]

/-- A panic passes through linear runs as it is. -/
lemma handUp_panicked (payload : Option String) (linear : ∀ h ∈ hops, h.tasks = false) :
    handUp hops (.panicked payload) = .panicked payload := by
  induction hops with
  | nil => rfl
  | cons h hops ih =>
      rw [handUp, List.foldr_cons]
      refine (congrArg _ (ih fun h' hh' => linear h' (List.mem_cons_of_mem _ hh'))).trans ?_
      rw [linear h List.mem_cons_self]
      rfl

/-- The runner of the deepest task on the path reports the panic, and the names below are lost. -/
lemma handUp_panicked_task (above below : List Hop) (name : String) (payload : Option String)
    (linear : ∀ h ∈ below, h.tasks = false) :
    handUp (above ++ ⟨name, true⟩ :: below) (.panicked payload) =
      handUp above (.failed (.panicked name (payload.getD "non-string panic payload"))) := by
  rw [handUp, List.foldr_append, List.foldr_cons]
  exact congrArg (handUp above) (congrArg _ (handUp_panicked payload linear))

/-- A path goes through linear runs alone, or it has a deepest task. -/
lemma exists_deepest_task (hops : List Hop) : (∀ h ∈ hops, h.tasks = false) ∨
    ∃ above name below, hops = above ++ ⟨name, true⟩ :: below ∧ ∀ h ∈ below, h.tasks = false := by
  induction hops with
  | nil => exact .inl (by simp)
  | cons h hops ih =>
      rcases ih with hlinear | ⟨above, name, below, rfl, hlinear⟩
      · obtain ⟨name, tasks⟩ := h
        cases tasks with
        | false => exact .inl (List.forall_mem_cons.mpr ⟨rfl, hlinear⟩)
        | true => exact .inr ⟨[], name, hops, rfl, hlinear⟩
      · exact .inr ⟨h :: above, name, below, rfl, hlinear⟩

/-- What is handed up as no success came from a failure or a panic. -/
lemma not_of_handUp_ne_done {x : Exit} (hne : handUp hops x ≠ .done) (hops_ne : hops ≠ []) :
    x ≠ .done ∧ x ≠ .failed .skipRemainder := by
  rw [← not_or]
  intro hx
  refine hne ?_
  clear hne
  induction hops with
  | nil => exact absurd rfl hops_ne
  | cons h hops ih =>
      rw [handUp, List.foldr_cons]
      by_cases hnil : hops = []
      · subst hnil
        exact Exit.passed_of_not_failure hx _ _
      · exact (congrArg _ (ih hnil)).trans (Exit.passed_of_not_failure (.inl rfl) _ _)

end

/-! ## Paths -/

/-- The children of a runner, in the order in which they were submitted. -/
def Action.submitted (a : Action) : List Action :=
  a.children?.getD []

/-- Whether a gate can be made with every limit in a composition.  What leaves run is their own
affair. -/
inductive Action.Runnable : Action → Prop where
  | leaf {a : Action} (bare : a.bare.children? = none) : Runnable a
  | runner {a : Action} {cs : List Action} (bare : a.bare.children? = some cs)
      (limit : ∀ l, a.bare.limit? = some l → l.value ≤ maxSlots) (children : ∀ c ∈ cs, Runnable c) :
      Runnable a

/-- There is nothing left to take off. -/
lemma Action.bare_bare (a : Action) : a.bare.bare = a.bare := by
  fun_induction Action.bare a with
  | case1 _ _ ih => exact ih
  | case2 _ ih => exact ih
  | case3 a hnamed hboxed => rw [Action.bare.eq_3 a hnamed hboxed]

namespace Action.Runnable

variable {a : Action}

lemma bare (h : a.Runnable) : a.bare.Runnable := by
  cases h with
  | leaf bare => exact .leaf (by rwa [a.bare_bare])
  | runner bare limit children =>
      exact .runner (by rwa [a.bare_bare]) (by rwa [a.bare_bare]) children

lemma cases (h : a.Runnable) (hbare : a.bare = a) {cs : List Action} (hcs : a.children? = some cs) :
    (∀ l, a.limit? = some l → l.value ≤ maxSlots) ∧ ∀ c ∈ cs, c.Runnable := by
  cases h with
  | leaf bare => rw [hbare, hcs] at bare; cases bare
  | runner bare limit children =>
      rw [hbare] at bare limit
      rw [hcs] at bare
      cases bare
      exact ⟨limit, children⟩

end Action.Runnable

namespace Store

/-- A path through runs, from the run `r` of the runner `a` down to a leaf that has ended with `x`.
At each run a child is chosen by a rule. -/
inductive Trail (s : Store) (rule : Nat → Action → Nat → Prop) :
    Nat → Action → List Hop → Exit → Prop where
  | leaf {r i : Nat} {a c : Action} {x : Exit} (chosen : rule r a i)
      (child : a.submitted[i]? = some c) (bare : c.bare.children? = none)
      (ended : .ended i x ∈ s.marks r) :
      Trail s rule r a [⟨c.name, a.dispatch?.isSome⟩] x
  | down {r i r' : Nat} {a c : Action} {hops : List Hop} {x : Exit} (chosen : rule r a i)
      (child : a.submitted[i]? = some c) (bare : c.bare.children? ≠ none)
      (run : s.ChildRun r i c r') (rest : Trail s rule r' c.bare hops x) :
      Trail s rule r a (⟨c.name, a.dispatch?.isSome⟩ :: hops) x

/-- The child `i` is at fault for the exit of the run `r` of the runner `a`: the first child that
has not succeeded, in a linear run, and the first one that has failed or panicked in a concurrent
run. -/
def AtFault (s : Store) (r : Nat) (a : Action) (i : Nat) : Prop :=
  (∃ x, .ended i x ∈ s.marks r ∧ x.Counts a.dispatch?.isSome) ∧
    ∀ j < i, ∃ x, .ended j x ∈ s.marks r ∧ ¬ x.Counts a.dispatch?.isSome

end Store

/-! ## What the exits of children command -/

/-- When the result of exits is not success, there is a first child that has failed. -/
lemma exists_first_failure {cs : List Action} {exits : List Exit}
    (hne : resultOf cs exits ≠ .done) :
    ∃ (i : Nat) (c : Action) (x : Exit), cs[i]? = some c ∧ exits[i]? = some x ∧ x.Counts true ∧
      ∀ j < i, ∃ x, exits[j]? = some x ∧ ¬ x.Counts true := by
  obtain ⟨f, hf⟩ : ∃ f, ((cs.zip exits).findSome? fun x => x.2.failureOf x.1.name) = some f :=
    Option.ne_none_iff_exists'.mp fun hnone => hne (Exit.ofResult_eq_done.mpr hnone)
  obtain ⟨before, ⟨c, x⟩, after, hzip, hx, hbefore⟩ := List.findSome?_eq_some_iff.mp hf
  have hget : (cs.zip exits)[before.length]? = some (c, x) := by rw [hzip]; simp
  obtain ⟨hc, hexit⟩ := List.getElem?_zip_eq_some.mp hget
  refine ⟨before.length, c, x, hc, hexit,
    Exit.counts_tasks_iff.mpr (Option.ne_none_iff_exists'.mpr ⟨f, hx⟩), fun j hj => ?_⟩
  have hmem : (cs.zip exits)[j]? = some before[j] := by
    rw [hzip, List.getElem?_append_left hj, List.getElem?_eq_getElem hj]
  refine ⟨before[j].2, (List.getElem?_zip_eq_some.mp hmem).2, fun hcounts => ?_⟩
  exact Exit.counts_tasks_iff.mp hcounts (hbefore _ (List.getElem_mem hj))

namespace Chronicle

variable {ms : List Mark} {ch : Chronicle} {e x : Exit} {i : Nat}

/-- A child that was started is the one with its index. -/
lemma submitted_of_started (h : ofMarks? ms = some ch) {c : Action} (hm : .started i c ∈ ms) :
    ch.runner.submitted[i]? = some c := by
  have hlife : .started i c ∈ lifeOf i ms := List.mem_filter.mpr ⟨hm, by simp [Mark.child?]⟩
  rw [lifeOf_eq h] at hlife
  cases hst : ch.stages[i]? with
  | none => rw [hst] at hlife; cases hlife
  | some st =>
      have hi : i < ch.children.length :=
        (List.getElem?_eq_some_iff.mp hst).1.trans_le (length_le h)
      have hget : ch.runner.submitted[i]? = some ch.children[i] := List.getElem?_eq_getElem hi
      rw [hst, List.getElem?_eq_getElem hi] at hlife
      have hc : c = ch.children[i] := by
        cases hs : ch.spawns <;> cases st <;> simp_all [Stage.life]
      rw [hget, hc]

/-- What the children of a linear run have come to when it has to end. -/
lemma linearOutcome?_cases {names : List String} {stages : List Stage}
    (h : linearOutcome? names stages = some e) :
    (stages = List.replicate names.length (.ended .done) ∧ e = .done) ∨
      ∃ before name after x, names = before ++ name :: after ∧
        stages = List.replicate before.length (.ended .done) ++ [.ended x] ∧ x ≠ .done ∧
        e = x.stopping name := by
  induction names generalizing stages with
  | nil =>
      cases stages with
      | nil => cases h; exact .inl ⟨rfl, rfl⟩
      | cons => cases h
  | cons name names ih =>
      match stages, h with
      | .ended x :: stages, h =>
          simp only [linearOutcome?] at h
          split_ifs at h with hdone hnil
          · subst hdone
            rcases ih h with ⟨rfl, rfl⟩ | ⟨before, name', after, x, rfl, rfl, hx, rfl⟩
            · exact .inl ⟨rfl, rfl⟩
            · exact .inr ⟨name :: before, name', after, x, rfl, rfl, hx, rfl⟩
          · cases h
            subst hnil
            exact .inr ⟨[], name, names, x, rfl, rfl, hdone, rfl⟩

/-- The exit of a linear run that has to end, as the child at fault has decided it. -/
lemma linear_cases {cs : List Action} (hr : ch.runner = .linear cs) (h : ch.outcome? = some e) :
    (e = .done ∧ ∀ (j : Nat) st, ch.stages[j]? = some st → st = .ended .done) ∨
      ∃ k c x, cs[k]? = some c ∧ ch.stages = List.replicate k (.ended .done) ++ [.ended x] ∧
        x ≠ .done ∧ e = x.stopping c.name := by
  simp only [outcome?, hr] at h
  rcases linearOutcome?_cases h with ⟨hst, rfl⟩ | ⟨before, name, after, x, hnames, hst, hx, rfl⟩
  · refine .inl ⟨rfl, fun j st hj => ?_⟩
    rw [hst] at hj
    exact List.eq_of_mem_replicate (List.mem_of_getElem? hj)
  · have hname : (cs.map Action.name)[before.length]? = some name := by rw [hnames]; simp
    rw [List.getElem?_map] at hname
    obtain ⟨c, hc, rfl⟩ := Option.map_eq_some_iff.mp hname
    exact .inr ⟨before.length, c, x, hc, hst, hx, rfl⟩

/-- The stages of the children of a linear run that stopped at the child `k`. -/
lemma getElem?_stopped (k j : Nat) (x : Exit) :
    (List.replicate k (Stage.ended .done) ++ [.ended x])[j]? =
      if j < k then some (.ended .done) else if j = k then some (.ended x) else none := by
  rw [getElem?_concat, List.length_replicate, List.getElem?_replicate]
  split_ifs <;> first | rfl | omega

/-- In a linear run that has to end, all children before one that did not succeed have. -/
lemma done_before {cs : List Action} (hr : ch.runner = .linear cs) (h : ch.outcome? = some e)
    (stage : ch.stages[i]? = some (.ended x)) (hx : x ≠ .done) :
    ∀ j < i, ch.stages[j]? = some (.ended .done) := by
  intro j hj
  rcases linear_cases hr h with ⟨-, hall⟩ | ⟨k, c, x', -, hst, -, -⟩
  · cases hall i _ stage
    exact absurd rfl hx
  · rw [hst, getElem?_stopped] at stage ⊢
    split_ifs at stage with hk hk
    · cases stage
      exact absurd rfl hx
    · rw [if_pos (by omega)]

/-- The slots of a runner that has no limit that is too great. -/
lemma concurrent_of_runner {cs : List Action} (hcs : ch.runner.children? = some cs) :
    ch.runner = .linear cs ∨ ∃ slots, ch.runner.dispatch? = some (slots, cs) ∧
      ∀ n ∈ slots, ∃ l, ch.runner.limit? = some l ∧ l.value = n := by
  match hr : ch.runner, hcs with
  | .linear cs', hcs => cases hcs; exact .inl rfl
  | .async cs', hcs => cases hcs; exact .inr ⟨none, rfl, by simp⟩
  | .throttled limit cs', hcs =>
      cases hcs
      exact .inr ⟨some limit.value, rfl, by rintro _ ⟨⟩; exact ⟨limit, rfl, rfl⟩⟩

variable {cs : List Action} (hcs : ch.runner.children? = some cs)
  (accepted : ∀ l, ch.runner.limit? = some l → l.value ≤ maxSlots) (h : ch.outcome? = some e)

include hcs accepted h

/-- In a run that has to end all children that were started have ended. -/
lemma ended_of_outcome? : ∀ st ∈ ch.stages, ∃ x, st = .ended x := by
  rcases concurrent_of_runner hcs with hr | ⟨slots, hd, hslots⟩
  · intro st hst
    obtain ⟨j, hj⟩ := List.mem_iff_getElem?.mp hst
    rcases linear_cases hr h with ⟨-, hall⟩ | ⟨k, c, x, -, hstages, -, -⟩
    · exact ⟨_, hall j st hj⟩
    · rw [hstages, getElem?_stopped] at hj
      split_ifs at hj <;> cases hj <;> exact ⟨_, rfl⟩
  · obtain ⟨exits, hst, -⟩ := exits_of_outcome? hd
      (fun n hn => by obtain ⟨l, hl, rfl⟩ := hslots n hn; exact accepted l hl) h
    rw [hst]
    intro st hmem
    obtain ⟨x, -, rfl⟩ := List.mem_map.mp hmem
    exact ⟨x, rfl⟩

/-- A run that does not end with success has a child at fault. -/
lemma exists_fault (hne : e ≠ .done) : ∃ (i : Nat) (c : Action) (x : Exit), cs[i]? = some c ∧
    ch.stages[i]? = some (.ended x) ∧ x.Counts ch.runner.dispatch?.isSome ∧
      ∀ j < i, ∃ x : Exit,
        ch.stages[j]? = some (.ended x) ∧ ¬ x.Counts ch.runner.dispatch?.isSome := by
  rcases concurrent_of_runner hcs with hr | ⟨slots, hd, hslots⟩
  · rcases linear_cases hr h with ⟨rfl, -⟩ | ⟨k, c, x, hc, hst, hx, -⟩
    · exact absurd rfl hne
    · refine ⟨k, c, x, hc, ?_, ⟨hx, by simp [hr, Action.dispatch?]⟩, fun j hj => ⟨.done, ?_, ?_⟩⟩
      · rw [hst, getElem?_stopped, if_neg (lt_irrefl k), if_pos rfl]
      · rw [hst, getElem?_stopped, if_pos hj]
      · exact fun hcounts => hcounts.1 rfl
  · obtain ⟨exits, hst, hlen, rfl⟩ := exits_of_outcome? hd
      (fun n hn => by obtain ⟨l, hl, rfl⟩ := hslots n hn; exact accepted l hl) h
    obtain ⟨i, c, x, hc, hx, hcounts, hfirst⟩ := exists_first_failure hne
    rw [hd, Option.isSome_some]
    refine ⟨i, c, x, hc, by rw [hst, List.getElem?_map, hx]; rfl, hcounts, fun j hj => ?_⟩
    obtain ⟨x', hx', hnot⟩ := hfirst j hj
    exact ⟨x', by rw [hst, List.getElem?_map, hx']; rfl, hnot⟩

/-- The child at fault decides the exit of the run. -/
lemma eq_passed {c : Action} (hc : cs[i]? = some c) (stage : ch.stages[i]? = some (.ended x))
    (counts : x.Counts ch.runner.dispatch?.isSome)
    (first : ∀ j < i, ∃ x : Exit, ch.stages[j]? = some (.ended x) ∧
      ¬ x.Counts ch.runner.dispatch?.isSome) :
    e = x.passed ch.runner.dispatch?.isSome c.name := by
  rcases concurrent_of_runner hcs with hr | ⟨slots, hd, hslots⟩
  · rcases linear_cases hr h with ⟨-, hall⟩ | ⟨k, c', x', hc', hst, -, rfl⟩
    · cases hall i _ stage
      exact absurd rfl counts.1
    · rw [hst, getElem?_stopped] at stage
      split_ifs at stage with hk hk
      · cases stage
        exact absurd rfl counts.1
      · subst hk
        rw [hc] at hc'
        cases hc'
        cases stage
        rw [hr]
        rfl
  · obtain ⟨exits, hst, hlen, rfl⟩ := exits_of_outcome? hd
      (fun n hn => by obtain ⟨l, hl, rfl⟩ := hslots n hn; exact accepted l hl) h
    rw [hd, Option.isSome_some] at counts first ⊢
    have hexit : ∀ {j : Nat} {x : Exit}, ch.stages[j]? = some (.ended x) → exits[j]? = some x := by
      intro j x hj
      rw [hst, List.getElem?_map] at hj
      obtain ⟨y, hy, heq⟩ := Option.map_eq_some_iff.mp hj
      cases heq
      exact hy
    obtain ⟨f, hf⟩ := Option.ne_none_iff_exists'.mp (Exit.counts_tasks_iff.mp counts)
    rw [Exit.passed, if_pos rfl, hf]
    refine resultOf_eq_failed hc (hexit stage) hf fun j hj c' x' _ hx' => ?_
    obtain ⟨x'', hx'', hnot⟩ := first j hj
    rw [hexit hx''] at hx'
    cases hx'
    exact not_not.mp fun hne => hnot (Exit.counts_tasks_iff.mpr hne)

end Chronicle

/-- No run ends with the bare request to skip the remainder. -/
lemma Chronicle.outcome?_ne_skip {ch : Chronicle} {e : Exit} (h : ch.outcome? = some e) :
    e ≠ .failed .skipRemainder := by
  have hresult : ∀ {names stages}, (firstFailure? names stages).map Exit.ofResult = some e →
      e ≠ .failed .skipRemainder := by
    rintro names stages hfirst rfl
    obtain ⟨f, hf, heq⟩ := Option.map_eq_some_iff.mp hfirst
    obtain ⟨exits, -, -, hfind⟩ := firstFailure?_eq_some.mp hf
    rw [hfind] at heq
    cases hsome : (names.zip exits).findSome? fun x => x.2.failureOf x.1 with
    | none => rw [hsome] at heq; cases heq
    | some g =>
        rw [hsome] at heq
        cases heq
        obtain ⟨⟨name, x⟩, -, hx⟩ := List.exists_of_findSome?_eq_some hsome
        cases x with
        | done => cases hx
        | failed f => cases f <;> cases hx
        | panicked => cases hx
  unfold outcome? at h
  split at h
  · rintro rfl
    rcases linearOutcome?_cases h with ⟨-, heq⟩ | ⟨-, name, -, x, -, -, -, heq⟩
    · cases heq
    · cases x with
      | done | panicked => cases heq
      | failed f => cases f <;> cases heq
  · exact hresult h
  · split_ifs at h
    · cases h; simp
    · exact hresult h
  · cases h

/-! ## Which run is a child's -/

/-- Something that occurs once in a list occurs at one place. -/
lemma eq_of_nodup_filterMap {α β : Type} {l before before' after after' : List α} {a a' : α}
    {f : α → Option β} {b : β} (nodup : (l.filterMap f).Nodup) (h : l = before ++ a :: after)
    (h' : l = before' ++ a' :: after') (ha : f a = some b) (ha' : f a' = some b) :
    after = after' := by
  have hnot : ∀ {xs ys : List α} {x y : α}, f x = some b → f y = some b →
      l = xs ++ y :: ys → x ∉ xs := by
    rintro xs ys x y hx hy rfl hmem
    rw [List.filterMap_append, List.filterMap_cons_some hy] at nodup
    exact (List.nodup_append.mp nodup).2.2 b (List.mem_filterMap.mpr ⟨x, hmem, hx⟩) b
      List.mem_cons_self rfl
  rcases List.append_eq_append_iff.mp (h.symm.trans h') with ⟨c, hc, heq⟩ | ⟨c, hc, heq⟩
  · cases c with
    | nil => exact (List.cons.inj heq).2
    | cons x c =>
        obtain ⟨rfl, -⟩ := List.cons.inj heq
        exact absurd (by rw [hc]; simp) (hnot ha ha' h')
  · cases c with
    | nil => exact (List.cons.inj heq).2.symm
    | cons x c =>
        obtain ⟨rfl, -⟩ := List.cons.inj heq
        exact absurd (by rw [hc]; simp) (hnot ha' ha h)

namespace Store

variable {s : Store} {r i r' r'' : Nat} {c c' : Action}

lemma ChildRun.started (h : s.ChildRun r i c r') : .started i c ∈ s.marks r := by
  obtain ⟨t, ht⟩ := h
  exact mem_marks.mpr ⟨_, ht.subset List.mem_cons_self, rfl, rfl⟩

lemma ChildRun.begun (h : s.ChildRun r i c r') : .begun c.bare ∈ s.marks r' := by
  obtain ⟨t, ht⟩ := h
  exact mem_marks.mpr ⟨_, ht.subset (List.mem_cons_of_mem _ List.mem_cons_self), rfl, rfl⟩

/-- A child is started once, and so it has one run. -/
lemma ChildRun.unique {ch : Chronicle} (hch : s.chronicle? r = some ch) (h : s.ChildRun r i c r')
    (h' : s.ChildRun r i c' r'') : r' = r'' := by
  obtain ⟨t, before, after, heq⟩ := h
  obtain ⟨t', before', after', heq'⟩ := h'
  set f : Note → Option Nat := fun n => if n.run = some r then n.mark.started? else none with hf
  have hmarks : s.trace.toList.filterMap f = (s.marks r).filterMap Mark.started? := by
    rw [marks, notes, List.filterMap_map, List.filterMap_filter]
    refine List.filterMap_congr fun n _ => ?_
    by_cases hn : n.run = some r <;> simp [hf, hn]
  have hafter := eq_of_nodup_filterMap (b := i) (f := f)
    (by rw [hmarks]; exact Chronicle.nodup_started hch)
    (heq.symm.trans (by rw [List.append_assoc]; rfl))
    (heq'.symm.trans (by rw [List.append_assoc]; rfl)) (by simp [hf, Mark.started?])
    (by simp [hf, Mark.started?])
  injection hafter with hnote
  injection hnote with _ hrun
  exact Option.some.inj hrun

end Store

/-! ## Worlds -/

namespace World

/-- The ends of children are explained, and so are those that will be, as far as the root has
come. -/
structure Told (base : Nat) (w : World) : Prop where
  base_le : base ≤ w.store.runs
  ended : ∀ r, base ≤ r → ∀ i x, .ended i x ∈ w.store.marks r → w.store.Explains base r i x
  root : ∀ p, w.root = .running p → p.Linked base w.store

namespace Told

variable {base : Nat} {env : Env} {a : Action} {w v : World}

lemma continues (h : w.Told base) {s : Store} (hc : w.store.Continues base s) {root : Root}
    (hroot : ∀ p, root = .running p → p.Linked base s) (orphans : List Orphan)
    (agenda : List Appointment) : (World.mk s root orphans agenda).Told base where
  base_le := h.base_le.trans hc.runs_le
  ended r hr i x hx :=
    (hc.ended r i x hx).elim (fun hold => (h.ended r hr i x hold).grow hc.notes) id
  root := hroot

/-- Nothing is done to the root. -/
lemma aside (h : w.Told base) {s : Store} (hc : w.store.Continues base s) (orphans : List Orphan)
    (agenda : List Appointment) : (World.mk s w.root orphans agenda).Told base :=
  h.continues hc (fun p hp => (h.root p hp).grow hc.notes) orphans agenda

/-- The root's own code has gone on. -/
lemma tells (h : w.Told base) {top : Option Nat} {out : Store × Progress}
    (tells : Tells base top w.store out) :
    ({ w with store := out.1, root := .ofProgress out.2 } : World).Told base := by
  match out, tells with
  | (s, .paused p), ⟨hc, linked, _⟩ =>
      exact h.continues hc (by rintro _ ⟨⟩; exact linked) _ _
  | (s, .ended e), ⟨hc, _⟩ => exact h.continues hc (by rintro _ ⟨⟩) _ _

lemma pollRoot (h : w.Told base) : w.pollRoot.Told base := by
  unfold World.pollRoot
  match hroot : w.root with
  | .unstarted env a =>
      exact h.tells ((Action.start_tells env w.store h.base_le a).of_continues (.opened base _ a))
  | .running p => exact h.tells (Proc.resume_tells (h.root p hroot) h.base_le)
  | .ended _ | .dropped => exact h

/-- Every turn is told of, as long as there are no orphans. -/
lemma take (h : w.Told base) (alone : w.orphans = []) (t : Turn) : (w.take t).Told base := by
  cases t with
  | root => exact h.pollRoot
  | task index path =>
      unfold World.take
      match hroot : w.root with
      | .running p =>
          obtain ⟨hc, linked, -⟩ := Proc.resumeAt_tells (h.root p hroot) h.base_le index path
          exact h.continues hc (by rintro _ ⟨⟩; exact linked) _ _
      | .unstarted _ _ | .ended _ | .dropped => exact h
  | orphan place | orphanTask place _ _ => simpa [World.take, alone] using h
  | timer t =>
      have hc : w.store.Continues base (w.store.withContexts (w.store.contexts.fire t)) :=
        .of_trace rfl (le_refl _)
      exact h.aside hc _ _
  | appointment place =>
      cases ha : w.agenda[place]? with
      | some x => simp only [World.take, ha]; exact h.aside (.suffer _ _) _ _
      | none => simp only [World.take, ha]; exact h

lemma advance (h : w.Told base) (time : Nat) : (w.advance time).Told base := by
  have hc : w.store.Continues base (w.advance time).store := .of_trace rfl (le_refl _)
  exact h.aside hc _ _

end Told

/-- As long as the run was not given up, the end of every child is explained. -/
theorem Leads.told {w₀ w : World} {env : Env} {a : Action} (opens : w₀.Opens env a)
    (leads : Leads w₀ w) : w.root = .dropped ∨ w.Told w₀.store.runs := by
  induction leads with
  | refl =>
      refine .inr ⟨le_refl _, fun r hr i x hx => ?_, fun p hp => ?_⟩
      · rw [Store.marks, opens.tidy.fresh r hr] at hx
        cases hx
      · rw [opens.root] at hp
        cases hp
  | @step w v leads s ih =>
      by_cases hroot : w.root = .dropped
      · exact .inl ((s.aftermath (by rw [hroot]; rfl)).root_eq.trans hroot)
      · have told := ih.resolve_left hroot
        refine .inr ?_
        cases s with
        | turn t => exact told.take ((leads.accounted opens).alone hroot) t
        | tick => exact told.advance _
  | pass _ _ ih => exact ih.imp id fun told => told.advance _
  | @abandon w _ ih =>
      unfold World.abandon
      cases hroot : w.root with
      | running | unstarted => exact .inl rfl
      | ended | dropped => exact ih

/-! ## Paths of errors -/

section

variable {base : Nat} {env : Env} {a : Action} {w : World} {e : Exit}

/-- The run `r` of the runner `a`, one of those that have begun since, has ended with `e`. -/
structure EndedRun (w : World) (base r : Nat) (a : Action) (ch : Chronicle) (e : Exit) : Prop where
  since : base ≤ r
  chronicle : w.store.chronicle? r = some ch
  runner : ch.runner = a
  finished : .finished e ∈ w.store.marks r
  outcome : ch.outcome? = some e

/-- When the root has ended, so has every run. -/
lemma Accounted.endedRun (acc : w.Accounted base env a) (root : w.root = .ended e) {r : Nat}
    {runner : Action} (since : base ≤ r) (begun : .begun runner ∈ w.store.marks r) :
    ∃ ch e', w.EndedRun base r runner ch e' := by
  have hr : r < w.store.runs := by
    by_contra hge
    rw [Store.marks, acc.tidy.fresh r (by omega)] at begun
    cases begun
  obtain ⟨runner', e', ch, hch, -, hexit⟩ := acc.ended (by rw [root]; simp) r since hr
    (by rw [root]; exact List.not_mem_nil)
  exact ⟨ch, e', since, hch, ((Chronicle.begun_mem hch _).mp begun).symm,
    (Chronicle.finished_mem hch e').mpr hexit, Chronicle.outcome?_of_exit hch hexit⟩

variable {r : Nat} {runner : Action} {ch : Chronicle} {cs : List Action} {e' : Exit}

namespace EndedRun

/-- Whatever a run has ended with, it was that alone. -/
lemma eq {x : Exit} (run : w.EndedRun base r runner ch e')
    (finished : .finished x ∈ w.store.marks r) : x = e' := by
  have h₁ := (Chronicle.finished_mem run.chronicle x).mp finished
  have h₂ := (Chronicle.finished_mem run.chronicle e').mp run.finished
  rw [h₁] at h₂
  exact Option.some.inj h₂

/-- The child at fault, in terms of the stages of the children. -/
lemma atFault_iff (run : w.EndedRun base r runner ch e') {i : Nat} :
    w.store.AtFault r runner i ↔
      (∃ x : Exit, ch.stages[i]? = some (.ended x) ∧ x.Counts ch.runner.dispatch?.isSome) ∧
        ∀ j < i, ∃ x : Exit, ch.stages[j]? = some (.ended x) ∧
          ¬ x.Counts ch.runner.dispatch?.isSome := by
  simp only [AtFault, Chronicle.mem_ended_iff run.chronicle, run.runner]

/-- The child at fault for the exit of a run decides it. -/
lemma eq_passed (run : w.EndedRun base r runner ch e') (hcs : runner.children? = some cs)
    (accepted : ∀ l, runner.limit? = some l → l.value ≤ maxSlots) {i : Nat} {c : Action} {x : Exit}
    (fault : w.store.AtFault r runner i) (child : runner.submitted[i]? = some c)
    (ended : .ended i x ∈ w.store.marks r) :
    e' = x.passed runner.dispatch?.isSome c.name := by
  obtain ⟨⟨x', hx', hcounts⟩, hfirst⟩ := run.atFault_iff.mp fault
  have hx := (Chronicle.mem_ended_iff run.chronicle).mp ended
  rw [hx'] at hx
  cases hx
  obtain rfl := run.runner
  have hc : cs[i]? = some c := by rwa [Action.submitted, hcs] at child
  exact Chronicle.eq_passed hcs accepted run.outcome hc hx' hcounts hfirst

/-- In a linear run a child that has not succeeded is the one at fault. -/
lemma atFault_of_linear (run : w.EndedRun base r runner ch e') (hcs : runner.children? = some cs)
    (linear : runner.dispatch?.isSome = false) {i : Nat} {x : Exit} (hx : x ≠ .done)
    (ended : .ended i x ∈ w.store.marks r) : w.store.AtFault r runner i := by
  obtain rfl := run.runner
  have hst := (Chronicle.mem_ended_iff run.chronicle).mp ended
  have hr : ch.runner = .linear cs := by
    rcases Chronicle.concurrent_of_runner hcs with hr | ⟨slots, hd, -⟩
    · exact hr
    · rw [hd] at linear
      cases linear
  refine run.atFault_iff.mpr ⟨⟨x, hst, hx, by simp [linear]⟩, fun j hj => ⟨.done, ?_, ?_⟩⟩
  · exact Chronicle.done_before hr run.outcome hst hx j hj
  · exact fun hcounts => hcounts.1 rfl

end EndedRun

/-- A child that is a runner has ended with what its run has ended with. -/
lemma Told.explained (told : w.Told base) (acc : w.Accounted base env a) (root : w.root = .ended e)
    (run : w.EndedRun base r runner ch e') {i : Nat} {c : Action} {x : Exit}
    (child : runner.submitted[i]? = some c) (bare : c.bare.children? ≠ none)
    (ended : .ended i x ∈ w.store.marks r) :
    ∃ r' ch', w.store.ChildRun r i c r' ∧ w.EndedRun base r' c.bare ch' x := by
  obtain ⟨c', started, hrun⟩ := told.ended r run.since i x ended
  have hc' := Chronicle.submitted_of_started run.chronicle started
  rw [run.runner, child] at hc'
  obtain rfl := Option.some.inj hc'
  obtain ⟨r', since, childRun, finished⟩ := hrun.resolve_left bare
  obtain ⟨ch', x', run'⟩ := acc.endedRun root since childRun.begun
  obtain rfl := run'.eq finished
  exact ⟨r', ch', childRun, run'⟩

/-- The run of a child has ended, and the run above has taken notice of that. -/
lemma Told.ended_child (told : w.Told base) (acc : w.Accounted base env a)
    (root : w.root = .ended e) (run : w.EndedRun base r runner ch e')
    (hcs : runner.children? = some cs)
    (accepted : ∀ l, runner.limit? = some l → l.value ≤ maxSlots) {i r' : Nat} {c : Action}
    (bare : c.bare.children? ≠ none) (childRun : w.store.ChildRun r i c r') :
    ∃ ch' x, w.EndedRun base r' c.bare ch' x ∧ .ended i x ∈ w.store.marks r := by
  obtain rfl := run.runner
  -- The run has ended, so that the child, which was started, has ended as well.
  obtain ⟨x, hx⟩ : ∃ x, .ended i x ∈ w.store.marks r := by
    have hlife : .started i c ∈ lifeOf i (w.store.marks r) :=
      List.mem_filter.mpr ⟨childRun.started, by simp [Mark.child?]⟩
    rw [Chronicle.lifeOf_eq run.chronicle] at hlife
    cases hst : ch.stages[i]? with
    | none => rw [hst] at hlife; cases hlife
    | some st =>
        obtain ⟨x, rfl⟩ := Chronicle.ended_of_outcome? hcs accepted run.outcome st
          (List.mem_of_getElem? hst)
        exact ⟨x, (Chronicle.mem_ended_iff run.chronicle).mpr hst⟩
  obtain ⟨r'', ch', childRun', run'⟩ := told.explained acc root run
    (Chronicle.submitted_of_started run.chronicle childRun.started) bare hx
  obtain rfl := childRun.unique run.chronicle childRun'
  exact ⟨ch', x, run', hx⟩

/-- **A path of errors hands up the exit of the run** that it begins at. -/
theorem Told.handUp_of_trail (told : w.Told base) (acc : w.Accounted base env a)
    (root : w.root = .ended e) {hops : List Hop} {x : Exit}
    (trail : w.store.Trail w.store.AtFault r runner hops x) (hbare : runner.bare = runner)
    (hcs : runner.children? ≠ none) (runnable : runner.Runnable)
    (run : w.EndedRun base r runner ch e') : e' = handUp hops x := by
  induction trail generalizing ch e' with
  | @leaf r i runner c x chosen child bare ended =>
      obtain ⟨cs, hcs⟩ := Option.ne_none_iff_exists'.mp hcs
      exact run.eq_passed hcs (runnable.cases hbare hcs).1 chosen child ended
  | @down r i r' runner c hops x chosen child bare childRun rest ih =>
      obtain ⟨cs, hcs⟩ := Option.ne_none_iff_exists'.mp hcs
      obtain ⟨accepted, children⟩ := runnable.cases hbare hcs
      obtain ⟨ch', x', run', ended⟩ := told.ended_child acc root run hcs accepted bare childRun
      have hmem : c ∈ cs := List.mem_of_getElem? (by rwa [Action.submitted, hcs] at child)
      rw [run.eq_passed hcs accepted chosen child ended,
        ih c.bare_bare bare (children c hmem).bare run']
      rfl

/-- **Every error has a path.**  A run that does not end with success has one down to a leaf. -/
theorem Told.exists_trail (told : w.Told base) (acc : w.Accounted base env a)
    (root : w.root = .ended e) {c : Action} (runnable : c.Runnable) (hc : c.bare.children? ≠ none)
    (run : w.EndedRun base r c.bare ch e') (hne : e' ≠ .done) :
    ∃ hops x, w.store.Trail w.store.AtFault r c.bare hops x := by
  induction runnable generalizing r ch e' with
  | leaf bare => exact absurd bare hc
  | @runner a' cs bare limit children ih =>
      have hrunner := run.runner
      obtain ⟨i, c, x, hci, hst, hcounts, hfirst⟩ :=
        Chronicle.exists_fault (by rw [hrunner]; exact bare) (by rw [hrunner]; exact limit)
          run.outcome hne
      have hfault : w.store.AtFault r a'.bare i := run.atFault_iff.mpr ⟨⟨x, hst, hcounts⟩, hfirst⟩
      have hchild : a'.bare.submitted[i]? = some c := by rwa [Action.submitted, bare]
      have hended := (Chronicle.mem_ended_iff run.chronicle).mpr hst
      by_cases hleaf : c.bare.children? = none
      · exact ⟨_, x, .leaf hfault hchild hleaf hended⟩
      · obtain ⟨r', ch', childRun, run'⟩ := told.explained acc root run hchild hleaf hended
        obtain ⟨hops, x', trail⟩ := ih c (List.mem_of_getElem? hci) hleaf run' hcounts.1
        exact ⟨_, x', .down hfault hchild hleaf childRun trail⟩

/-- A panic with no task above it decides the exits of all runs above. -/
theorem Told.atFault_of_panicked (told : w.Told base) (acc : w.Accounted base env a)
    (root : w.root = .ended e) {rule : Nat → Action → Nat → Prop} {hops : List Hop}
    {payload : Option String} (trail : w.store.Trail rule r runner hops (.panicked payload))
    (linear : ∀ h ∈ hops, h.tasks = false) (hbare : runner.bare = runner)
    (hcs : runner.children? ≠ none) (runnable : runner.Runnable)
    (run : w.EndedRun base r runner ch e') :
    w.store.Trail w.store.AtFault r runner hops (.panicked payload) := by
  generalize hx : Exit.panicked payload = x at trail
  induction trail generalizing ch e' with
  | @leaf r i runner c x chosen child bare ended =>
      obtain ⟨cs, hcs⟩ := Option.ne_none_iff_exists'.mp hcs
      exact .leaf (run.atFault_of_linear hcs (linear _ List.mem_cons_self) (by simp [← hx]) ended)
        child bare ended
  | @down r i r' runner c hops x chosen child bare childRun rest ih =>
      obtain ⟨cs, hcs⟩ := Option.ne_none_iff_exists'.mp hcs
      obtain ⟨accepted, children⟩ := runnable.cases hbare hcs
      obtain ⟨ch', x', run', ended⟩ := told.ended_child acc root run hcs accepted bare childRun
      have hmem : c ∈ cs := List.mem_of_getElem? (by rwa [Action.submitted, hcs] at child)
      have hrest := ih (fun h hh => linear h (List.mem_cons_of_mem _ hh)) c.bare_bare bare
        (children c hmem).bare run' hx
      have hx' := told.handUp_of_trail acc root hrest c.bare_bare bare (children c hmem).bare run'
      rw [← hx, handUp_panicked payload fun h hh => linear h (List.mem_cons_of_mem _ hh)] at hx'
      exact .down (run.atFault_of_linear hcs (linear _ List.mem_cons_self) (by simp [hx']) ended)
        child bare childRun hrest

end

/-- **The path of an error.**  Take a composition of runners, with limits for which gates can be
made, in any world that an opening world leads to, whatever the leaves do and in whatever order the
tasks are polled.  No run at any depth has ended with the bare request to skip the remainder.  When
the root has ended with something else than success, then there is a path of errors from it down to
a leaf, and for each such path one of these holds.

* The leaf has failed.  Then the names in the error of the root are those along the path followed by
  those in the leaf's, and their roots are the same.
* The leaf has panicked below a task.  Then the names are those down to the deepest task, and the
  root of the error is the panic of that child.
* The leaf has panicked and there is no task above it.  Then the root has panicked as well.

And the panic of any leaf without a task above it reaches the root. -/
theorem error_path {w₀ w : World} {env : Env} {a : Action} (opens : w₀.Opens env a)
    (leads : Leads w₀ w) (runner : a.bare.children? ≠ none) (runnable : a.Runnable) :
    (∀ r, w₀.store.runs ≤ r → .finished (.failed .skipRemainder) ∉ w.store.marks r) ∧
    ∀ e, w.root = .ended e →
      e ≠ .failed .skipRemainder ∧
      (e ≠ .done →
        ∃ hops x, w.store.Trail w.store.AtFault w₀.store.runs a.bare hops x) ∧
      (∀ hops x, w.store.Trail w.store.AtFault w₀.store.runs a.bare hops x → e ≠ .done →
        (∃ f g, x = .failed f ∧ f ≠ .skipRemainder ∧ e = .failed g ∧
          g.chain = hops.map Hop.name ++ f.chain ∧ g.root = f.root) ∨
        (∃ payload above name below g, x = .panicked payload ∧
          hops = above ++ ⟨name, true⟩ :: below ∧ (∀ h ∈ below, h.tasks = false) ∧
          e = .failed g ∧ g.chain = above.map Hop.name ++ [name] ∧
          g.root = .panicked name (payload.getD "non-string panic payload")) ∨
        (∃ payload, x = .panicked payload ∧ (∀ h ∈ hops, h.tasks = false) ∧
          e = .panicked payload)) ∧
      ∀ rule hops payload, w.store.Trail rule w₀.store.runs a.bare hops (.panicked payload) →
        (∀ h ∈ hops, h.tasks = false) → e = .panicked payload := by
  have acc := leads.accounted opens
  refine ⟨fun r hr finished => ?_, fun e root => ?_⟩
  · obtain ⟨ch, hch⟩ := acc.chronicle_of_mem hr finished
    exact Chronicle.outcome?_ne_skip
      (Chronicle.outcome?_of_exit hch ((Chronicle.finished_mem hch _).mp finished)) rfl
  have told := (leads.told opens).resolve_left (by rw [root]; simp)
  -- The run of the root has ended with the exit of the root.
  have hnumber : a.run? w₀.store.runs = some w₀.store.runs := by
    obtain ⟨cs, hcs⟩ := Option.ne_none_iff_exists'.mp runner
    simp [Action.run?, hcs]
  obtain ⟨ch, hch, hrunner, hexit⟩ : w.store.HasFinished w₀.store.runs a.bare e := by
    have hkeeps := acc.root
    rw [root] at hkeeps
    exact hkeeps _ hnumber
  have run : w.EndedRun w₀.store.runs w₀.store.runs a.bare ch e :=
    ⟨le_refl _, hch, hrunner, (Chronicle.finished_mem hch e).mpr hexit,
      Chronicle.outcome?_of_exit hch hexit⟩
  have hup : ∀ {hops x}, w.store.Trail w.store.AtFault w₀.store.runs a.bare hops x →
      e = handUp hops x :=
    fun trail => told.handUp_of_trail acc root trail a.bare_bare runner runnable.bare run
  refine ⟨Chronicle.outcome?_ne_skip run.outcome, fun hne => ?_, fun hops x trail hne => ?_,
    fun rule hops payload trail linear => ?_⟩
  · exact told.exists_trail acc root runnable runner run hne
  · obtain rfl := hup trail
    have hhops : hops ≠ [] := by cases trail <;> simp
    obtain ⟨hdone, hskip⟩ := not_of_handUp_ne_done hne hhops
    cases x with
    | done => exact absurd rfl hdone
    | failed f =>
        have hf : f ≠ .skipRemainder := fun h => hskip (congrArg _ h)
        obtain ⟨g, hg, -, hchain, hroot⟩ := handUp_failed hops hf
        exact .inl ⟨f, g, rfl, hf, hg, hchain, hroot⟩
    | panicked payload =>
        rcases exists_deepest_task hops with linear | ⟨above, name, below, rfl, linear⟩
        · exact .inr (.inr ⟨payload, rfl, linear, handUp_panicked payload linear⟩)
        · rw [handUp_panicked_task above below name payload linear]
          obtain ⟨g, hg, -, hchain, hroot⟩ := handUp_failed above
            (f := .panicked name (payload.getD "non-string panic payload")) (by simp)
          exact .inr (.inl ⟨payload, above, name, below, g, rfl, rfl, linear, hg, hchain, hroot⟩)
  · have hfault := told.atFault_of_panicked acc root trail linear a.bare_bare runner runnable.bare
      run
    rw [hup hfault, handUp_panicked payload linear]

end World

/-- A linear run of a concurrent run of a linear run of a leaf that panics. -/
def Action.staged : Action :=
  .linear [.named "stage" (.async [.linear [.panicking "leaf" "early"]])]

/-- No gate is needed. -/
lemma Action.runnable_staged : Action.staged.Runnable := by
  have leaf : (Action.panicking "leaf" "early").Runnable := .leaf rfl
  have inner : (Action.linear [.panicking "leaf" "early"]).Runnable :=
    .runner rfl (by rintro _ ⟨⟩) (by simpa using leaf)
  have stage : (Action.named "stage" (.async [.linear [.panicking "leaf" "early"]])).Runnable :=
    .runner rfl (by rintro _ ⟨⟩) (by simpa using inner)
  exact .runner rfl (by rintro _ ⟨⟩) (by simpa using stage)

/-- The panic of the leaf is reported by the concurrent run, under the name of its child. -/
theorem World.error_path_staged :
    let w := (((opening ⟨default, 0⟩ .staged).take .root).take (.task 0 [])).take .root
    w.root = .ended (.failed (.failed "stage" (.panicked "linear" "early"))) ∧
      ∃ hops x, w.store.Trail w.store.AtFault 0 Action.staged.bare hops x := by
  intro w
  have hroot : w.root = .ended (.failed (.failed "stage" (.panicked "linear" "early"))) := rfl
  have hleads : Leads (opening ⟨default, 0⟩ .staged) w :=
    .step (.step (.step .refl (.turn .root rfl)) (.turn (.task 0 []) rfl)) (.turn .root rfl)
  have hpath := error_path (opening_opens ⟨default, 0⟩ .staged) hleads (by simp [Action.staged,
    Action.bare, Action.children?]) Action.runnable_staged
  exact ⟨hroot, (hpath.2 _ hroot).2.1 (by simp)⟩

end Workflow
