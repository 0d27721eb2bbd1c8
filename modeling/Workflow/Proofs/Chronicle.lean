import Mathlib.Data.List.Induction
import Workflow.Proofs.Trace

/-!
# Chronicles of runs

A `Chronicle` is what the marks of one run add up to: which action it is a run of, how far each of
its children has come, and how it ended.  `Chronicle.next?` is the law of runs: it says which mark
may come next and refuses all others.  A run whose marks add up to a chronicle has therefore kept
the law at every moment of its life.

**The law.**  Children are admitted in order, each once, and by a throttled run only while fewer
than its limit have not ended (`Chronicle.admits`); a linear run starts a child only when all before
it have succeeded (`Chronicle.startsNext`); a child starts, ends, or is given up once; a run ends
only with the exit that the ends of its children command (`Chronicle.outcome?`).

**What follows for marks alone.**  `lifeOf_eq`: the marks about one child are exactly those that
bring it to its stage.  `spawned_eq`: the children admitted are the first ones, in order.
`live_le`: a throttled run never has more children that have not ended than its limit.
`outcome?_of_exit`: what a run has ended with is commanded by the ends of its children.
-/

namespace Workflow

deriving instance DecidableEq for Exit

/-! ## Marks about a child -/

namespace Mark

/-- The child that a mark is about. -/
def child? : Mark → Option Nat
  | spawned i _ | started i _ | ended i _ | dropped i | discarded i => some i
  | _ => none

/-- The child that was given a task, with its index. -/
def spawned? : Mark → Option (Action × Nat)
  | spawned i a => some (a, i)
  | _ => none

/-- The child that began to run. -/
def started? : Mark → Option Nat
  | started i _ => some i
  | _ => none

/-- Whether a child has ended with this, be it that it was given up. -/
def isLast : Mark → Bool
  | ended _ _ | dropped _ | discarded _ => true
  | _ => false

end Mark

/-- The marks about one child of a run, in order: its life. -/
def lifeOf (i : Nat) (ms : List Mark) : List Mark :=
  ms.filter fun m => m.child? == some i

/-- Whether a child has not ended. -/
def isOpen (ms : List Mark) (i : Nat) : Bool :=
  !(lifeOf i ms).any Mark.isLast

/-- The children whose bodies have started and not ended. -/
def inFlight (ms : List Mark) : List Nat :=
  (ms.filterMap Mark.started?).filter (isOpen ms)

/-- The children that were given a task and have not ended. -/
def unended (ms : List Mark) : List (Action × Nat) :=
  (ms.filterMap Mark.spawned?).filter fun c => isOpen ms c.2

lemma lifeOf_snoc (i : Nat) (ms : List Mark) (m : Mark) :
    lifeOf i (ms ++ [m]) = lifeOf i ms ++ if m.child? = some i then [m] else [] := by
  by_cases h : m.child? = some i <;> simp [lifeOf, h]

/-! ## Stages -/

/-- How far a child of a run has come. -/
inductive Stage where
  | waiting
  | running
  | ended (e : Exit)
  | dropped
  | discarded
deriving DecidableEq

namespace Stage

/-- Whether a child has not ended. -/
def isLive : Stage → Bool
  | waiting | running => true
  | _ => false

/-- The marks that bring the child `i`, the action `c`, to a stage.  The children of some runs have
tasks of their own. -/
def life (spawns : Bool) (i : Nat) (c : Action) (st : Stage) : List Mark :=
  (if spawns then [.spawned i c] else []) ++
    match st with
    | waiting => []
    | running => [.started i c]
    | ended e => [.started i c, .ended i e]
    | dropped => [.started i c, .dropped i]
    | discarded => [.discarded i]

end Stage

/-- The stage of a child. -/
def Child.stage : Child → Stage
  | spawned _ _ => .waiting
  | running _ _ _ => .running
  | ended _ e => .ended e
  | lost _ => .dropped

/-! ## Outcomes -/

/-- The failure that the end of a child called `name` counts as, if it counts as one. -/
def Exit.failureOf (name : String) : Exit → Option Failure
  | .done => none
  | .failed .skipRemainder => none
  | .failed f => some (f.inAction name)
  | .panicked payload => some (.panicked name (payload.getD "non-string panic payload"))

/-- The exit of a linear run that stops at a child called `name` with the given exit. -/
def Exit.stopping (name : String) : Exit → Exit
  | .failed .skipRemainder => .done
  | .failed f => .failed (f.inAction name)
  | e => e

/-- The first failure among children of the given names, when all have ended. -/
def firstFailure? : List String → List Stage → Option (Option Failure)
  | [], [] => some none
  | name :: names, .ended e :: stages => (firstFailure? names stages).map ((e.failureOf name).or ·)
  | _, _ => none

/-- The exit of a linear run over children of the given names, when it has to end. -/
def linearOutcome? : List String → List Stage → Option Exit
  | [], [] => some .done
  | name :: names, .ended e :: stages =>
      if e = .done then linearOutcome? names stages
      else if stages = [] then some (e.stopping name) else none
  | _, _ => none

/-- The slots and the children of an action that runs its children as tasks; without a limit there
are no slots to count. -/
def Action.dispatch? : Action → Option (Option Nat × List Action)
  | async cs => some (none, cs)
  | throttled limit cs => some (some limit.value, cs)
  | _ => none

/-! ## The law -/

/-- What the marks of a run add up to. -/
structure Chronicle where
  /-- The action it is a run of. -/
  runner : Action
  /-- The context made for its children. -/
  scope : Option Context := none
  /-- How far the children have come that have been started or given a task. -/
  stages : List Stage := []
  /-- How the run ended. -/
  exit : Option Exit := none

namespace Chronicle

/-- How many children have not ended. -/
def live (ch : Chronicle) : Nat :=
  ch.stages.countP Stage.isLive

/-- Whether no child is left that has not ended. -/
def IsOver (ch : Chronicle) : Prop :=
  ∀ st ∈ ch.stages, st.isLive = false

/-- Whether the children have tasks of their own. -/
def spawns (ch : Chronicle) : Bool :=
  ch.runner.dispatch?.isSome

/-- The children, as they were submitted. -/
def children (ch : Chronicle) : List Action :=
  ch.runner.children?.getD []

/-- Whether a child may be given a task. -/
def admits (ch : Chronicle) : Bool :=
  match ch.runner.dispatch? with
  | some (slots, _) => ch.exit.isNone && slots.all (ch.live < ·)
  | none => false

/-- Whether a child may start on the task of the run itself. -/
def startsNext (ch : Chronicle) : Bool :=
  match ch.runner with
  | .linear _ => ch.exit.isNone && ch.stages.all (· = .ended .done)
  | _ => false

/-- The exit that the ends of the children command, when the run has to end. -/
def outcome? (ch : Chronicle) : Option Exit :=
  match ch.runner with
  | .linear cs => linearOutcome? (cs.map Action.name) ch.stages
  | .async cs => (firstFailure? (cs.map Action.name) ch.stages).map .ofResult
  | .throttled limit cs =>
      if maxSlots < limit.value then
        if ch.stages = [] then some (.panicked (some slotsPanic)) else none
      else (firstFailure? (cs.map Action.name) ch.stages).map .ofResult
  | _ => none

/-- The child `i` goes from one stage to another. -/
def move (ch : Chronicle) (i : Nat) (before after : Stage) : Option Chronicle :=
  if ch.stages[i]? = some before then some { ch with stages := ch.stages.set i after } else none

open Classical in
/-- The law: the chronicle after a mark, or nothing when the mark must not come next.  Whether an
action is the child that it has to be cannot be computed, since bodies are functions. -/
noncomputable def next? (ch : Chronicle) : Mark → Option Chronicle
  | .event _ => some ch
  | .begun _ => none
  | .derived c =>
      if ch.spawns ∧ ch.scope = none ∧ ch.stages = [] then some { ch with scope := some c }
      else none
  | .spawned i c =>
      if i = ch.stages.length ∧ ch.children[i]? = some c ∧ ch.admits then
        some { ch with stages := ch.stages ++ [.waiting] }
      else none
  | .started i c =>
      if ch.children[i]? = some c then
        if ch.spawns then ch.move i .waiting .running
        else if i = ch.stages.length ∧ ch.startsNext then
          some { ch with stages := ch.stages ++ [.running] }
        else none
      else none
  | .ended i e => ch.move i .running (.ended e)
  | .dropped i => ch.move i .running .dropped
  | .discarded i => if ch.spawns then ch.move i .waiting .discarded else none
  | .finished e =>
      if ch.exit = none ∧ ch.outcome? = some e then some { ch with exit := some e } else none

/-- What marks add up to. -/
noncomputable def ofMarks? : List Mark → Option Chronicle
  | .begun runner :: ms => ms.foldlM next? { runner }
  | _ => none

/-! ## Adding marks -/

lemma ofMarks?_append {ms ms' : List Mark} (h : ms ≠ []) :
    ofMarks? (ms ++ ms') = (ofMarks? ms).bind fun ch => ms'.foldlM next? ch := by
  match ms with
  | [] => exact absurd rfl h
  | m :: ms =>
      cases m <;> simp [ofMarks?, List.foldlM_append]

lemma ofMarks?_snoc {ms : List Mark} {ch : Chronicle} (h : ofMarks? ms = some ch) (m : Mark) :
    ofMarks? (ms ++ [m]) = ch.next? m := by
  rw [ofMarks?_append (by rintro rfl; simp [ofMarks?] at h), h]
  simp

/-- What is true of a run that has just begun, and stays true with every mark that the law allows,
is true of all chronicles. -/
theorem induction {P : List Mark → Chronicle → Prop}
    (begun : ∀ runner, P [.begun runner] { runner })
    (next : ∀ ms ch m ch', ofMarks? ms = some ch → P ms ch → ch.next? m = some ch' →
      P (ms ++ [m]) ch')
    {ms : List Mark} {ch : Chronicle} (h : ofMarks? ms = some ch) : P ms ch := by
  induction ms using List.reverseRecOn generalizing ch with
  | nil => simp [ofMarks?] at h
  | append_singleton ms m ih =>
      by_cases hms : ms = []
      · subst hms
        cases m <;> simp [ofMarks?] at h
        subst h
        exact begun _
      · rw [ofMarks?_append hms] at h
        obtain ⟨ch₀, h₀, h⟩ := Option.bind_eq_some_iff.mp h
        exact next ms ch₀ m ch h₀ (ih h₀) (by simpa using h)

/-- Every earlier part of the marks of a run adds up to a chronicle too. -/
lemma of_append {ms ms' : List Mark} {ch : Chronicle} (h : ofMarks? (ms ++ ms') = some ch)
    (hms : ms ≠ []) : ∃ ch₀, ofMarks? ms = some ch₀ ∧ ms'.foldlM next? ch₀ = some ch := by
  rw [ofMarks?_append hms] at h
  exact Option.bind_eq_some_iff.mp h

lemma foldlM_cons_eq_some {m : Mark} {ms : List Mark} {ch ch' : Chronicle} :
    (m :: ms).foldlM next? ch = some ch' ↔
      ∃ ch₁, ch.next? m = some ch₁ ∧ ms.foldlM next? ch₁ = some ch' := by
  rw [List.foldlM_cons]
  exact Option.bind_eq_some_iff

lemma move_eq_some {ch ch' : Chronicle} {i : Nat} {before after : Stage} :
    ch.move i before after = some ch' ↔
      ch.stages[i]? = some before ∧ ch' = { ch with stages := ch.stages.set i after } := by
  unfold move
  split_ifs with h
  · simp [h, eq_comm]
  · simp [h]

/-! ## What a mark can do -/

lemma getElem?_concat {α : Type} (l : List α) (a : α) (i : Nat) :
    (l ++ [a])[i]? = if i = l.length then some a else l[i]? := by
  rcases Nat.lt_trichotomy i l.length with h | h | h
  · simp [List.getElem?_append, h, Nat.ne_of_lt h]
  · simp [h]
  · rw [if_neg (by omega), List.getElem?_eq_none (by simp; omega),
      List.getElem?_eq_none (by omega)]

/-- What one mark does to the stages: nothing, when it is about no child; or it adds the next child;
or it takes a child that has not ended one stage further. -/
inductive Change (ch : Chronicle) (m : Mark) : List Stage → Prop where
  | none (child : m.child? = none) : Change ch m ch.stages
  | spawn (c : Action) (tasks : ch.spawns = true) (room : ch.admits = true)
      (action : ch.children[ch.stages.length]? = some c)
      (mark : m = .spawned ch.stages.length c) : Change ch m (ch.stages ++ [.waiting])
  | startNext (c : Action) (tasks : ch.spawns = false) (turn : ch.startsNext = true)
      (action : ch.children[ch.stages.length]? = some c)
      (mark : m = .started ch.stages.length c) : Change ch m (ch.stages ++ [.running])
  | go (i : Nat) (st st' : Stage) (child : m.child? = some i) (spawned : m.spawned? = Option.none)
      (stage : ch.stages[i]? = some st) (live : st.isLive = true)
      (life : ∀ c, ch.children[i]? = some c →
        st'.life ch.spawns i c = st.life ch.spawns i c ++ [m]) :
      Change ch m (ch.stages.set i st')

lemma change_of_next? {ch ch' : Chronicle} {m : Mark} (h : ch.next? m = some ch') :
    ch'.runner = ch.runner ∧ ch.Change m ch'.stages := by
  cases m with
  | event e => simp only [next?, Option.some.injEq] at h; subst h; exact ⟨rfl, .none rfl⟩
  | begun a => simp [next?] at h
  | derived c =>
      simp only [next?] at h
      split_ifs at h with hc
      cases h; exact ⟨rfl, .none rfl⟩
  | spawned i c =>
      simp only [next?] at h
      split_ifs at h with hi
      cases h
      obtain ⟨rfl, hc, hi⟩ := hi
      refine ⟨rfl, .spawn c ?_ hi hc rfl⟩
      unfold admits at hi
      split at hi
      · next hd => simp [spawns, hd]
      · simp at hi
  | started i c =>
      simp only [next?] at h
      split_ifs at h with hc hs hi
      · obtain ⟨hst, rfl⟩ := move_eq_some.mp h
        refine ⟨rfl, .go i _ _ rfl rfl hst rfl fun c' hc' => ?_⟩
        rw [hc] at hc'
        cases hc'
        simp [Stage.life]
      · cases h
        obtain ⟨rfl, hi⟩ := hi
        exact ⟨rfl, .startNext c (by simpa using hs) hi hc rfl⟩
  | ended i e =>
      obtain ⟨hst, rfl⟩ := move_eq_some.mp h
      exact ⟨rfl, .go i _ _ rfl rfl hst rfl fun c _ => by simp [Stage.life]⟩
  | dropped i =>
      obtain ⟨hst, rfl⟩ := move_eq_some.mp h
      exact ⟨rfl, .go i _ _ rfl rfl hst rfl fun c _ => by simp [Stage.life]⟩
  | discarded i =>
      simp only [next?] at h
      split_ifs at h with hs
      obtain ⟨hst, rfl⟩ := move_eq_some.mp h
      exact ⟨rfl, .go i _ _ rfl rfl hst rfl fun c _ => by simp [Stage.life]⟩
  | finished e =>
      simp only [next?] at h
      split_ifs at h
      cases h; exact ⟨rfl, .none rfl⟩

lemma runner_of_foldlM {ms : List Mark} {ch ch' : Chronicle} (h : ms.foldlM next? ch = some ch') :
    ch'.runner = ch.runner := by
  induction ms generalizing ch with
  | nil => cases h; rfl
  | cons m ms ih =>
      obtain ⟨ch₁, h₁, h⟩ := foldlM_cons_eq_some.mp h
      exact (ih h).trans (change_of_next? h₁).1

/-- Just before a mark other than the first the marks add up to a chronicle, and the law allows the
mark there. -/
lemma of_split {before after : List Mark} {m : Mark} {ch : Chronicle}
    (h : ofMarks? (before ++ m :: after) = some ch) (hm : ∀ a, m ≠ .begun a) :
    ∃ ch₀ ch₁, ofMarks? before = some ch₀ ∧ ch₀.next? m = some ch₁ ∧
      after.foldlM next? ch₁ = some ch ∧ ch₀.runner = ch.runner := by
  have hbefore : before ≠ [] := by
    rintro rfl
    cases m <;> simp [ofMarks?] at h hm
  obtain ⟨ch₀, h₀, h⟩ := of_append h hbefore
  obtain ⟨ch₁, h₁, hrest⟩ := foldlM_cons_eq_some.mp h
  exact ⟨ch₀, ch₁, h₀, h₁, hrest, (runner_of_foldlM h).symm⟩

lemma spawns_congr {ch ch' : Chronicle} (h : ch'.runner = ch.runner) : ch'.spawns = ch.spawns := by
  rw [spawns, spawns, h]

lemma children_congr {ch ch' : Chronicle} (h : ch'.runner = ch.runner) :
    ch'.children = ch.children := by
  rw [children, children, h]

lemma children_eq {ch : Chronicle} {slots : Option Nat} {cs : List Action}
    (h : ch.runner.dispatch? = some (slots, cs)) : ch.children = cs := by
  unfold children
  match hr : ch.runner, h with
  | .async cs', h | .throttled limit cs', h =>
      simp only [Action.dispatch?, Option.some.injEq, Prod.mk.injEq] at h
      rw [← h.2]; rfl

/-- The marks begin with the action that it is a run of. -/
lemma begun_mem {ms : List Mark} {ch : Chronicle} (h : ofMarks? ms = some ch) (a : Action) :
    .begun a ∈ ms ↔ a = ch.runner := by
  refine induction (P := fun ms ch => .begun a ∈ ms ↔ a = ch.runner) ?_ ?_ h
  · intro runner; simp
  · intro ms ch m ch' _ ih hm
    rw [(change_of_next? hm).1, ← ih]
    cases m <;> simp [next?] at hm ⊢

/-- There are no more stages than children. -/
lemma length_le {ms : List Mark} {ch : Chronicle} (h : ofMarks? ms = some ch) :
    ch.stages.length ≤ ch.children.length := by
  refine induction (P := fun _ ch => ch.stages.length ≤ ch.children.length) ?_ ?_ h
  · intro runner; exact Nat.zero_le _
  · intro ms ch m ch' _ ih hm
    obtain ⟨hr, hc⟩ := change_of_next? hm
    rw [children_congr hr]
    generalize ch'.stages = sts at hc
    cases hc with
    | none => exact ih
    | spawn _ _ _ action | startNext _ _ _ action =>
        rw [List.length_append, List.length_singleton]
        exact (List.getElem?_eq_some_iff.mp action).1
    | go => rw [List.length_set]; exact ih

/-- **The life of a child.**  The marks about a child are those that bring it to its stage, and a
child that has no stage has no marks. -/
theorem lifeOf_eq {ms : List Mark} {ch : Chronicle} (h : ofMarks? ms = some ch) (i : Nat) :
    lifeOf i ms = (ch.stages[i]?).elim []
      (Stage.life ch.spawns i (ch.children[i]?.getD default)) := by
  refine induction (P := fun ms ch => lifeOf i ms = (ch.stages[i]?).elim []
    (Stage.life ch.spawns i (ch.children[i]?.getD default))) ?_ ?_ h
  · intro runner; simp [lifeOf, Mark.child?]
  · intro ms ch m ch' h ih hm
    obtain ⟨hr, hc⟩ := change_of_next? hm
    rw [lifeOf_snoc, ih, spawns_congr hr, children_congr hr]
    generalize ch'.stages = sts at hc
    cases hc with
    | none child => simp [child]
    | spawn c tasks _ action mark | startNext c tasks _ action mark =>
        subst mark
        rw [getElem?_concat]
        by_cases hi : i = ch.stages.length
        · subst hi; simp [Mark.child?, Stage.life, tasks, action]
        · simp [Mark.child?, hi, Ne.symm hi]
    | go j st st' child _ stage _ life =>
        rw [child, List.getElem?_set]
        have hlt : j < ch.stages.length := (List.getElem?_eq_some_iff.mp stage).1
        by_cases hi : j = i
        · subst hi
          have haction := List.getElem?_eq_getElem (Nat.lt_of_lt_of_le hlt (length_le h))
          rw [stage, haction]; simp [hlt, life _ haction]
        · simp [hi]

/-! ## What follows for the marks -/

variable {ms : List Mark} {ch : Chronicle}

lemma mem_started {i : Nat} :
    i ∈ ms.filterMap Mark.started? ↔ ∃ c, .started i c ∈ lifeOf i ms := by
  simp only [List.mem_filterMap, lifeOf, List.mem_filter]
  constructor
  · rintro ⟨m, hm, h⟩
    cases m <;> simp [Mark.started?] at h
    subst h; exact ⟨_, hm, by simp [Mark.child?]⟩
  · rintro ⟨c, hm, -⟩
    exact ⟨_, hm, rfl⟩

/-- Whether a child has not ended can be read off its stage. -/
lemma isOpen_eq (h : ofMarks? ms = some ch) (i : Nat) :
    isOpen ms i = (ch.stages[i]?).all Stage.isLive := by
  rw [isOpen, lifeOf_eq h]
  cases hst : ch.stages[i]? with
  | none => simp
  | some st =>
      cases hs : ch.spawns <;> cases st <;> simp [Stage.life, Stage.isLive, Mark.isLast]

/-- A child is started once at most. -/
lemma nodup_started (h : ofMarks? ms = some ch) : (ms.filterMap Mark.started?).Nodup := by
  refine induction (P := fun ms _ => (ms.filterMap Mark.started?).Nodup) ?_ ?_ h
  · intro runner; exact List.nodup_nil
  · intro ms ch m ch' h ih hm
    rw [List.filterMap_append]
    cases hst : m.started? with
    | none => simpa [hst] using ih
    | some i =>
        obtain ⟨c, rfl⟩ : ∃ c, m = .started i c := by cases m <;> simp_all [Mark.started?]
        refine List.nodup_append.mpr ⟨ih, by simp [hst], ?_⟩
        rintro j hj k hk rfl
        obtain rfl : j = i := by simpa [Mark.started?] using hk
        rw [mem_started, lifeOf_eq h] at hj
        simp only [next?] at hm
        split_ifs at hm with hc hs hi
        · rw [(move_eq_some.mp hm).1] at hj
          simp [Stage.life, hs] at hj
        · rw [hi.1, List.getElem?_eq_none (Nat.le_refl _)] at hj
          simp at hj

/-- **Order of admission.**  The children that were given a task are the first ones, in order. -/
theorem spawned_eq (h : ofMarks? ms = some ch) (hs : ch.spawns = true) :
    ms.filterMap Mark.spawned? = (ch.children.take ch.stages.length).zipIdx := by
  revert hs
  refine induction (P := fun ms ch => ch.spawns = true →
    ms.filterMap Mark.spawned? = (ch.children.take ch.stages.length).zipIdx) ?_ ?_ h
  · intro runner _; simp [Mark.spawned?]
  · intro ms ch m ch' h ih hm hs
    obtain ⟨hr, hc⟩ := change_of_next? hm
    rw [spawns_congr hr] at hs
    rw [List.filterMap_append, ih hs, children_congr hr]
    generalize ch'.stages = sts at hc
    cases hc with
    | none child => cases m <;> simp [Mark.child?, Mark.spawned?] at child ⊢
    | spawn c _ _ action mark =>
        subst mark
        have hlen : (ch.children.take ch.stages.length).length = ch.stages.length :=
          List.length_take_of_le (length_le h)
        rw [List.length_append, List.length_singleton, List.take_add_one, action,
          List.zipIdx_append, hlen]
        simp [Mark.spawned?]
    | startNext _ tasks => rw [hs] at tasks; cases tasks
    | go i st st' _ spawned => simp [spawned]

/-- **The limit.**  Of the children of a throttled run no more than its limit have not ended. -/
theorem live_le (h : ofMarks? ms = some ch) {n : Nat} {cs : List Action}
    (hd : ch.runner.dispatch? = some (some n, cs)) : ch.live ≤ n := by
  revert hd
  refine induction (P := fun ms ch => ch.runner.dispatch? = some (some n, cs) → ch.live ≤ n) ?_ ?_ h
  · intro runner _; simp [live]
  · intro ms ch m ch' _ ih hm hd
    obtain ⟨hr, hc⟩ := change_of_next? hm
    rw [hr] at hd
    have hle := ih hd
    unfold live at hle ⊢
    generalize ch'.stages = sts at hc
    cases hc with
    | none => exact hle
    | spawn _ _ room =>
        simp only [admits, hd, Bool.and_eq_true, Option.all_some, live] at room
        have hlt := of_decide_eq_true room.2
        simp only [List.countP_append, List.countP_singleton, Stage.isLive, if_true]
        omega
    | startNext _ tasks => simp [spawns, hd] at tasks
    | go i st st' _ _ stage live =>
        obtain ⟨hlt, rfl⟩ := List.getElem?_eq_some_iff.mp stage
        have hpos : 0 < ch.stages.countP Stage.isLive :=
          List.countP_pos_iff.mpr ⟨_, List.getElem_mem hlt, live⟩
        rw [List.countP_set hlt, if_pos live]
        split_ifs <;> omega

lemma countP_range {α : Type} (l : List α) (p : α → Bool) :
    (List.range l.length).countP (fun i => (l[i]?).any p) = l.countP p := by
  induction l using List.reverseRecOn with
  | nil => rfl
  | append_singleton l a ih =>
      rw [List.length_append, List.length_singleton, List.range_succ, List.countP_append,
        List.countP_append, ← ih]
      congr 1
      · refine List.countP_congr fun i hi => ?_
        rw [List.getElem?_append_left (List.mem_range.mp hi)]
      · simp

/-- The children that have not ended are as many as the chronicle says. -/
lemma length_unended (h : ofMarks? ms = some ch) (hs : ch.spawns = true) :
    (unended ms).length = ch.live := by
  have hlen : (ch.children.take ch.stages.length).length = ch.stages.length :=
    List.length_take_of_le (length_le h)
  have hmap : (unended ms).length
      = ((ms.filterMap Mark.spawned?).map Prod.snd).countP (isOpen ms) := by
    rw [unended, ← List.countP_eq_length_filter, List.countP_map]; rfl
  rw [hmap, spawned_eq h hs, List.zipIdx_map_snd, hlen, ← List.range_eq_range', live,
    ← countP_range ch.stages]
  refine List.countP_congr fun i hi => ?_
  rw [isOpen_eq h, List.getElem?_eq_getElem (List.mem_range.mp hi)]
  simp

lemma mem_inFlight (h : ofMarks? ms = some ch) (i : Nat) :
    i ∈ inFlight ms ↔ ch.stages[i]? = some .running := by
  rw [inFlight, List.mem_filter, mem_started, lifeOf_eq h, isOpen_eq h]
  cases hst : ch.stages[i]? with
  | none => simp
  | some st => cases hs : ch.spawns <;> cases st <;> simp [Stage.life, Stage.isLive]

/-- The children in flight are as many as the chronicle says. -/
lemma length_inFlight (h : ofMarks? ms = some ch) :
    (inFlight ms).length = ch.stages.countP (· = .running) := by
  rw [← countP_range, List.countP_eq_length_filter]
  refine List.Perm.length_eq ((List.perm_ext_iff_of_nodup ((nodup_started h).filter _)
    (List.nodup_range.filter _)).mpr fun i => ?_)
  rw [← inFlight, mem_inFlight h, List.mem_filter, List.mem_range]
  constructor
  · intro hi
    exact ⟨(List.getElem?_eq_some_iff.mp hi).1, by simp [hi]⟩
  · rintro ⟨-, hi⟩
    simpa [Option.any_eq_true] using hi

/-! ## Exits -/

lemma firstFailure?_eq_some {names : List String} {stages : List Stage} {f : Option Failure} :
    firstFailure? names stages = some f ↔ ∃ exits : List Exit, stages = exits.map .ended ∧
      exits.length = names.length ∧
      f = (names.zip exits).findSome? fun x => x.2.failureOf x.1 := by
  induction names generalizing stages f with
  | nil =>
      cases stages with
      | nil => simp [firstFailure?, eq_comm]
      | cons st stages =>
          simp only [firstFailure?, List.length_nil, List.length_eq_zero_iff, reduceCtorEq,
            false_iff]
          rintro ⟨exits, hst, rfl, -⟩
          cases hst
  | cons name names ih =>
      constructor
      · intro h
        match stages, h with
        | .ended e :: stages, h =>
            simp only [firstFailure?, Option.map_eq_some_iff] at h
            obtain ⟨f', hf', rfl⟩ := h
            obtain ⟨exits, rfl, hlen, rfl⟩ := ih.mp hf'
            refine ⟨e :: exits, rfl, by simp [hlen], ?_⟩
            rw [List.zip_cons_cons, List.findSome?_cons]
            cases e.failureOf name <;> rfl
      · rintro ⟨exits, rfl, hlen, rfl⟩
        match exits, hlen with
        | e :: exits, hlen =>
            simp only [List.map_cons, firstFailure?]
            rw [ih.mpr ⟨exits, rfl, by simpa using hlen, rfl⟩, Option.map_some, List.zip_cons_cons,
              List.findSome?_cons]
            cases e.failureOf name <;> rfl

lemma isOver_of_linearOutcome? {names : List String} {stages : List Stage} {e : Exit}
    (h : linearOutcome? names stages = some e) : ∀ st ∈ stages, st.isLive = false := by
  induction names generalizing stages with
  | nil =>
      cases stages with
      | nil => simp
      | cons => cases h
  | cons name names ih =>
      match stages, h with
      | .ended e' :: stages, h =>
          rw [List.forall_mem_cons]
          refine ⟨rfl, ?_⟩
          simp only [linearOutcome?] at h
          split_ifs at h with hdone hnil
          · exact ih h
          · simp [hnil]

/-- A run has to end only when all its children have ended. -/
lemma isOver_of_outcome? {e : Exit} (h : ch.outcome? = some e) : ch.IsOver := by
  have hconcurrent : ∀ {names}, (firstFailure? names ch.stages).map Exit.ofResult = some e →
      ch.IsOver := by
    intro names h
    obtain ⟨f, hf, -⟩ := Option.map_eq_some_iff.mp h
    obtain ⟨exits, hst, -, -⟩ := firstFailure?_eq_some.mp hf
    intro st hmem
    rw [hst] at hmem
    obtain ⟨x, -, rfl⟩ := List.mem_map.mp hmem
    rfl
  unfold outcome? at h
  split at h
  · exact isOver_of_linearOutcome? h
  · exact hconcurrent h
  · split_ifs at h with _ hnil
    · intro st hst
      rw [hnil] at hst
      cases hst
    · exact hconcurrent h
  · cases h

/-- A run ends once, with the exit that the ends of its children command; other marks leave it as it
is. -/
lemma exit_of_next? {m : Mark} {ch' : Chronicle} (h : ch.next? m = some ch') :
    (∃ e, m = .finished e ∧ ch.exit = none ∧ ch.outcome? = some e ∧
        ch' = { ch with exit := some e }) ∨
      (∀ e, m ≠ .finished e) ∧ ch'.exit = ch.exit := by
  cases m with
  | finished e =>
      simp only [next?] at h
      split_ifs at h with he
      cases h
      exact .inl ⟨e, rfl, he.1, he.2, rfl⟩
  | event | begun => refine .inr ⟨by simp, ?_⟩; simp [next?] at h; try rw [h]
  | ended | dropped => exact .inr ⟨by simp, by rw [(move_eq_some.mp h).2]⟩
  | derived | spawned | discarded | started =>
      refine .inr ⟨by simp, ?_⟩
      simp only [next?] at h
      split_ifs at h <;> first | (cases h; rfl) | rw [(move_eq_some.mp h).2]

lemma finished_mem (h : ofMarks? ms = some ch) (e : Exit) :
    .finished e ∈ ms ↔ ch.exit = some e := by
  refine induction (P := fun ms ch => .finished e ∈ ms ↔ ch.exit = some e) ?_ ?_ h
  · intro runner; simp
  · intro ms ch m ch' _ ih hm
    rw [List.mem_append, ih, List.mem_singleton]
    rcases exit_of_next? hm with ⟨e', rfl, hnone, -, rfl⟩ | ⟨hne, he⟩
    · simp [hnone, eq_comm]
    · rw [he]
      simp [Ne.symm (hne e)]

/-- Once a run and all its children have ended, nothing happens to the children. -/
lemma stages_of_next? {m : Mark} {ch' : Chronicle} (h : ch.next? m = some ch') {e : Exit}
    (he : ch.exit = some e) (isOver : ch.IsOver) : ch'.stages = ch.stages := by
  obtain ⟨-, hc⟩ := change_of_next? h
  generalize ch'.stages = sts at hc
  cases hc with
  | none => rfl
  | spawn _ _ room =>
      unfold admits at room
      split at room <;> simp [he] at room
  | startNext _ _ turn =>
      unfold startsNext at turn
      split at turn <;> simp [he] at turn
  | go i st st' _ _ stage live =>
      rw [isOver st (List.mem_of_getElem? stage)] at live
      cases live

/-- **The exit is commanded.**  What a run has ended with is what the ends of its children command,
and it stays so: nothing happens to the children of a run that has ended. -/
theorem outcome?_of_exit (h : ofMarks? ms = some ch) {e : Exit} (he : ch.exit = some e) :
    ch.outcome? = some e := by
  revert he
  refine induction (P := fun _ ch => ch.exit = some e → ch.outcome? = some e) ?_ ?_ h
  · intro runner h; cases h
  · intro ms ch m ch' h ih hm he
    rcases exit_of_next? hm with ⟨e', rfl, -, houtcome, rfl⟩ | ⟨-, hsame⟩
    · cases he
      exact houtcome
    · rw [hsame] at he
      have hstages := stages_of_next? hm he (isOver_of_outcome? (ih he))
      rw [← ih he, outcome?, outcome?, (change_of_next? hm).1, hstages]

end Chronicle

end Workflow
