import Workflow.Proofs.Succession
import Workflow.Proofs.Outcome

/-!
# A throttled run with one slot

As long as a child of such a run is running nothing else of the run can go on, so that the world
steps as it would if the child were run on its own: `World.inTurn` puts a child that is run on its
own in its place in the run, and **`World.step_inTurn_iff`** says that no step is lost or added.
-/

namespace Workflow

open Store

/-! ## Children that have ended -/

/-- The children of a run that have ended with the given exits. -/
def endedChildren (cs : List Action) (xs : List Exit) : List Child :=
  (cs.zip xs).map fun c => .ended c.1.name c.2

section

variable {cs : List Action} {xs : List Exit}

lemma length_endedChildren (h : xs.length ≤ cs.length) :
    (endedChildren cs xs).length = xs.length := by
  simp [endedChildren, h]

@[simp] lemma endedChildren_nil (cs : List Action) : endedChildren cs [] = [] := by
  simp [endedChildren]

lemma endedChildren_snoc {c : Action} (hc : cs[xs.length]? = some c) (x : Exit) :
    endedChildren cs (xs ++ [x]) = endedChildren cs xs ++ [.ended c.name x] := by
  induction cs generalizing xs with
  | nil => cases hc
  | cons b cs ih =>
      cases xs with
      | nil =>
          cases hc
          simp [endedChildren]
      | cons y xs => simpa [endedChildren] using ih hc

lemma isLive_of_mem_endedChildren : ∀ c ∈ endedChildren cs xs, c.isLive = false := by
  intro c hc
  obtain ⟨x, -, rfl⟩ := List.mem_map.mp hc
  rfl

lemma ofResult_endedChildren :
    Exit.ofResult ((endedChildren cs xs).findSome? Child.failure?) = resultOf cs xs := by
  rw [endedChildren, List.findSome?_map, resultOf]
  congr 2
  funext c
  exact Child.failure?_ended _ _

end

/-! ## A child in its turn -/

/-- The slot is taken by the child `index`, and the ends of all before it have been collected when
there is nobody left to admit. -/
structure Dispatch.IsBusy (d : Dispatch) (index : Nat) : Prop where
  gate : d.gate = some 0
  collected : d.queue = [] → d.collected = index

lemma Dispatch.IsBusy.isReady_eq {d : Dispatch} {done : List Child} {c : Child}
    (busy : d.IsBusy done.length) (live : c.isLive = true) : d.isReady (done ++ [c]) = false := by
  unfold isReady
  split_ifs with hqueue
  · rw [busy.collected (List.isEmpty_iff.mp hqueue)]
    simp [live]
  · rw [busy.gate]

lemma wakeTimesAmong_append (cs cs' : List Child) :
    wakeTimesAmong (cs ++ cs') = wakeTimesAmong cs ++ wakeTimesAmong cs' := by
  induction cs with
  | nil => rw [wakeTimesAmong]; rfl
  | cons c cs ih => rw [List.cons_append, wakeTimesAmong, wakeTimesAmong, ih, List.append_assoc]

lemma wakeTimesAmong_eq_nil {cs : List Child} (h : ∀ c ∈ cs, c.isLive = false) :
    wakeTimesAmong cs = [] := by
  induction cs with
  | nil => rw [wakeTimesAmong]
  | cons c cs ih =>
      rw [wakeTimesAmong, ih fun c hc => h c (List.mem_cons_of_mem _ hc), List.append_nil]
      have := h c List.mem_cons_self
      cases c <;> simp_all [Child.isLive, Child.task?, Child.wakeTimes]

lemma Child.isReadyAt_eq_false {c : Child} (h : c.isLive = false) (s : Store) (path : List Nat) :
    c.isReadyAt s path = false := by
  cases c with
  | spawned | running => cases h
  | ended | lost => cases path <;> rw [Child.isReadyAt] <;> simp

/-- The turn in a run that is the given turn of its child `index` on its own. -/
def Turn.below (index : Nat) : Turn → Turn
  | .root => .task index []
  | .task i path => .task index (i :: path)
  | t => t

namespace World

variable {w v : World} {d : Dispatch} {done : List Child} {task : Nat} {name : String} {p : Proc}

/-- The world in which the action that is the root of `w` is a child of the run `d`, in its turn
after the children `done`. -/
def inTurn (w : World) (d : Dispatch) (done : List Child) (task : Nat) (name : String) : World :=
  match w.root with
  | .running p => { w with root := .running (.concurrent d (done ++ [.running task name p])) }
  | .ended x =>
      { w with
        store := (d.childEnded done.length name x w.store).2.endTask task
        root := .running (.concurrent (d.childEnded done.length name x w.store).1
          (done ++ [.ended name x])) }
  | _ => w

lemma inTurn_running (h : w.root = .running p) : w.inTurn d done task name =
    { w with root := .running (.concurrent d (done ++ [.running task name p])) } := by
  simp only [inTurn, h]

/-- What becomes of the run when the child's own code has stopped. -/
lemma inTurn_ofProgress (out : Store × Progress) :
    ({ w with store := out.1, root := .ofProgress out.2 } : World).inTurn d done task name =
      { w with
        store := (Child.after d done.length task name out).1
        root := .running (.concurrent (Child.after d done.length task name out).2.1
          (done ++ [(Child.after d done.length task name out).2.2])) } := by
  rcases out with ⟨s, p | x⟩ <;> rfl

lemma resumeAmong_last (s : Store) (c : Child) (path : List Nat) :
    resumeAmong s d 0 (done ++ [c]) done.length path =
      ((c.resumeAt s d done.length path).1, (c.resumeAt s d done.length path).2.1,
        done ++ [(c.resumeAt s d done.length path).2.2]) := by
  rw [resumeAmong_eq]
  simp

/-- A turn of the child on its own is one of the run. -/
lemma isReady_inTurn (hroot : w.root = .running p) (alone : w.orphans = [])
    (isOver : ∀ c ∈ done, c.isLive = false) (busy : d.IsBusy done.length) (t : Turn) :
    (w.inTurn d done task name).isReady t = true ↔
      ∃ t', t = t'.below done.length ∧ w.isReady t' = true := by
  have hown : (Child.running task name p).isReadyAt w.store [] = w.isReady .root := by
    simp [Child.isReadyAt, isReady, hroot]
  have hbelow : ∀ i path, (Child.running task name p).isReadyAt w.store (i :: path)
      = w.isReady (.task i path) := by
    intro i path
    simp [Child.isReadyAt, isReady, hroot]
  rw [inTurn_running hroot]
  constructor
  · intro ready
    cases t with
    | root =>
        simp only [isReady, Proc.isReady] at ready
        rw [busy.isReady_eq rfl] at ready
        cases ready
    | task index path =>
        simp only [isReady, Proc.isReadyAt, isReadyAmong_eq] at ready
        obtain ⟨c, hc, hready⟩ := (Option.any_eq_true _ _).mp ready
        rcases Nat.lt_trichotomy index done.length with hlt | rfl | hgt
        · rw [List.getElem?_append_left hlt] at hc
          rw [c.isReadyAt_eq_false (isOver c (List.mem_of_getElem? hc))] at hready
          cases hready
        · simp only [List.getElem?_concat_length, Option.some.injEq] at hc
          subst hc
          cases path with
          | nil => exact ⟨.root, rfl, hown ▸ hready⟩
          | cons i path => exact ⟨.task i path, rfl, hbelow i path ▸ hready⟩
        · rw [List.getElem?_eq_none (by simp; omega)] at hc
          cases hc
    | orphan place => simp [isReady, alone] at ready
    | orphanTask place index path => simp [isReady, alone] at ready
    | timer t => exact ⟨.timer t, rfl, ready⟩
    | appointment place => exact ⟨.appointment place, rfl, ready⟩
  · rintro ⟨t', rfl, ready⟩
    cases t' with
    | root =>
        simp only [Turn.below, isReady, Proc.isReadyAt, isReadyAmong_eq,
          List.getElem?_concat_length, Option.any_some]
        exact hown.trans ready
    | task i path =>
        simp only [Turn.below, isReady, Proc.isReadyAt, isReadyAmong_eq,
          List.getElem?_concat_length, Option.any_some]
        exact (hbelow i path).trans ready
    | orphan place => simp [isReady, alone] at ready
    | orphanTask place index path => simp [isReady, alone] at ready
    | timer t => exact ready
    | appointment place => exact ready

/-- Both make the same of it. -/
lemma take_inTurn (hroot : w.root = .running p) (alone : w.orphans = []) {t : Turn}
    (ready : w.isReady t = true) :
    (w.inTurn d done task name).take (t.below done.length) =
      (w.take t).inTurn d done task name := by
  rw [inTurn_running hroot]
  cases t with
  | root =>
      simp only [Turn.below, take, pollRoot, hroot, Proc.resumeAt, resumeAmong_last,
        Child.resumeAt_running, inTurn_ofProgress]
  | task i path =>
      simp only [Turn.below, take, hroot, Proc.resumeAt, resumeAmong_last, Child.resumeAt]
      rfl
  | orphan place => simp [isReady, alone] at ready
  | orphanTask place index path => simp [isReady, alone] at ready
  | timer t => simp only [Turn.below, take, inTurn, hroot]
  | appointment place =>
      cases hx : w.agenda[place]? with
      | none => simp [isReady, hx] at ready
      | some x => simp only [Turn.below, take, hx, inTurn, hroot]

lemma times_inTurn (hroot : w.root = .running p) (isOver : ∀ c ∈ done, c.isLive = false) :
    (w.inTurn d done task name).times = w.times := by
  rw [inTurn_running hroot]
  simp only [times, hroot, Proc.wakeTimes, wakeTimesAmong_append, wakeTimesAmong_eq_nil isOver,
    wakeTimesAmong, Child.wakeTimes, List.append_nil, List.nil_append]

lemma inTurn_store (hroot : w.root = .running p) : (w.inTurn d done task name).store = w.store := by
  rw [inTurn_running hroot]

/-- **No step is lost or added.**  A run whose slot is taken by a child that is running steps as the
child would on its own. -/
theorem step_inTurn_iff (hroot : w.root = .running p) (alone : w.orphans = [])
    (isOver : ∀ c ∈ done, c.isLive = false) (busy : d.IsBusy done.length) {v' : World} :
    Step (w.inTurn d done task name) v' ↔
      ∃ v, Step w v ∧ v' = v.inTurn d done task name := by
  have hquiet : (∀ t, (w.inTurn d done task name).isReady t = false) ↔
      ∀ t, w.isReady t = false := by
    constructor
    · intro h t
      refine Bool.eq_false_iff.mpr fun ready => ?_
      have hready : (w.inTurn d done task name).isReady (t.below done.length) = true :=
        (isReady_inTurn hroot alone isOver busy _).mpr ⟨t, rfl, ready⟩
      rw [h] at hready
      cases hready
    · intro h t
      refine Bool.eq_false_iff.mpr fun ready => ?_
      obtain ⟨t', -, ready⟩ := (isReady_inTurn hroot alone isOver busy t).mp ready
      rw [h] at ready
      cases ready
  have hnext : (w.inTurn d done task name).nextTime? = w.nextTime? := by
    rw [nextTime?, nextTime?, times_inTurn hroot isOver, inTurn_store hroot]
  have hadvance : ∀ time, (w.inTurn d done task name).advance time
      = (w.advance time).inTurn d done task name := by
    intro time
    simp only [inTurn, hroot, advance]
  constructor
  · intro step
    cases step with
    | turn t ready =>
        obtain ⟨t', rfl, ready'⟩ := (isReady_inTurn hroot alone isOver busy t).mp ready
        exact ⟨_, .turn t' ready', take_inTurn hroot alone ready'⟩
    | tick quiet next =>
        exact ⟨_, .tick (hquiet.mp quiet) (hnext ▸ next), hadvance _⟩
  · rintro ⟨v, step, rfl⟩
    cases step with
    | turn t ready =>
        rw [← take_inTurn hroot alone ready]
        exact .turn _ ((isReady_inTurn hroot alone isOver busy _).mpr ⟨t, rfl, ready⟩)
    | tick quiet next =>
        rw [← hadvance]
        exact .tick (hquiet.mpr quiet) (hnext.symm ▸ next)

/-! ## Steps without orphans -/

lemma Step.orphans_nil (h : Step w v) (alone : w.orphans = []) : v.orphans = [] := by
  cases h with
  | tick => exact alone
  | turn t ready =>
      cases t with
      | root =>
          simp only [take, pollRoot]
          split <;> exact alone
      | task index path =>
          simp only [take]
          split <;> exact alone
      | orphan place => simp [isReady, alone] at ready
      | orphanTask place index path => simp [isReady, alone] at ready
      | timer t => exact alone
      | appointment place =>
          simp only [take]
          split <;> exact alone

lemma Reachable.alone (h : Reachable w v) (alone : w.orphans = []) : v.orphans = [] := by
  induction h with
  | refl => exact alone
  | step _ s ih => exact s.orphans_nil ih

/-- A run that has started goes on, or a turn ends it. -/
lemma Step.running (h : Step w v) (hroot : w.root = .running p) :
    (∃ p', v.root = .running p') ∨
      ∃ t x, w.isReady t = true ∧ v = w.take t ∧ v.root = .ended x := by
  cases h with
  | tick => exact .inl ⟨p, hroot⟩
  | turn t ready =>
      cases t with
      | root =>
          have hpoll : (w.take .root).root = .ofProgress (p.resume w.store).2 := by
            simp only [take, pollRoot, hroot]
          rcases hout : (p.resume w.store).2 with p' | x
          · exact .inl ⟨p', by rw [hpoll, hout]; rfl⟩
          · exact .inr ⟨.root, x, ready, rfl, by rw [hpoll, hout]; rfl⟩
      | task index path =>
          exact .inl ⟨(p.resumeAt w.store index path).2, by simp only [take, hroot]⟩
      | orphan place =>
          refine .inl ⟨p, ?_⟩
          simp only [take]
          split <;> exact hroot
      | orphanTask place index path =>
          refine .inl ⟨p, ?_⟩
          simp only [take]
          split <;> exact hroot
      | timer t => exact .inl ⟨p, hroot⟩
      | appointment place =>
          refine .inl ⟨p, ?_⟩
          simp only [take]
          split <;> exact hroot

end World

/-! ## The dispatcher's turn -/

/-- The stores agree but for the trace and what is counted there. -/
structure Store.Noted (s s' : Store) : Prop where
  contexts : s'.contexts = s.contexts
  states : s'.states = s.states
  cells : s'.cells = s.cells
  log : s'.log = s.log
  calls : s'.calls = s.calls
  isOpen : s'.closed = s.closed

lemma Store.Noted.refl (s : Store) : s.Noted s := ⟨rfl, rfl, rfl, rfl, rfl, rfl⟩

lemma Store.Noted.mark (s : Store) (run : Nat) (m : Mark) : s.Noted (s.mark run m) :=
  ⟨rfl, rfl, rfl, rfl, rfl, rfl⟩

lemma Store.Noted.trans {s s' s'' : Store} (h : s.Noted s') (h' : s'.Noted s'') : s.Noted s'' :=
  ⟨h'.contexts.trans h.contexts, h'.states.trans h.states, h'.cells.trans h.cells,
    h'.log.trans h.log, h'.calls.trans h.calls, h'.isOpen.trans h.isOpen⟩

namespace Dispatch

variable {d : Dispatch} {s : Store} {done rest : List Child} {c : Action} {queue : List Action}

/-- What the dispatcher of the run `r` remembers when the children `done` have ended. -/
structure Remembers (d : Dispatch) (r : Nat) (env : Env) (queue : List Action)
    (done : List Child) : Prop where
  run : d.run = r
  env : d.env = env
  queue : d.queue = queue
  collected_le : d.collected ≤ done.length
  failure : d.failure = (done.take d.collected).findSome? Child.failure?

/-- Ends are collected up to the first child that has not ended. -/
lemma collect_eq (done rest : List Child) (ended : ∀ c ∈ done, ∃ name x, c = .ended name x)
    (stop : ∀ c ∈ rest.head?, c.verdict? = none) : ∀ (d : Dispatch) (s : Store),
      ∃ s', s.Noted s' ∧ d.collect (done ++ rest) s =
        ({ d with collected := d.collected + done.length
                  failure := d.failure.or (done.findSome? Child.failure?) }, s', rest.isEmpty) := by
  induction done with
  | nil =>
      intro d s
      refine ⟨s, .refl s, ?_⟩
      cases rest with
      | nil => simp [collect]
      | cons c rest => simp [collect, stop c rfl]
  | cons c done ih =>
      intro d s
      obtain ⟨name, x, rfl⟩ := ended _ List.mem_cons_self
      have hended := fun c hc => ended c (List.mem_cons_of_mem _ hc)
      cases hv : (Child.ended name x).verdict? with
      | none => cases x with
        | failed f => cases f <;> cases hv
        | done | panicked => cases hv
      | some v =>
          have hfailure : (Child.ended name x).failure? = v := (Child.isLive_of_verdict? hv).2
          cases v with
          | none =>
              obtain ⟨s', hs', heq⟩ := ih hended { d with collected := d.collected + 1 } s
              refine ⟨s', hs', ?_⟩
              rw [List.cons_append, collect, hv]
              simp only [heq, List.findSome?_cons, hfailure, List.length_cons]
              simp only [Nat.add_assoc, Nat.add_comm 1]
          | some f =>
              obtain ⟨s', hs', heq⟩ := ih hended
                { d with collected := d.collected + 1, failure := d.failure <|> some f }
                (s.report d.run (.childFailed d.runner (Child.ended name x).name f.message))
              refine ⟨s', (Noted.mark s d.run _).trans hs', ?_⟩
              rw [List.cons_append, collect, hv]
              simp only [heq, List.findSome?_cons, hfailure, List.length_cons]
              have hor : (d.failure <|> some f).or (done.findSome? Child.failure?)
                  = d.failure.or (some f) := by
                cases d.failure <;> rfl
              rw [hor]
              simp only [Nat.add_assoc, Nat.add_comm 1]

/-- The ends that were collected and those that are there make up all. -/
lemma Remembers.failure_or {r : Nat} {env : Env} (h : d.Remembers r env queue done) :
    d.failure.or ((done.drop d.collected).findSome? Child.failure?)
      = done.findSome? Child.failure? := by
  rw [h.failure]
  conv_rhs => rw [← List.take_append_drop d.collected done]
  rw [List.findSome?_append]

/-- With its one slot free the dispatcher admits the next child. -/
lemma advance_admits {r : Nat} {env : Env} (isOpen : s.closed = false) (gate : d.gate = some 1)
    (ended : ∀ c ∈ done, ∃ name x, c = .ended name x)
    (remembers : d.Remembers r env (c :: queue) done) :
    ∃ d' s', d.advance done s =
        (s', .paused (.concurrent d' (done ++ [.spawned s.contexts.supply c]))) ∧
      d'.IsBusy done.length ∧ d'.Remembers r env queue done ∧
      Store.Noted { s with contexts := (s.contexts.hold env.context).2 } s' := by
  obtain ⟨hrun, henv, hqueue, hle, hfailure⟩ := remembers
  have hadmitted : ∃ s₁, Store.Noted { s with contexts := (s.contexts.hold env.context).2 } s₁ ∧
      d.admitAll d.queue done s = ({ d with gate := some 0, queue },
        done ++ [.spawned s.contexts.supply c], s₁) := by
    refine ⟨(((s.report d.run (.throttledAdmit done.length c.name)).newTask
      d.env.context).2.mark d.run (.spawned done.length c)), ?_, ?_⟩
    · rw [henv]
      exact ⟨rfl, rfl, rfl, rfl, rfl, rfl⟩
    · rw [hqueue, admitAll]
      simp only [gate]
      cases queue <;> rfl
  obtain ⟨s₁, hs₁, hadmitted⟩ := hadmitted
  unfold advance
  rw [d.refused?_eq_none isOpen]
  simp only [hadmitted]
  cases queue with
  | cons b queue =>
      exact ⟨_, s₁, rfl, ⟨rfl, fun h => by cases h⟩, ⟨hrun, henv, rfl, hle, hfailure⟩, hs₁⟩
  | nil =>
      have hdrop : (done ++ [Child.spawned s.contexts.supply c]).drop d.collected
          = done.drop d.collected ++ [.spawned s.contexts.supply c] :=
        List.drop_append_of_le_length hle
      obtain ⟨s₂, hs₂, hcollect⟩ := collect_eq (done.drop d.collected)
        [.spawned s.contexts.supply c] (fun c hc => ended c (List.mem_of_mem_drop hc))
        (by simp [Child.verdict?]) { d with gate := some 0, queue := [] } s₁
      have hall : d.collected + (done.drop d.collected).length = done.length := by
        rw [List.length_drop]; omega
      simp only [List.isEmpty_nil, if_true, hdrop, hcollect, hall]
      refine ⟨_, s₂, rfl, ⟨rfl, fun _ => rfl⟩, ⟨hrun, henv, rfl, le_refl _, ?_⟩, hs₁.trans hs₂⟩
      dsimp only
      rw [List.take_length]
      exact Remembers.failure_or ⟨hrun, henv, hqueue, hle, hfailure⟩

/-- When all children have ended the dispatcher ends the run. -/
lemma advance_finishes {r : Nat} {env : Env} (isOpen : s.closed = false)
    (ended : ∀ c ∈ done, ∃ name x, c = .ended name x) (remembers : d.Remembers r env [] done) :
    ∃ s', s.Noted s' ∧ d.advance done s =
      (s', .ended (.ofResult (done.findSome? Child.failure?))) := by
  obtain ⟨s₁, hs₁, hcollect⟩ := collect_eq (done.drop d.collected) []
    (fun c hc => ended c (List.mem_of_mem_drop hc)) (by simp) { d with queue := [] } s
  unfold advance
  rw [d.refused?_eq_none isOpen, remembers.queue]
  simp only [admitAll, List.isEmpty_nil, if_true]
  rw [List.append_nil] at hcollect
  simp only [hcollect, List.isEmpty_nil, if_true, remembers.failure_or]
  exact ⟨_, hs₁.trans (.mark s₁ d.run (.finished _)), rfl⟩

end Dispatch

/-- The slot of a child that has ended becomes free: its task lets go of the scope, which was
cancelled before if the child asked to skip the remainder. -/
structure Store.Vacates (scope : Context) (task : Nat) (x : Exit) (s s' : Store) : Prop where
  skip : x = .failed .skipRemainder → Noted ((s.cancel scope).endTask task) s'
  other : x ≠ .failed .skipRemainder → Noted (s.endTask task) s'

lemma Dispatch.childEnded_vacates {d : Dispatch} (gate : d.gate = some 0) (index task : Nat)
    (name : String) (x : Exit) (s : Store) :
    (d.childEnded index name x s).1 = { d with gate := some 1 } ∧
      s.Vacates d.env.context task x ((d.childEnded index name x s).2.endTask task) := by
  simp only [childEnded, gate]
  refine ⟨trivial, fun h => ?_, fun h => ?_⟩
  · subst h
    exact ⟨rfl, rfl, rfl, rfl, rfl, rfl⟩
  · split
    · exact absurd rfl h
    · exact ⟨rfl, rfl, rfl, rfl, rfl, rfl⟩

/-! ## The whole run -/

namespace World

/-- What is to be known of a throttled run with one slot over the children `cs`, whose scope makes
up the surroundings `env`.  When children have ended with the exits `xs` and the slot is free,
`free xs` holds, or `broken xs`, from where on nothing is said; when the slot was given to the next
child, with the given task, `taken xs`. -/
structure Attends (r : Nat) (env : Env) (cs : List Action) (free broken : List Exit → World → Prop)
    (taken : List Exit → Nat → World → Prop) : Prop where
  alone : ∀ {xs w}, free xs w → w.orphans = [] ∧ w.store.closed = false
  alone' : ∀ {xs task w}, taken xs task w → w.orphans = []
  root : ∀ {xs w} root, free xs w → free xs { w with root }
  brokenRoot : ∀ {xs w} root, broken xs w → broken xs { w with root }
  takenRoot : ∀ {xs task w} root, taken xs task w → taken xs task { w with root }
  befalls : ∀ {xs w v}, free xs w → w.Befalls v → free xs v
  takenBefalls : ∀ {xs task w v}, taken xs task w → w.Befalls v → taken xs task v
  lend : ∀ {xs w c s}, free xs w → cs[xs.length]? = some c →
    Noted { w.store with contexts := (w.store.contexts.hold env.context).2 } s →
    taken xs w.store.contexts.supply { w with store := s }
  serve : ∀ {xs task w c v t x s}, taken xs task w → cs[xs.length]? = some c →
    Reachable ((w.noting r (.started xs.length c)).stage env c) v → v.root.isOver = false →
    v.isReady t = true → (v.take t).root = .ended x →
    (v.take t).store.Vacates env.context task x s →
    free (xs ++ [x]) { v.take t with store := s } ∨ broken (xs ++ [x]) { v.take t with store := s }

/-- The slot is free: the children have ended with the exits `xs`, and no more were admitted. -/
structure Waits (r : Nat) (env : Env) (cs : List Action) (free : List Exit → World → Prop)
    (xs : List Exit) (d : Dispatch) (w : World) : Prop where
  holds : free xs w
  le : xs.length ≤ cs.length
  root : w.root = .running (.concurrent d (endedChildren cs xs))
  gate : d.gate = some 1
  remembers : d.Remembers r env (cs.drop xs.length) (endedChildren cs xs)

/-- A world in which such a run goes on: the slot is free, or the next child was admitted, or it has
started and is run in its turn, or the run is over. -/
inductive Attended (r : Nat) (env : Env) (cs : List Action) (free : List Exit → World → Prop)
    (taken : List Exit → Nat → World → Prop) : World → Prop where
  | waits {xs : List Exit} {d : Dispatch} {w : World} (waits : w.Waits r env cs free xs d) :
      Attended r env cs free taken w
  | admitted {xs : List Exit} {task : Nat} {c : Action} {d : Dispatch} {w : World}
      (holds : taken xs task w) (hc : cs[xs.length]? = some c)
      (root : w.root = .running (.concurrent d (endedChildren cs xs ++ [.spawned task c])))
      (busy : d.IsBusy xs.length)
      (remembers : d.Remembers r env (cs.drop (xs.length + 1)) (endedChildren cs xs)) :
      Attended r env cs free taken w
  | serves {xs : List Exit} {task : Nat} {c : Action} {d : Dispatch} {w v : World} {p : Proc}
      (holds : taken xs task w) (hc : cs[xs.length]? = some c)
      (reach : Reachable ((w.noting r (.started xs.length c)).stage env c) v)
      (root : v.root = .running p) (busy : d.IsBusy xs.length)
      (remembers : d.Remembers r env (cs.drop (xs.length + 1)) (endedChildren cs xs)) :
      Attended r env cs free taken (v.inTurn d (endedChildren cs xs) task c.name)
  | finished {xs : List Exit} {w v : World} (holds : free xs w) (all : xs.length = cs.length)
      (logs : w.SameLogs v) (root : v.root = .ended (resultOf cs xs)) (alone : v.orphans = []) :
      Attended r env cs free taken v

/-- The slot is free, and what was to be known does not hold any more. -/
def Breaks (r : Nat) (env : Env) (cs : List Action) (broken : List Exit → World → Prop)
    (w : World) : Prop :=
  ∃ xs d, w.Waits r env cs broken xs d

variable {r : Nat} {env : Env} {cs : List Action} {free broken : List Exit → World → Prop}
  {taken : List Exit → Nat → World → Prop} {w v : World} {xs : List Exit} {task : Nat} {c : Action}
  {d : Dispatch}

lemma ended_of_mem_endedChildren : ∀ c ∈ endedChildren cs xs, ∃ name x, c = .ended name x := by
  intro c hc
  obtain ⟨x, -, rfl⟩ := List.mem_map.mp hc
  exact ⟨_, _, rfl⟩

/-- The child ends with a turn of its own, and the slot is free again. -/
lemma Attends.vacates (attends : Attends r env cs free broken taken) (holds : taken xs task w)
    (hc : cs[xs.length]? = some c)
    (reach : Reachable ((w.noting r (.started xs.length c)).stage env c) v)
    (running : v.root.isOver = false) (busy : d.IsBusy xs.length)
    (remembers : d.Remembers r env (cs.drop (xs.length + 1)) (endedChildren cs xs)) {t : Turn}
    (ready : v.isReady t = true) {x : Exit} (hx : (v.take t).root = .ended x) :
    ((v.take t).inTurn d (endedChildren cs xs) task c.name).Waits r env cs
      (fun xs w => free xs w ∨ broken xs w) (xs ++ [x]) { d with gate := some 1 } := by
  have hlt : xs.length < cs.length := (List.getElem?_eq_some_iff.mp hc).1
  obtain ⟨hd, hvacates⟩ := Dispatch.childEnded_vacates busy.gate (endedChildren cs xs).length task
    c.name x (v.take t).store
  have hfree := attends.serve holds hc reach running ready hx (remembers.env ▸ hvacates)
  have hle : d.collected ≤ (endedChildren cs xs).length := remembers.collected_le
  simp only [inTurn, hx]
  refine ⟨hfree.imp (attends.root _) (attends.brokenRoot _), by simp; omega, ?_, rfl,
    ⟨remembers.run, remembers.env, ?_, ?_, ?_⟩⟩
  · rw [endedChildren_snoc hc, hd]
  · rw [List.length_append]; exact remembers.queue
  · rw [endedChildren_snoc hc, List.length_append]
    exact hle.trans (Nat.le_add_right _ _)
  · rw [endedChildren_snoc hc, List.take_append_of_le_length hle]
    exact remembers.failure

lemma Waits.attended (waits : w.Waits r env cs (fun xs w => free xs w ∨ broken xs w) xs d) :
    Attended r env cs free taken w ∨ w.Breaks r env cs broken := by
  obtain ⟨holds | holds, le, root, gate, remembers⟩ := waits
  · exact .inl (.waits ⟨holds, le, root, gate, remembers⟩)
  · exact .inr ⟨xs, d, holds, le, root, gate, remembers⟩

/-- The dispatcher has a turn. -/
lemma Waits.isReady (waits : w.Waits r env cs free xs d) : w.isReady .root = true := by
  simp only [World.isReady, waits.root, Proc.isReady, Dispatch.isReady, waits.gate]
  split
  · split
    · next c hc => simp [isLive_of_mem_endedChildren c (List.mem_of_getElem? hc)]
    · rfl
  · rfl

/-- The dispatcher takes its turn: it admits the next child, or the run is over. -/
lemma Attends.dispatch (attends : Attends r env cs free broken taken)
    (waits : w.Waits r env cs free xs d) :
    (∃ task c d', taken xs task (w.take .root) ∧ cs[xs.length]? = some c ∧
      (w.take .root).root = .running (.concurrent d' (endedChildren cs xs ++ [.spawned task c])) ∧
      d'.IsBusy xs.length ∧
      d'.Remembers r env (cs.drop (xs.length + 1)) (endedChildren cs xs)) ∨
    (xs.length = cs.length ∧ w.SameLogs (w.take .root) ∧
      (w.take .root).root = .ended (resultOf cs xs) ∧ (w.take .root).orphans = []) := by
  obtain ⟨holds, le, root, gate, remembers⟩ := waits
  obtain ⟨halone, hopen⟩ := attends.alone holds
  have hlen := length_endedChildren le
  have htake : w.take .root = { w with
      store := (d.advance (endedChildren cs xs) w.store).1
      root := .ofProgress (d.advance (endedChildren cs xs) w.store).2 } := by
    simp only [take, pollRoot, root, Proc.resume]
  rcases Nat.lt_or_ge xs.length cs.length with hlt | hge
  · rw [List.drop_eq_getElem_cons hlt] at remembers
    obtain ⟨d', s', hadv, hbusy, hremembers, hnoted⟩ :=
      Dispatch.advance_admits hopen gate ended_of_mem_endedChildren remembers
    rw [hadv] at htake
    have hc := List.getElem?_eq_getElem hlt
    have htaken : taken xs w.store.contexts.supply (w.take .root) := by
      rw [htake]
      exact attends.takenRoot _ (attends.lend holds hc hnoted)
    rw [hlen] at hbusy
    exact .inl ⟨_, _, d', htaken, hc, by rw [htake]; rfl, hbusy, hremembers⟩
  · rw [List.drop_eq_nil_of_le hge] at remembers
    obtain ⟨s', hnoted, hadv⟩ :=
      Dispatch.advance_finishes hopen ended_of_mem_endedChildren remembers
    rw [hadv, ofResult_endedChildren] at htake
    refine .inr ⟨Nat.le_antisymm le hge, ?_, by rw [htake]; rfl, by rw [htake]; exact halone⟩
    rw [htake]
    exact ⟨hnoted.log, hnoted.calls, hnoted.states⟩

/-- A child that was admitted starts. -/
lemma take_admitted (root : w.root = .running (.concurrent d
      (endedChildren cs xs ++ [.spawned task c]))) (le : xs.length ≤ cs.length) (run : d.run = r)
    (henv : d.env = env) : w.take (.task xs.length []) =
      (((w.noting r (.started xs.length c)).stage env c).take .root).inTurn d (endedChildren cs xs)
        task c.name := by
  subst run henv
  have hlen := length_endedChildren le
  simp only [take, pollRoot, stage, noting, root, Proc.resumeAt]
  rw [← hlen, resumeAmong_last, Child.resumeAt_spawned, hlen]
  simp only [inTurn_ofProgress, hlen]

/-- The first turn of a child that was admitted. -/
lemma Attends.starts (attends : Attends r env cs free broken taken) (holds : taken xs task w)
    (hc : cs[xs.length]? = some c)
    (root : w.root = .running (.concurrent d (endedChildren cs xs ++ [.spawned task c])))
    (busy : d.IsBusy xs.length)
    (remembers : d.Remembers r env (cs.drop (xs.length + 1)) (endedChildren cs xs)) :
    (∃ v p, w.take (.task xs.length []) = v.inTurn d (endedChildren cs xs) task c.name ∧
      Reachable ((w.noting r (.started xs.length c)).stage env c) v ∧ v.root = .running p) ∨
    ∃ x d', (w.take (.task xs.length [])).Waits r env cs
      (fun xs w => free xs w ∨ broken xs w) (xs ++ [x]) d' := by
  have hlt : xs.length < cs.length := (List.getElem?_eq_some_iff.mp hc).1
  rw [take_admitted root hlt.le remembers.run remembers.env]
  set opening := (w.noting r (.started xs.length c)).stage env c with hopening
  have hstep : Step opening (opening.take .root) := .turn .root rfl
  have hroot : (opening.take .root).root
      = .ofProgress (c.start env (w.noting r (.started xs.length c)).store).2 := rfl
  rcases hout : (c.start env (w.noting r (.started xs.length c)).store).2 with p | x
  · exact .inl ⟨_, p, rfl, .step .refl hstep, by rw [hroot, hout]; rfl⟩
  · exact .inr ⟨x, _, attends.vacates holds hc .refl rfl busy remembers (t := .root) rfl
      (by rw [← hopening, hroot, hout]; rfl)⟩

/-- When the slot is free, none of the children has a turn. -/
lemma Waits.not_isReady_task (waits : w.Waits r env cs free xs d) (index : Nat) (path : List Nat) :
    w.isReady (.task index path) = false := by
  simp only [World.isReady, waits.root, Proc.isReadyAt, isReadyAmong_eq]
  refine Bool.eq_false_iff.mpr fun ready => ?_
  obtain ⟨c, hc, hready⟩ := (Option.any_eq_true _ _).mp ready
  rw [c.isReadyAt_eq_false (isLive_of_mem_endedChildren c (List.mem_of_getElem? hc))] at hready
  cases hready

/-- When a child was admitted, it alone has a turn. -/
lemma isReady_task_admitted (root : w.root = .running (.concurrent d
      (endedChildren cs xs ++ [.spawned task c]))) (le : xs.length ≤ cs.length) (index : Nat)
    (path : List Nat) :
    w.isReady (.task index path) = true ↔ index = xs.length ∧ path = [] := by
  have hlen := length_endedChildren le
  simp only [isReady, root, Proc.isReadyAt, isReadyAmong_eq, Option.any_eq_true]
  constructor
  · rintro ⟨c', hc', hready⟩
    rcases Nat.lt_trichotomy index (endedChildren cs xs).length with hl | rfl | hg
    · rw [List.getElem?_append_left hl] at hc'
      rw [c'.isReadyAt_eq_false
        (isLive_of_mem_endedChildren c' (List.mem_of_getElem? hc'))] at hready
      cases hready
    · simp only [List.getElem?_concat_length, Option.some.injEq] at hc'
      subst hc'
      cases path with
      | nil => exact ⟨hlen, rfl⟩
      | cons => simp [Child.isReadyAt] at hready
    · rw [List.getElem?_eq_none (by simp; omega)] at hc'
      cases hc'
  · rintro ⟨rfl, rfl⟩
    exact ⟨.spawned task c, by simp [← hlen], by simp [Child.isReadyAt]⟩

/-- **Every step of the run is accounted for.** -/
theorem Attended.step (h : Attended r env cs free taken w)
    (attends : Attends r env cs free broken taken) (step : Step w v) :
    Attended r env cs free taken v ∨ v.Breaks r env cs broken := by
  cases h with
  | @waits xs d w waits =>
      have ⟨holds, le, root, gate, remembers⟩ := waits
      cases step with
      | tick quiet next =>
          have := quiet .root
          rw [waits.isReady] at this
          cases this
      | turn t ready =>
          rcases ready_cases ready (attends.alone holds).1 with rfl | ⟨index, path, rfl⟩ | hb
          · rcases attends.dispatch waits with ⟨task, c, d', htaken, hc, hroot, hbusy, hrem⟩ | h
            · exact .inl (.admitted htaken hc hroot hbusy hrem)
            · exact .inl (.finished holds h.1 h.2.1 h.2.2.1 h.2.2.2)
          · rw [waits.not_isReady_task] at ready
            cases ready
          · exact .inl (.waits ⟨attends.befalls holds hb, le, hb.root_eq.trans root, gate,
              remembers⟩)
  | @admitted xs task c d w holds hc root busy remembers =>
      have hlt : xs.length < cs.length := (List.getElem?_eq_some_iff.mp hc).1
      cases step with
      | tick quiet next =>
          have := quiet (.task xs.length [])
          rw [(isReady_task_admitted root hlt.le _ _).mpr ⟨rfl, rfl⟩] at this
          cases this
      | turn t ready =>
          rcases ready_cases ready (attends.alone' holds) with rfl | ⟨index, path, rfl⟩ | hb
          · have hbusy : d.IsBusy (endedChildren cs xs).length :=
              (length_endedChildren hlt.le).symm ▸ busy
            simp only [isReady, root, Proc.isReady] at ready
            rw [hbusy.isReady_eq rfl] at ready
            cases ready
          · obtain ⟨rfl, rfl⟩ := (isReady_task_admitted root hlt.le _ _).mp ready
            rcases attends.starts holds hc root busy remembers with
              ⟨v, p, htake, hreach, hp⟩ | ⟨x, d', hwaits⟩
            · rw [htake]
              exact .inl (.serves holds hc hreach hp busy remembers)
            · exact hwaits.attended
          · exact .inl (.admitted (attends.takenBefalls holds hb) hc (hb.root_eq.trans root) busy
              remembers)
  | @serves xs task c d w' v' p holds hc reach root busy remembers =>
      have hlt : xs.length < cs.length := (List.getElem?_eq_some_iff.mp hc).1
      have hlen := length_endedChildren hlt.le
      have halone' : w'.orphans = [] := attends.alone' holds
      have halone : v'.orphans = [] := reach.alone halone'
      obtain ⟨v₁, hstep, rfl⟩ := (step_inTurn_iff root halone isLive_of_mem_endedChildren
        (hlen.symm ▸ busy)).mp step
      rcases hstep.running root with ⟨p', hp'⟩ | ⟨t, x, ready, rfl, hx⟩
      · exact .inl (.serves holds hc (.step reach hstep) hp' busy remembers)
      · exact (attends.vacates holds hc reach (by rw [root]; rfl) busy remembers ready
          hx).attended
  | @finished xs w' w holds all logs root alone =>
      have haft := step.aftermath (by rw [root]; rfl)
      obtain ⟨hlog, hcalls, hstates, -⟩ := haft.still alone
      exact .inl (.finished holds all
        ⟨hlog.trans logs.1, hcalls.trans logs.2.1, hstates.trans logs.2.2⟩
        (haft.root_eq.trans root) (haft.orphans_nil alone))

/-- So is the whole run, as long as what is to be known holds. -/
lemma Attended.reachable (h : Attended r env cs free taken w)
    (attends : Attends r env cs free broken taken) (reach : Reachable w v) :
    Attended r env cs free taken v ∨
      ∃ y, Reachable w y ∧ y.Breaks r env cs broken ∧ Reachable y v := by
  induction reach with
  | refl => exact .inl h
  | @step u v reach step ih =>
      rcases ih with ih | ⟨y, hy, hbreaks, hreach⟩
      · refine (ih.step attends step).imp_right fun hbreaks => ?_
        exact ⟨v, .step reach step, hbreaks, .refl⟩
      · exact .inr ⟨y, hy, hbreaks, .step hreach step⟩

/-! ## Coming to an end -/

/-- Every child comes to an end on its own, whatever it has done so far. -/
def Returning (r : Nat) (env : Env) (cs : List Action) (taken : List Exit → Nat → World → Prop) :
    Prop :=
  ∀ xs task w c, taken xs task w → cs[xs.length]? = some c →
    ∀ v, Reachable ((w.noting r (.started xs.length c)).stage env c) v →
      ∃ x f, Reachable v f ∧ f.root = .ended x

/-- The child that is running can be run to its end. -/
lemma Attends.exists_waits (attends : Attends r env cs free broken taken) (holds : taken xs task w)
    (hc : cs[xs.length]? = some c) (busy : d.IsBusy xs.length)
    (remembers : d.Remembers r env (cs.drop (xs.length + 1)) (endedChildren cs xs)) {f : World}
    {x : Exit} (hf : f.root = .ended x) (path : Relation.ReflTransGen Step v f) :
    ∀ p, Reachable ((w.noting r (.started xs.length c)).stage env c) v → v.root = .running p →
      ∃ u x d', Reachable (v.inTurn d (endedChildren cs xs) task c.name) u ∧
        u.Waits r env cs (fun xs w => free xs w ∨ broken xs w) (xs ++ [x]) d' := by
  have hlt : xs.length < cs.length := (List.getElem?_eq_some_iff.mp hc).1
  have hlen := length_endedChildren hlt.le
  have halone' : w.orphans = [] := attends.alone' holds
  induction path using Relation.ReflTransGen.head_induction_on with
  | refl =>
      intro p _ hroot
      rw [hf] at hroot
      cases hroot
  | @head v v₁ step _ ih =>
      intro p reach hroot
      have hstep : Step (v.inTurn d (endedChildren cs xs) task c.name)
          (v₁.inTurn d (endedChildren cs xs) task c.name) :=
        (step_inTurn_iff hroot (reach.alone halone') isLive_of_mem_endedChildren
          (hlen.symm ▸ busy)).mpr ⟨v₁, step, rfl⟩
      rcases step.running hroot with ⟨p', hp'⟩ | ⟨t, x, ready, rfl, hx⟩
      · obtain ⟨u, x, d', hu, hwaits⟩ := ih p' (.step reach step) hp'
        exact ⟨u, x, d', Reachable.trans (.step .refl hstep) hu, hwaits⟩
      · exact ⟨_, x, _, .step .refl hstep,
          attends.vacates holds hc reach (by rw [hroot]; rfl) busy remembers ready hx⟩

/-- The child that was admitted can be run to its end. -/
lemma Attends.exists_waits_of_admitted (attends : Attends r env cs free broken taken)
    (returning : Returning r env cs taken) (holds : taken xs task w) (hc : cs[xs.length]? = some c)
    (root : w.root = .running (.concurrent d (endedChildren cs xs ++ [.spawned task c])))
    (busy : d.IsBusy xs.length)
    (remembers : d.Remembers r env (cs.drop (xs.length + 1)) (endedChildren cs xs)) :
    ∃ u x d', Reachable w u ∧
      u.Waits r env cs (fun xs w => free xs w ∨ broken xs w) (xs ++ [x]) d' := by
  have hlt : xs.length < cs.length := (List.getElem?_eq_some_iff.mp hc).1
  have hstart : Reachable w (w.take (.task xs.length [])) :=
    .step .refl (.turn _ ((isReady_task_admitted root hlt.le _ _).mpr ⟨rfl, rfl⟩))
  rcases attends.starts holds hc root busy remembers with
    ⟨v, p, htake, hreach, hp⟩ | ⟨x, d', hwaits⟩
  · obtain ⟨x, f, hf, hx⟩ := returning xs task w c holds hc v hreach
    obtain ⟨u, x, d', hu, hwaits⟩ :=
      attends.exists_waits holds hc busy remembers hx (reachable_iff.mp hf) p hreach hp
    exact ⟨u, x, d', hstart.trans (htake ▸ hu), hwaits⟩
  · exact ⟨_, x, d', hstart, hwaits⟩

/-- The run can be run to its end, or to where what was to be known does not hold any more. -/
def Ends (r : Nat) (env : Env) (cs : List Action) (broken : List Exit → World → Prop) (w : World) :
    Prop :=
  ∃ f, Reachable w f ∧ ((∃ x, f.root = .ended x) ∨ f.Breaks r env cs broken)

lemma Ends.of_reachable (reach : Reachable w v) (h : v.Ends r env cs broken) :
    w.Ends r env cs broken := by
  obtain ⟨f, hf, h⟩ := h
  exact ⟨f, reach.trans hf, h⟩

/-- A run whose slot is free can be run to its end. -/
lemma Attends.ends (attends : Attends r env cs free broken taken)
    (returning : Returning r env cs taken) :
    ∀ n (w : World) (xs : List Exit) d, cs.length - xs.length = n →
      w.Waits r env cs (fun xs w => free xs w ∨ broken xs w) xs d → w.Ends r env cs broken := by
  intro n
  induction n with
  | zero =>
      rintro w xs d hn ⟨holds | holds, le, root, gate, remembers⟩
      · have waits : w.Waits r env cs free xs d := ⟨holds, le, root, gate, remembers⟩
        rcases attends.dispatch waits with ⟨task, c, d', -, hc, -⟩ | ⟨-, -, hroot, -⟩
        · have := (List.getElem?_eq_some_iff.mp hc).1
          omega
        · exact ⟨_, .step .refl (.turn .root waits.isReady), .inl ⟨_, hroot⟩⟩
      · exact ⟨w, .refl, .inr ⟨xs, d, holds, le, root, gate, remembers⟩⟩
  | succ n ih =>
      rintro w xs d hn ⟨holds | holds, le, root, gate, remembers⟩
      · have waits : w.Waits r env cs free xs d := ⟨holds, le, root, gate, remembers⟩
        rcases attends.dispatch waits with ⟨task, c, d', htaken, hc, hroot, hbusy, hrem⟩ | ⟨hall, -⟩
        · obtain ⟨u, x, d', hu, hwaits⟩ :=
            attends.exists_waits_of_admitted returning htaken hc hroot hbusy hrem
          exact .of_reachable ((Reachable.step .refl (.turn .root waits.isReady)).trans hu)
            (ih u (xs ++ [x]) d' (by simp; omega) hwaits)
        · omega
      · exact ⟨w, .refl, .inr ⟨xs, d, holds, le, root, gate, remembers⟩⟩

/-- **The run can always be run to its end**, when every child can be on its own. -/
theorem Attended.ends (h : Attended r env cs free taken w)
    (attends : Attends r env cs free broken taken) (returning : Returning r env cs taken) :
    w.Ends r env cs broken := by
  cases h with
  | waits waits =>
      exact attends.ends returning _ _ _ _ rfl ⟨.inl waits.holds, waits.le, waits.root, waits.gate,
        waits.remembers⟩
  | admitted holds hc root busy remembers =>
      obtain ⟨u, x, d', hu, hwaits⟩ :=
        attends.exists_waits_of_admitted returning holds hc root busy remembers
      exact .of_reachable hu (attends.ends returning _ _ _ _ rfl hwaits)
  | serves holds hc reach root busy remembers =>
      obtain ⟨x, f, hf, hx⟩ := returning _ _ _ _ holds hc _ reach
      obtain ⟨u, x, d', hu, hwaits⟩ :=
        attends.exists_waits holds hc busy remembers hx (reachable_iff.mp hf) _ reach root
      exact .of_reachable hu (attends.ends returning _ _ _ _ rfl hwaits)
  | finished _ _ _ root _ => exact ⟨w, .refl, .inl ⟨_, root⟩⟩

/-! ## The beginning -/

/-- The surroundings of the children of a throttled run that is started in the world under `env`. -/
def scopeEnv (w : World) (env : Env) : Env :=
  { env with context := (w.store.contexts.child env.context).1 }

/-- The first turn of a throttled run with one slot. -/
theorem Attends.begins {env' : Env} {limit : Limit} (one : limit.value = 1)
    (attends : Attends w.store.runs (w.scopeEnv env') cs free broken taken)
    (start : ∀ s, Noted { w.store with contexts := (w.store.contexts.child env'.context).2 } s →
      free [] { w with store := s }) :
    Attended w.store.runs (w.scopeEnv env') cs free taken
      ((w.stage env' (.throttled limit cs)).take .root) := by
  set scope := (w.store.contexts.child env'.context).1 with hscope
  set s₀ := (w.store.newRun (.throttled limit cs)).2.report w.store.runs
    (.throttledDispatch limit.value cs.length) with hs₀
  set s₁ := ({ s₀ with contexts := (w.store.contexts.child env'.context).2 } : Store).mark
    w.store.runs (.derived scope) with hs₁
  set d : Dispatch := ⟨w.store.runs, w.scopeEnv env', some limit.value, cs, 0, none⟩ with hd
  have hfree := start s₁ ⟨rfl, rfl, rfl, rfl, rfl, rfl⟩
  have hstart : (Action.throttled limit cs).start env' w.store = d.advance [] s₁ := by
    rw [Action.start_throttled, startThrottled, if_neg (by rw [one]; decide)]
    rfl
  have htake : (w.stage env' (.throttled limit cs)).take .root
      = ({ w with store := s₁, root := .running (.concurrent d []) } : World).take .root := by
    simp only [take, pollRoot, stage, hstart, Proc.resume]
  have hwaits : ({ w with store := s₁, root := .running (.concurrent d []) } : World).Waits
      w.store.runs (w.scopeEnv env') cs free [] d :=
    ⟨attends.root _ hfree, Nat.zero_le _, by rw [endedChildren_nil], congrArg some one,
      ⟨rfl, rfl, rfl, Nat.zero_le _, rfl⟩⟩
  rw [htake]
  rcases attends.dispatch hwaits with ⟨task, c, d', htaken, hc, hroot, hbusy, hrem⟩ | h
  · exact .admitted htaken hc hroot hbusy hrem
  · exact .finished (attends.root _ hfree) h.1 h.2.1 h.2.2.1 h.2.2.2

end World

end Workflow
