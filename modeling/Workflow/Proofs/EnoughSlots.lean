import Mathlib.Data.List.Permutation
import Workflow.Proofs.Alone
import Workflow.Proofs.Unison

/-!
# Enough slots

A throttled run that has at least as many slots as children admits all of them at once, and then it
does what a run without a limit does.  The one difference is the context that it makes for its
children: it follows the caller's and nothing cancels it, as long as no child asks to skip the
remainder and no child cancels it.

* **Numbers.**  `World.IsNumbered`: all numbers in a world were given away before, so that the next
  one is that of the new context.
* **At the same place.**  `Level` relates the two runs.  They are level when they have been
  polled for the first time (`Action.start_level`), and stay so (`Level.resume`,
  `Level.resumeAt`).
* **Turns.**  `World.Paired` relates two worlds.  The same turns are ready in them up to the numbers
  of timers, and when the same turn is taken in both they do the same and are paired again
  (`World.Paired.take`).
* **Plays.**  By induction, to every play of one run there is a play of the other
  (`World.Paired.exists_play`, `World.Paired.exists_play'`), and **`World.enough_slots`** says what
  they have in common.
-/

namespace Workflow

open Store

/-! ## At the same place -/

/-- A throttled run and a run without a limit have both ended alike, or both wait for their children
and have the same of them.  The first has made one more token, `k`. -/
inductive Level (g k run : Nat) : Store × Progress → Store × Progress → Prop where
  | ended {s t : Store} (store : t.Shifted g k s) (e : Exit) :
      Level g k run (s, .ended e) (t, .ended e)
  | paused {s t : Store} {d : Dispatch} {children : List Child} {gate : Option Nat}
      (store : t.Shifted g k s) (own : (Proc.concurrent d children).IsOwn g k)
      (gates : Gates true gate d.gate) (numbered : d.run = run) (admitted : d.queue = []) :
      Level g k run
        (s, .paused (.concurrent { d.shift k with gate } (children.map (Child.shift k))))
        (t, .paused (.concurrent d children))

section

variable {g k run : Nat} {s t : Store} {d : Dispatch} {children : List Child} {gate : Option Nat}
  {out out' : Store × Progress}

lemma Level.shifted (h : Level g k run out out') : out'.1.Shifted g k out.1 := by
  cases h with
  | ended store e => exact store
  | paused store own gates numbered admitted => exact store

/-- Both have ended alike, or both have to wait. -/
lemma Level.ended_or_paused {p p' : Progress} (h : Level g k run (s, p) (t, p')) :
    (∃ e, p = .ended e ∧ p' = .ended e) ∨ ∃ q q', p = .paused q ∧ p' = .paused q' := by
  cases h with
  | ended store e => exact .inl ⟨e, rfl, rfl⟩
  | paused store own gates numbered admitted => exact .inr ⟨_, _, rfl, rfl⟩

/-- Whatever happens outside, the code stays where it is. -/
lemma Level.withStore {p p' : Progress} {s' t' : Store} (h : Level g k run (s, p) (t, p'))
    (store : t'.Shifted g k s') : Level g k run (s', p) (t', p') := by
  cases h with
  | ended _ e => exact .ended store e
  | paused _ own gates numbered admitted => exact .paused store own gates numbered admitted

/-- Both collect the ends of children. -/
lemma Dispatch.wrapUp_level (store : t.Shifted g k s)
    (own : (Proc.concurrent d children).IsOwn g k) (gates : Gates true gate d.gate)
    (numbered : d.run = run) (admitted : d.queue = []) :
    Level g k run
      (({ d.shift k with gate } : Dispatch).wrapUp (children.map (Child.shift k)) s)
      (d.wrapUp children t) := by
  rcases Dispatch.wrapUp_shift (d := d) gate children store with
    ⟨s', t', e, hs, ht, hst⟩ | ⟨s', t', collected, failure, hs, ht, hst⟩
  · rw [hs, ht]
    exact .ended hst e
  · rw [hs, ht]
    obtain ⟨hown, hscope, hall⟩ := Proc.isOwn_concurrent.mp own
    exact .paused (d := { d with collected, failure }) hst
      (Proc.isOwn_concurrent.mpr ⟨hown, hscope, hall⟩) gates numbered admitted

/-! ## The first poll -/

/-- With enough slots all children are admitted, as those of a run without a limit are spawned. -/
lemma Dispatch.admitAll_enough (queue q : List Action) (free : Nat) (enough : queue.length ≤ free)
    (before : List Child) (store : t.Shifted g k s) :
    ∃ s' left, ({ d.shift k with gate := some free, queue := q } : Dispatch).admitAll queue
        (before.map (Child.shift k)) s =
      ({ d.shift k with gate := some left, queue := [] },
        (before ++ (d.spawnAll before.length queue t).1).map (Child.shift k), s') ∧
      (d.spawnAll before.length queue t).2.Shifted g k s' := by
  -- There stays a free slot for each child in the queue.
  induction queue generalizing free before s t with
  | nil =>
      refine ⟨s, free, ?_, store⟩
      rw [admitAll, spawnAll, List.append_nil]
  | cons a rest ih =>
      obtain ⟨free, rfl⟩ : ∃ n, free = n + 1 := ⟨free - 1, by simp at enough; omega⟩
      have hreport := store.mark_right d.run (.event (.throttledAdmit before.length a.name))
      have hspawn := (hreport.newTask d.env.context).mark d.run (.spawned before.length a)
      have hlength : rest.length ≤ free := Nat.le_of_succ_le_succ enough
      obtain ⟨s', left, heq, hshifted⟩ :=
        ih free hlength (before ++ [.spawned t.contexts.supply a]) hspawn
      have htask : [Child.spawned t.contexts.supply a].map (Child.shift k) =
          [.spawned s.contexts.supply a] := by
        rw [store.supply]
        rfl
      rw [List.length_append, List.length_singleton, List.append_assoc, List.map_append,
        htask] at heq
      rw [List.length_append, List.length_singleton] at hshifted
      rw [admitAll, spawnAll]
      refine ⟨s', left, ?_, hshifted⟩
      rw [List.length_map]
      exact heq

/-- When nobody is refused, all children have tasks after one step of the throttled run, and both
runs collect the ends that are there already. -/
lemma Dispatch.advance_level {cs : List Action} {free : Nat} (enough : cs.length ≤ free)
    (store : t.Shifted g k s) (own : d.env.context.IsOwn g k) (unlimited : d.gate = none)
    (admitted : d.queue = []) (numbered : d.run = run)
    (accepted : ({ d.shift k with gate := some free, queue := cs } : Dispatch).refused? s = none) :
    Level g k run (({ d.shift k with gate := some free, queue := cs } : Dispatch).advance [] s)
      (d.advance (d.spawnAll 0 cs t).1 (d.spawnAll 0 cs t).2) := by
  obtain ⟨r, env, gate, queue, collected, failure⟩ := d
  dsimp only at unlimited admitted
  subst unlimited admitted
  set d : Dispatch := ⟨r, env, none, [], collected, failure⟩ with hd
  obtain ⟨s', left, hqueued, hspawned⟩ :=
    Dispatch.admitAll_enough (d := d) cs cs free enough [] store
  obtain ⟨-, -, -, hown⟩ := Dispatch.spawnAll_shift (d := d) 0 cs store
  have hproc : (Proc.concurrent d (d.spawnAll 0 cs t).1).IsOwn g k :=
    Proc.isOwn_concurrent.mpr ⟨own, by simp [d], hown⟩
  have hgates : Gates true (some left) d.gate := ⟨rfl, rfl⟩
  have hwrap := Dispatch.wrapUp_level hspawned hproc hgates numbered rfl
  have hqueue : ({ d.shift k with gate := some free, queue := cs } : Dispatch).queue = cs := rfl
  rw [Dispatch.advance_of_admitted (d := d) rfl, Dispatch.advance, accepted, hqueue]
  rw [List.map_nil] at hqueued
  rw [hqueued]
  exact hwrap

/-- **The first poll.**  The throttled run makes a context for its children, and then both have
given all their children tasks, or cannot because the place where tasks run is closed. -/
theorem Action.start_level {env : Env} {limit : Limit} {cs : List Action}
    (enough : cs.length ≤ limit.value) (made : limit.value ≤ maxSlots)
    (below : s.contexts.IsBelow s.contexts.supply)
    (context : ∀ n ∈ env.context.token.path ++ env.context.timers, n < s.contexts.supply) :
    Level env.context.token.number s.contexts.supply s.runs
      ((Action.throttled limit cs).start env s) ((Action.async cs).start env s) := by
  set g := env.context.token.number with hg
  set k := s.contexts.supply with hk
  have hlt : g < k := context g (List.mem_append_left _ List.mem_cons_self)
  rw [Action.start_throttled, Action.start_async, startThrottled, startAsync,
    if_neg (Nat.not_lt.mpr made)]
  have hchild : ((s.newRun (.throttled limit cs)).2.report s.runs
      (.throttledDispatch limit.value cs.length)).contexts.child env.context =
      (env.context.shift k, s.contexts.shift k) := below.child_eq_shift context
  rw [hchild]
  dsimp only
  set t := (s.newRun (.async cs)).2.report s.runs (.asyncDispatch cs.length) with ht
  set s' := Store.mark _ s.runs (.derived (env.context.shift k)) with hs'
  have hstore : t.Shifted g k s' :=
    ⟨hlt, le_refl _, rfl, rfl, rfl, rfl, rfl, rfl, rfl⟩
  set d : Dispatch := ⟨s.runs, env, none, [], 0, none⟩ with hd
  have hscope : (⟨s.runs, { env with context := env.context.shift k }, some limit.value, cs, 0,
      none⟩ : Dispatch) = { d.shift k with gate := some limit.value, queue := cs } := rfl
  rw [hscope]
  cases hclosed : t.closed && !cs.isEmpty with
  | true =>
      obtain ⟨hclosed, hne⟩ := Bool.and_eq_true_iff.mp hclosed
      obtain ⟨free, hfree⟩ := Nat.exists_eq_succ_of_ne_zero limit.pos.ne'
      obtain ⟨a, rest, rfl⟩ : ∃ a rest, cs = a :: rest := by
        cases cs with
        | nil => cases hne
        | cons a rest => exact ⟨a, rest, rfl⟩
      have hrefused : ({ d.shift k with gate := some limit.value, queue := a :: rest } :
          Dispatch).refused? s' = some a := by
        rw [Dispatch.refused?, hstore.closed, hclosed, hfree]
      rw [if_pos rfl, Dispatch.advance, hrefused]
      exact .ended ((hstore.mark_right s.runs _).mark s.runs _) _
  | false =>
      have hrefused : ({ d.shift k with gate := some limit.value, queue := cs } :
          Dispatch).refused? s' = none := by
        rw [Dispatch.refused?, hstore.closed]
        cases cs with
        | nil => cases t.closed <;> rfl
        | cons a rest =>
            rw [Bool.and_eq_false_iff.mp hclosed |>.resolve_right (by simp)]
      rw [if_neg (by simp)]
      exact Dispatch.advance_level enough hstore (.inl rfl) rfl rfl rfl hrefused

/-! ## Going on -/

section

variable {p p' : Proc}

/-- The code of the runs themselves goes on. -/
lemma Level.resume (h : Level g k run (s, .paused p) (t, .paused p')) :
    p.acts s = [] ∧ p'.acts t = [] ∧ Level g k run (p.resume s) (p'.resume t) := by
  cases h with
  | @paused _ _ d children gate store own gates numbered admitted =>
      refine ⟨by rw [Proc.acts], by rw [Proc.acts], ?_⟩
      have hadmitted : ({ d.shift k with gate } : Dispatch).queue = [] := admitted
      rw [Proc.resume, Proc.resume, Dispatch.advance_of_admitted hadmitted,
        Dispatch.advance_of_admitted admitted]
      exact Dispatch.wrapUp_level store own gates numbered admitted

/-- **A task goes on.** -/
theorem Level.resumeAt (h : Level g k run (s, .paused p) (t, .paused p')) (index : Nat)
    (path : List Nat) (spared : Spared g k run (p.actsAt s index path) (p'.actsAt t index path)) :
    List.Forall₂ (Act.Mirrors g k) (p.actsAt s index path) (p'.actsAt t index path) ∧
      Level g k run ((p.resumeAt s index path).1, .paused (p.resumeAt s index path).2)
        ((p'.resumeAt t index path).1, .paused (p'.resumeAt t index path).2) := by
  cases h with
  | @paused _ _ d children gate store own gates numbered admitted =>
      obtain ⟨-, -, hall⟩ := Proc.isOwn_concurrent.mp own
      rw [Proc.actsAt, Proc.actsAt] at spared ⊢
      rw [Proc.resumeAt, Proc.resumeAt]
      obtain ⟨s', gate', t', own', children', hT, hA, hacts, hstore, hgates, howned⟩ :=
        resumeAmong_mirrored own store gates (fun _ => numbered) index path spared
          fun _ _ _ i path hp hspared => Proc.resumeAt_mirrored (hall _ hp) store i path hspared
      rw [hT, hA]
      exact ⟨hacts, .paused (d := { d with gate := own' }) hstore howned hgates numbered admitted⟩

lemma Level.isReady (h : Level g k run (s, .paused p) (t, .paused p')) :
    p.isReady s = p'.isReady t := by
  cases h with
  | @paused _ _ d children gate store own gates numbered admitted =>
      rw [Proc.isReady, Proc.isReady]
      exact Dispatch.isReady_shift gate (.inr admitted) children

lemma Level.isReadyAt (h : Level g k run (s, .paused p) (t, .paused p')) (index : Nat)
    (path : List Nat) : p.isReadyAt s index path = p'.isReadyAt t index path := by
  cases h with
  | @paused _ _ d children gate store own gates numbered admitted =>
      rw [Proc.isReadyAt, Proc.isReadyAt, ← shiftAmong_eq]
      exact isReadyAmong_shift store children index path

lemma Level.wakeTimes (h : Level g k run (s, .paused p) (t, .paused p')) :
    p.wakeTimes = p'.wakeTimes := by
  cases h with
  | @paused _ _ d children gate store own gates numbered admitted =>
      rw [Proc.wakeTimes, Proc.wakeTimes, ← shiftAmong_eq]
      exact wakeTimesAmong_shift k children

end

end

/-! ## Outside -/

namespace World

/-- Every number in the world, and every one that the context follows, was given away before. -/
structure IsNumbered (w : World) (c : Context) : Prop where
  context_lt : ∀ n ∈ c.token.path ++ c.timers, n < w.store.contexts.supply
  below : w.store.contexts.IsBelow w.store.contexts.supply
  agenda_lt : ∀ x ∈ w.agenda, ∀ c, x.deed = .cancel c → c.token.number < w.store.contexts.supply

variable {w v : World} {c : Context} {env : Env} {limit : Limit} {cs : List Action} {k run : Nat}

/-- What happens outside gives no numbers away. -/
lemma IsNumbered.befalls (h : w.IsNumbered c) (befalls : w.Befalls v) : v.IsNumbered c := by
  have hb := befalls.beside
  obtain ⟨hcontext, ⟨hheld, htimers, hcancelled⟩, hagenda⟩ := h
  refine ⟨?_, ⟨?_, ?_, ?_⟩, ?_⟩
  · rw [hb.supply]
    exact hcontext
  · rw [hb.held, hb.supply]
    exact hheld
  · rw [hb.supply]
    exact fun t ht => htimers t (hb.timers t ht)
  · rw [hb.supply]
    intro n hn
    cases befalls with
    | timer t running due =>
        rcases Contexts.mem_cancelled_fire.mp hn with hn | ⟨rfl, -⟩
        · exact hcancelled n hn
        · exact htimers t running _ List.mem_cons_self
    | appointment place x hx due =>
        rcases mem_cancelled_suffer.mp hn with hn | ⟨c, hdeed, rfl⟩
        · exact hcancelled n hn
        · exact hagenda x (List.mem_of_getElem? hx) c hdeed
  · rw [hb.supply]
    exact fun x hx => hagenda x (hb.agenda x hx)

end World

/-- What becomes of a turn: timers have other numbers. -/
def Turn.shift (k : Nat) : Turn → Turn
  | .timer t => .timer (t.shift k)
  | t => t

section

variable {g k : Nat} {s t : Store}

/-- Deeds from outside are about what was there before. -/
lemma Store.Shifted.suffer (h : t.Shifted g k s) (x : Deed)
    (old : ∀ c, x = .cancel c → c.token.number < k) : (t.suffer x).Shifted g k (s.suffer x) := by
  cases x with
  | cancel c =>
      refine h.withContexts h.le ?_
      rw [h.contexts]
      exact Contexts.cancel_shift_of_lt (old c rfl)
  | settle cell how => exact (h.settle cell how).2
  | disown cell => exact { h with cells := congrArg (·.modify cell .disown) h.cells }

lemma Store.Shifted.fire (h : t.Shifted g k s) (u : Timer) :
    (t.withContexts (t.contexts.fire u)).Shifted g k
      (s.withContexts (s.contexts.fire (u.shift k))) := by
  refine h.withContexts ?_ ?_
  · rw [Contexts.supply_fire]
    exact h.le
  · rw [h.contexts, Contexts.fire_shift]

lemma Contexts.isReady_shift (k : Nat) (x : Contexts) (t : Timer) :
    ((x.shift k).timers.contains (t.shift k) && (x.shift k).isDue (t.shift k)) =
      (x.timers.contains t && x.isDue t) := by
  rw [isDue_shift, shift, Bool.eq_iff_iff]
  simp [(Timer.shift_injective k).eq_iff]

end

namespace World

variable {w v : World} {env : Env} {limit : Limit} {cs : List Action} {k run : Nat}

/-- A throttled run in one world and a run without a limit in the other stand at the same place. -/
inductive Paired (env : Env) (limit : Limit) (cs : List Action) (k run : Nat) :
    World → World → Prop where
  /-- Both are still to be polled for the first time. -/
  | before {w : World} (alone : w.orphans = []) (numbered : w.IsNumbered env.context)
      (supply : w.store.contexts.supply = k) (runs : w.store.runs = run) :
      Paired env limit cs k run (w.stage env (.throttled limit cs)) (w.stage env (.async cs))
  | after {s t : Store} {p p' : Progress} {agenda : List Appointment}
      (level : Level env.context.token.number k run (s, p) (t, p'))
      (outside : ∀ x ∈ agenda, ∀ c, x.deed = .cancel c → c.token.number < k) :
      Paired env limit cs k run ⟨s, .ofProgress p, [], agenda⟩ ⟨t, .ofProgress p', [], agenda⟩

/-! ## Turns -/

/-- What happens outside does not depend on what is to be run. -/
lemma take_stage (w : World) (env : Env) (a : Action) {t : Turn} (outside : t.isTask = false) :
    (w.stage env a).take t = (w.take t).stage env a := by
  cases t with
  | timer => rfl
  | appointment place =>
      simp only [World.take, stage]
      cases w.agenda[place]? <;> rfl
  | root | task | orphan | orphanTask => cases outside

/-- Something happens outside before the first poll. -/
lemma Befalls.paired (h : w.Befalls v) (alone : w.orphans = [])
    (numbered : w.IsNumbered env.context) :
    Paired env limit cs w.store.contexts.supply w.store.runs (v.stage env (.throttled limit cs))
      (v.stage env (.async cs)) :=
  .before (h.beside.orphans.trans alone) (numbered.befalls h) h.beside.supply h.beside.runs

/-- The same turns are ready. -/
lemma Paired.isReady_shift (h : Paired env limit cs k run w v) (t : Turn) :
    w.isReady (t.shift k) = v.isReady t := by
  cases h with
  | @before w alone numbered supply runs =>
      cases t with
      | timer t =>
          subst supply
          have hready := Contexts.isReady_shift w.store.contexts.supply w.store.contexts t
          rw [numbered.below.shift_eq] at hready
          exact hready
      | root | task | orphan | orphanTask | appointment => rfl
  | @after s s' p p' agenda level outside =>
      cases t with
      | timer t =>
          have hready := Contexts.isReady_shift k s'.contexts t
          rw [← level.shifted.contexts] at hready
          exact hready
      | root =>
          rcases level.ended_or_paused with ⟨e, rfl, rfl⟩ | ⟨q, q', rfl, rfl⟩
          · rfl
          · exact level.isReady
      | task index path =>
          rcases level.ended_or_paused with ⟨e, rfl, rfl⟩ | ⟨q, q', rfl, rfl⟩
          · rfl
          · exact level.isReadyAt index path
      | orphan | orphanTask => rfl
      | appointment place => simp only [Turn.shift, isReady, level.shifted.clock]

/-- All turns that are ready in the first world come from the second one. -/
lemma Paired.exists_turn (h : Paired env limit cs k run w v) {t : Turn}
    (ready : w.isReady t = true) : ∃ t', t = Turn.shift k t' := by
  cases t with
  | timer t =>
      obtain ⟨hmem, -⟩ := Bool.and_eq_true_iff.mp ready
      have htimer : ∃ t', t = Timer.shift k t' := by
        cases h with
        | @before w alone numbered supply runs =>
            have hlt := numbered.below.timers_lt t (List.contains_iff_mem.mp hmem)
            exact ⟨t, (Timer.shift_of_lt (supply ▸ hlt)).symm⟩
        | @after s s' p p' agenda level outside =>
            have hmap : t ∈ (s'.contexts.shift k).timers := by
              rw [← level.shifted.contexts]
              exact List.contains_iff_mem.mp hmem
            obtain ⟨t', -, rfl⟩ := List.mem_map.mp hmap
            exact ⟨t', rfl⟩
      obtain ⟨t', rfl⟩ := htimer
      exact ⟨.timer t', rfl⟩
  | root => exact ⟨.root, rfl⟩
  | task index path => exact ⟨.task index path, rfl⟩
  | orphan place => exact ⟨.orphan place, rfl⟩
  | orphanTask place index path => exact ⟨.orphanTask place index path, rfl⟩
  | appointment place => exact ⟨.appointment place, rfl⟩

/-- Nothing can go on in one of the worlds when nothing can in the other. -/
lemma Paired.quiet_iff (h : Paired env limit cs k run w v) :
    (∀ t, w.isReady t = false) ↔ ∀ t, v.isReady t = false := by
  constructor
  · intro hquiet t
    rw [← h.isReady_shift]
    exact hquiet _
  · intro hquiet t
    refine Bool.eq_false_iff.mpr fun hready => ?_
    obtain ⟨t', rfl⟩ := h.exists_turn hready
    rw [h.isReady_shift, hquiet t'] at hready
    cases hready

/-- A turn is taken before the first poll, or is the first poll. -/
lemma IsNumbered.take_paired (enough : cs.length ≤ limit.value) (made : limit.value ≤ maxSlots)
    (numbered : w.IsNumbered env.context) (alone : w.orphans = []) {t : Turn}
    (ready : (w.stage env (.async cs)).isReady t = true) :
    (w.stage env (.throttled limit cs)).acts (t.shift w.store.contexts.supply) = [] ∧
      (w.stage env (.async cs)).acts t = [] ∧
      Paired env limit cs w.store.contexts.supply w.store.runs
        ((w.stage env (.throttled limit cs)).take (t.shift w.store.contexts.supply))
        ((w.stage env (.async cs)).take t) := by
  cases t with
  | root =>
      obtain ⟨s, root, orphans, agenda⟩ := w
      dsimp only at alone
      subst alone
      have hlevel := Action.start_level enough made numbered.below numbered.context_lt
      have hthrottled : (Action.throttled limit cs).acts env s = [] := by rw [Action.acts]
      have hasync : (Action.async cs).acts env s = [] := by rw [Action.acts]
      exact ⟨hthrottled, hasync, .after hlevel numbered.agenda_lt⟩
  | task => cases ready
  | orphan | orphanTask => simp [isReady, stage, alone] at ready
  | timer t =>
      -- The timers that are there have kept their numbers.
      have hmem : t ∈ w.store.contexts.timers :=
        List.contains_iff_mem.mp (Bool.and_eq_true_iff.mp ready).1
      have hshift : t.shift w.store.contexts.supply = t :=
        Timer.shift_of_lt (numbered.below.timers_lt t hmem)
      have hbefalls : w.Befalls (w.take (.timer t)) := .of_turn rfl ready
      rw [Turn.shift, hshift, take_stage _ _ _ rfl, take_stage _ _ _ rfl]
      exact ⟨rfl, rfl, hbefalls.paired alone numbered⟩
  | appointment place =>
      have hbefalls : w.Befalls (w.take (.appointment place)) := .of_turn rfl ready
      have hturn : Turn.shift w.store.contexts.supply (.appointment place) = .appointment place :=
        rfl
      rw [hturn, take_stage _ _ _ rfl, take_stage _ _ _ rfl]
      exact ⟨rfl, rfl, hbefalls.paired alone numbered⟩

/-- **The same turn is taken in both worlds.** -/
theorem Paired.take (enough : cs.length ≤ limit.value) (made : limit.value ≤ maxSlots)
    (h : Paired env limit cs k run w v) {t : Turn} (ready : v.isReady t = true)
    (spared : Spared env.context.token.number k run (w.acts (t.shift k)) (v.acts t)) :
    List.Forall₂ (Act.Mirrors env.context.token.number k) (w.acts (t.shift k)) (v.acts t) ∧
      Paired env limit cs k run (w.take (t.shift k)) (v.take t) := by
  cases h with
  | @before w alone numbered supply runs =>
      subst supply runs
      obtain ⟨hacts, hacts', hpaired⟩ := numbered.take_paired enough made alone ready
      rw [hacts, hacts']
      exact ⟨.nil, hpaired⟩
  | @after s s' p p' agenda level outside =>
      cases t with
      | root =>
          rcases level.ended_or_paused with ⟨e, rfl, rfl⟩ | ⟨q, q', rfl, rfl⟩
          · cases ready
          · obtain ⟨hacts, hacts', hlevel⟩ := level.resume
            refine ⟨?_, .after hlevel outside⟩
            show List.Forall₂ _ (q.acts s) (q'.acts s')
            rw [hacts, hacts']
            exact .nil
      | task index path =>
          rcases level.ended_or_paused with ⟨e, rfl, rfl⟩ | ⟨q, q', rfl, rfl⟩
          · cases ready
          · obtain ⟨hacts, hlevel⟩ := level.resumeAt index path spared
            exact ⟨hacts, .after hlevel outside⟩
      | timer t => exact ⟨.nil, .after (level.withStore (level.shifted.fire t)) outside⟩
      | orphan | orphanTask => cases ready
      | appointment place =>
          cases hplace : agenda[place]? with
          | none => simp [isReady, hplace] at ready
          | some x =>
              have hx := outside x (List.mem_of_getElem? hplace)
              simp only [World.take, Turn.shift, hplace]
              refine ⟨.nil, .after (level.withStore (level.shifted.suffer x.deed hx)) ?_⟩
              exact fun y hy => outside y (List.mem_of_mem_eraseIdx hy)

/-! ## Time -/

/-- The same times are set for. -/
lemma Paired.nextTime? (h : Paired env limit cs k run w v) : w.nextTime? = v.nextTime? := by
  cases h with
  | before => rfl
  | @after s s' p p' agenda level outside =>
      have htimers : s.contexts.timers.map (·.deadline) = s'.contexts.timers.map (·.deadline) := by
        rw [level.shifted.contexts, Contexts.shift, List.map_map]
        rfl
      rcases level.ended_or_paused with ⟨e, rfl, rfl⟩ | ⟨q, q', rfl, rfl⟩
      · simp only [World.nextTime?, times, Root.ofProgress, htimers, level.shifted.clock]
      · simp only [World.nextTime?, times, Root.ofProgress, htimers, level.shifted.clock,
          level.wakeTimes]

lemma Paired.advance (h : Paired env limit cs k run w v) (time : Nat) :
    Paired env limit cs k run (w.advance time) (v.advance time) := by
  cases h with
  | @before w alone numbered supply runs =>
      obtain ⟨hcontext, ⟨hheld, htimers, hcancelled⟩, hagenda⟩ := numbered
      exact .before (w := w.advance time) alone ⟨hcontext, ⟨hheld, htimers, hcancelled⟩, hagenda⟩
        supply runs
  | @after s s' p p' agenda level outside =>
      have hstore : s'.Shifted env.context.token.number k s := level.shifted
      have hcontexts : s.contexts.advance time = (s'.contexts.advance time).shift k := by
        rw [hstore.contexts]
        rfl
      have hsupply : k ≤ (s'.contexts.advance time).supply := hstore.le
      exact .after
        (level.withStore (hstore.ledger hsupply hcontexts s'.signals s.signals)) outside

/-! ## Plays -/

section

variable {w₀ v₀ : World} {xs ys : List Act}

/-- To every play of the throttled run there is one of the run without a limit. -/
theorem Paired.exists_play (enough : cs.length ≤ limit.value) (made : limit.value ≤ maxSlots)
    (h : Paired env limit cs k run w₀ v₀) (plays : w₀.Plays xs w)
    (spared : ∀ x ∈ xs, x.spares k run = true) :
    ∃ ys v, v₀.Plays ys v ∧ List.Forall₂ (Act.Mirrors env.context.token.number k) xs ys ∧
      Paired env limit cs k run w v := by
  induction plays with
  | refl => exact ⟨[], v₀, .refl, .nil, h⟩
  | @turn xs w _ t ready ih =>
      obtain ⟨hbefore, hnow⟩ := List.forall_mem_append.mp spared
      obtain ⟨ys, v, hplays, hmirrors, hpaired⟩ := ih hbefore
      obtain ⟨t, rfl⟩ := hpaired.exists_turn ready
      rw [hpaired.isReady_shift] at ready
      obtain ⟨hacts, htake⟩ := hpaired.take enough made ready (.inl hnow)
      exact ⟨_, _, hplays.turn t ready, List.rel_append hmirrors hacts, htake⟩
  | @tick xs w time _ quiet next ih =>
      obtain ⟨ys, v, hplays, hmirrors, hpaired⟩ := ih spared
      have hnext : v.nextTime? = some time := hpaired.nextTime?.symm.trans next
      exact ⟨ys, _, hplays.tick (hpaired.quiet_iff.mp quiet) hnext, hmirrors, hpaired.advance time⟩

/-- To every play of the run without a limit there is one of the throttled run. -/
theorem Paired.exists_play' (enough : cs.length ≤ limit.value) (made : limit.value ≤ maxSlots)
    (h : Paired env limit cs k run w₀ v₀) (plays : v₀.Plays ys v)
    (spared : ∀ y ∈ ys, y.spares env.context.token.number run = true) :
    ∃ xs w, w₀.Plays xs w ∧ List.Forall₂ (Act.Mirrors env.context.token.number k) xs ys ∧
      Paired env limit cs k run w v := by
  induction plays with
  | refl => exact ⟨[], w₀, .refl, .nil, h⟩
  | @turn ys v _ t ready ih =>
      obtain ⟨hbefore, hnow⟩ := List.forall_mem_append.mp spared
      obtain ⟨xs, w, hplays, hmirrors, hpaired⟩ := ih hbefore
      obtain ⟨hacts, htake⟩ := hpaired.take enough made ready (.inr hnow)
      have hready : w.isReady (t.shift k) = true := (hpaired.isReady_shift t).trans ready
      exact ⟨_, _, hplays.turn _ hready, List.rel_append hmirrors hacts, htake⟩
  | @tick ys v time _ quiet next ih =>
      obtain ⟨xs, w, hplays, hmirrors, hpaired⟩ := ih spared
      have hnext : w.nextTime? = some time := hpaired.nextTime?.trans next
      exact ⟨xs, _, hplays.tick (hpaired.quiet_iff.mpr quiet) hnext, hmirrors, hpaired.advance time⟩

lemma shown_of_mirrors {g : Nat} (h : List.Forall₂ (Act.Mirrors g k) xs ys) :
    ys.map Act.shown = xs.map Act.shown := by
  induction h with
  | nil => rfl
  | cons h _ ih =>
      rw [List.map_cons, List.map_cons, ih, Act.shown, Act.shown, h.time, h.cancelled, h.doing]

end

/-- Two worlds show the same to whoever does not know numbers of contexts and tasks. -/
structure Resembles (w v : World) : Prop where
  clock : w.store.clock = v.store.clock
  states : w.store.states = v.store.states
  cells : w.store.cells = v.store.cells
  log : w.store.log = v.store.log
  calls : w.store.calls = v.store.calls
  /-- The run has returned in the one as it has in the other. -/
  returned : ∀ e, w.root = .ended e ↔ v.root = .ended e
  /-- Everybody has to wait in both of them, or in none. -/
  quiet : (∀ t, w.isReady t = false) ↔ ∀ t, v.isReady t = false

lemma Paired.resembles (h : Paired env limit cs k run w v) : w.Resembles v := by
  have hquiet := h.quiet_iff
  cases h with
  | before =>
      refine ⟨rfl, rfl, rfl, rfl, rfl, fun e => ?_, hquiet⟩
      constructor <;> exact nofun
  | @after s s' p p' agenda level outside =>
      have hstore := level.shifted
      refine ⟨hstore.clock, hstore.states, hstore.cells, hstore.log, hstore.calls, fun e => ?_,
        hquiet⟩
      rcases level.ended_or_paused with ⟨e', rfl, rfl⟩ | ⟨q, q', rfl, rfl⟩
      · exact Iff.rfl
      · constructor <;> exact nofun

/-- **Enough slots.**  Children are run in a world, whatever happens outside there, under a limit
that is at least their number and that slots can be made for.  Then a throttled run and a run
without a limit can take each other's place, as long as no child cancels the context that it is
given or asks the run to skip the remainder.

* To every play of the throttled run there is one of the run without a limit that does the same: the
  same steps of leaves in the same order, at the same times, with the same answers of contexts to
  the question whether they are cancelled.  It comes to a world with the same run states, cells and
  logs, where the run has returned the same or has not returned either.
* And to every play of the run without a limit there is such a one of the throttled run.

The children of the throttled run are given the context that it makes, which has the next number;
the children of the other run are given the caller's. -/
theorem enough_slots {cs : List Action} {limit : Limit} (enough : cs.length ≤ limit.value)
    (made : limit.value ≤ maxSlots) {w : World} {env : Env} (alone : w.orphans = [])
    (numbered : w.IsNumbered env.context) :
    (∀ xs v, (w.stage env (.throttled limit cs)).Plays xs v →
      (∀ x ∈ xs, x.spares w.store.contexts.supply w.store.runs = true) →
      ∃ ys u, (w.stage env (.async cs)).Plays ys u ∧ ys.map Act.shown = xs.map Act.shown ∧
        v.Resembles u) ∧
    ∀ ys u, (w.stage env (.async cs)).Plays ys u →
      (∀ y ∈ ys, y.spares env.context.token.number w.store.runs = true) →
      ∃ xs v, (w.stage env (.throttled limit cs)).Plays xs v ∧
        ys.map Act.shown = xs.map Act.shown ∧ v.Resembles u := by
  have hstart : Paired env limit cs w.store.contexts.supply w.store.runs
      (w.stage env (.throttled limit cs)) (w.stage env (.async cs)) :=
    .before alone numbered rfl rfl
  constructor
  · intro xs v plays spared
    obtain ⟨ys, u, hplays, hmirrors, hpaired⟩ := hstart.exists_play enough made plays spared
    exact ⟨ys, u, hplays, shown_of_mirrors hmirrors, hpaired.resembles⟩
  · intro ys u plays spared
    obtain ⟨xs, v, hplays, hmirrors, hpaired⟩ := hstart.exists_play' enough made plays spared
    exact ⟨xs, v, hplays, shown_of_mirrors hmirrors, hpaired.resembles⟩

end World

/-- All numbers in a scenario are given away before its start. -/
theorem Scenario.start_isNumbered (sc : Scenario) :
    sc.start.IsNumbered sc.opening.1.context := by
  have hosts := sc.start_hosts
  refine ⟨?_, ⟨?_, ?_, hosts.cancelled_lt⟩, hosts.agenda_lt⟩
  all_goals
    obtain ⟨_, _, _, timeout, cancelled, _⟩ := sc
    cases timeout <;> cases cancelled <;> simp [start, opening, Contexts.newToken, Contexts.hold,
      Contexts.withDeadline, Contexts.childToken, Contexts.ofToken, Contexts.cancel, Token.path]

/-- Two children, the first of which waits. -/
def Action.slowAndQuick : List Action :=
  [.sleeping 20, .yielding "quick"]

/-- Their context is cancelled while they run. -/
def Scenario.cancelBoth : Scenario where
  action := .throttled .two Action.slowAndQuick
  happenings := [(0, .cancel)]

/-- A run of theirs has returned. -/
def World.cancelledBoth (a : Action) : World :=
  (((((((Scenario.cancelBoth.start.stage Scenario.cancelBoth.opening.1 a).take .root).take
    (.task 0 [])).take (.appointment 0)).take (.task 1 [])).take (.task 0 [])).take
    (.task 1 [])).take .root

/-- The first child fails in both runs, and to this play of either there is one of the other. -/
theorem World.enough_slots_cancelBoth :
    let start := Scenario.cancelBoth.start
    let env := Scenario.cancelBoth.opening.1
    let cs := Action.slowAndQuick
    let failure : Failure := .failed "sleep" .cancelled
    let seen := [false, false, false, true, true, true, true, true, true, true]
    (∃ ys u, (start.stage env (.async cs)).Plays ys u ∧ ys.map (·.cancelled) = seen ∧
      u.root = .ended (.failed failure)) ∧
    ∃ xs v, (start.stage env (.throttled .two cs)).Plays xs v ∧ xs.map (·.cancelled) = seen ∧
      v.root = .ended (.failed failure) := by
  intro start env cs failure seen
  have hthrottled : ∃ xs, (start.stage env (.throttled .two cs)).Plays xs
      (cancelledBoth (.throttled .two cs)) ∧ (∀ x ∈ xs, x.spares 2 0 = true) ∧
      xs.map (·.cancelled) = seen := by
    refine ⟨_, .turn (.turn (.turn (.turn (.turn (.turn (.turn .refl .root ?_) (.task 0 []) ?_)
      (.appointment 0) ?_) (.task 1 []) ?_) (.task 0 []) ?_) (.task 1 []) ?_) .root ?_, ?_, ?_⟩
    all_goals decide +kernel
  have hasync : ∃ ys, (start.stage env (.async cs)).Plays ys
      (cancelledBoth (.async cs)) ∧ (∀ y ∈ ys, y.spares 0 0 = true) ∧
      ys.map (·.cancelled) = seen := by
    refine ⟨_, .turn (.turn (.turn (.turn (.turn (.turn (.turn .refl .root ?_) (.task 0 []) ?_)
      (.appointment 0) ?_) (.task 1 []) ?_) (.task 0 []) ?_) (.task 1 []) ?_) .root ?_, ?_, ?_⟩
    all_goals decide +kernel
  have hroot : (cancelledBoth (.throttled .two cs)).root = .ended (.failed failure) := by
    unfold cancelledBoth
    cbv
  have hroot' : (cancelledBoth (.async cs)).root = .ended (.failed failure) := by
    unfold cancelledBoth
    cbv
  have hseen : ∀ {xs ys : List Act}, ys.map Act.shown = xs.map Act.shown →
      ys.map (·.cancelled) = xs.map (·.cancelled) := by
    intro xs ys h
    have hmap := congrArg (List.map (·.2.1)) h
    rw [List.map_map, List.map_map] at hmap
    exact hmap
  have henough : cs.length ≤ Limit.two.value := by decide
  have hmade : Limit.two.value ≤ maxSlots := by decide
  obtain ⟨htoAsync, htoThrottled⟩ :=
    enough_slots henough hmade rfl Scenario.cancelBoth.start_isNumbered
  constructor
  · obtain ⟨xs, hxs, hspared, hcancelled⟩ := hthrottled
    obtain ⟨ys, u, hys, hshown, hresembles⟩ := htoAsync xs _ hxs hspared
    exact ⟨ys, u, hys, (hseen hshown).trans hcancelled, (hresembles.returned _).mp hroot⟩
  · obtain ⟨ys, hys, hspared, hcancelled⟩ := hasync
    obtain ⟨xs, v, hxs, hshown, hresembles⟩ := htoThrottled ys _ hys hspared
    exact ⟨xs, v, hxs, (hseen hshown).symm.trans hcancelled, (hresembles.returned _).mpr hroot'⟩

end Workflow
