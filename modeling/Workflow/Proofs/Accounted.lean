import Workflow.Proofs.Acts
import Workflow.Proofs.Orphans

/-!
# Every run of a world is accounted for

A world opens with an action that was not polled yet.  Whatever is polled then, in whatever order,
however time goes, and wherever the run is given up: every run that has begun since is held by the
root or an orphan, which is the rest of it, or it has no child left but orphans.  That is
`World.Accounted`, the invariant that everything else is read from.

* `Accounted.take`: every turn keeps it;
* `Accounted.advance`: it does not matter when time goes on;
* `Accounted.abandon`: giving up keeps it;
* **`World.Leads.accounted`**: so it holds in every world that an opening world leads to.
-/

namespace Workflow

open Store

/-- The runs that a root holds. -/
def Root.runs : Root → List Nat
  | .running p => p.runs
  | _ => []

/-- A root that holds a run is running. -/
lemma Root.exists_running {r : Nat} {root : Root} (hr : r ∈ root.runs) :
    ∃ p, root = .running p ∧ r ∈ p.runs := by
  cases root with
  | running p => exact ⟨p, rfl, hr⟩
  | unstarted | ended | dropped => cases hr

/-- Whether a turn is one of the tasks, the root's own code included. -/
def Turn.isTask : Turn → Bool
  | .timer _ | .appointment _ => false
  | _ => true

/-- The root stands for the run of the action `a` under `env`, whose number, if it is a run of a
runner, is `base`. -/
def Root.Keeps (s : Store) (base : Nat) (env : Env) (a : Action) : Root → Prop
  | .unstarted env' a' => env' = env ∧ a' = a ∧ s.runs = base
  | .running p => p.RestOf s env a ∧ p.runs.Nodup ∧ (∀ r ∈ p.runs, base ≤ r ∧ r < s.runs) ∧
      p.run? = a.run? base
  | .ended e => ∀ r ∈ a.run? base, s.HasFinished r a.bare e
  | .dropped => True

namespace World

/-- A world in which the run of the action `a` under `env` was not polled yet and nothing else goes
on. -/
structure Opens (w : World) (env : Env) (a : Action) : Prop where
  root : w.root = .unstarted env a
  orphans : w.orphans = []
  tidy : w.store.Tidy

/-- The worlds that steps lead to when the run may be given up at any moment, and time may go on at
any moment, be it that something is ready. -/
inductive Leads (start : World) : World → Prop where
  | refl : Leads start start
  | step {w v : World} (h : Leads start w) (s : Step w v) : Leads start v
  | pass {w : World} {time : Nat} (h : Leads start w) (later : w.store.clock ≤ time) :
      Leads start (w.advance time)
  | abandon {w : World} (h : Leads start w) : Leads start w.abandon

/-- The runs that have begun since the number of runs was `base` are accounted for. -/
structure Accounted (base : Nat) (env : Env) (a : Action) (w : World) : Prop where
  tidy : w.store.Tidy
  base_le : base ≤ w.store.runs
  root : w.root.Keeps w.store base env a
  left : w.store.LeftTo (fun r => base ≤ r ∧ r < w.store.runs ∧ r ∉ w.root.runs) w.orphans
  /-- Only a run that was given up has left orphans. -/
  alone : w.root ≠ .dropped → w.orphans = []
  /-- As long as it was not given up, every run that the root does not hold has ended. -/
  ended : w.root ≠ .dropped → ∀ r, base ≤ r → r < w.store.runs → r ∉ w.root.runs →
    w.store.HasEnded r

/-! ## The beginning -/

/-- A world in which nothing has happened yet and an action is to be run. -/
def opening (env : Env) (a : Action) : World :=
  { root := .unstarted env a }

lemma opening_opens (env : Env) (a : Action) : (opening env a).Opens env a :=
  ⟨rfl, rfl, fun _ _ => rfl, rfl⟩

lemma Opens.accounted {w : World} {env : Env} {a : Action} (h : w.Opens env a) :
    w.Accounted w.store.runs env a where
  tidy := h.tidy
  base_le := le_refl _
  root := by rw [h.root]; exact ⟨rfl, rfl, rfl⟩
  left := by
    rw [h.orphans]
    refine (LeftTo.nil w.store).widen (fun r hr => absurd hr List.not_mem_nil) fun r hr => ?_
    omega
  alone _ := h.orphans
  ended _ r hb hr := by omega

namespace Accounted

variable {base : Nat} {env : Env} {a : Action} {w : World}

/-- Nothing happens that concerns runs. -/
lemma congr (h : w.Accounted base env a) {s : Store} (runs : s.runs = w.store.runs)
    (closed : s.closed = w.store.closed) (notes : ∀ r, s.notes r = w.store.notes r)
    (agenda : List Appointment) : ({ w with store := s, agenda } : World).Accounted base env a where
  tidy := ⟨fun r hr => by rw [notes]; exact h.tidy.fresh r (by rw [← runs]; exact hr),
    closed.trans h.tidy.isOpen⟩
  base_le := h.base_le.trans runs.ge
  root := by
    have hr := h.root
    show w.root.Keeps s base env a
    match hroot : w.root, hr with
    | .unstarted _ _, ⟨h₁, h₂, h₃⟩ => exact ⟨h₁, h₂, runs.trans h₃⟩
    | .running p, ⟨h₁, h₂, h₃, h₄⟩ =>
        exact ⟨h₁.congr fun r _ => notes r, h₂, by rw [runs]; exact h₃, h₄⟩
    | .ended _, h₁ => exact fun r hr => (h₁ r hr).congr (notes r)
    | .dropped, _ => trivial
  left := by
    have hleft : s.LeftTo _ w.orphans := h.left.congr fun r _ => notes r
    rwa [← runs] at hleft
  alone := h.alone
  ended hroot r hb hr hn :=
    (h.ended hroot r hb (by rw [← runs]; exact hr) hn).congr (notes r)

lemma sameRuns (h : w.Accounted base env a) {s : Store} (hs : w.store.SameRuns s)
    (agenda : List Appointment) : ({ w with store := s, agenda } : World).Accounted base env a :=
  h.congr hs.runs hs.closed hs.notes agenda

/-! ## The root goes on -/

/-- The root's own code or one of its tasks goes on. -/
lemma progress (h : w.Accounted base env a) (hroot : w.root ≠ .dropped) {s : Store} {root : Root}
    (hand : Handover w.root.runs w.store root.runs s) (keeps : root.Keeps s base env a) :
    ({ w with store := s, root } : World).Accounted base env a where
  tidy := hand.tidy
  base_le := h.base_le.trans hand.runs_le
  root := keeps
  left := h.left.handover hand
  alone _ := h.alone hroot
  ended _ r hb hr hn := by
    by_cases hold : r < w.store.runs ∧ r ∉ w.root.runs
    · exact (h.ended hroot r hb hold.1 hold.2).congr (hand.others r hold.1 hold.2)
    · refine hand.ended r hr ?_ hn
      by_cases hlt : r < w.store.runs
      · exact .inl (by_contra fun hn' => hold ⟨hlt, hn'⟩)
      · exact .inr (by omega)

lemma of_running (h : w.Accounted base env a) {p : Proc} (hp : w.root = .running p) :
    p.RestOf w.store env a ∧ p.runs.Nodup ∧ (∀ r ∈ p.runs, base ≤ r ∧ r < w.store.runs) ∧
      p.run? = a.run? base := by
  have := h.root
  rwa [hp] at this

/-- The runs that the root holds have begun since. -/
lemma runs_ge (h : w.Accounted base env a) {r : Nat} (hr : r ∈ w.root.runs) : base ≤ r := by
  match hroot : w.root, hr with
  | .running p, hr => exact ((h.of_running hroot).2.2.1 r hr).1

/-- The root's own code has run. -/
lemma ran (h : w.Accounted base env a) (hroot : w.root ≠ .dropped) {out : Store × Progress}
    (hran : Ran (a.run? base) w.root.runs w.store env a out) :
    ({ w with store := out.1, root := .ofProgress out.2 } : World).Accounted base env a := by
  match out, hran with
  | (s, .paused p), ⟨hand, rest, hrun⟩ =>
      refine h.progress hroot hand ⟨rest, hand.nodup, fun r hr => ⟨?_, hand.bound r hr⟩, hrun⟩
      exact (hand.known r hr).elim h.runs_ge h.base_le.trans
  | (s, .ended e), ⟨hand, hfinished⟩ => exact h.progress hroot hand hfinished

lemma pollRoot (h : w.Accounted base env a) : w.pollRoot.Accounted base env a := by
  unfold World.pollRoot
  match hroot : w.root, h.root with
  | .unstarted env' a', ⟨henv, ha, hbase⟩ =>
      subst henv ha
      have hran := Action.start_ran env' w.store h.tidy a'
      rw [hbase] at hran
      exact h.ran (by rw [hroot]; simp) (by rw [hroot]; exact hran)
  | .running p, ⟨rest, nodup, bound, hrun⟩ =>
      have hran := Proc.resume_ran rest h.tidy nodup fun r hr => (bound r hr).2
      rw [hrun] at hran
      exact h.ran (by rw [hroot]; simp) (by rw [hroot]; exact hran)
  | .ended _, _ | .dropped, _ => exact h

/-- A task below the root is polled. -/
lemma pollTask (h : w.Accounted base env a) {p : Proc} (hp : w.root = .running p) (index : Nat)
    (path : List Nat) :
    World.Accounted base env a
      { w with store := (p.resumeAt w.store index path).1
               root := .running (p.resumeAt w.store index path).2 } := by
  obtain ⟨rest, nodup, bound, hrun⟩ := h.of_running hp
  obtain ⟨hand, hrest, hrun'⟩ := Proc.resumeAt_ran rest h.tidy nodup (fun r hr => (bound r hr).2)
    index path
  have hroot : w.root ≠ .dropped := by rw [hp]; simp
  refine h.progress hroot (by rw [hp]; exact hand)
    ⟨hrest, hand.nodup, fun r hr => ⟨?_, hand.bound r hr⟩, hrun'.trans hrun⟩
  exact (hand.known r hr).elim (fun hr => (bound r hr).1) h.base_le.trans

/-! ## Orphans -/

/-- Where there are orphans, the run was given up. -/
lemma dropped_of_orphan (h : w.Accounted base env a) {place : Nat} {o : Orphan}
    (ho : w.orphans[place]? = some o) : w.root = .dropped := by
  by_contra hroot
  rw [h.alone hroot] at ho
  cases ho

/-- An orphan is dropped. -/
lemma dropOrphan (h : w.Accounted base env a) {place : Nat} {o : Orphan}
    (ho : w.orphans[place]? = some o) :
    ({ w with store := (o.drop w.store).1
              orphans := w.orphans.eraseIdx place ++ (o.drop w.store).2 } : World).Accounted
      base env a := by
  have hroot := h.dropped_of_orphan ho
  obtain ⟨hdrop, -, hruns, hclosed, hnotes⟩ := (h.left.first ho).drop
  refine ⟨⟨fun r hr => ?_, hclosed.trans h.tidy.isOpen⟩, h.base_le.trans hruns.ge, ?_, ?_, ?_,
    fun hne => absurd hroot hne⟩
  · have hr : w.store.runs ≤ r := by rw [← hruns]; exact hr
    rw [hnotes r fun hr' => by omega]
    exact h.tidy.fresh r hr
  · rw [hroot]; trivial
  · rw [← hruns] at hdrop; exact hdrop
  · exact fun hne => absurd hroot hne

/-- A task below an orphan goes on. -/
lemma resumeOrphan (h : w.Accounted base env a) {o : Orphan} (ho : o ∈ w.orphans) {task : Nat}
    {name : String} {p : Proc} (hp : o.child = .running task name p) (index : Nat)
    (path : List Nat) :
    Handover p.runs w.store (p.resumeAt w.store index path).2.runs
        (p.resumeAt w.store index path).1 ∧
      ∃ env' a', (p.resumeAt w.store index path).2.RestOf (p.resumeAt w.store index path).1 env'
        a' := by
  obtain ⟨env', a', rest⟩ := h.left.rest o ho task name p hp
  have hnodup : p.runs.Nodup := by
    have := (List.nodup_flatMap.mp h.left.nodup).1 o ho
    rwa [hp] at this
  obtain ⟨hand, hrest, -⟩ := Proc.resumeAt_ran rest h.tidy hnodup (fun r hr =>
    (h.left.held r (LeftTo.mem_held ho hp hr)).2.1) index path
  exact ⟨hand, env', a', hrest⟩

/-- A task below an orphan is polled. -/
lemma pollOrphanTask (h : w.Accounted base env a) {place : Nat} {o : Orphan}
    (ho : w.orphans[place]? = some o) (index : Nat) (path : List Nat) :
    ({ w with store := (o.resumeAt w.store index path).1
              orphans := w.orphans.set place (o.resumeAt w.store index path).2 } : World).Accounted
      base env a := by
  have hroot := h.dropped_of_orphan ho
  have hset : w.orphans.set place o = w.orphans := set_of_getElem? ho
  obtain ⟨hlt, -⟩ := List.getElem?_eq_some_iff.mp ho
  obtain ⟨run, i, child⟩ := o
  match child with
  | .spawned _ _ | .ended _ _ | .lost _ => rw [Orphan.resumeAt, hset]; exact h
  | .running task name p =>
      obtain ⟨hand, env', a', hrest⟩ := h.resumeOrphan (List.mem_of_getElem? ho) rfl index path
      have hgo := (h.left.first ho).resumeAt (o := ⟨run, i, .running task name p⟩)
        (fun r hr => hr.2.1) hand hrest
      refine ⟨hand.tidy, h.base_le.trans hand.runs_le, by rw [hroot]; trivial, ?_,
        fun hne => absurd hroot hne, fun hne => absurd hroot hne⟩
      refine (hgo.perm (List.set_perm_cons_eraseIdx hlt _).symm).widen (fun r hr => ?_)
        fun r hr => .inl ?_
      · rw [hroot] at hr ⊢
        rcases hr with ⟨hb, hr, -⟩ | ⟨hge, hr⟩
        · exact ⟨hb, hr.trans_le hand.runs_le, List.not_mem_nil⟩
        · exact ⟨h.base_le.trans hge, hr, List.not_mem_nil⟩
      · rw [hroot] at hr ⊢
        by_cases hr' : r < w.store.runs
        · exact .inl ⟨hr.1, hr', List.not_mem_nil⟩
        · exact .inr ⟨by omega, hr.2.1⟩

/-! ## Turns and steps -/

/-- **Every turn keeps account.** -/
theorem take (h : w.Accounted base env a) (t : Turn) : (w.take t).Accounted base env a := by
  cases t with
  | root => exact h.pollRoot
  | task index path =>
      unfold World.take
      match hp : w.root with
      | .running p => exact h.pollTask hp index path
      | .unstarted _ _ | .ended _ | .dropped => exact h
  | orphan place =>
      cases ho : w.orphans[place]? with
      | some o => simp only [World.take, ho]; exact h.dropOrphan ho
      | none => simp only [World.take, ho]; exact h
  | orphanTask place index path =>
      cases ho : w.orphans[place]? with
      | some o => simp only [World.take, ho]; exact h.pollOrphanTask ho index path
      | none => simp only [World.take, ho]; exact h
  | timer t => exact h.sameRuns (sameRuns_withContexts _ (Contexts.clock_fire _ _)) w.agenda
  | appointment place =>
      cases ha : w.agenda[place]? with
      | some x => simp only [World.take, ha]; exact h.sameRuns (sameRuns_suffer _ _) _
      | none => simp only [World.take, ha]; exact h

/-- **Giving the run up keeps account.** -/
theorem abandon (h : w.Accounted base env a) : w.abandon.Accounted base env a := by
  unfold World.abandon
  match hroot : w.root with
  | .ended _ | .dropped => exact h
  | .unstarted _ _ =>
      have halone := h.alone (by rw [hroot]; simp)
      refine ⟨h.tidy, h.base_le, trivial, ?_, fun hne => absurd rfl hne, fun hne => absurd rfl hne⟩
      have hleft := h.left
      rw [hroot] at hleft
      exact hleft
  | .running p =>
      have halone := h.alone (by rw [hroot]; simp)
      obtain ⟨rest, nodup, bound, -⟩ := h.of_running hroot
      have hdrops := Proc.drop_drops rest nodup
      have hleft := h.left
      rw [hroot, halone] at hleft
      refine ⟨⟨fun r hr => ?_, hdrops.closed.trans h.tidy.isOpen⟩, h.base_le.trans hdrops.runs.ge,
        trivial, ?_, fun hne => absurd rfl hne, fun hne => absurd rfl hne⟩
      · have hr : w.store.runs ≤ r := by rw [← hdrops.runs]; exact hr
        rw [hdrops.others r fun hr' => by have := (bound r hr').2; omega]
        exact h.tidy.fresh r hr
      · have hold : (p.drop w.store).1.LeftTo _ [] := hleft.congr fun r hr => hdrops.others r hr.2.2
        dsimp only
        rw [halone]
        refine (hold.union hdrops.left fun r hr => hr.2.2).widen (fun r hr => ?_)
          fun r hr => .inl ?_
        · rw [hdrops.runs]
          rcases hr with hr | hr
          · exact ⟨hr.1, hr.2.1, List.not_mem_nil⟩
          · exact ⟨(bound r hr).1, (bound r hr).2, List.not_mem_nil⟩
        · rw [hdrops.runs] at hr
          exact (em (r ∈ p.runs)).symm.imp (fun hn => ⟨hr.1, hr.2.1, hn⟩) id

lemma advance (h : w.Accounted base env a) (time : Nat) : (w.advance time).Accounted base env a :=
  h.congr (s := (w.advance time).store) rfl rfl (fun _ => rfl) w.agenda

lemma step {v : World} (h : w.Accounted base env a) (hs : Step w v) : v.Accounted base env a := by
  cases hs with
  | turn t => exact h.take t
  | tick => exact h.advance _

end Accounted

/-- **Every run is accounted for** in every world that an opening world leads to. -/
theorem Leads.accounted {w₀ w : World} {env : Env} {a : Action} (opens : w₀.Opens env a)
    (h : Leads w₀ w) : w.Accounted w₀.store.runs env a := by
  induction h with
  | refl => exact opens.accounted
  | step _ s ih => exact ih.step s
  | pass _ _ ih => exact ih.advance _
  | abandon _ ih => exact ih.abandon

lemma Drifts.leads {w₀ w : World} {acts : List Act} (h : Drifts w₀ acts w) : Leads w₀ w := by
  induction h with
  | refl => exact .refl
  | turn _ t ready ih => exact ih.step (.turn t ready)
  | pass _ later ih => exact ih.pass later

lemma Reachable.leads {w₀ w : World} (h : Reachable w₀ w) : Leads w₀ w := by
  obtain ⟨_, drifts⟩ := h.drifts
  exact drifts.leads

end World

/-! ## Every run has a chronicle -/

/-- Of the runs that a process holds each has a chronicle. -/
lemma Proc.RestOf.chronicle {s : Store} {env : Env} {a : Action} {p : Proc}
    (rest : p.RestOf s env a) {r : Nat} (hr : r ∈ p.runs) : ∃ ch, s.chronicle? r = some ch := by
  induction rest with
  | leaf => cases hr
  | within _ _ _ _ _ ih => exact ih hr
  | linear bare place called chronicle rest ih =>
      rcases List.mem_cons.mp hr with rfl | hr
      · exact ⟨_, chronicle⟩
      · exact ih hr
  | @concurrent env a slots cs d children bare node below ih =>
      rcases List.mem_cons.mp hr with rfl | hr
      · exact ⟨_, node.chronicle⟩
      · obtain ⟨child, hchild, hr⟩ := mem_runsAmong.mp hr
        obtain ⟨i, hi⟩ := List.mem_iff_getElem?.mp hchild
        match child, hr with
        | .running task name p, hr =>
            have hlt : i < cs.length :=
              Nat.lt_of_lt_of_le (List.getElem?_eq_some_iff.mp hi).1 node.length_le
            exact ih i task name p _ hi (List.getElem?_eq_getElem hlt) hr

namespace World

/-- **Every run keeps the law.**  The marks of a run that has begun since add up to a chronicle. -/
theorem Accounted.chronicle {base : Nat} {env : Env} {a : Action} {w : World}
    (h : w.Accounted base env a) {r : Nat} (hb : base ≤ r) (hr : r < w.store.runs) :
    ∃ ch, w.store.chronicle? r = some ch := by
  by_cases hroot : r ∈ w.root.runs
  · match hp : w.root, hroot with
    | .running p, hroot => exact (h.of_running hp).1.chronicle hroot
  · by_cases hheld : r ∈ heldBy w.orphans
    · obtain ⟨o, ho, hr'⟩ := mem_heldBy.mp hheld
      match hc : o.child, hr' with
      | .running task name p, hr' =>
          obtain ⟨env', a', rest⟩ := h.left.rest o ho task name p hc
          exact rest.chronicle hr'
    · obtain ⟨ch, hch, -⟩ := h.left.settled r ⟨hb, hr, hroot⟩ hheld
      exact ⟨ch, hch⟩

/-- A run with a mark has begun. -/
lemma Accounted.chronicle_of_mem {base : Nat} {env : Env} {a : Action} {w : World}
    (h : w.Accounted base env a) {r : Nat} (hb : base ≤ r) {m : Mark} (hm : m ∈ w.store.marks r) :
    ∃ ch, w.store.chronicle? r = some ch := by
  refine h.chronicle hb ?_
  by_contra hge
  rw [Store.marks, h.tidy.fresh r (by omega)] at hm
  cases hm

/-- In the world `w`, which an opening world led to, `r` is a run of the runner `runner` that has
begun since, at whatever depth. -/
def HasRun (w : World) (r : Nat) (runner : Action) : Prop :=
  ∃ w₀ env a, w₀.Opens env a ∧ Leads w₀ w ∧ w₀.store.runs ≤ r ∧ .begun runner ∈ w.store.marks r

/-- A run has a chronicle, which says what it is a run of. -/
lemma HasRun.chronicle {w : World} {r : Nat} {runner : Action} (h : w.HasRun r runner) :
    ∃ ch, w.store.chronicle? r = some ch ∧ ch.runner = runner := by
  obtain ⟨w₀, env, a, opens, leads, new, begun⟩ := h
  obtain ⟨ch, hch⟩ := (leads.accounted opens).chronicle_of_mem new begun
  exact ⟨ch, hch, ((Chronicle.begun_mem hch _).mp begun).symm⟩

end World

end Workflow
