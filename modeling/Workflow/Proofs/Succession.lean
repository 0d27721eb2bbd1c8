import Workflow.Proofs.Alone

/-!
# One child after another

A linear run is its children run on their own, one after another, each in the world that the one
before has left behind.  `World.Chain` says so of a whole run, and **`World.chain_of_course`** cuts
a course of a linear run into such a chain.

`World.inLine` puts a child that is run on its own in its place in the run; whatever that does, the
child does on its own (`World.goes_inLine`).
-/

namespace Workflow

open Store

namespace World

variable {w v u z : World} {o : Outside} {env : Env} {e x : Exit} {r i : Nat}
  {cs rest : List Action} {name : String}

/-- The world in which a mark of a run has been noted. -/
def noting (w : World) (r : Nat) (m : Mark) : World :=
  { w with store := w.store.mark r m }

/-- The children, the first of which has the index `i`, run one after another from the world on: the
run ends with an exit, and the last child that was run ends in the last world.  The first child that
was not run to success, or that there is not, has the index `n`. -/
inductive Chain (o : Outside) (env : Env) (r n : Nat) :
    Nat → World → List Action → Exit → World → Prop where
  | nil {w : World} : Chain o env r n n w [] .done w
  | next {i : Nat} {w f z : World} {c : Action} {cs : List Action} {e : Exit}
      (runs : (w.noting r (.started i c)).Runs o env c .done f)
      (rest : Chain o env r n (i + 1) (f.noting r (.ended i .done)) cs e z) :
      Chain o env r n i w (c :: cs) e z
  | stop {w f : World} {c : Action} {cs : List Action} {x : Exit}
      (runs : (w.noting r (.started n c)).Runs o env c x f) (stops : x ≠ .done) :
      Chain o env r n n w (c :: cs) (x.stopping c.name) f

/-- The logs and the run states are the same. -/
def SameLogs (w v : World) : Prop :=
  v.store.log = w.store.log ∧ v.store.calls = w.store.calls ∧ v.store.states = w.store.states

/-- Once a run is over and nobody is left, the logs and the run states stay as they are. -/
lemma Course.sameLogs {c : Context} (h : Course o c v u) (isOver : v.root.isOver = true)
    (alone : v.orphans = []) : u.root = v.root ∧ v.SameLogs u := by
  obtain ⟨hlog, hcalls, hstates, -⟩ := h.reachable.still isOver alone
  exact ⟨h.reachable.root_eq isOver, hlog, hcalls, hstates⟩

lemma stopLinear_eq (run index : Nat) (name : String) (s : Store) (stops : x ≠ .done) :
    ∃ s', stopLinear run index name x s = (s', .ended (x.stopping name)) ∧ s'.log = s.log ∧
      s'.calls = s.calls ∧ s'.states = s.states := by
  cases x with
  | done => exact absurd rfl stops
  | failed f => cases f <;> exact ⟨_, rfl, rfl, rfl, rfl⟩
  | panicked payload => exact ⟨_, rfl, rfl, rfl, rfl⟩

/-! ## The current child -/

/-- The world in which the action that is the root of `w` is the current child of a linear run. -/
def inLine (w : World) (r : Nat) (env : Env) (index : Nat) (name : String) (rest : List Action) :
    World :=
  match w.root with
  | .running p => { w with root := .running (.linear r env index name p rest) }
  | .ended x =>
      { w with
        store := (afterChild r env index name rest (w.store, .ended x)).1
        root := .ofProgress (afterChild r env index name rest (w.store, .ended x)).2 }
  | _ => w

lemma inLine_running {p : Proc} (h : w.root = .running p) : w.inLine r env i name rest =
    { w with root := .running (.linear r env i name p rest) } := by
  simp only [inLine, h]

/-- What becomes of the run when the child's own code has stopped. -/
lemma inLine_ofProgress (out : Store × Progress) :
    ({ w with store := out.1, root := .ofProgress out.2 } : World).inLine r env i name rest =
      { w with
        store := (afterChild r env i name rest out).1
        root := .ofProgress (afterChild r env i name rest out).2 } := by
  rcases out with ⟨s, p | x⟩ <;> rfl

/-- A linear run that goes on with the next child is one whose current child takes its first
turn. -/
lemma inLine_startRest (w : World) (c : Action) (rest : List Action) :
    (((w.noting r (.started i c)).stage env c).take .root).inLine r env i c.name rest =
      { w with
        store := (startRest r env i w.store (c :: rest)).1
        root := .ofProgress (startRest r env i w.store (c :: rest)).2 } := by
  rw [startRest_cons]
  exact inLine_ofProgress _

section

variable {p : Proc} (hroot : w.root = .running p)

include hroot

/-- A linear run waits for what its current child waits for. -/
lemma isReady_inLine (t : Turn) : (w.inLine r env i name rest).isReady t = w.isReady t := by
  rw [inLine_running hroot]
  cases t <;> simp only [isReady, hroot, Proc.isReady, Proc.isReadyAt]

lemma nextTime?_inLine : (w.inLine r env i name rest).nextTime? = w.nextTime? := by
  rw [inLine_running hroot]
  simp only [nextTime?, times, hroot, Proc.wakeTimes]

lemma advance_inLine (time : Nat) :
    (w.inLine r env i name rest).advance time = (w.advance time).inLine r env i name rest := by
  simp only [advance, inLine, hroot]

/-- A turn of a linear run is one of its current child. -/
lemma take_inLine {t : Turn} (alone : w.orphans = []) (ready : w.isReady t = true) :
    (∃ q, (w.take t).root = .ofProgress q) ∧ (w.take t).orphans = [] ∧
      (w.inLine r env i name rest).take t = (w.take t).inLine r env i name rest := by
  rw [inLine_running hroot]
  cases t with
  | root =>
      have htake : w.take .root = { w with
          store := (p.resume w.store).1, root := .ofProgress (p.resume w.store).2 } := by
        simp only [take, pollRoot, hroot]
      rw [htake, inLine_ofProgress]
      exact ⟨⟨_, rfl⟩, alone, by simp only [take, pollRoot, Proc.resume_linear]⟩
  | task index path =>
      have htake : w.take (.task index path) = { w with
          store := (p.resumeAt w.store index path).1
          root := .running (p.resumeAt w.store index path).2 } := by
        simp only [take, hroot]
      rw [htake]
      exact ⟨⟨.paused _, rfl⟩, alone, by simp only [take, Proc.resumeAt, inLine]⟩
  | orphan place => simp [isReady, alone] at ready
  | orphanTask place index path => simp [isReady, alone] at ready
  | timer t => exact ⟨⟨.paused p, hroot⟩, alone, by simp only [take, inLine, hroot]⟩
  | appointment place =>
      cases hx : w.agenda[place]? with
      | none => simp [isReady, hx] at ready
      | some x =>
          refine ⟨⟨.paused p, ?_⟩, ?_, ?_⟩
          all_goals simp only [take, hx, inLine, hroot]
          · rfl
          · exact alone

/-- **The code of a linear run goes on as that of its current child does.** -/
lemma goes_inLine {c : Context} (alone : w.orphans = [])
    (goes : Goes o c (w.inLine r env i name rest) u) : ∃ v q, Goes o c w v ∧ v.orphans = [] ∧
      v.root = .ofProgress q ∧ u = v.inLine r env i name rest := by
  cases goes with
  | turn t ready =>
      rw [isReady_inLine hroot] at ready
      obtain ⟨⟨q, hq⟩, halone, htake⟩ := take_inLine hroot alone ready
      exact ⟨_, q, .turn t ready, halone, hq, htake⟩
  | @tick time running quiet next spared =>
      simp only [isReady_inLine hroot] at quiet
      rw [nextTime?_inLine hroot] at next
      have hstore : (w.inLine r env i name rest).store = w.store := by rw [inLine_running hroot]
      rw [hstore] at spared
      exact ⟨_, .paused p, .tick (by rw [hroot]; rfl) quiet next spared, alone, hroot,
        advance_inLine hroot time⟩

end

/-! ## The whole run -/

/-- What follows in a linear run whose current child, `index`, has come as far as `w`: the child
ends, and either the run stops with it, or a chain of the other children follows. -/
def Leaves (o : Outside) (env : Env) (r : Nat) (w : World) (index : Nat) (name : String)
    (rest : List Action) (e : Exit) (u : World) : Prop :=
  ∃ n x f z, Course o env.context w f ∧ f.root = .ended x ∧ z.SameLogs u ∧
    ((x = .done ∧ Chain o env r n (index + 1) (f.noting r (.ended index .done)) rest e z) ∨
      (x ≠ .done ∧ e = x.stopping name ∧ z = f))

/-- With the first turn of the child the chain is complete. -/
lemma Leaves.chain {c : Action}
    (h : (((w.noting r (.started i c)).stage env c).take .root).Leaves o env r i c.name rest e u) :
    ∃ n z, Chain o env r n i w (c :: rest) e z ∧ z.SameLogs u := by
  obtain ⟨n, x, f, z, hf, hx, hlogs, hrest⟩ := h
  have hruns : (w.noting r (.started i c)).Runs o env c x f := ⟨hf.head (.turn .root rfl), hx⟩
  rcases hrest with ⟨rfl, hchain⟩ | ⟨hne, rfl, rfl⟩
  · exact ⟨n, z, .next hruns hchain, hlogs⟩
  · exact ⟨i, z, .stop hruns hne, hlogs⟩

section

variable (course : Course o env.context v u) (ended : u.root = .ended e)

include course ended

/-- The current child has ended: either it has succeeded, and the run goes on with the others, or
the run is over. -/
lemma leaves_of_ended (alone : w.orphans = []) (hx : w.root = .ended x)
    (hv : v = w.inLine r env i name rest)
    (next : x = .done → ∃ n z, Chain o env r n (i + 1) (w.noting r (.ended i .done)) rest e z ∧
      z.SameLogs u) : w.Leaves o env r i name rest e u := by
  by_cases hdone : x = .done
  · obtain ⟨n, z, hchain, hlogs⟩ := next hdone
    exact ⟨n, x, w, z, .refl, hx, hlogs, .inl ⟨hdone, hchain⟩⟩
  · have hafter : afterChild r env i name rest (w.store, .ended x)
        = stopLinear r i name x w.store := by
      cases x <;> first | exact absurd rfl hdone | rfl
    obtain ⟨s', hstop, hlog, hcalls, hstates⟩ := stopLinear_eq r i name w.store hdone
    have hv : v = { w with store := s', root := .ended (x.stopping name) } := by
      rw [hv]
      simp only [inLine, hx, hafter, hstop]
      rfl
    subst hv
    obtain ⟨hroot, hlogs⟩ := course.sameLogs rfl alone
    rw [ended] at hroot
    cases hroot
    exact ⟨i, x, w, w, .refl, hx, ⟨hlogs.1.trans hlog, hlogs.2.1.trans hcalls,
      hlogs.2.2.trans hstates⟩, .inr ⟨hdone, rfl, rfl⟩⟩

/-- The children of a linear run from `i` on are started in the same turn, as long as they end
in it.  What follows when one of them waits is taken from `later`. -/
lemma chain_of_startRest
    (later : ∀ (w : World) p i name rest, w.orphans = [] → w.root = .running p →
      v = w.inLine r env i name rest → w.Leaves o env r i name rest e u) :
    ∀ (cs : List Action) (i : Nat) (w : World), w.orphans = [] →
      v = { w with store := (startRest r env i w.store cs).1
                   root := .ofProgress (startRest r env i w.store cs).2 } →
      ∃ n z, Chain o env r n i w cs e z ∧ z.SameLogs u := by
  intro cs
  induction cs with
  | nil =>
      rintro i w alone rfl
      obtain ⟨hroot, hlogs⟩ := course.sameLogs rfl alone
      rw [ended] at hroot
      cases hroot
      exact ⟨i, w, .nil, hlogs⟩
  | cons c cs ih =>
      intro i w alone hv
      rw [← inLine_startRest] at hv
      refine Leaves.chain ?_
      set f := ((w.noting r (.started i c)).stage env c).take .root with hf
      obtain ⟨q, hq⟩ : ∃ q, f.root = .ofProgress q := ⟨_, rfl⟩
      cases q with
      | paused p => exact later f p i c.name cs alone hq hv
      | ended x =>
          have hroot : f.root = .ended x := hq
          refine leaves_of_ended course ended alone hroot hv ?_
          rintro rfl
          refine ih (i + 1) (f.noting r (.ended i .done)) alone ?_
          rw [hv]
          simp only [inLine, hroot]
          rfl

end

/-- The current child ends, and what follows is a chain. -/
lemma leaves_of_course (course : Course o env.context v u) (ended : u.root = .ended e) :
    ∀ (w : World) p i name rest, w.orphans = [] → w.root = .running p →
      v = w.inLine r env i name rest → w.Leaves o env r i name rest e u := by
  induction course using Relation.ReflTransGen.head_induction_on with
  | refl =>
      rintro w p i name rest - hroot rfl
      rw [inLine_running hroot] at ended
      cases ended
  | @head v v' goes tail ih =>
      rintro w p i name rest alone hroot rfl
      obtain ⟨w', q, hgoes, halone, hq, hv'⟩ := goes_inLine hroot alone goes
      suffices h : w'.Leaves o env r i name rest e u by
        obtain ⟨n, x, f, z, hf, hleaves⟩ := h
        exact ⟨n, x, f, z, hf.head hgoes, hleaves⟩
      cases q with
      | paused p' => exact ih w' p' i name rest halone hq hv'
      | ended x =>
          have hroot' : w'.root = .ended x := hq
          refine leaves_of_ended tail ended halone hroot' hv' ?_
          rintro rfl
          refine chain_of_startRest tail ended ih rest (i + 1) (w'.noting r (.ended i .done)) halone
            ?_
          rw [hv']
          simp only [inLine, hroot']
          rfl

/-- **A linear run is a chain.**  When a course of a linear run comes to an end, its children were
run one after another, from the world on in which the run began.  That has the marks of the
beginning and is otherwise one that the start has come to by what happened outside. -/
theorem chain_of_course {w₀ : World} (alone : w₀.orphans = [])
    (course : Course o env.context (w₀.stage env (.linear cs)) u) (ended : u.root = .ended e) :
    ∃ w n z, w₀.Settles w ∧ z.SameLogs u ∧
      Chain o env w.store.runs n 0 { w with
        store := (w.store.newRun (.linear cs)).2.report w.store.runs (.linearStart cs.length) }
        cs e z := by
  obtain ⟨w, settles, rfl | tail⟩ := course.of_stage alone
  · cases ended
  · set l : World := { w with store :=
      (w.store.newRun (.linear cs)).2.report w.store.runs (.linearStart cs.length) } with hl
    have htake : (w.stage env (.linear cs)).take .root = { l with
        store := (startRest w.store.runs env 0 l.store cs).1
        root := .ofProgress (startRest w.store.runs env 0 l.store cs).2 } := by
      simp only [take, pollRoot, stage]
      rw [Action.start]
      rfl
    obtain ⟨n, z, hchain, hlogs⟩ := chain_of_startRest tail ended (leaves_of_course tail ended) cs 0
      l (settles.beside.orphans.trans alone) htake
    exact ⟨w, n, z, settles, hlogs, hchain⟩

end World

end Workflow
