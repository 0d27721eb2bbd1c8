import Workflow.Proofs.Turns

/-!
# What is done in a turn

A turn of a task may take several leaves a long way.  `World.acts` lists what is done in it, in
order: every step of a leaf, and the exits that children give back to the concurrent runs that have
spawned them.  Each `Act` comes with its time, with the context it is done under and with what that
context answers to the question whether it is cancelled.

* **Code from its beginning.**  `Action.acts`, `Body.acts` and `restActs` follow `Action.start`,
  `Body.resume` and `startRest`.
* **Code that goes on.**  `Proc.acts` and `Proc.actsAt` follow `Proc.resume` and `Proc.resumeAt`.
* **Plays.**  `World.Plays start acts w`: steps lead from `start` to `w`, and these are the acts on
  the way.  `World.Drifts start acts w` is the same for a clock that may move at any moment.
-/

namespace Workflow

open Store

/-- What a leaf does, or what a child gives back. -/
inductive Doing where
  /-- A leaf begins. -/
  | begin (name : String)
  /-- It asks for an effect and is answered. -/
  | ask (e : Effect) (reply : e.Reply)
  /-- It asks for an effect and has to wait. -/
  | wait (e : Effect)
  /-- It lets others run first. -/
  | giveWay
  /-- It leaves a guard behind. -/
  | guard (g : Guard)
  /-- It runs another action. -/
  | run (inner : Action) (under : Under)
  /-- It ends. -/
  | finish (e : Exit)
  /-- The child `index` of the concurrent run `run` gives its exit back to it. -/
  | giveBack (run index : Nat) (e : Exit)

/-- Something that is done. -/
structure Act where
  time : Nat
  context : Context
  /-- Whether the context is cancelled. -/
  cancelled : Bool
  doing : Doing

/-- An act without the context that it is done under. -/
def Act.shown (x : Act) : Nat × Bool × Doing :=
  (x.time, x.cancelled, x.doing)

/-- Something that is done now. -/
def Store.act (s : Store) (c : Context) (doing : Doing) : Act :=
  ⟨s.clock, c, s.isCancelled c, doing⟩

/-! ## Code from its beginning -/

mutual

/-- What is done when an action is run from its beginning. -/
def Action.acts (env : Env) (s : Store) : Action → List Act
  | .leaf .contextFunction name body =>
      let (number, s') := s.newState .empty
      s.act env.context (.begin name) :: body.acts { env with state := number } [] s'
  | .leaf _ name body => s.act env.context (.begin name) :: body.acts env [] s
  | .linear children =>
      let (run, s) := s.newRun (.linear children)
      restActs run env 0 (s.report run (.linearStart children.length)) children
  | .async _ => []
  | .throttled _ _ => []
  | .named _ inner => inner.acts env s
  | .boxed inner => inner.acts env s

/-- What is done when a body goes on. -/
def Body.acts (env : Env) (guards : List Guard) (s : Store) : Body → List Act
  | .finish e => [s.act env.context (.finish e)]
  | .ask e k =>
      match s.perform? env e with
      | none => [s.act env.context (.wait e)]
      | some (reply, s') => s.act env.context (.ask e reply) :: (k reply).acts env guards s'
  | .giveWay _ => [s.act env.context .giveWay]
  | .guard g k => s.act env.context (.guard g) :: k.acts env (guards ++ [g]) (s.raiseGuard g)
  | .run inner under k =>
      let (env', handle, s') := s.enter env under
      s.act env.context (.run inner under) :: inner.acts env' s' ++
        match inner.start env' s' with
        | (_, .paused _) => []
        | (s, .ended .done) => (k none).acts env guards (s.leave handle)
        | (s, .ended (.failed f)) => (k (some f)).acts env guards (s.leave handle)
        | (s, .ended (.panicked payload)) =>
            [(s.leave handle).act env.context (.finish (.panicked payload))]

/-- What is done by the children of a linear run from the child `index` on. -/
def restActs (run : Nat) (env : Env) (index : Nat) (s : Store) : List Action → List Act
  | [] => []
  | a :: rest =>
      let s' := s.mark run (.started index a)
      a.acts env s' ++
        match a.start env s' with
        | (s, .ended .done) => restActs run env (index + 1) (s.mark run (.ended index .done)) rest
        | _ => []

end

/-- What a body does after it ran an action, whose context was held under `handle`. -/
def Body.actsAfter (env : Env) (guards : List Guard) (handle : Option Nat)
    (k : Option Failure → Body) : Store × Progress → List Act
  | (_, .paused _) => []
  | (s, .ended .done) => (k none).acts env guards (s.leave handle)
  | (s, .ended (.failed f)) => (k (some f)).acts env guards (s.leave handle)
  | (s, .ended (.panicked payload)) =>
      [(s.leave handle).act env.context (.finish (.panicked payload))]

/-- What is done in a linear run after its child `index`. -/
def actsAfterChild (run : Nat) (env : Env) (index : Nat) (rest : List Action) :
    Store × Progress → List Act
  | (s, .ended .done) => restActs run env (index + 1) (s.mark run (.ended index .done)) rest
  | _ => []

lemma Body.acts_run (env : Env) (guards : List Guard) (s : Store) (inner : Action) (under : Under)
    (k : Option Failure → Body) :
    (Body.run inner under k).acts env guards s =
      s.act env.context (.run inner under) ::
        (inner.acts (s.enter env under).1 (s.enter env under).2.2 ++
          actsAfter env guards (s.enter env under).2.1 k
            (inner.start (s.enter env under).1 (s.enter env under).2.2)) := by
  rw [Body.acts]
  obtain ⟨env', handle, s'⟩ := s.enter env under
  dsimp only
  rcases inner.start env' s' with ⟨s, p | (_ | _ | _)⟩ <;> rfl

lemma restActs_cons (run : Nat) (env : Env) (index : Nat) (s : Store) (a : Action)
    (rest : List Action) :
    restActs run env index s (a :: rest) =
      a.acts env (s.mark run (.started index a)) ++
        actsAfterChild run env index rest (a.start env (s.mark run (.started index a))) := by
  rw [restActs]
  rcases a.start env (s.mark run (.started index a)) with ⟨s, p | (_ | _ | _)⟩ <;> rfl

/-! ## Code that goes on -/

/-- What is done when a task's own code goes on. -/
def Proc.acts (s : Store) : Proc → List Act
  | .leaf env guards body => body.acts env guards s
  | .within env guards handle inner k =>
      inner.acts s ++ Body.actsAfter env guards handle k (inner.resume s)
  | .linear run env index _ current rest =>
      current.acts s ++ actsAfterChild run env index rest (current.resume s)
  | .concurrent _ _ => []

/-- What a child gives back to the run above it. -/
def Dispatch.givenBack (d : Dispatch) (index : Nat) : Store × Progress → List Act
  | (s, .ended e) => [s.act d.env.context (.giveBack d.run index e)]
  | _ => []

mutual

/-- What is done when the task at the path `index :: path` below a process goes on. -/
def Proc.actsAt (s : Store) : Proc → Nat → List Nat → List Act
  | .leaf _ _ _, _, _ => []
  | .within _ _ _ inner _, index, path => inner.actsAt s index path
  | .linear _ _ _ _ current _, index, path => current.actsAt s index path
  | .concurrent d children, index, path => actsAmong s d 0 children index path

/-- What is done when the task at a path below one of the children goes on. -/
def actsAmong (s : Store) (d : Dispatch) (first : Nat) :
    List Child → Nat → List Nat → List Act
  | [], _, _ => []
  | c :: _, 0, path => c.actsAt s d first path
  | _ :: rest, index + 1, path => actsAmong s d (first + 1) rest index path

/-- What is done when the task at a path below the child `index` goes on. -/
def Child.actsAt (s : Store) (d : Dispatch) (index : Nat) : Child → List Nat → List Act
  | .spawned _ a, [] =>
      let s' := s.mark d.run (.started index a)
      a.acts d.env s' ++ d.givenBack index (a.start d.env s')
  | .running _ _ p, [] => p.acts s ++ d.givenBack index (p.resume s)
  | .running _ _ p, i :: path => p.actsAt s i path
  | _, _ => []

end

/-- What is done in the turn of a task is done below the child on the way to it. -/
lemma actsAmong_eq (s : Store) (d : Dispatch) (first : Nat) (children : List Child) (index : Nat)
    (path : List Nat) : actsAmong s d first children index path =
      (children[index]?).elim [] fun c => c.actsAt s d (first + index) path := by
  induction children generalizing first index with
  | nil => rw [actsAmong]; rfl
  | cons c rest ih =>
      cases index with
      | zero => rw [actsAmong]; rfl
      | succ index =>
          rw [actsAmong, ih, List.getElem?_cons_succ, Nat.add_right_comm, Nat.add_assoc]

/-! ## Plays -/

namespace World

/-- What the root's own code and its tasks do in a turn. -/
def acts (w : World) : Turn → List Act
  | .root =>
      match w.root with
      | .unstarted env a => a.acts env w.store
      | .running p => p.acts w.store
      | _ => []
  | .task index path =>
      match w.root with
      | .running p => p.actsAt w.store index path
      | _ => []
  | _ => []

/-- Steps lead to a world, and these are the acts on the way. -/
inductive Plays (start : World) : List Act → World → Prop where
  | refl : Plays start [] start
  | turn {acts : List Act} {w : World} (h : Plays start acts w) (t : Turn)
      (ready : w.isReady t = true) : Plays start (acts ++ w.acts t) (w.take t)
  | tick {acts : List Act} {w : World} {time : Nat} (h : Plays start acts w)
      (quiet : ∀ t, w.isReady t = false) (next : w.nextTime? = some time) :
      Plays start acts (w.advance time)

/-- Turns lead to a world while time goes on as it likes, be it that something is ready, and these
are the acts on the way. -/
inductive Drifts (start : World) : List Act → World → Prop where
  | refl : Drifts start [] start
  | turn {acts : List Act} {w : World} (h : Drifts start acts w) (t : Turn)
      (ready : w.isReady t = true) : Drifts start (acts ++ w.acts t) (w.take t)
  | pass {acts : List Act} {w : World} {time : Nat} (h : Drifts start acts w)
      (later : w.store.clock ≤ time) : Drifts start acts (w.advance time)

variable {start w : World}

/-- What something is set for next is still to come. -/
lemma lt_nextTime? {time : Nat} (next : w.nextTime? = some time) : w.store.clock < time := by
  simpa using (List.mem_filter.mp (List.min?_mem next)).2

/-- A clock that moves only when nothing is ready is one that may move at any moment. -/
lemma Reachable.drifts (h : Reachable start w) : ∃ acts, Drifts start acts w := by
  induction h with
  | refl => exact ⟨[], .refl⟩
  | step _ step ih =>
      obtain ⟨acts, hdrifts⟩ := ih
      cases step with
      | turn t ready => exact ⟨_, hdrifts.turn t ready⟩
      | tick _ next => exact ⟨_, hdrifts.pass (lt_nextTime? next).le⟩

end World

end Workflow
