import Workflow.Process.Dispatch

/-!
# Running processes

Two things can happen to a process.  Its own code may go on (`Proc.resume`), through linear runs and
nested bodies, until it ends or has to wait; and one of its tasks may go on (`Proc.resumeAt`), which
is the same for that task's own code.  Both run to the next wait and are total: a body is a
well-founded tree, and an action that is started is smaller than the one that starts it.
-/

namespace Workflow

/-! ## Running a task's own code -/

/-- Ends a linear run at a child that did not succeed: with success if it asked to skip the
remainder, with its failure under its name, or with its panic. -/
def stopLinear (run index : Nat) (name : String) (e : Exit) (s : Store) : Store × Progress :=
  let s := s.mark run (.ended index e)
  match e with
  | .failed .skipRemainder => finishRun run .done (s.report run (.linearSkip index name))
  | .failed f =>
      finishRun run (.failed (f.inAction name)) (s.report run (.linearFailed index name f.message))
  | e => finishRun run e s

mutual

/-- Runs an action from its beginning to its first wait. -/
def Action.start (env : Env) (s : Store) : Action → Store × Progress
  | .leaf .contextFunction _ body =>
      let (number, s) := s.newState .empty
      body.resume { env with state := number } [] s
  | .leaf _ _ body => body.resume env [] s
  | .linear children =>
      let (run, s) := s.newRun (.linear children)
      startRest run env 0 (s.report run (.linearStart children.length)) children
  | .async children =>
      let (run, s) := s.newRun (.async children)
      let s := s.report run (.asyncDispatch children.length)
      if s.closed && !children.isEmpty then finishRun run (.panicked (some closedPanic)) s
      else
        let d : Dispatch := ⟨run, env, none, [], 0, none⟩
        let (children, s) := d.spawnAll 0 children s
        d.advance children s
  | .throttled limit children =>
      let (run, s) := s.newRun (.throttled limit children)
      let s := s.report run (.throttledDispatch limit.value children.length)
      if maxSlots < limit.value then finishRun run (.panicked (some slotsPanic)) s
      else
        let (scope, contexts) := s.contexts.child env.context
        Dispatch.advance ⟨run, { env with context := scope }, some limit.value, children, 0, none⟩
          [] ({ s with contexts }.mark run (.derived scope))
  | .named _ inner => inner.start env s
  | .boxed inner => inner.start env s

/-- Runs a body to its next wait or its end. -/
def Body.resume (env : Env) (guards : List Guard) (s : Store) : Body → Store × Progress
  | .finish e => (s.endGuards guards, .ended e)
  | .ask e k =>
      match s.perform? env e with
      | none => (s, .paused (.leaf env guards (.ask e k)))
      | some (reply, s) => (k reply).resume env guards s
  | .giveWay k => (s, .paused (.leaf env guards k))
  | .guard g k => k.resume env (guards ++ [g]) (s.raiseGuard g)
  | .run inner under k =>
      let (env', handle, s) := s.enter env under
      match inner.start env' s with
      | (s, .paused p) => (s, .paused (.within env guards handle p k))
      | (s, .ended .done) => (k none).resume env guards (s.leave handle)
      | (s, .ended (.failed f)) => (k (some f)).resume env guards (s.leave handle)
      | (s, .ended (.panicked payload)) =>
          ((s.leave handle).endGuards guards, .ended (.panicked payload))

/-- Runs the children of a linear run from the child `index` on, to the next wait or to the first
one that does not succeed. -/
def startRest (run : Nat) (env : Env) (index : Nat) (s : Store) :
    List Action → Store × Progress
  | [] => finishRun run .done s
  | a :: rest =>
      match a.start env (s.mark run (.started index a)) with
      | (s, .paused p) => (s, .paused (.linear run env index a.name p rest))
      | (s, .ended .done) => startRest run env (index + 1) (s.mark run (.ended index .done)) rest
      | (s, .ended e) => stopLinear run index a.name e s

end

/-- Goes on with a task's own code to its next wait or its end. -/
def Proc.resume (s : Store) : Proc → Store × Progress
  | .leaf env guards body => body.resume env guards s
  | .within env guards handle inner k =>
      match inner.resume s with
      | (s, .paused p) => (s, .paused (.within env guards handle p k))
      | (s, .ended .done) => (k none).resume env guards (s.leave handle)
      | (s, .ended (.failed f)) => (k (some f)).resume env guards (s.leave handle)
      | (s, .ended (.panicked payload)) =>
          ((s.leave handle).endGuards guards, .ended (.panicked payload))
  | .linear run env index name current rest =>
      match current.resume s with
      | (s, .paused p) => (s, .paused (.linear run env index name p rest))
      | (s, .ended .done) => startRest run env (index + 1) (s.mark run (.ended index .done)) rest
      | (s, .ended e) => stopLinear run index name e s
  | .concurrent d children => d.advance children s

/-! ## Running a task further down -/

mutual

/-- Goes on with the task at the path `index :: path` below a process. -/
def Proc.resumeAt (s : Store) : Proc → Nat → List Nat → Store × Proc
  | .leaf env guards body, _, _ => (s, .leaf env guards body)
  | .within env guards handle inner k, index, path =>
      let (s, inner) := inner.resumeAt s index path
      (s, .within env guards handle inner k)
  | .linear run env i name current rest, index, path =>
      let (s, current) := current.resumeAt s index path
      (s, .linear run env i name current rest)
  | .concurrent d children, index, path =>
      let (s, d, children) := resumeAmong s d 0 children index path
      (s, .concurrent d children)

/-- Goes on with the task at a path below the child that stands `index` places behind the child
`first`, the head of the list. -/
def resumeAmong (s : Store) (d : Dispatch) (first : Nat) :
    List Child → Nat → List Nat → Store × Dispatch × List Child
  | [], _, _ => (s, d, [])
  | c :: rest, 0, path =>
      let (s, d, c) := c.resumeAt s d first path
      (s, d, c :: rest)
  | c :: rest, index + 1, path =>
      let (s, d, rest) := resumeAmong s d (first + 1) rest index path
      (s, d, c :: rest)

/-- Goes on with the task at a path below the child `index`: the child itself when the path is
empty. -/
def Child.resumeAt (s : Store) (d : Dispatch) (index : Nat) :
    Child → List Nat → Store × Dispatch × Child
  | .spawned task a, [] =>
      match a.start d.env (s.mark d.run (.started index a)) with
      | (s, .paused p) => (s, d, .running task a.name p)
      | (s, .ended e) =>
          let (d, s) := d.childEnded index a.name e s
          (s.endTask task, d, .ended a.name e)
  | .running task name p, [] =>
      match p.resume s with
      | (s, .paused p) => (s, d, .running task name p)
      | (s, .ended e) =>
          let (d, s) := d.childEnded index name e s
          (s.endTask task, d, .ended name e)
  | .running task name p, i :: path =>
      let (s, p) := p.resumeAt s i path
      (s, d, .running task name p)
  | c, _ => (s, d, c)

end

/-- Goes on with the task at the path `index :: path` below an orphan. -/
def Orphan.resumeAt (s : Store) (o : Orphan) (index : Nat) (path : List Nat) : Store × Orphan :=
  match o.child with
  | .running task name p =>
      let (s, p) := p.resumeAt s index path
      (s, { o with child := .running task name p })
  | _ => (s, o)

end Workflow
