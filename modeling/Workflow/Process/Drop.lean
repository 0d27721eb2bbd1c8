import Workflow.Process.Basic

/-!
# Giving processes up

A process can end before its code does, in two ways.  `Proc.drop` drops the code of one task and
leaves the tasks that it has spawned as orphans, each of which is dropped in a turn of its own
(`Orphan.drop`); what is further down goes on until the task that answers for it is dropped.
`Proc.loseTasks` takes away all tasks below a process at once and leaves the code, which finds them
lost.  Either way the guards of a body act once.
-/

namespace Workflow

/-- The tasks of a run that have not ended, the first of its children having the index `first`. -/
def orphansOf (run first : Nat) : List Child → List Orphan
  | [] => []
  | c :: rest =>
      if c.isLive then ⟨run, first, c⟩ :: orphansOf run (first + 1) rest
      else orphansOf run (first + 1) rest

/-- Drops a task's own code: its guards act, and the tasks it has spawned are left without an
owner. -/
def Proc.drop (s : Store) : Proc → Store × List Orphan
  | .leaf _ guards _ => (s.endGuards guards, [])
  | .within _ guards handle inner _ =>
      let (s, orphans) := inner.drop s
      ((s.leave handle).endGuards guards, orphans)
  | .linear run _ index _ current _ =>
      let (s, orphans) := current.drop s
      (s.mark run (.dropped index), orphans)
  | .concurrent d children => (s, orphansOf d.run 0 children)

/-- Drops an orphan, and with it the context that it holds. -/
def Orphan.drop (s : Store) (o : Orphan) : Store × List Orphan :=
  match o.child with
  | .spawned task _ => ((s.endTask task).mark o.run (.discarded o.index), [])
  | .running task _ p =>
      let (s, orphans) := p.drop s
      ((s.endTask task).mark o.run (.dropped o.index), orphans)
  | _ => (s, [])

mutual

/-- The tasks below a process that have not ended. -/
def Proc.liveTasks : Proc → List Orphan
  | .leaf _ _ _ => []
  | .within _ _ _ inner _ => inner.liveTasks
  | .linear _ _ _ _ current _ => current.liveTasks
  | .concurrent d children => liveAmong d.run 0 children

/-- The tasks that have not ended among the children of a run, the first of which has the index
`first`, and below them. -/
def liveAmong (run first : Nat) : List Child → List Orphan
  | [] => []
  | c :: rest =>
      (if c.isLive then [⟨run, first, c⟩] else []) ++ c.liveBelow ++ liveAmong run (first + 1) rest

/-- The tasks below a child that have not ended. -/
def Child.liveBelow : Child → List Orphan
  | .running _ _ p => p.liveTasks
  | _ => []

end

/-- Drops tasks one after another, in the order in which they were spawned. -/
def dropAll (s : Store) (tasks : List Orphan) : Store :=
  (sortBy (fun x y => x.child.task?.getD 0 ≤ y.child.task?.getD 0) tasks).foldl
    (fun s o => (o.drop s).1) s

/-- Takes away all tasks below a process, as when the place where tasks run is closed: none of them
goes on, and its own code stays and finds them lost. -/
def Proc.loseTasks (s : Store) : Proc → Store × Proc
  | .leaf env guards body => (s, .leaf env guards body)
  | .within env guards handle inner k =>
      let (s, inner) := inner.loseTasks s
      (s, .within env guards handle inner k)
  | .linear run env index name current rest =>
      let (s, current) := current.loseTasks s
      (s, .linear run env index name current rest)
  | .concurrent d children =>
      let gate := d.gate.map (· + (children.filter Child.isLive).length)
      (dropAll s (liveAmong d.run 0 children),
        .concurrent { d with gate } (children.map fun c => if c.isLive then .lost c.name else c))

end Workflow
