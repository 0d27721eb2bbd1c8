import Workflow.Proofs.Admission
import Workflow.Proofs.Cascade
import Workflow.Proofs.Outcome

/-!
# No slot is left idle

In a world where no task can go on, a throttled run that is neither over nor given up has as many
children in flight as its limit allows: its limit, or all that have not ended if those are fewer.

**Nothing is ready.**  If no task below a process can go on, then no dispatcher in it can admit or
collect anything, and no child of it waits for its first turn (`Proc.RestOf.idle_node`).

**Slots.**  So every child that was admitted and has not ended is running, and if a child is still
in the queue no slot is free (`Dispatch.Accounts.running_eq`).  A slot comes back with every end,
whichever it is, since the free slots and the children that have not ended make up the limit.

**Code.**  A run that has not ended and was not given up has its code
(`World.Accounted.exists_node`), so there is a dispatcher of which all this can be said.
-/

namespace Workflow

open Store

/-! ## Nothing is ready -/

/-- Neither the code of a process nor a task below it can go on. -/
structure Proc.IsIdle (s : Store) (p : Proc) : Prop where
  code : p.isReady s = false
  tasks : ∀ index path, p.isReadyAt s index path = false

/-- A child of an idle process can go on nowhere. -/
lemma Proc.IsIdle.child {s : Store} {d : Dispatch} {children : List Child}
    (h : (Proc.concurrent d children).IsIdle s) {i : Nat} {c : Child} (hc : children[i]? = some c)
    (path : List Nat) : c.isReadyAt s path = false := by
  have hpath := h.tasks i path
  rw [Proc.isReadyAt, isReadyAmong_eq, hc] at hpath
  exact hpath

/-- A running child of an idle process is idle. -/
lemma Proc.IsIdle.running {s : Store} {d : Dispatch} {children : List Child}
    (h : (Proc.concurrent d children).IsIdle s) {i task : Nat} {name : String} {p : Proc}
    (hc : children[i]? = some (.running task name p)) : p.IsIdle s where
  code := by simpa [Child.isReadyAt] using h.child hc []
  tasks index path := by simpa [Child.isReadyAt] using h.child hc (index :: path)

/-- A child that was not collected and cannot go on is running: a first turn is always open. -/
lemma Child.isRunning_of_isLive {s : Store} {c : Child} (live : c.isLive = true)
    (idle : c.isReadyAt s [] = false) : c.isRunning = true := by
  cases c <;> simp_all [isReadyAt, isLive, task?, isRunning]

/-- **Nothing is ready.**  No dispatcher in an idle process can go on, and no child of it waits for
its first turn. -/
lemma Proc.RestOf.idle_node {s : Store} {env : Env} {a : Action} {p : Proc}
    (rest : p.RestOf s env a) (idle : p.IsIdle s) {d : Dispatch} {children : List Child}
    (hn : (d, children) ∈ p.nodes) :
    d.isReady children = false ∧ ∀ c ∈ children, c.isLive = true → c.isRunning = true := by
  induction rest with
  | leaf => cases hn
  | within _ _ _ _ _ ih => exact ih ⟨idle.code, idle.tasks⟩ hn
  | linear _ _ _ _ _ ih => exact ih ⟨idle.code, idle.tasks⟩ hn
  | @concurrent env a slots cs d' children' bare node below ih =>
      rcases List.mem_cons.mp hn with heq | hn
      · cases heq
        refine ⟨idle.code, fun c hc hlive => ?_⟩
        obtain ⟨i, hi⟩ := List.mem_iff_getElem?.mp hc
        exact Child.isRunning_of_isLive hlive (idle.child hi [])
      · obtain ⟨child, hchild, hn⟩ := mem_nodesAmong.mp hn
        obtain ⟨i, hi⟩ := List.mem_iff_getElem?.mp hchild
        match child, hn with
        | .running task name p, hn =>
            have hlt : i < cs.length :=
              Nat.lt_of_lt_of_le (List.getElem?_eq_some_iff.mp hi).1 node.length_le
            exact ih i task name p _ hi (List.getElem?_eq_getElem hlt) (idle.running hi) hn

/-! ## Slots -/

/-- Where nothing is ready, a throttled run has all slots in use, or all its children that have not
ended are running.  The slots not in use are free. -/
lemma Dispatch.Accounts.running_eq {s : Store} {env : Env} {runner : Action} {n : Nat}
    {cs : List Action} {d : Dispatch} {children : List Child}
    (h : d.Accounts s env runner (some n) cs children) (idle : d.isReady children = false)
    (started : ∀ c ∈ children, c.isLive = true → c.isRunning = true) :
    children.countP Child.isRunning
        = min n (children.countP Child.isLive + (cs.length - children.length)) ∧
      d.gate = some (n - children.countP Child.isRunning) ∧
      (children.length < cs.length → children.countP Child.isRunning = n) := by
  obtain ⟨⟨free, hgate, hsum⟩, -, hqueue⟩ := h.within_limit
  have hrunning : children.countP Child.isRunning = children.countP Child.isLive := by
    refine List.countP_congr fun c hc => ⟨fun hr => ?_, started c hc⟩
    cases c <;> simp_all [Child.isRunning, Child.isLive, Child.task?]
  have hlen := h.length_le
  -- With a child in the queue a free slot would let the dispatcher go on.
  have hfree : children.length < cs.length → free = 0 := by
    intro hlt
    have hne : d.queue.isEmpty = false := by
      rw [hqueue, List.isEmpty_eq_false_iff, ne_eq, List.drop_eq_nil_iff]
      omega
    rw [Dispatch.isReady, hne, hgate] at idle
    cases free with
    | zero => rfl
    | succ free => simp at idle
  refine ⟨?_, by rw [hgate]; congr 1; omega, fun hlt => by have := hfree hlt; omega⟩
  rcases Nat.lt_or_ge children.length cs.length with hlt | hge
  · have := hfree hlt
    omega
  · omega

/-- The children that have not ended are those with a task, and those that have none yet. -/
lemma Chronicle.countP_isOpen {ms : List Mark} {ch : Chronicle} (h : ofMarks? ms = some ch) :
    (List.range ch.children.length).countP (isOpen ms)
      = ch.live + (ch.children.length - ch.stages.length) := by
  -- Those with a task come first in the list, the rest has no marks.
  obtain ⟨m, hm⟩ := Nat.exists_eq_add_of_le (length_le h)
  have hopen : ∀ i, isOpen ms i = (ch.stages[i]?).all Stage.isLive := isOpen_eq h
  rw [hm, List.range_add, List.countP_append, List.countP_map]
  congr 1
  · refine Eq.trans (List.countP_congr fun i hi => ?_) (countP_range ch.stages Stage.isLive)
    rw [hopen, List.getElem?_eq_getElem (List.mem_range.mp hi)]
    rfl
  · rw [Nat.add_sub_cancel_left, List.countP_eq_length.mpr, List.length_range]
    intro i _
    simp [hopen]

/-- A child without marks has not been admitted. -/
lemma Chronicle.length_le_of_lifeOf {ms : List Mark} {ch : Chronicle} (h : ofMarks? ms = some ch)
    (hs : ch.spawns = true) {i : Nat} (hlife : lifeOf i ms = []) : ch.stages.length ≤ i := by
  by_contra hlt
  rw [lifeOf_eq h, List.getElem?_eq_getElem (by omega)] at hlife
  simp [Stage.life, hs] at hlife

/-! ## Code -/

/-- A concurrent run that a process holds has its code in it. -/
lemma Proc.RestOf.exists_node {s : Store} {env : Env} {a : Action} {p : Proc}
    (rest : p.RestOf s env a) {r : Nat} (hr : r ∈ p.runs) {ch : Chronicle}
    (hch : s.chronicle? r = some ch) (concurrent : ch.spawns = true) :
    ∃ d children, (d, children) ∈ p.nodes ∧ d.run = r := by
  induction rest with
  | leaf => cases hr
  | within _ _ _ _ _ ih => exact ih hr
  | @linear env a c before after run index name p bare place called chronicle rest ih =>
      rcases List.mem_cons.mp hr with rfl | hr
      · rw [chronicle] at hch
        cases hch
        simp [Chronicle.spawns, bare, Action.dispatch?] at concurrent
      · exact ih hr
  | @concurrent env a slots cs d children bare node below ih =>
      rcases List.mem_cons.mp hr with rfl | hr
      · exact ⟨d, children, List.mem_cons_self, rfl⟩
      · obtain ⟨child, hchild, hr⟩ := mem_runsAmong.mp hr
        obtain ⟨i, hi⟩ := List.mem_iff_getElem?.mp hchild
        match child, hr with
        | .running task name p, hr =>
            have hlt : i < cs.length :=
              Nat.lt_of_lt_of_le (List.getElem?_eq_some_iff.mp hi).1 node.length_le
            obtain ⟨d', children', hn, hrun⟩ :=
              ih i task name p _ hi (List.getElem?_eq_getElem hlt) hr
            exact ⟨d', children', List.mem_cons_of_mem _ (mem_nodesAmong.mpr ⟨_, hchild, hn⟩), hrun⟩

namespace World

variable {base : Nat} {env : Env} {a : Action} {w : World}

lemma IsIdle.proc (idle : w.IsIdle) {p : Proc} (hp : w.root = .running p) : p.IsIdle w.store where
  code := by simpa [isReady, hp] using idle .root rfl
  tasks index path := by simpa [isReady, hp] using idle (.task index path) rfl

/-- A concurrent run that has not ended, in a world whose run was not given up, has its code. -/
lemma Accounted.exists_node (h : w.Accounted base env a) (kept : w.root ≠ .dropped) {r : Nat}
    (hb : base ≤ r) {ch : Chronicle} (hch : w.store.chronicle? r = some ch)
    (concurrent : ch.spawns = true) (unended : ch.exit = none) :
    ∃ p d children, w.root = .running p ∧ p.RestOf w.store env a ∧ (d, children) ∈ p.nodes ∧
      d.run = r := by
  have hlt : r < w.store.runs := by
    by_contra hge
    rw [chronicle?, Store.marks, h.tidy.fresh r (by omega)] at hch
    cases hch
  by_cases hr : r ∈ w.root.runs
  · cases hp : w.root with
    | running p =>
        rw [hp] at hr
        obtain ⟨rest, -⟩ := h.of_running hp
        obtain ⟨d, children, hn, hrun⟩ := rest.exists_node hr hch concurrent
        exact ⟨p, d, children, rfl, rest, hn, hrun⟩
    | _ =>
        rw [hp] at hr
        cases hr
  · obtain ⟨a', e, ch', hch', -, hexit⟩ := h.ended kept r hb hlt hr
    rw [hch] at hch'
    cases hch'
    rw [unended] at hexit
    cases hexit

/-- **No slot is leaked or left idle.**  Take any world that an opening world leads to, in which no
task can go on, and any throttled run that has begun since, at whatever depth, and is neither over
nor given up.  As many of its children are in flight as its limit says, or all that have not ended
if those are fewer.  All other slots are free, whichever way the children ended that had them; and
as long as a child has not been admitted there are no other slots. -/
theorem slots_in_use {r : Nat} {limit : Limit} {cs : List Action}
    (run : w.HasRun r (.throttled limit cs)) (idle : w.IsIdle)
    (unended : ∀ e, .finished e ∉ w.store.marks r) (kept : w.root ≠ .dropped) :
    (inFlight (w.store.marks r)).length
        = min limit.value ((List.range cs.length).countP (isOpen (w.store.marks r))) ∧
      (∃ d children, (d, children) ∈ w.nodes ∧ d.run = r ∧
        children.countP Child.isRunning = (inFlight (w.store.marks r)).length ∧
        d.gate = some (limit.value - (inFlight (w.store.marks r)).length)) ∧
      ∀ (i : Nat) c, cs[i]? = some c → lifeOf i (w.store.marks r) = [] →
        (inFlight (w.store.marks r)).length = limit.value := by
  obtain ⟨ch, hch, hrunner⟩ := run.chronicle
  have hd : ch.runner.dispatch? = some (some limit.value, cs) := by rw [hrunner]; rfl
  have hs : ch.spawns = true := by simp [Chronicle.spawns, hd]
  have hexit : ch.exit = none := by
    by_contra hne
    obtain ⟨e, he⟩ := Option.ne_none_iff_exists'.mp hne
    exact unended e ((Chronicle.finished_mem hch e).mpr he)
  obtain ⟨w₀, env, a, opens, leads, new, -⟩ := run
  obtain ⟨p, d, children, hp, rest, hn, rfl⟩ :=
    (leads.accounted opens).exists_node kept new hch hs hexit
  obtain ⟨env', runner, slots, cs', hd', hacc⟩ := rest.accounts hn
  have hsame := hacc.chronicle
  rw [hch] at hsame
  cases hsame
  subst hrunner
  cases hd'
  obtain ⟨hready, hstarted⟩ := rest.idle_node (idle.proc hp) hn
  obtain ⟨hmin, hgate, hfull⟩ := hacc.running_eq hready hstarted
  have hflight : (inFlight (w.store.marks d.run)).length = children.countP Child.isRunning := by
    rw [Chronicle.length_inFlight hch, List.countP_map]
    exact List.countP_congr fun c _ => by cases c <;> simp [Child.stage, Child.isRunning]
  have hopen := Chronicle.countP_isOpen hch
  have hlive : (children.map Child.stage).countP Stage.isLive = children.countP Child.isLive := by
    rw [List.countP_map]
    exact List.countP_congr fun c _ => by cases c <;> rfl
  rw [Chronicle.children_eq hd, Chronicle.live, List.length_map, hlive] at hopen
  rw [hflight]
  refine ⟨by rw [hopen]; exact hmin, ⟨d, children, ?_, rfl, rfl, hgate⟩, fun i c hc hlife => ?_⟩
  · rw [World.nodes, hp]
    exact List.mem_append_left _ hn
  · have hle := Chronicle.length_le_of_lifeOf hch hs hlife
    rw [List.length_map] at hle
    exact hfull (hle.trans_lt (List.getElem?_eq_some_iff.mp hc).1)

end World

/-- Whether a mark is the end of its run. -/
def Mark.isFinish : Mark → Bool
  | .finished _ => true
  | _ => false

/-- A leaf that panics at once and two that wait for a while, one at a time. -/
def Action.panicFirst : Action :=
  .throttled .one [.panicking "broken" "early", .sleeping 5, .sleeping 5]

/-- The leaf that has panicked has given its slot back, and the next one waits in it. -/
theorem World.slots_in_use_panicFirst :
    let w := ((((opening ⟨default, 0⟩ .panicFirst).take .root).take (.task 0 [])).take .root).take
      (.task 1 [])
    w.IsIdle ∧ (inFlight (w.store.marks 0)).length
      = min 1 ((List.range 3).countP (isOpen (w.store.marks 0))) := by
  intro w
  have hleads : Leads (opening ⟨default, 0⟩ .panicFirst) w :=
    .step (.step (.step (.step .refl (.turn .root rfl)) (.turn (.task 0 []) rfl))
      (.turn .root rfl)) (.turn (.task 1 []) rfl)
  have hrun : w.HasRun 0 .panicFirst :=
    ⟨_, _, _, opening_opens ⟨default, 0⟩ .panicFirst, hleads, Nat.zero_le 0,
      List.mem_of_getElem? (i := 0) rfl⟩
  have horphans : w.orphans = [] := rfl
  have hidle : w.IsIdle := by
    intro t ht
    cases t with
    | root => rfl
    | task index path => rcases index with _ | _ | index <;> cases path <;> rfl
    | orphan place => simp [isReady, horphans]
    | orphanTask place index path => simp [isReady, horphans]
    | timer t => cases ht
    | appointment place => cases ht
  have hunended : (w.store.marks 0).any Mark.isFinish = false := rfl
  exact ⟨hidle, (slots_in_use hrun hidle
    (fun e he => List.any_eq_false.mp hunended _ he rfl) Root.noConfusion).1⟩

end Workflow
