import Workflow.Proofs.Accounted

/-!
# How a throttled run admits its children

Of the children of a throttled run no more than its limit are in flight at any moment, and they are
admitted in the order in which they were submitted.  Both are read off the chronicle of the run: the
law lets a child be given a task only while fewer than the limit have not ended, and only the next
one.

The trace says so of every run, also of one that was given up and whose children go on as orphans.
Of a run that still has its code the state says the same (`Proc.nodes`): the slots that are free and
the children that have not ended make up the limit, and the queue is what was submitted after them.
-/

namespace Workflow

open Store

/-! ## The concurrent runs of a world -/

mutual

/-- The states of the concurrent runs of a process, each with its children. -/
def Proc.nodes : Proc → List (Dispatch × List Child)
  | .leaf _ _ _ => []
  | .within _ _ _ inner _ => inner.nodes
  | .linear _ _ _ _ current _ => current.nodes
  | .concurrent d children => (d, children) :: nodesAmong children

/-- The states of the concurrent runs below children. -/
def nodesAmong : List Child → List (Dispatch × List Child)
  | [] => []
  | c :: rest => c.nodes ++ nodesAmong rest

/-- The states of the concurrent runs below a child. -/
def Child.nodes : Child → List (Dispatch × List Child)
  | .running _ _ p => p.nodes
  | _ => []

end

lemma mem_nodesAmong {n : Dispatch × List Child} {cs : List Child} :
    n ∈ nodesAmong cs ↔ ∃ c ∈ cs, n ∈ c.nodes := by
  induction cs with
  | nil => simp [nodesAmong]
  | cons c cs ih => simp [nodesAmong, ih]

/-- The states of all concurrent runs that still have their code. -/
def World.nodes (w : World) : List (Dispatch × List Child) :=
  (match w.root with
    | .running p => p.nodes
    | _ => []) ++
    w.orphans.flatMap fun o => o.child.nodes

/-- Of every concurrent run below a process it is known how it stands. -/
lemma Proc.RestOf.accounts {s : Store} {env : Env} {a : Action} {p : Proc} (rest : p.RestOf s env a)
    {d : Dispatch} {children : List Child} (hn : (d, children) ∈ p.nodes) :
    ∃ env' runner slots cs, runner.dispatch? = some (slots, cs) ∧
      d.Accounts s env' runner slots cs children := by
  induction rest with
  | leaf => cases hn
  | within _ _ _ _ _ ih => exact ih hn
  | linear _ _ _ _ _ ih => exact ih hn
  | @concurrent env a slots cs d' children' bare node below ih =>
      rcases List.mem_cons.mp hn with heq | hn
      · cases heq
        exact ⟨_, _, slots, cs, bare, node⟩
      · obtain ⟨child, hchild, hn⟩ := mem_nodesAmong.mp hn
        obtain ⟨i, hi⟩ := List.mem_iff_getElem?.mp hchild
        match child, hn with
        | .running task name p, hn =>
            have hlt : i < cs.length :=
              Nat.lt_of_lt_of_le (List.getElem?_eq_some_iff.mp hi).1 node.length_le
            exact ih i task name p _ hi (List.getElem?_eq_getElem hlt) hn

lemma World.Accounted.accounts {base : Nat} {env : Env} {a : Action} {w : World}
    (h : w.Accounted base env a) {d : Dispatch} {children : List Child}
    (hn : (d, children) ∈ w.nodes) :
    ∃ env' runner slots cs, runner.dispatch? = some (slots, cs) ∧
      d.Accounts w.store env' runner slots cs children := by
  rcases List.mem_append.mp hn with hn | hn
  · match hp : w.root, hn with
    | .running p, hn => exact (h.of_running hp).1.accounts hn
  · obtain ⟨o, ho, hn⟩ := List.mem_flatMap.mp hn
    match hc : o.child, hn with
    | .running task name p, hn =>
        obtain ⟨env', a', rest⟩ := h.left.rest o ho task name p hc
        exact rest.accounts hn

/-! ## The limit and the order -/

/-- Whoever is in flight has not ended. -/
lemma Chronicle.length_inFlight_le {ms : List Mark} {ch : Chronicle} (h : ofMarks? ms = some ch) :
    (inFlight ms).length ≤ ch.live := by
  rw [length_inFlight h, live]
  refine List.countP_mono_left fun st _ hst => ?_
  rw [of_decide_eq_true hst]; rfl

/-- Before a child is admitted fewer than the limit have not ended, and it is the next one. -/
lemma Chronicle.unended_lt {before after : List Mark} {i : Nat} {c : Action} {ch : Chronicle}
    (h : ofMarks? (before ++ .spawned i c :: after) = some ch) {n : Nat} {cs : List Action}
    (hd : ch.runner.dispatch? = some (some n, cs)) :
    (unended before).length < n ∧ (before.filterMap Mark.spawned?).length = i := by
  obtain ⟨ch₀, ch₁, h₀, hnext, -, hrunner⟩ := of_split h (by simp)
  have hs : ch₀.spawns = true := by simp [spawns, hrunner, hd]
  simp only [next?] at hnext
  split_ifs at hnext with hi
  obtain ⟨hi, -, hadmits⟩ := hi
  rw [length_unended h₀ hs, spawned_eq h₀ hs, List.length_zipIdx,
    List.length_take_of_le (length_le h₀)]
  refine ⟨?_, hi.symm⟩
  simp only [admits, hrunner, hd, Bool.and_eq_true, Option.all_some] at hadmits
  exact of_decide_eq_true hadmits.2

/-- The states of a throttled run and its children agree with what was submitted and with its
limit. -/
lemma Dispatch.Accounts.within_limit {s : Store} {env : Env} {runner : Action} {n : Nat}
    {cs : List Action} {d : Dispatch} {children : List Child}
    (h : d.Accounts s env runner (some n) cs children) :
    (∃ free, d.gate = some free ∧ free + children.countP Child.isLive = n) ∧
      children.countP Child.isRunning ≤ n ∧ d.queue = cs.drop children.length := by
  have hfree := h.free
  obtain ⟨free, hgate, hsum⟩ := Option.map_eq_some_iff.mp hfree
  have hle : children.countP Child.isRunning ≤ children.countP Child.isLive :=
    List.countP_mono_left fun c _ hc => by cases c <;> simp_all [Child.isRunning, Child.isLive,
      Child.task?]
  exact ⟨⟨free, hgate, hsum⟩, by omega, h.queue⟩

/-- **Admission by a throttled run.**  Take any world that an opening world leads to, whatever the
order of the turns, whenever time goes on and wherever the run was given up, and any throttled run
that has begun since, at whatever depth.  At most as many of its children as its limit says are in
flight.  The children admitted so far are the first of those submitted, each once and in that order;
and when one was admitted, fewer than the limit of those before it had not ended.  As long as the
run has its code, its slots and children say the same. -/
theorem World.throttled_admission {w : World} {r : Nat} {limit : Limit} {cs : List Action}
    (run : w.HasRun r (.throttled limit cs)) :
    (inFlight (w.store.marks r)).length ≤ limit.value ∧
      (∃ k ≤ cs.length, (w.store.marks r).filterMap Mark.spawned? = (cs.take k).zipIdx) ∧
      (∀ before i c after, w.store.marks r = before ++ .spawned i c :: after →
        (before.filterMap Mark.spawned?).length = i ∧ (unended before).length ≤ limit.value - 1) ∧
      ∀ d children, (d, children) ∈ w.nodes → d.run = r →
        (∃ free, d.gate = some free ∧ free + children.countP Child.isLive = limit.value) ∧
          children.countP Child.isRunning ≤ limit.value ∧ d.queue = cs.drop children.length := by
  obtain ⟨ch, hch, hrunner⟩ := run.chronicle
  have hd : ch.runner.dispatch? = some (some limit.value, cs) := by rw [hrunner]; rfl
  have hs : ch.spawns = true := by simp [Chronicle.spawns, hd]
  refine ⟨?_, ⟨ch.stages.length, ?_, ?_⟩, ?_, ?_⟩
  · exact (Chronicle.length_inFlight_le hch).trans (Chronicle.live_le hch hd)
  · rw [← Chronicle.children_eq hd]; exact Chronicle.length_le hch
  · rw [← Chronicle.children_eq hd]; exact Chronicle.spawned_eq hch hs
  · intro before i c after hsplit
    rw [chronicle?, hsplit] at hch
    obtain ⟨hlt, hi⟩ := Chronicle.unended_lt hch hd
    exact ⟨hi, by omega⟩
  · rintro d children hn rfl
    obtain ⟨w₀, env, a, opens, leads, -⟩ := run
    obtain ⟨env', runner, slots, cs', hd', hacc⟩ := (leads.accounted opens).accounts hn
    have hsame := hacc.chronicle
    rw [hch] at hsame
    cases hsame
    subst hrunner
    cases hd'
    exact hacc.within_limit

/-- A leaf that lets others run first, once, and then succeeds. -/
def Action.yielding (name : String) : Action :=
  .leaf .function name (.giveWay .succeed)

lemma one_lt_wordBound : 1 < wordBound := by decide

/-- One child at a time. -/
def Limit.one : Limit := ⟨1, Nat.one_pos, one_lt_wordBound⟩

/-- At most two children at a time. -/
def Limit.two : Limit := ⟨2, Nat.two_pos, by decide⟩

/-- Two leaves in a throttled run that lets one child run at a time. -/
def Action.oneByOne : Action :=
  .throttled .one [.yielding "first", .yielding "second"]

/-- The second of two leaves was admitted when the first had ended, and has started; then the run is
given up. -/
theorem World.throttled_admission_oneByOne :
    let w := (((((opening ⟨default, 0⟩ .oneByOne).take .root).take (.task 0 [])).take
      (.task 0 [])).take .root).take (.task 1 [])
    (inFlight (w.abandon.store.marks 0)).length ≤ 1 ∧
      (∃ k ≤ 2, (w.abandon.store.marks 0).filterMap Mark.spawned? =
        ([.yielding "first", .yielding "second"].take k).zipIdx) ∧
      (∃ before after, w.abandon.store.marks 0 =
          before ++ .spawned 1 (.yielding "second") :: after ∧
        (before.filterMap Mark.spawned?).length = 1 ∧ (unended before).length ≤ 0) ∧
      ∃ d children, (d, children) ∈ w.nodes ∧
        (∃ free, d.gate = some free ∧ free + children.countP Child.isLive = 1) ∧
        children.countP Child.isRunning ≤ 1 ∧
        d.queue = [.yielding "first", .yielding "second"].drop children.length := by
  intro w
  have leads : Leads (opening ⟨default, 0⟩ .oneByOne) w :=
    .step (.step (.step (.step (.step .refl (.turn .root rfl)) (.turn (.task 0 []) rfl))
      (.turn (.task 0 []) rfl)) (.turn .root rfl))
      (.turn (.task 1 []) rfl)
  have run : w.HasRun 0 .oneByOne :=
    ⟨_, _, _, opening_opens _ _, leads, Nat.zero_le 0, List.mem_of_getElem? (i := 0) rfl⟩
  have left : w.abandon.HasRun 0 .oneByOne :=
    ⟨_, _, _, opening_opens _ _, .abandon leads, Nat.zero_le 0, List.mem_of_getElem? (i := 0) rfl⟩
  have split : w.abandon.store.marks 0 = (w.abandon.store.marks 0).take 8 ++
      .spawned 1 (.yielding "second") :: (w.abandon.store.marks 0).drop 9 := rfl
  obtain ⟨d, children, node, hr⟩ : ∃ d children, (d, children) ∈ w.nodes ∧ d.run = 0 :=
    ⟨_, _, List.mem_of_getElem? (i := 0) rfl, rfl⟩
  obtain ⟨inFlight, admitted, before, -⟩ := throttled_admission left
  obtain ⟨-, -, -, slots⟩ := throttled_admission run
  exact ⟨inFlight, admitted, ⟨_, _, split, before _ _ _ _ split⟩, d, children, node,
    slots d children node hr⟩

end Workflow
