import Workflow.Proofs.Alone
import Workflow.Proofs.Punctual

/-!
# How long throttled runs last

A throttled run over children that last fixed times comes to its end whatever turns are taken, and
its children have started and ended at the times of a timetable.

**Steps.**  Every step of a world keeps to the timetable (`World.Accounted.step_onTime`) and brings
the run nearer to its end: time moves, or the dispatcher has less to do, or a child has had one of
finitely many turns, or there is less to happen outside.  By induction on all of these no order of
turns goes on for ever (`World.Accounted.terminates`).

**Ends.**  A run that has ended has the notes of all its children, and their times are those of the
timetable (`Store.Passed`).

**Slots.**  **`World.more_slots`** compares two limits.
-/

namespace Workflow

open Store

/-! ## What is there in the end -/

/-- The run has passed as the timetable says: all children have started and ended at the times that
it says and at no others, and so has the run. -/
structure Store.Passed (s : Store) (r t₀ : Nat) (plan : List Span) : Prop where
  started : ∀ i t, (∃ c, ⟨t, some r, .started i c⟩ ∈ s.notes r) ↔
    ∃ x, plan[i]? = some x ∧ t = x.start
  ended : ∀ i t, (∃ e, ⟨t, some r, .ended i e⟩ ∈ s.notes r) ↔
    ∃ x, plan[i]? = some x ∧ t = x.stop
  finished : ∀ t, (∃ e, ⟨t, some r, .finished e⟩ ∈ s.notes r) ↔ t = finish t₀ plan

/-- A mark of a run that keeps to its timetable is that of a note that does. -/
lemma Store.Keeps.exists_note {s : Store} {r t₀ : Nat} {plan : List Span} {m : Mark}
    (h : s.Keeps r t₀ plan) (hm : m ∈ s.marks r) :
    ∃ t, ⟨t, some r, m⟩ ∈ s.notes r ∧ Note.Keeps t₀ plan ⟨t, some r, m⟩ := by
  obtain ⟨⟨t, run, m⟩, hn, rfl⟩ := List.mem_map.mp hm
  obtain rfl : run = some r := by simpa using (List.mem_filter.mp hn).2
  exact ⟨t, hn, h _ hn⟩

/-- A throttled run that has ended has the marks of its end and of all its children. -/
lemma Store.HasFinished.served {s : Store} {r : Nat} {limit : Limit} {cs : List Action} {e : Exit}
    (h : s.HasFinished r (.throttled limit cs) e) (made : limit.value ≤ maxSlots) :
    .finished e ∈ s.marks r ∧ ∀ (i : Nat) c, cs[i]? = some c →
      .started i c ∈ s.marks r ∧ ∃ x, .ended i x ∈ s.marks r := by
  obtain ⟨ch, hch, hrunner, hexit⟩ := h
  have hd : ch.runner.dispatch? = some (some limit.value, cs) := by rw [hrunner]; rfl
  have hmem := (Chronicle.finished_mem hch e).mpr hexit
  refine ⟨hmem, fun i c hc => ?_⟩
  obtain ⟨before, after, hsplit⟩ := List.append_of_mem hmem
  rw [chronicle?, hsplit] at hch
  obtain ⟨exits, hlength, -, hlives⟩ := Chronicle.of_finished hch hd (by simpa using made)
  have hlt := (List.getElem?_eq_some_iff.mp hc).1
  have hx := List.getElem?_eq_getElem (hlt.trans_le hlength.ge)
  have hin : ∀ m ∈ lifeOf i before, m ∈ s.marks r := by
    intro m hm
    rw [hsplit]
    exact List.mem_append_left _ (List.mem_of_mem_filter hm)
  rw [hlives i _ _ hc hx] at hin
  exact ⟨hin _ (.tail _ (.head _)), _, hin _ (.tail _ (.tail _ (.head _)))⟩

/-- A throttled run that has kept to its timetable and ended has passed as it says. -/
lemma Store.Keeps.passed {s : Store} {r t₀ : Nat} {plan : List Span} {limit : Limit}
    {cs : List Action} {e : Exit} (h : s.Keeps r t₀ plan)
    (finished : s.HasFinished r (.throttled limit cs) e) (made : limit.value ≤ maxSlots)
    (length : plan.length = cs.length) : s.Passed r t₀ plan := by
  obtain ⟨hfinished, hserved⟩ := finished.served made
  have hchild : ∀ {i : Nat} {x}, plan[i]? = some x → ∃ c, cs[i]? = some c := fun hx =>
    ⟨_, List.getElem?_eq_getElem ((List.getElem?_eq_some_iff.mp hx).1.trans_le length.le)⟩
  constructor
  · intro i t
    refine ⟨fun ⟨_, hn⟩ => h _ hn, ?_⟩
    rintro ⟨x, hx, rfl⟩
    obtain ⟨c, hc⟩ := hchild hx
    obtain ⟨t, hn, x', hx', rfl⟩ := h.exists_note (hserved i c hc).1
    obtain rfl : x = x' := Option.some.inj (hx.symm.trans hx')
    exact ⟨c, hn⟩
  · intro i t
    refine ⟨fun ⟨_, hn⟩ => h _ hn, ?_⟩
    rintro ⟨x, hx, rfl⟩
    obtain ⟨c, hc⟩ := hchild hx
    obtain ⟨e, he⟩ := (hserved i c hc).2
    obtain ⟨t, hn, x', hx', rfl⟩ := h.exists_note he
    obtain rfl : x = x' := Option.some.inj (hx.symm.trans hx')
    exact ⟨e, hn⟩
  · intro t
    refine ⟨fun ⟨_, hn⟩ => h _ hn, ?_⟩
    rintro rfl
    obtain ⟨t, hn, rfl⟩ := h.exists_note hfinished
    exact ⟨e, hn⟩

/-- Children that last fixed times last as long as a timetable of these says. -/
lemma IsTimetable.fills {n t₀ : Nat} {ds : List Nat} {plan : List Span} {cs : List Action}
    (table : IsTimetable n t₀ ds plan) (lasting : List.Forall₂ Action.Lasts ds cs) :
    Fills plan cs := by
  intro i c x hc hx
  obtain ⟨hi, rfl⟩ := List.getElem?_eq_some_iff.mp hc
  have hlt : i < ds.length := lasting.length_eq ▸ hi
  exact ⟨ds[i], lasting.get hlt hi, table.stop i x _ hx (List.getElem?_eq_getElem hlt)⟩

/-! ## Steps -/

section

variable {limit : Limit} {cs : List Action} {ds : List Nat} {plan : List Span} {env : Env}
  {base t₀ : Nat}

/-- **The first turn.**  A throttled run begins on time. -/
lemma Action.start_onTime {s : Store} (tidy : s.Tidy) (made : limit.value ≤ maxSlots)
    (table : IsTimetable limit.value s.clock ds plan) (length : ds.length = cs.length) :
    (Root.ofProgress ((Action.throttled limit cs).start env s).2).OnTime
      ((Action.throttled limit cs).start env s).1 s.runs s.clock plan := by
  obtain ⟨hand, hch⟩ := newRun_report tidy (.throttled limit cs)
    (.throttledDispatch limit.value cs.length)
  rw [Action.start_throttled, startThrottled, if_neg (Nat.not_lt.mpr made)]
  refine Dispatch.advance_onTime hand.tidy.isOpen rfl (startThrottled_accounts hch made) table
    length ⟨le_refl _, ?_, fun i child x hchild => ?_, fun x hx => ?_, ?_⟩
  · exact (finish_le_iff.mp (le_refl _)).1
  · cases hchild
  · exact (table.first x hx).ge
  · have hnone : s.Keeps s.runs s.clock plan := by
      intro n hn
      rw [tidy.fresh s.runs (le_refl _)] at hn
      cases hn
    have hbegun : (s.newRun (.throttled limit cs)).2.Keeps s.runs s.clock plan :=
      Keeps.mark (s := { s with runs := s.runs + 1 }) hnone trivial
    exact ((hbegun.report _).congr (SameRuns.of_trace rfl rfl rfl rfl |>.notes _)).mark trivial

end

namespace World

variable {w v : World}

/-- The next time is one that something is set for, and nothing is set for a time before it. -/
lemma le_nextTime? {time : Nat} (next : w.nextTime? = some time) :
    w.store.clock < time ∧ ∀ t ∈ w.times, w.store.clock < t → time ≤ t := by
  obtain ⟨-, hle⟩ := List.min?_eq_some_iff.mp next
  refine ⟨lt_nextTime? next, fun t ht hlt => hle t ?_⟩
  exact List.mem_filter.mpr ⟨ht, by simpa using hlt⟩

/-- There is a next time if something is set for a later one. -/
lemma exists_nextTime? {t : Nat} (mem : t ∈ w.times) (lt : w.store.clock < t) :
    ∃ time, w.nextTime? = some time := by
  refine Option.isSome_iff_exists.mp (List.isSome_min?_of_mem (a := t) ?_)
  exact List.mem_filter.mpr ⟨mem, by simpa using lt⟩

/-- What the code of the root waits for is set for its time. -/
lemma mem_times {p : Proc} {t : Nat} (hroot : w.root = .running p) (h : t ∈ p.wakeTimes) :
    t ∈ w.times := by
  simp only [times, hroot]
  exact List.mem_append_left _ (List.mem_append_left _ h)

/-- What happens outside concerns no run. -/
lemma Befalls.sameRuns (h : w.Befalls v) : w.store.SameRuns v.store := by
  cases h with
  | timer t _ _ => exact sameRuns_withContexts _ (Contexts.clock_fire _ _)
  | appointment place x _ _ => exact sameRuns_suffer _ _

/-- A run that stood at a dispatcher and children in the world `w` is nearer to its end in `v`: it
is over, or it is later, or the dispatcher has less to do, or a child has had a turn, or something
has happened outside. -/
inductive Nearer (total : Nat) (w : World) (d : Dispatch) (children : List Child) (v : World) :
    Prop where
  | ended (isOver : v.root.isOver = true) : Nearer total w d children v
  | later (d' : Dispatch) (children' : List Child)
      (root : v.root = .running (.concurrent d' children'))
      (lt : w.store.clock < v.store.clock) : Nearer total w d children v
  | less (d' : Dispatch) (children' : List Child)
      (root : v.root = .running (.concurrent d' children'))
      (clock : v.store.clock = w.store.clock) (lt : d'.left total < d.left total) :
      Nearer total w d children v
  | turn (d' : Dispatch) (children' : List Child)
      (root : v.root = .running (.concurrent d' children'))
      (clock : v.store.clock = w.store.clock) (left : d'.left total = d.left total)
      (step : OneStep (Child.Turns w.store.clock) children' children) : Nearer total w d children v
  | outside (befalls : w.Befalls v) : Nearer total w d children v

section

variable {limit : Limit} {cs : List Action} {ds : List Nat} {plan : List Span} {env : Env}
  {base t₀ : Nat} {d : Dispatch} {children : List Child}
  (account : w.Accounted base env (.throttled limit cs))

include account in
lemma Accounted.node (hroot : w.root = .running (.concurrent d children)) :
    d.Accounts w.store env (.throttled limit cs) (some limit.value) cs children := by
  cases (account.of_running hroot).1 with
  | concurrent bare node below =>
      cases bare
      exact node

variable (table : IsTimetable limit.value t₀ ds plan) (lasting : List.Forall₂ Action.Lasts ds cs)

include account table lasting

/-- A turn of the dispatcher leaves it less to do. -/
lemma Accounted.takeRoot_running (hroot : w.root = .running (.concurrent d children))
    (hrun : d.run = base) (h : d.OnTime t₀ plan w.store children) (ready : w.isReady .root = true) :
    (w.take .root).root.OnTime (w.take .root).store base t₀ plan ∧
      Nearer cs.length w d children (w.take .root) := by
  obtain ⟨rest, nodup, bound, -⟩ := account.of_running hroot
  have isOpen := account.tidy.isOpen
  have node := account.node hroot
  have honTime := Dispatch.advance_onTime isOpen rfl node table lasting.length_eq h
  have hready : d.isReady children = true := by
    simpa only [isReady, hroot, Proc.isReady] using ready
  obtain ⟨hclock, -⟩ :=
    (Proc.resume_ran rest account.tidy nodup fun r hr => (bound r hr).2).others
  rw [Proc.resume] at hclock
  have htake : w.take .root = { w with
      store := (d.advance children w.store).1
      root := .ofProgress (d.advance children w.store).2 } := by
    simp only [World.take, World.pollRoot, hroot, Proc.resume]
  rw [htake]
  refine ⟨hrun ▸ honTime, ?_⟩
  rcases hout : d.advance children w.store with ⟨s', p | e⟩
  · rw [hout] at honTime hclock
    cases p with
    | concurrent d' children' =>
        exact .less d' children' rfl hclock
          (Dispatch.advance_left isOpen node.length_le hready hout)
    | _ => exact honTime.elim
  · exact .ended rfl

/-- A turn of a child is one of finitely many. -/
lemma Accounted.takeTask_running (hroot : w.root = .running (.concurrent d children))
    (hrun : d.run = base) (h : d.OnTime t₀ plan w.store children) {index : Nat} {path : List Nat}
    (ready : w.isReady (.task index path) = true) :
    (w.take (.task index path)).root.OnTime (w.take (.task index path)).store base t₀ plan ∧
      Nearer cs.length w d children (w.take (.task index path)) := by
  obtain ⟨rest, nodup, bound, -⟩ := account.of_running hroot
  have hready : (Proc.concurrent d children).isReadyAt w.store index path = true := by
    simpa only [isReady, hroot] using ready
  obtain ⟨s', d', children', heq, hclock, hsame, hleft, honeStep, honTime⟩ :=
    Dispatch.resumeAt_onTime account.tidy rfl rest nodup (fun r hr => (bound r hr).2) hready
      (table.fills lasting) (table.length.trans lasting.length_eq) h
  have htake : w.take (.task index path) =
      { w with store := s', root := .running (.concurrent d' children') } := by
    simp only [World.take, hroot, heq]
  rw [htake]
  exact ⟨⟨hsame.trans hrun, honTime⟩, .turn d' children' rfl hclock (hleft cs.length) honeStep⟩

/-- **A step of a run that is on its way.**  It keeps to the timetable, and brings the run nearer to
its end. -/
theorem Accounted.step_running (hroot : w.root = .running (.concurrent d children))
    (hrun : d.run = base) (h : d.OnTime t₀ plan w.store children) (step : Step w v) :
    v.root.OnTime v.store base t₀ plan ∧ Nearer cs.length w d children v := by
  have alone : w.orphans = [] := account.alone (by rw [hroot]; exact Root.noConfusion)
  cases step with
  | turn t ready =>
      rcases ready_cases ready alone with rfl | ⟨index, path, rfl⟩ | befalls
      · exact account.takeRoot_running table lasting hroot hrun h ready
      · exact account.takeTask_running table lasting hroot hrun h ready
      · have hsame := befalls.sameRuns
        rw [befalls.root_eq, hroot]
        exact ⟨⟨hrun, h.congr hsame.clock (h.notes.congr (hsame.notes d.run))⟩, .outside befalls⟩
  | @tick time quiet next =>
      obtain ⟨hlt, hle⟩ := le_nextTime? next
      have idle := IsIdle.proc (fun t _ => quiet t) hroot
      have honTime : d.OnTime t₀ plan (w.advance time).store children :=
        h.later account.tidy.isOpen rfl (account.node hroot) table lasting.length_eq limit.pos idle
          hlt (fun t ht => hle t (mem_times hroot ht)) rfl
      have hroot' : (w.advance time).root = .running (.concurrent d children) := hroot
      rw [hroot']
      exact ⟨⟨hrun, honTime⟩, .later d children hroot' hlt⟩

/-- **A step of a throttled run** keeps to the timetable. -/
theorem Accounted.step_onTime (made : limit.value ≤ maxSlots)
    (h : w.root.OnTime w.store base t₀ plan) (step : Step w v) :
    v.root.OnTime v.store base t₀ plan := by
  match hroot : w.root, h with
  | .running (.concurrent d children), ⟨hrun, h⟩ =>
      exact (account.step_running table lasting hroot hrun h step).1
  | .unstarted env' a, clock =>
      have hkeeps := account.root
      have alone : w.orphans = [] := account.alone (by rw [hroot]; exact Root.noConfusion)
      rw [hroot] at hkeeps
      obtain ⟨rfl, rfl, rfl⟩ := hkeeps
      cases step with
      | turn t ready =>
          rcases ready_cases ready alone with rfl | ⟨index, path, rfl⟩ | befalls
          · simp only [World.take, World.pollRoot, hroot]
            obtain rfl : w.store.clock = t₀ := clock
            exact Action.start_onTime account.tidy made table lasting.length_eq
          · simp [isReady, hroot] at ready
          · rw [befalls.root_eq, hroot]
            exact befalls.sameRuns.clock.trans clock
      | tick quiet next =>
          have hready := quiet .root
          simp [isReady, hroot] at hready
  | .ended e, keeps =>
      have alone : w.orphans = [] := account.alone (by rw [hroot]; exact Root.noConfusion)
      cases step with
      | turn t ready =>
          rcases ready_cases ready alone with rfl | ⟨index, path, rfl⟩ | befalls
          · simp [isReady, hroot] at ready
          · simp [isReady, hroot] at ready
          · rw [befalls.root_eq, hroot]
            exact keeps.congr (befalls.sameRuns.notes base)
      | @tick time quiet next =>
          have hroot' : (w.advance time).root = .ended e := hroot
          rw [hroot']
          exact keeps.congr rfl

/-- A run that is on its way can always go on. -/
lemma Accounted.exists_step (hroot : w.root = .running (.concurrent d children))
    (h : d.OnTime t₀ plan w.store children) : ∃ v, Step w v := by
  by_cases ready : ∃ t, w.isReady t = true
  · obtain ⟨t, ht⟩ := ready
    exact ⟨_, .turn t ht⟩
  · have quiet : ∀ t, w.isReady t = false := fun t => by simpa using fun ht => ready ⟨t, ht⟩
    have idle := IsIdle.proc (fun t _ => quiet t) hroot
    have node := account.node hroot
    -- Somebody is running, and waits for a time.
    obtain ⟨i, task, name, p, hp⟩ := node.exists_running rfl idle
    have hlength := node.length_le.trans (table.length.trans lasting.length_eq).ge
    have hx := List.getElem?_eq_getElem ((List.getElem?_eq_some_iff.mp hp).1.trans_le hlength)
    obtain ⟨t, ht, hlt⟩ := (h.each i _ _ hp hx).2.waits account.tidy.isOpen (idle.running hp)
    obtain ⟨time, next⟩ := exists_nextTime? (mem_times hroot (mem_wakeTimesAmong hp ht)) hlt
    exact ⟨_, .tick quiet next⟩

end

/-! ## Ends -/

/-- Whatever turns are taken, the run comes to its end: as long as it is not over there is a step,
and no order of steps goes on for ever. -/
inductive Terminates : World → Prop where
  | ended {w : World} (isOver : w.root.isOver = true) : Terminates w
  | steps {w : World} (possible : ∃ v, Step w v) (all : ∀ v, Step w v → Terminates v) :
      Terminates w

section

variable {limit : Limit} {cs : List Action} {ds : List Nat} {plan : List Span} {env : Env}
  {base t₀ : Nat} (table : IsTimetable limit.value t₀ ds plan)
  (lasting : List.Forall₂ Action.Lasts ds cs)

include table lasting

/-- **A throttled run that is on its way comes to its end.** -/
theorem Accounted.terminates_running {d : Dispatch} {children : List Child}
    (account : w.Accounted base env (.throttled limit cs))
    (hroot : w.root = .running (.concurrent d children)) (hrun : d.run = base)
    (h : d.OnTime t₀ plan w.store children) : w.Terminates := by
  -- Time is bounded by the end of the run.  As long as it stands still the dispatcher has less and
  -- less to do, in between the children have finitely many turns, and there is less and less to
  -- happen outside.
  induction hk : finish t₀ plan - w.store.clock using Nat.strongRecOn
    generalizing w d children with
  | ind k ihLater =>
    induction hl : d.left cs.length using Nat.strongRecOn generalizing w d children with
    | ind l ihLess =>
      have hacc := h.acc (account.node hroot) (table.fills lasting)
        (table.length.trans lasting.length_eq)
      generalize ht : w.store.clock = t at hacc
      induction hacc generalizing w d with
      | intro children _ ihTurn =>
        induction hm : w.store.contexts.timers.length + w.agenda.length using Nat.strongRecOn
          generalizing w with
        | ind m ihOutside =>
          refine .steps (account.exists_step table lasting hroot h) fun v hstep => ?_
          have account' := account.step hstep
          obtain ⟨honTime, nearer⟩ := account.step_running table lasting hroot hrun h hstep
          cases nearer with
          | ended isOver => exact .ended isOver
          | later d' children' root lt =>
              rw [root] at honTime
              have hwithin := honTime.2.within
              exact ihLater _ (by omega) account' root honTime.1 honTime.2 rfl
          | less d' children' root clock lt =>
              rw [root] at honTime
              exact ihLess _ (hl ▸ lt) account' root honTime.1 honTime.2 (by rw [clock, hk]) rfl
          | turn d' children' root clock left step =>
              rw [root] at honTime
              exact ihTurn children' (ht ▸ step) account' root honTime.1 honTime.2
                (by rw [clock, hk]) (left.trans hl) (clock.trans ht)
          | outside befalls =>
              have hclock := befalls.sameRuns.clock
              have root := befalls.root_eq.trans hroot
              rw [root] at honTime
              exact ihOutside _ (hm ▸ befalls.remaining_lt) account' root honTime.2
                (by rw [hclock, hk]) (hclock.trans ht) rfl

/-- **A throttled run comes to its end.** -/
theorem Accounted.terminates (account : w.Accounted base env (.throttled limit cs))
    (made : limit.value ≤ maxSlots) (h : w.root.OnTime w.store base t₀ plan) : w.Terminates := by
  have hbegun : ∀ v : World, v.Accounted base env (.throttled limit cs) →
      (∀ env' a, v.root ≠ .unstarted env' a) → v.root.OnTime v.store base t₀ plan →
      v.Terminates := by
    intro v account begun h
    match hroot : v.root, h with
    | .running (.concurrent d children), ⟨hrun, h⟩ =>
        exact account.terminates_running table lasting hroot hrun h
    | .ended e, _ => exact .ended (by rw [hroot]; rfl)
    | .unstarted env' a, _ => exact absurd hroot (begun env' a)
  by_cases unstarted : ∃ env' a, w.root = .unstarted env' a
  · obtain ⟨env', a, hroot⟩ := unstarted
    induction hm : w.store.contexts.timers.length + w.agenda.length using Nat.strongRecOn
      generalizing w with
    | ind m ih =>
      have alone : w.orphans = [] := account.alone (by rw [hroot]; exact Root.noConfusion)
      have hready : w.isReady .root = true := by simp only [isReady, hroot]
      refine .steps ⟨_, .turn .root hready⟩ fun v hstep => ?_
      have account' := account.step hstep
      have honTime := account.step_onTime table lasting made h hstep
      cases hstep with
      | turn t ready =>
          rcases ready_cases ready alone with rfl | ⟨index, path, rfl⟩ | befalls
          · refine hbegun _ account' (fun env'' a'' => ?_) honTime
            simp only [World.take, World.pollRoot, hroot]
            generalize (a.start env' w.store).2 = progress
            cases progress <;> simp [Root.ofProgress]
          · simp [isReady, hroot] at ready
          · have hroot' := befalls.root_eq.trans hroot
            exact ih _ (hm ▸ befalls.remaining_lt) account' honTime hroot' rfl
      | tick quiet next =>
          rw [quiet .root] at hready
          cases hready
  · exact hbegun w account (fun env' a hroot => unstarted ⟨env', a, hroot⟩) h

end

/-! ## Slots -/

/-- Whatever turns are taken, the throttled run that begins in the world comes to its end, and then
it has passed as a timetable for `n` slots and children of the given durations says. -/
structure KeepsTo (w₀ : World) (n : Nat) (ds : List Nat) (plan : List Span) : Prop where
  table : IsTimetable n w₀.store.clock ds plan
  terminates : w₀.Terminates
  passed : ∀ w, Reachable w₀ w → w.root.isOver = true →
    w.store.Passed w₀.store.runs w₀.store.clock plan

/-- **A throttled run keeps to every timetable for its children and its limit.** -/
theorem Opens.keepsTo {w₀ : World} {env : Env} {limit : Limit} {cs : List Action} {ds : List Nat}
    {plan : List Span} (opens : w₀.Opens env (.throttled limit cs)) (made : limit.value ≤ maxSlots)
    (lasting : List.Forall₂ Action.Lasts ds cs)
    (table : IsTimetable limit.value w₀.store.clock ds plan) : w₀.KeepsTo limit.value ds plan := by
  have hstart : w₀.root.OnTime w₀.store w₀.store.runs w₀.store.clock plan := by
    rw [opens.root]
    exact rfl
  refine ⟨table, opens.accounted.terminates table lasting made hstart, fun w reach isOver => ?_⟩
  have account := reach.leads.accounted opens
  have honTime : w.root.OnTime w.store w₀.store.runs w₀.store.clock plan := by
    clear isOver account
    induction reach with
    | refl => exact hstart
    | step reach step ih =>
        exact (reach.leads.accounted opens).step_onTime table lasting made ih step
  match hroot : w.root, honTime with
  | .ended e, keeps =>
      have hfinished := account.root
      rw [hroot] at hfinished
      exact keeps.passed (hfinished _ rfl) made (table.length.trans lasting.length_eq)
  | .running _, _ | .unstarted _ _, _ => simp [hroot, Root.isOver] at isOver

/-- **More slots never make a throttled run slower.**  Take children that last fixed times, whatever
they come to and whatever else goes on, and throttled runs over them with limits of which the first
is no greater than the second, and the second one that a gate can be made with.  They begin at the
same time in any two worlds.  Whatever the order of the turns, both come to their end, and the times
at which their children start and end and they end themselves are fixed: they are those of
timetables, in which a child starts as soon as the one before it has started and fewer of those
before it than the limit have not ended.  With the second limit no child starts or ends later than
with the first, nor does the run end later.  With a limit of one the durations add up, and with a
limit of at least the number of children the longest counts. -/
theorem more_slots {w₀ v₀ : World} {env env' : Env} {M N : Limit} {cs : List Action}
    {ds : List Nat} (lasting : List.Forall₂ Action.Lasts ds cs) (le : M.value ≤ N.value)
    (made : N.value ≤ maxSlots) (opens : w₀.Opens env (.throttled M cs))
    (opens' : v₀.Opens env' (.throttled N cs)) (same : v₀.store.clock = w₀.store.clock) :
    ∃ plan plan', w₀.KeepsTo M.value ds plan ∧ v₀.KeepsTo N.value ds plan' ∧
      List.Forall₂ Span.NoLater plan' plan ∧
      finish v₀.store.clock plan' ≤ finish w₀.store.clock plan ∧
      (N.value = 1 → finish v₀.store.clock plan' = v₀.store.clock + ds.sum) ∧
      (cs.length ≤ N.value →
        finish v₀.store.clock plan' = v₀.store.clock + ds.foldl max 0) := by
  have hplans : List.Forall₂ Span.NoLater (timetable N.value v₀.store.clock [] ds)
      (timetable M.value w₀.store.clock [] ds) := timetable_le M.pos le same.le .nil
  refine ⟨_, _, opens.keepsTo (le.trans made) lasting (isTimetable_timetable M.pos _ ds),
    opens'.keepsTo made lasting (isTimetable_timetable N.pos _ ds), hplans,
    finish_le same.le hplans, fun one => ?_, fun enough => ?_⟩
  · have hsum := finish_timetable_one v₀.store.clock [] ds
    rwa [vacancy_eq_zero Nat.one_pos, Nat.max_eq_left (Nat.zero_le _), ← one] at hsum
  · have hlength : ([] : List Nat).length + ds.length ≤ N.value := by
      rw [lasting.length_eq, List.length_nil, Nat.zero_add]
      exact enough
    exact finish_timetable_of_le 0 hlength

end World

/-- Three children: one asks to skip the remainder after a while, one panics, and one succeeds. -/
def Action.ofAllKinds : List Action :=
  [({ name := "first", outcome := .skip, delay := some 5 } : Recording).action,
    .leaf .function "second" (.sleep 3 (.finish (.panicked none))),
    ({ name := "third", delay := some 4 } : Recording).action]

/-- With two slots instead of one the three children start and end no later. -/
theorem World.more_slots_ofAllKinds :
    ∃ plan plan',
      (opening ⟨default, 0⟩ (.throttled .one Action.ofAllKinds)).KeepsTo 1 [5, 3, 4] plan ∧
      (opening ⟨default, 0⟩ (.throttled .two Action.ofAllKinds)).KeepsTo 2 [5, 3, 4] plan' ∧
      List.Forall₂ Span.NoLater plan' plan := by
  have hlasting : List.Forall₂ Action.Lasts [5, 3, 4] Action.ofAllKinds :=
    .cons (Recording.lasts _ rfl) (.cons
      ((Body.takes_sleep 3 (Body.isQuick_finish _)).lasts .function "second")
      (.cons (Recording.lasts _ rfl) .nil))
  have hle : Limit.one.value ≤ Limit.two.value := by decide
  have hmade : Limit.two.value ≤ maxSlots := by decide
  obtain ⟨plan, plan', hone, htwo, hplans, -⟩ := more_slots hlasting hle hmade
    (opening_opens ⟨default, 0⟩ _) (opening_opens ⟨default, 0⟩ _) rfl
  exact ⟨plan, plan', hone, htwo, hplans⟩

end Workflow
