import Workflow.Proofs.Admission
import Workflow.Proofs.Reports

/-!
# The events of a run tell its story

An observer of a concurrent run sees its events and nothing else.  Whatever is polled, in whatever
order, and wherever runs are given up, the events go together with what happens: that is
`World.Recounts`, the invariant.

**The result.**  `World.events_tell` is what an observer can rely on when the run has come to a
result: the failures that were reported are those of its children, in order, and the first of them
is its own; and of a throttled run the admissions are told one by one, each before the child does
anything, and every request to skip the remainder before any other child is admitted or starts.
-/

namespace Workflow

open Store

/-! ## Worlds -/

namespace World

/-- In the runs that have begun since the number of runs was `base` the events go together with the
other marks, and the code that is left of them has reported what it has collected. -/
structure Recounts (base : Nat) (w : World) : Prop where
  store : w.store.Narrates base
  root : ∀ p, w.root = .running p → p.Narrated w.store
  orphans : ∀ o ∈ w.orphans, o.child.Narrated w.store

lemma Opens.recounts {w : World} {env : Env} {a : Action} (h : w.Opens env a) :
    w.Recounts w.store.runs where
  store r hr := by
    rw [Store.marks, h.tidy.fresh r hr]
    exact .nil
  root p hp := by
    rw [h.root] at hp
    cases hp
  orphans o ho := by
    rw [h.orphans] at ho
    cases ho

namespace Recounts

variable {base : Nat} {env : Env} {a : Action} {w : World}

/-- Nothing happens that concerns runs. -/
lemma congr (h : w.Recounts base) {s : Store} (notes : ∀ r, s.notes r = w.store.notes r)
    (agenda : List Appointment) : ({ w with store := s, agenda } : World).Recounts base where
  store := h.store.congr notes
  root p hp := (h.root p hp).congr fun r _ => notes r
  orphans o ho := (h.orphans o ho).congr fun r _ => notes r

/-- The root's own code has run. -/
lemma ran (account : w.Accounted base env a) (hroot : w.root ≠ .dropped) {out : Store × Progress}
    (spoken : Spoken base out) :
    ({ w with store := out.1, root := .ofProgress out.2 } : World).Recounts base := by
  have halone : ∀ s, ∀ o ∈ w.orphans, o.child.Narrated s := by
    intro s o ho
    rw [account.alone hroot] at ho
    cases ho
  match out, spoken with
  | (s, .paused p), ⟨hs, hp⟩ =>
      refine ⟨hs, ?_, halone s⟩
      rintro _ ⟨⟩
      exact hp
  | (s, .ended e), hs =>
      refine ⟨hs, ?_, halone s⟩
      rintro _ ⟨⟩

lemma pollRoot (h : w.Recounts base) (account : w.Accounted base env a) :
    w.pollRoot.Recounts base := by
  unfold World.pollRoot
  match hroot : w.root with
  | .unstarted env' a' =>
      exact ran account (by simp [hroot]) (Action.start_spoken env' w.store account.tidy h.store a')
  | .running p =>
      obtain ⟨rest, nodup, bound, -⟩ := account.of_running hroot
      exact ran account (by simp [hroot]) (Proc.resume_spoken rest (h.root p hroot) account.tidy
        h.store nodup fun r hr => (bound r hr).2)
  | .ended _ | .dropped => exact h

/-- A task below the root is polled. -/
lemma pollTask (h : w.Recounts base) (account : w.Accounted base env a) {p : Proc}
    (hp : w.root = .running p) (index : Nat) (path : List Nat) :
    World.Recounts base
      { w with store := (p.resumeAt w.store index path).1
               root := .running (p.resumeAt w.store index path).2 } := by
  obtain ⟨rest, nodup, bound, -⟩ := account.of_running hp
  obtain ⟨hs, hp'⟩ := Proc.resumeAt_narrates rest (h.root p hp) account.tidy h.store nodup
    (fun r hr => (bound r hr).2) index path
  refine ⟨hs, ?_, fun o ho => ?_⟩
  · rintro _ ⟨⟩
    exact hp'
  · have ho : o ∈ w.orphans := ho
    rw [account.alone (by simp [hp])] at ho
    cases ho

/-- An orphan is dropped. -/
lemma dropOrphan (h : w.Recounts base) (account : w.Accounted base env a) {place : Nat} {o : Orphan}
    (ho : w.orphans[place]? = some o) :
    ({ w with store := (o.drop w.store).1
              orphans := w.orphans.eraseIdx place ++ (o.drop w.store).2 } : World).Recounts
      base := by
  have hleft := account.left.first ho
  obtain ⟨hs, hbelow⟩ := Orphan.drop_narrates hleft (h.orphans o (List.mem_of_getElem? ho)) h.store
  refine ⟨hs, fun p hp => ?_, fun o' ho' => ?_⟩
  · have hp : w.root = .running p := hp
    rw [account.dropped_of_orphan ho] at hp
    cases hp
  · rcases List.mem_append.mp ho' with ho' | ho'
    · refine (h.orphans o' (List.mem_of_mem_eraseIdx ho')).congr fun r hr => ?_
      have hheld := mem_heldBy.mpr ⟨o', ho', hr⟩
      refine hleft.drop_others (hleft.nodup_cons.2.2 r hheld) ?_
      rintro rfl
      exact hleft.parent_head.2.2 hheld
    · exact hbelow o' ho'

/-- A task below an orphan is polled. -/
lemma pollOrphanTask (h : w.Recounts base) (account : w.Accounted base env a) {place : Nat}
    {o : Orphan} (ho : w.orphans[place]? = some o) (index : Nat) (path : List Nat) :
    ({ w with store := (o.resumeAt w.store index path).1
              orphans := w.orphans.set place (o.resumeAt w.store index path).2 } : World).Recounts
      base := by
  have hset : w.orphans.set place o = w.orphans := set_of_getElem? ho
  have hmem := List.mem_of_getElem? ho
  have hleft := account.left.first ho
  have hroot := account.dropped_of_orphan ho
  obtain ⟨run, i, child⟩ := o
  match child with
  | .spawned _ _ | .ended _ _ | .lost _ => rw [Orphan.resumeAt, hset]; exact h
  | .running task name p =>
      obtain ⟨env', a', hrest⟩ := hleft.rest _ List.mem_cons_self task name p rfl
      obtain ⟨hs, hp⟩ := Proc.resumeAt_narrates hrest (h.orphans _ hmem task name p rfl)
        account.tidy h.store hleft.nodup_cons.1 (fun r hr => (hleft.held_head hr).2.1) index path
      obtain ⟨hand, -⟩ := account.resumeOrphan hmem rfl index path
      refine ⟨hs, fun q hq => ?_, fun o' ho' => ?_⟩
      · have hq : w.root = .running q := hq
        rw [hroot] at hq
        cases hq
      · have ho' := (List.set_perm_cons_eraseIdx (List.getElem?_eq_some_iff.mp ho).1 _).mem_iff.mp ho'
        rcases List.mem_cons.mp ho' with rfl | ho'
        · rintro _ _ _ ⟨⟩
          exact hp
        · refine (h.orphans o' (List.mem_of_mem_eraseIdx ho')).congr fun r hr => ?_
          have hheld := mem_heldBy.mpr ⟨o', ho', hr⟩
          exact hand.others r (hleft.held_tail hheld).2.1 (hleft.nodup_cons.2.2 r hheld)

/-- **Every turn is told.** -/
theorem take (h : w.Recounts base) (account : w.Accounted base env a) (t : Turn) :
    (w.take t).Recounts base := by
  cases t with
  | root => exact h.pollRoot account
  | task index path =>
      unfold World.take
      match hp : w.root with
      | .running p => exact h.pollTask account hp index path
      | .unstarted _ _ | .ended _ | .dropped => exact h
  | orphan place =>
      cases ho : w.orphans[place]? with
      | some o => simp only [World.take, ho]; exact h.dropOrphan account ho
      | none => simp only [World.take, ho]; exact h
  | orphanTask place index path =>
      cases ho : w.orphans[place]? with
      | some o => simp only [World.take, ho]; exact h.pollOrphanTask account ho index path
      | none => simp only [World.take, ho]; exact h
  | timer t => exact h.congr (sameRuns_withContexts _ (Contexts.clock_fire _ _)).notes w.agenda
  | appointment place =>
      cases ha : w.agenda[place]? with
      | some x => simp only [World.take, ha]; exact h.congr (sameRuns_suffer _ _).notes _
      | none => simp only [World.take, ha]; exact h

/-- **Giving the run up** leaves the events as they are. -/
theorem abandon (h : w.Recounts base) (account : w.Accounted base env a) :
    w.abandon.Recounts base := by
  unfold World.abandon
  match hroot : w.root with
  | .ended _ | .dropped => exact h
  | .unstarted _ _ =>
      refine ⟨h.store, ?_, h.orphans⟩
      rintro _ ⟨⟩
  | .running p =>
      obtain ⟨rest, nodup, -, -⟩ := account.of_running hroot
      obtain ⟨hs, hbelow⟩ := Proc.drop_narrates rest (h.root p hroot) h.store nodup
      refine ⟨hs, ?_, fun o ho => ?_⟩
      · rintro _ ⟨⟩
      · dsimp only at ho
        rw [account.alone (by simp [hroot]), List.nil_append] at ho
        exact hbelow o ho

lemma advance (h : w.Recounts base) (time : Nat) : (w.advance time).Recounts base :=
  h.congr (s := (w.advance time).store) (fun _ => rfl) w.agenda

lemma step {v : World} (h : w.Recounts base) (account : w.Accounted base env a) (hs : Step w v) :
    v.Recounts base := by
  cases hs with
  | turn t => exact h.take account t
  | tick => exact h.advance _

end Recounts

/-- **Everything is told** in every world that an opening world leads to. -/
theorem Leads.recounts {w₀ w : World} {env : Env} {a : Action} (opens : w₀.Opens env a)
    (h : Leads w₀ w) : w.Recounts w₀.store.runs := by
  induction h with
  | refl => exact opens.recounts
  | step leads s ih => exact ih.step (leads.accounted opens) s
  | pass _ _ ih => exact ih.advance _
  | abandon leads ih => exact ih.abandon (leads.accounted opens)

/-- The events of a run go together with its other marks. -/
lemma HasRun.narrative {w : World} {r : Nat} {runner : Action} (h : w.HasRun r runner) :
    Narrative (w.store.marks r) := by
  obtain ⟨w₀, env, a, opens, leads, new, -⟩ := h
  exact (leads.recounts opens).store r new

end World

/-! ## The marks of a run -/

/-- A concurrent run with slots is a throttled one. -/
lemma Action.eq_throttled {a : Action} {n : Nat} {cs : List Action}
    (h : a.dispatch? = some (some n, cs)) : ∃ limit, a = .throttled limit cs ∧ limit.value = n := by
  cases a with
  | throttled limit children =>
      cases h
      exact ⟨limit, rfl, rfl⟩
  | leaf | linear | async | named | boxed => cases h

namespace Chronicle

variable {ms : List Mark} {ch : Chronicle} {i : Nat}

/-- A child that starts in a run of tasks was given one before. -/
lemma spawned_of_started {before after : List Mark} {c : Action}
    (h : ofMarks? (before ++ .started i c :: after) = some ch) (tasks : ch.spawns = true) :
    .spawned i c ∈ before := by
  obtain ⟨ch₀, ch₁, h₀, hnext, -, hrunner⟩ := of_split h (by simp)
  have hspawns : ch₀.spawns = true := (spawns_congr hrunner).trans tasks
  have hlife := lifeOf_eq h₀ i
  simp only [next?, hspawns, if_true] at hnext
  split_ifs at hnext with hc
  rw [(move_eq_some.mp hnext).1, hc, hspawns] at hlife
  have hmem : .spawned i c ∈ lifeOf i before := by rw [hlife]; exact List.mem_singleton_self _
  exact (List.mem_filter.mp hmem).1

/-- A concurrent run that has come to a result has given every child a task, each has ended, and the
result is that of their exits. -/
lemma exits_of_result {slots : Option Nat} {cs : List Action} {result : Option Failure}
    (h : ofMarks? ms = some ch) (hd : ch.runner.dispatch? = some (slots, cs))
    (returned : .finished (.ofResult result) ∈ ms) :
    ∃ exits : List Exit, ch.stages = exits.map .ended ∧ exits.length = cs.length ∧
      result = (cs.zip exits).findSome? fun x => x.2.failureOf x.1.name := by
  have houtcome := outcome?_of_exit h ((finished_mem h _).mp returned)
  -- A limit that no gate can be made with gives no result.
  have haccepted : ∀ n ∈ slots, n ≤ maxSlots := by
    rintro n rfl
    obtain ⟨limit, hr, rfl⟩ := Action.eq_throttled hd
    by_contra hlt
    simp only [outcome?, hr, if_pos (Nat.not_le.mp hlt)] at houtcome
    split_ifs at houtcome
    cases result <;> cases houtcome
  obtain ⟨exits, hst, hlen, heq⟩ := exits_of_outcome? hd haccepted houtcome
  refine ⟨exits, hst, hlen, ?_⟩
  rw [resultOf] at heq
  generalize (cs.zip exits).findSome? _ = f at heq
  cases result <;> cases f <;> simp_all [Exit.ofResult]

end Chronicle

/-! ## What is told -/

lemma reports_ended (runner : String) (cs : List Action) (exits : List Exit) :
    reports runner cs (exits.map .ended) =
      (cs.zip exits).filterMap fun x => x.2.report? runner x.1.name := by
  rw [reports, List.zip_map_right, List.filterMap_map]
  rfl

/-- The first report is about the failure that the exits come to. -/
lemma head?_reports (runner : String) {cs : List Action} {exits : List Exit} {f : Failure}
    (first : ((cs.zip exits).findSome? fun x => x.2.failureOf x.1.name) = some f) :
    ∃ c ∈ cs, ((cs.zip exits).filterMap fun x => x.2.report? runner x.1.name).head? =
      some (.childFailed runner c.name f.message) := by
  obtain ⟨before, ⟨c, x⟩, after, heq, hx, hbefore⟩ := List.findSome?_eq_some_iff.mp first
  have hmem : (c, x) ∈ cs.zip exits := by
    rw [heq]
    exact List.mem_append_right _ List.mem_cons_self
  have hnone : ∀ y ∈ before, y.2.report? runner y.1.name = none := fun y hy => by
    rw [Exit.report?, hbefore y hy]
    rfl
  have hsome : x.report? runner c.name = some (.childFailed runner c.name f.message) := by
    rw [Exit.report?, hx]
    rfl
  refine ⟨c, (List.of_mem_zip hmem).1, ?_⟩
  rw [List.head?_filterMap, List.findSome?_eq_some_iff]
  exact ⟨before, (c, x), after, heq, hsome, hnone⟩

/-- What is told of the admissions and requests in a throttled run in which all children have
ended. -/
structure ThrottledStory (cs : List Action) (exits : List Exit) (ms : List Mark) : Prop where
  /-- Every child is admitted once, in order. -/
  admitted : told "conflux.throttled.admit" ms = cs.mapIdx fun i c => .throttledAdmit i c.name
  /-- A child is told of before it starts. -/
  before_start : ∀ before i c after, ms = before ++ .started i c :: after →
    .event (.throttledAdmit i c.name) ∈ before
  /-- No request is told twice. -/
  nodup : (told "conflux.throttled.skip" ms).Nodup
  /-- The requests are those of the children that ended with one. -/
  skipped : ∀ e, e ∈ told "conflux.throttled.skip" ms ↔ ∃ i c, cs[i]? = some c ∧
    exits[i]? = some (.failed .skipRemainder) ∧ e = .throttledSkip i c.name
  /-- Nothing happens between the end of such a child and its request. -/
  at_once : ∀ before m after i c, ms = before ++ m :: after → cs[i]? = some c →
    .ended i (.failed .skipRemainder) ∈ before → m ≠ .event (.throttledSkip i c.name) →
    .event (.throttledSkip i c.name) ∈ before

/-- The story of a throttled run whose children have all ended. -/
lemma Phrased.story {cs : List Action} {ms : List Mark} (h : Phrased cs ms) {ch : Chronicle}
    (chronicle : Chronicle.ofMarks? ms = some ch) {slots : Option Nat}
    (hd : ch.runner.dispatch? = some (slots, cs)) {exits : List Exit}
    (stages : ch.stages = exits.map .ended) (length : exits.length = cs.length) :
    ThrottledStory cs exits ms := by
  have htasks : ch.spawns = true := by simp [Chronicle.spawns, hd]
  have hinitial : ∀ {before m after}, ms = before ++ m :: after → before ++ [m] <+: ms := by
    rintro before m after rfl
    exact ⟨after, by simp⟩
  have hskipped : ∀ i, i ∈ ms.filterMap Mark.skipped? ↔
      exits[i]? = some (.failed .skipRemainder) := by
    intro i
    have hended : .ended i (.failed .skipRemainder) ∈ ms ↔
        exits[i]? = some (.failed .skipRemainder) := by
      rw [Chronicle.mem_ended_iff chronicle, stages, List.getElem?_map]
      cases exits[i]? <;> simp
    rw [← hended, List.mem_filterMap]
    constructor
    · rintro ⟨m, hm, hi⟩
      rwa [← Mark.skipped?_eq_some.mp hi]
    · exact fun hm => ⟨_, hm, rfl⟩
  refine ⟨?_, ?_, ?_, ?_, ?_⟩
  · rw [h.told_admission, Chronicle.spawned_eq chronicle htasks, Chronicle.children_eq hd, stages,
      List.length_map, length, List.take_length, List.mapIdx_eq_zipIdx_map]
  · rintro before i c after hms
    refine h.admit_before (hinitial hms) ?_
    rw [hms] at chronicle
    exact Chronicle.spawned_of_started chronicle htasks
  · rw [h.told_skip]
    refine (Chronicle.nodup_skipped chronicle).filterMap fun i j e hi hj => ?_
    obtain ⟨c, -, rfl⟩ := Option.map_eq_some_iff.mp hi
    obtain ⟨c', -, heq⟩ := Option.map_eq_some_iff.mp hj
    exact (Event.throttledSkip.inj heq).1.symm
  · intro e
    rw [h.told_skip, List.mem_filterMap]
    constructor
    · rintro ⟨i, hi, he⟩
      obtain ⟨c, hc, rfl⟩ := Option.map_eq_some_iff.mp he
      exact ⟨i, c, hc, (hskipped i).mp hi, rfl⟩
    · rintro ⟨i, c, hc, hx, rfl⟩
      exact ⟨i, (hskipped i).mpr hx, by rw [hc]; rfl⟩
  · rintro before m after i c hms hc hended hm
    exact h.skip_before (hinitial hms) hc hm hended

namespace World

/-- **The events of a concurrent run tell the same story as its result.**  Take a run without a
limit, or a throttled one, at any depth, in any world that an opening world leads to, that has
returned.  Each of its children was given a task, was started and has ended once.  The failures that
the run has reported are those of its children, in the order in which they were submitted, each with
the kind of the run, the name of the child and the text of the failure under that name; no child
that has succeeded or asked to skip the remainder is among them.  The run has failed exactly if
there are any, and then with the text of the first.  In a throttled run every child was admitted
once, in order, and told of before it started; and each request to skip the remainder was told of
once, before anything else happened in the run, so before any child that was admitted into the slot
that had become free, or any other, started. -/
theorem events_tell {w : World} {r : Nat} {runner : Action} (run : w.HasRun r runner)
    {slots : Option Nat} {cs : List Action} (concurrent : runner.dispatch? = some (slots, cs))
    {result : Option Failure} (returned : .finished (.ofResult result) ∈ w.store.marks r) :
    ∃ exits : List Exit, exits.length = cs.length ∧
      (∀ (i : Nat) c x, cs[i]? = some c → exits[i]? = some x →
        lifeOf i (w.store.marks r) = [.spawned i c, .started i c, .ended i x]) ∧
      told "conflux.child.failed" (w.store.marks r) =
        (cs.zip exits).filterMap (fun x => x.2.report? (runnerName slots) x.1.name) ∧
      (result = none ↔ told "conflux.child.failed" (w.store.marks r) = []) ∧
      (∀ f, result = some f → ∃ c ∈ cs, (told "conflux.child.failed" (w.store.marks r)).head? =
        some (.childFailed (runnerName slots) c.name f.message)) ∧
      (slots.isSome = true → ThrottledStory cs exits (w.store.marks r)) := by
  obtain ⟨ch, hch, hrunner⟩ := run.chronicle
  have hnarrative := run.narrative
  subst hrunner
  rw [chronicle?] at hch
  obtain ⟨exits, hst, hlen, hresult⟩ := Chronicle.exits_of_result hch concurrent returned
  have htold := hnarrative.reported ch slots cs result hch concurrent
    ((Chronicle.finished_mem hch _).mp returned)
  rw [hst, reports_ended] at htold
  refine ⟨exits, hlen, fun i c x hc hx => ?_, htold, ?_, fun f hf => ?_, fun hslots => ?_⟩
  · have htasks : ch.spawns = true := by simp [Chronicle.spawns, concurrent]
    rw [Chronicle.lifeOf_eq hch, hst, Chronicle.children_eq concurrent, hc, List.getElem?_map, hx,
      htasks]
    rfl
  · rw [htold, hresult, List.findSome?_eq_none_iff, List.filterMap_eq_nil_iff]
    exact forall₂_congr fun x _ => Option.map_eq_none_iff.symm
  · rw [htold]
    exact head?_reports _ (hresult.symm.trans hf)
  · obtain ⟨n, rfl⟩ := Option.isSome_iff_exists.mp hslots
    obtain ⟨limit, hr, -⟩ := Action.eq_throttled concurrent
    have hphrased := hnarrative.phrased limit cs
      ((Chronicle.runnerOf?_eq hch).trans (congrArg some hr))
    exact hphrased.story hch concurrent hst hlen

end World

/-! One child asks to skip the remainder, and the one beside it panics all the same. -/

/-- Two leaves with a slot each; the first asks to skip the remainder, and the second panics. -/
def Action.skipAndPanic : Action :=
  .throttled .two [.leaf .function "first" (.finish (.failed .skipRemainder)),
    .panicking "second" "bad"]

/-- Both leaves were told of when they were admitted, and the first report is what the run gives
back. -/
theorem World.events_tell_skipAndPanic :
    let w := ((((opening ⟨default, 0⟩ .skipAndPanic).take .root).take (.task 0 [])).take
      (.task 1 [])).take .root
    .finished (.ofResult (some (.panicked "second" "bad"))) ∈ w.store.marks 0 ∧
      told "conflux.throttled.admit" (w.store.marks 0) =
        [.throttledAdmit 0 "first", .throttledAdmit 1 "second"] ∧
      ∃ name, (told "conflux.child.failed" (w.store.marks 0)).head? =
        some (.childFailed "throttled" name (Failure.panicked "second" "bad").message) := by
  intro w
  have hreturned : .finished (.ofResult (some (.panicked "second" "bad"))) ∈ w.store.marks 0 :=
    List.mem_of_getElem? (i := 13) rfl
  have hleads : Leads (opening ⟨default, 0⟩ .skipAndPanic) w :=
    .step (.step (.step (.step .refl (.turn .root rfl)) (.turn (.task 0 []) rfl))
      (.turn (.task 1 []) rfl)) (.turn .root rfl)
  have hrun : w.HasRun 0 .skipAndPanic :=
    ⟨_, _, _, opening_opens ⟨default, 0⟩ .skipAndPanic, hleads, Nat.zero_le 0,
      List.mem_of_getElem? (i := 0) rfl⟩
  have hconcurrent : Action.skipAndPanic.dispatch? = some (some 2, _) := rfl
  obtain ⟨exits, -, -, -, -, hfirst, hstory⟩ := events_tell hrun hconcurrent hreturned
  obtain ⟨c, -, hhead⟩ := hfirst _ rfl
  exact ⟨hreturned, (hstory rfl).admitted, c.name, hhead⟩

end Workflow
