import Workflow.Proofs.Frame

/-!
# Actions that end in their first turn

What happens outside takes no notice of the log of calls (`World.Befalls.endedWith`).  An action
that in its first turn does nothing but write to it and end can be run in one way only, before,
between or after other things: **`World.EndsWith.course`**.  Recording actions that do not wait are
such actions, so that they are order-free (`Recording.orderFree`), and those of them that look at
their context honour its cancellation (`Recording.honours`).

An action that waits to be cancelled (`Action.waiting`) ends in its first turn or not at all, unless
somebody cancels its context.
-/

namespace Workflow

open Store

/-! ## The log of calls -/

/-- The store in which the log of calls has changed. -/
def Store.counting (g : CallLog → CallLog) (s : Store) : Store :=
  { s with calls := g s.calls }

lemma Store.suffer_counting (g : CallLog → CallLog) (s : Store) (d : Deed) :
    (s.counting g).suffer d = (s.suffer d).counting g := by
  cases d with
  | cancel | disown => rfl
  | settle cell how =>
      simp only [suffer, settle, counting]
      cases s.cells[cell]? with
      | none => rfl
      | some c =>
          dsimp only
          split
          · dsimp only
            split <;> rfl
          · rfl

namespace World

variable {o : Outside} {env env' : Env} {w w' v z : World} {a : Action} {x : Exit}
  {g : CallLog → CallLog}

/-- The world in which the log of calls has changed and the run has come to an end. -/
def endedWith (w : World) (g : CallLog → CallLog) (x : Exit) : World :=
  { w with store := w.store.counting g, root := .ended x }

lemma Befalls.endedWith (h : w.Befalls v) (g : CallLog → CallLog) (x : Exit) :
    (w.endedWith g x).Befalls (v.endedWith g x) := by
  cases h with
  | timer t running due => exact .timer t running due
  | appointment place y hy due =>
      have := Befalls.appointment (w := w.endedWith g x) place y hy due
      rw [show (w.endedWith g x).store = w.store.counting g from rfl, suffer_counting] at this
      exact this

lemma Befalls.of_endedWith (h : (w.endedWith g x).Befalls v) :
    ∃ u, w.Befalls u ∧ v = u.endedWith g x := by
  cases h with
  | timer t running due => exact ⟨_, .timer t running due, rfl⟩
  | appointment place y hy due =>
      refine ⟨_, .appointment place y hy due, ?_⟩
      rw [show (w.endedWith g x).store = w.store.counting g from rfl, suffer_counting]
      rfl

lemma Settles.endedWith (h : w.Settles v) (g : CallLog → CallLog) (x : Exit) :
    (w.endedWith g x).Settles (v.endedWith g x) := by
  induction h with
  | refl => exact .refl
  | tail _ h ih => exact ih.tail (h.endedWith g x)

/-! ## Prompt ends -/

/-- In the first turn of the action, whatever happens outside before it, the log of calls changes as
given, and the action ends. -/
def EndsWith (w : World) (env : Env) (a : Action) (g : CallLog → CallLog) (x : Exit) : Prop :=
  ∀ z, w.Settles z → a.start env z.store = (z.store.counting g, .ended x)

lemma EndsWith.firstTurn (prompt : w.EndsWith env a g x) (settles : w.Settles z) :
    (z.stage env a).take .root = z.endedWith g x := by
  simp only [take, pollRoot, stage, prompt z settles]
  rfl

/-- After it nothing goes on but what happens outside. -/
lemma course_endedWith (alone : w.orphans = []) {c : Context}
    (course : Course o c (w.endedWith g x) v) : ∃ z, w.Settles z ∧ v = z.endedWith g x := by
  induction course with
  | refl => exact ⟨w, .refl, rfl⟩
  | tail _ goes ih =>
      obtain ⟨z, hz, rfl⟩ := ih
      cases goes with
      | tick running => cases running
      | turn t ready =>
          have halone : (z.endedWith g x).orphans = [] := hz.beside.orphans.trans alone
          rcases ready_cases ready halone with rfl | ⟨index, path, rfl⟩ | hb
          · cases ready
          · cases ready
          · obtain ⟨z', hz', heq⟩ := hb.of_endedWith
            exact ⟨z', hz.tail hz', heq⟩

/-- It cannot be run in any other way. -/
lemma EndsWith.course (prompt : w.EndsWith env a g x) (alone : w.orphans = []) {c : Context}
    (course : Course o c (w.stage env a) v) :
    ∃ z, w.Settles z ∧ (v = z.stage env a ∨ v = z.endedWith g x) := by
  obtain ⟨z, hz, hv | hv⟩ := course.of_stage alone
  · exact ⟨z, hz, .inl hv⟩
  · rw [prompt.firstTurn hz] at hv
    obtain ⟨z', hz', heq⟩ := course_endedWith (hz.beside.orphans.trans alone) hv
    exact ⟨z', hz.trans hz', .inr heq⟩

/-- It can always be run to its end. -/
lemma EndsWith.exists_settled (prompt : w.EndsWith env a g x) (alone : w.orphans = []) {c : Context}
    (course : Course o c (w.stage env a) v) : ∃ f, Course o c v f ∧ f.Settled x := by
  obtain ⟨z, hz, hv⟩ := prompt.course alone course
  obtain ⟨z', hz', still⟩ := exists_settles z
  refine ⟨z'.endedWith g x, ?_, rfl, still.timers, still.agenda⟩
  have hrest : Course o c (z.endedWith g x) (z'.endedWith g x) := (hz'.endedWith g x).course
  rcases hv with rfl | rfl
  · refine hrest.head ?_
    rw [← prompt.firstTurn hz]
    exact .turn .root rfl
  · exact hrest

/-- When the run is over and nothing is due outside, the world looks as if nothing had gone on but
what happens outside. -/
lemma EndsWith.settled (prompt : w.EndsWith env a g x) (alone : w.orphans = []) {c : Context}
    (course : Course o c (w.stage env a) v) {y : Exit} (settled : v.Settled y) :
    y = x ∧ ∃ z, w.Settles z ∧ z.IsStill ∧ v = z.endedWith g x := by
  obtain ⟨z, hz, rfl | rfl⟩ := prompt.course alone course
  · cases settled.1
  · cases settled.1
    exact ⟨rfl, z, hz, ⟨settled.2.timers, settled.2.agenda⟩, rfl⟩

/-- In worlds that come to look alike it ends alike. -/
theorem EndsWith.agree (prompt : w.EndsWith env a g x) (prompt' : w'.EndsWith env' a g x)
    (alone : w.orphans = []) (alone' : w'.orphans = []) (alike : Matches env w env' w')
    (same : ∀ l l' : CallLog, l.calls = l'.calls → (g l).calls = (g l').calls) {c c' : Context}
    {y y' : Exit} {f f' : World} (course : Course o c (w.stage env a) f) (settled : f.Settled y)
    (course' : Course o c' (w'.stage env' a) f') (settled' : f'.Settled y') :
    y' = y ∧ Alike env f env' f' := by
  obtain ⟨rfl, z, hz, still, rfl⟩ := prompt.settled alone course settled
  obtain ⟨rfl, z', hz', still', rfl⟩ := prompt'.settled alone' course' settled'
  have h := alike z z' hz still hz' still'
  exact ⟨rfl, h.clock, h.cells, h.log, same _ _ h.calls, h.state, h.cancelled, h.deadline, h.agenda⟩

/-- Whether a live context counts as cancelled is the same in worlds that come to look alike. -/
lemma Matches.isCancelled_eq (alike : Matches env w env' w') (live : w.IsLive o env.context)
    (live' : w'.IsLive o env'.context) :
    w'.store.isCancelled env'.context = w.store.isCancelled env.context := by
  obtain ⟨z, hz, still⟩ := exists_settles w
  obtain ⟨z', hz', still'⟩ := exists_settles w'
  have h := alike z z' hz still hz' still'
  have hclock : w'.store.contexts.clock = w.store.contexts.clock :=
    hz'.beside.clock.symm.trans (h.clock.symm.trans hz.beside.clock)
  have htoken : w.store.contexts.isTokenCancelled env.context.token = false := live.token
  have htoken' : w'.store.contexts.isTokenCancelled env'.context.token = false := live'.token
  rw [Store.isCancelled, Store.isCancelled, Contexts.isCancelled, Contexts.isCancelled, htoken,
    htoken', Contexts.isPast, Contexts.isPast, hclock, h.deadline]

/-- Nothing outside makes a live context count as cancelled before time moves. -/
lemma Suits.isCancelled_eq (suits : w.Suits o env) (live : w.IsLive o env.context)
    (settles : w.Settles z) :
    z.store.isCancelled env.context = w.store.isCancelled env.context := by
  have hclock : z.store.contexts.clock = w.store.contexts.clock := settles.beside.clock
  have htoken : w.store.contexts.isTokenCancelled env.context.token = false := live.token
  have htoken' : z.store.contexts.isTokenCancelled env.context.token = false :=
    (live.settles suits settles).token
  rw [Store.isCancelled, Store.isCancelled, Contexts.isCancelled, Contexts.isCancelled, htoken,
    htoken', Contexts.isPast, Contexts.isPast, hclock]

end World

/-- An action that ends in its first turn when its context is cancelled, with nothing to show for
it, honours cancellation. -/
theorem Action.honours_of_start {o : Outside} {a : Action} {g : CallLog → CallLog}
    (same : ∀ l, (g l).calls = l.calls)
    (prompt : ∀ (env : Env) (s : Store), s.isCancelled env.context = true →
      a.start env s = (s.counting g, .ended .done)) : a.Honours o := by
  intro w env suits cancelled v reach
  have hends : w.EndsWith env a g .done := fun z hz =>
    prompt env z.store (hz.beside.isCancelled cancelled)
  obtain ⟨z, hz, rfl | hv⟩ := reach.of_stage suits.alone
  · refine ⟨⟨.done, _, .step .refl (.turn .root rfl), ?_⟩, fun x hx => by cases hx⟩
    rw [hends.firstTurn hz]
    rfl
  · rw [hends.firstTurn hz] at hv
    have halone : z.orphans = [] := hz.beside.orphans.trans suits.alone
    have hroot : v.root = .ended .done := hv.root_eq rfl
    obtain ⟨hlog, hcalls, hstates, -⟩ := hv.still rfl halone
    have hbeside := hz.beside
    refine ⟨⟨.done, v, .refl, hroot⟩, fun x hx => ⟨?_, ?_, ?_, ?_⟩⟩
    · rw [hroot] at hx
      cases hx
      rfl
    · exact hlog.trans hbeside.log
    · rw [hcalls]
      exact (same _).trans (congrArg CallLog.calls hbeside.calls)
    · rw [Store.stateOf, Store.stateOf, hstates]
      exact congrArg (·.getD env.state .empty) hbeside.states

/-- An action that always ends in its first turn can always be run to its end. -/
theorem Action.returns_of_start {a : Action}
    (prompt : ∀ (env : Env) (s : Store), ∃ s' x, a.start env s = (s', .ended x)) (o : Outside) :
    a.Returns o := by
  intro w env suits v reach
  obtain ⟨z, hz, hv⟩ := reach.of_stage suits.alone
  obtain ⟨s', x, hstart⟩ := prompt env z.store
  have htake : ((z.stage env a).take .root).root = .ended x := by
    simp only [World.take, World.pollRoot, World.stage, hstart]
    rfl
  rcases hv with rfl | hv
  · exact ⟨x, _, .step .refl (.turn .root rfl), htake⟩
  · exact ⟨x, v, .refl, (hv.root_eq (by rw [htake]; rfl)).trans htake⟩

/-! ## Bodies that never panic -/

/-- Wherever the body ends, and whatever it was told until then, it does not panic.  It runs no
action that could. -/
inductive Body.IsCalm : Body → Prop where
  | finish {e : Exit} (calm : ∀ payload, e ≠ .panicked payload) : IsCalm (.finish e)
  | ask {e : Effect} {next : e.Reply → Body} (next' : ∀ reply, IsCalm (next reply)) :
      IsCalm (.ask e next)
  | giveWay {next : Body} (next' : IsCalm next) : IsCalm (.giveWay next)
  | guard {g : Guard} {next : Body} (next' : IsCalm next) : IsCalm (.guard g next)

/-- The root is a leaf with such a body, or has ended without a panic. -/
def Root.IsCalm : Root → Prop
  | .unstarted _ a => ∃ kind name b, a = .leaf kind name b ∧ b.IsCalm
  | .running p => ∃ env guards b, p = .leaf env guards b ∧ b.IsCalm
  | .ended x => ∀ payload, x ≠ .panicked payload
  | .dropped => True

lemma Body.IsCalm.resume {b : Body} (calm : b.IsCalm) (env : Env) (guards : List Guard)
    (s : Store) : (Root.ofProgress (b.resume env guards s).2).IsCalm := by
  induction calm generalizing guards s with
  | finish calm =>
      rw [Body.resume]
      exact calm
  | @ask e next calm ih =>
      rw [Body.resume]
      cases s.perform? env e with
      | none => exact ⟨env, guards, _, rfl, .ask calm⟩
      | some granted => exact ih granted.1 guards granted.2
  | giveWay calm =>
      rw [Body.resume]
      exact ⟨env, guards, _, rfl, calm⟩
  | guard calm ih =>
      rw [Body.resume]
      exact ih _ _

lemma World.isCalm_pollRoot {w : World} (calm : w.root.IsCalm) : (w.take .root).root.IsCalm := by
  simp only [World.take, World.pollRoot]
  cases hroot : w.root with
  | unstarted env a =>
      rw [hroot] at calm
      obtain ⟨kind, name, b, rfl, calm⟩ := calm
      obtain ⟨own, s, -, -, -, hstart⟩ := Action.start_leaf env w.store kind name b
      simp only [hstart]
      exact calm.resume own [] s
  | running p =>
      rw [hroot] at calm
      obtain ⟨env, guards, b, rfl, calm⟩ := calm
      simp only [Proc.resume]
      exact calm.resume env guards w.store
  | ended | dropped => exact calm

/-- A leaf with such a body never panics. -/
theorem Body.IsCalm.action {b : Body} (calm : b.IsCalm) (kind : LeafKind) (name : String)
    (o : Outside) : (Action.leaf kind name b).Calm o := by
  intro w env suits v reach
  have hcalm : v.root.IsCalm := by
    induction reach with
    | refl => exact ⟨kind, name, b, rfl, calm⟩
    | @step v z before step ih =>
        cases step with
        | tick quiet next => exact ih
        | turn t ready =>
            rcases World.ready_cases ready (suits.reachable before).1.alone with
              rfl | ⟨index, path, rfl⟩ | hb
            · exact World.isCalm_pollRoot ih
            · -- A leaf has no tasks.
              simp only [World.isReady] at ready
              cases hroot : v.root with
              | running p =>
                  rw [hroot] at ih
                  obtain ⟨env', guards, b', rfl, -⟩ := ih
                  simp [hroot, Proc.isReadyAt] at ready
              | unstarted | ended | dropped => simp [hroot] at ready
            · rw [hb.root_eq]
              exact ih
  intro payload hended
  rw [hended] at hcalm
  exact hcalm payload rfl

/-! ## Recordings -/

namespace Recording

variable {o : Outside} {r : Recording}

/-- Whether the action makes its note. -/
def makesNote (r : Recording) (cancelled : Bool) : Bool :=
  !(r.honorsCancel && cancelled)

/-- What the action makes of the log of calls. -/
def count (r : Recording) (cancelled : Bool) (l : CallLog) : CallLog :=
  (if r.makesNote cancelled then l.enter.record r.name else l.enter).leave

/-- How the action ends. -/
def exitUnder (r : Recording) (cancelled : Bool) : Exit :=
  if r.makesNote cancelled then r.exit else .done

/-- An action that does not wait. -/
lemma start_eq (prompt : r.delay = none) (env : Env) (s : Store) :
    r.action.start env s = (s.counting (r.count (s.isCancelled env.context)),
      .ended (r.exitUnder (s.isCancelled env.context))) := by
  obtain ⟨name, outcome, honors, delay⟩ := r
  subst prompt
  have hasked : ({ s with calls := s.calls.enter } : Store).isCancelled env.context
      = s.isCancelled env.context := rfl
  rw [action, Action.start]
  · cases honors <;> cases h : s.isCancelled env.context <;>
      simp [body, work, Body.resume, perform?, raiseGuard, endGuards, endGuard, Body.succeed,
        counting, count, exitUnder, makesNote, hasked, h]
  · simp

lemma calls_count (r : Recording) (cancelled : Bool) (l : CallLog) :
    (r.count cancelled l).calls =
      if r.makesNote cancelled then l.calls.push r.name else l.calls := by
  unfold count
  split <;> rfl

/-- Recording actions that do not wait are order-free. -/
theorem orderFree (prompt : r.delay = none) (o : Outside) : r.action.OrderFree o := by
  intro w w' env env' suits live suits' live' alike x f course settled
  have hends : w.EndsWith env r.action (r.count (w.store.isCancelled env.context))
      (r.exitUnder (w.store.isCancelled env.context)) := fun z hz => by
    rw [start_eq prompt, suits.isCancelled_eq live hz]
  have hends' : w'.EndsWith env' r.action (r.count (w.store.isCancelled env.context))
      (r.exitUnder (w.store.isCancelled env.context)) := fun z hz => by
    rw [start_eq prompt, suits'.isCancelled_eq live' hz, alike.isCancelled_eq live live']
  refine ⟨fun v hv => ?_, fun x' f' course' settled' => ?_⟩
  · obtain ⟨f', hf', hsettled⟩ := hends'.exists_settled suits'.alone hv
    exact ⟨_, f', hf', hsettled⟩
  · refine hends.agree hends' suits.alone suits'.alone alike (fun l l' h => ?_) course settled
      course' settled'
    rw [calls_count, calls_count, h]

/-- Those that look at their context honour its cancellation. -/
theorem honours (prompt : r.delay = none) (honors : r.honorsCancel = true) (o : Outside) :
    r.action.Honours o := by
  refine Action.honours_of_start (fun l => (?_ : (r.count true l).calls = l.calls)) ?_
  · simp [calls_count, makesNote, honors]
  · intro env s hcancelled
    rw [start_eq prompt, hcancelled]
    simp [exitUnder, makesNote, honors]

theorem returns (prompt : r.delay = none) (o : Outside) : r.action.Returns o :=
  Action.returns_of_start (fun env s => ⟨_, _, start_eq prompt env s⟩) o

lemma isCalm_work (r : Recording) : r.work.IsCalm := by
  have hexit : (Body.finish r.exit).IsCalm := by
    refine .finish fun payload => ?_
    unfold exit
    split <;> simp
  unfold work
  dsimp only
  split
  · refine .ask fun cancelled => ?_
    cases cancelled with
    | false => exact .ask fun _ => hexit
    | true => exact .finish (by simp)
  · exact .ask fun _ => hexit

/-- No recording action panics. -/
theorem calm (r : Recording) (o : Outside) : r.action.Calm o := by
  refine Body.IsCalm.action (.guard ?_) _ _ o
  cases r.delay with
  | none => exact r.isCalm_work
  | some ms => exact .ask fun _ => .ask fun _ => r.isCalm_work

end Recording

/-! ## Waiting -/

/-- An action that waits to be cancelled, unless that has happened already. -/
def Action.waiting (name : String) : Action :=
  .leaf .function name <| .ask .isCancelled fun cancelled =>
    if cancelled then .succeed else .ask .untilCancelled fun _ => .succeed

namespace Action

variable {o : Outside} {env : Env} {w v : World} (name : String)

lemma start_waiting (env : Env) (s : Store) : (waiting name).start env s =
    if s.isCancelled env.context then (s, .ended .done)
    else (s, if s.isTokenCancelled env.context then .ended .done
      else .paused (.leaf env [] (.ask .untilCancelled fun _ => .succeed))) := by
  rw [waiting, Action.start]
  · cases h : s.isCancelled env.context <;> cases h' : s.isTokenCancelled env.context <;>
      simp [Body.resume, perform?, Body.succeed, endGuards, h, h']
  · simp

/-- Under a live context it never ends. -/
lemma course_waiting (suits : w.Suits o env) (live : w.IsLive o env.context)
    (wanted : w.store.isCancelled env.context = false)
    (course : World.Course o env.context (w.stage env (waiting name)) v) :
    v.IsLive o env.context ∧ ((∃ z, w.Settles z ∧ v = z.stage env (waiting name)) ∨
      v.root = .running (.leaf env [] (.ask .untilCancelled fun _ => .succeed))) := by
  induction course with
  | refl => exact ⟨⟨live.token, live.clock⟩, .inl ⟨w, .refl, rfl⟩⟩
  | @tail v u before goes ih =>
      obtain ⟨hlive, hv⟩ := ih
      obtain ⟨hsuits, -⟩ := suits.reachable (World.Course.reachable before)
      cases goes with
      | tick running quiet next spared =>
          rcases hv with ⟨z, -, rfl⟩ | hroot
          · cases quiet .root
          · refine ⟨⟨hlive.token, spared.resolve_left ?_⟩, .inr hroot⟩
            rw [hlive.token]
            simp
      | turn t ready =>
          rcases World.ready_cases ready hsuits.alone with rfl | ⟨index, path, rfl⟩ | hb
          · rcases hv with ⟨z, hz, rfl⟩ | hroot
            · have hcancelled : z.store.isCancelled env.context = false :=
                (suits.isCancelled_eq live hz).trans wanted
              have htoken : z.store.isTokenCancelled env.context = false := hlive.token
              have htake : (z.stage env (waiting name)).take .root = { z with
                  root := .running (.leaf env [] (.ask .untilCancelled fun _ => .succeed)) } := by
                simp only [World.take, World.pollRoot, World.stage, start_waiting, hcancelled,
                  htoken]
                rfl
              rw [htake]
              exact ⟨⟨hlive.token, hlive.clock⟩, .inr rfl⟩
            · simp [World.isReady, hroot, Proc.isReady, Body.isReady, grants, perform?,
                hlive.token] at ready
          · rcases hv with ⟨z, hz, rfl⟩ | hroot
            · cases ready
            · simp [World.isReady, hroot, Proc.isReadyAt] at ready
          · refine ⟨hlive.befalls hsuits hb, ?_⟩
            rcases hv with ⟨z, hz, rfl⟩ | hroot
            · obtain ⟨z', hz', heq⟩ := hb.of_stage
              exact .inl ⟨z', hz.tail hz', heq⟩
            · exact .inr (hb.root_eq.trans hroot)

/-- It is order-free: it ends at once or not at all. -/
theorem orderFree_waiting (o : Outside) : (waiting name).OrderFree o := by
  intro w w' env env' suits live suits' live' alike x f course settled
  cases hcancelled : w.store.isCancelled env.context with
  | false =>
      rcases (course_waiting name suits live hcancelled course).2 with ⟨z, -, rfl⟩ | hroot
      · cases settled.1
      · rw [settled.1] at hroot
        cases hroot
  | true =>
      have hprompt : ∀ {w : World} {env : Env}, w.store.isCancelled env.context = true →
          w.EndsWith env (waiting name) id .done := by
        intro w env hcancelled z hz
        rw [start_waiting, if_pos (hz.beside.isCancelled hcancelled)]
        rfl
      have hends := hprompt hcancelled
      have hends' := hprompt ((alike.isCancelled_eq live live').trans hcancelled)
      refine ⟨fun v hv => ?_, fun x' f' course' settled' => ?_⟩
      · obtain ⟨f', hf', hsettled⟩ := hends'.exists_settled suits'.alone hv
        exact ⟨_, f', hf', hsettled⟩
      · exact hends.agree hends' suits.alone suits'.alone alike (fun _ _ h => h) course settled
          course' settled'

theorem honours_waiting (o : Outside) : (waiting name).Honours o := by
  refine honours_of_start (g := id) (fun _ => rfl) fun env s hcancelled => ?_
  rw [start_waiting, if_pos hcancelled]
  rfl

theorem calm_waiting (o : Outside) : (waiting name).Calm o := by
  refine Body.IsCalm.action (.ask fun cancelled => ?_) _ _ o
  cases cancelled with
  | false => exact .ask fun _ => .finish (by simp)
  | true => exact .finish (by simp)

end Action

end Workflow
