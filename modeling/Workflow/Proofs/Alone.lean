import Mathlib.Logic.Relation
import Workflow.Proofs.Cancellation
import Workflow.Proofs.Cascade

/-!
# Actions on their own

What an action does when it is run as the root of a world, and what it is to say that this does not
depend on the order of turns.

**What happens outside.**  Timers and appointments that are due act between the turns of the run
(`World.Befalls`).  They can always be brought to an end without letting time pass
(`World.exists_settles`); a world where nothing is due outside is still.

**Circumstances.**  `World.Suits` says that a world is one in which actions can be run under `env`
while no more happens outside than an `Outside` allows: its agenda cancels no token of the context,
and no timer behind the context runs out before its horizon.

**Likeness.**  Two worlds are `World.Alike` if an action that is run in them can see no difference,
and `World.Matches` says that they will be when all that is due outside has happened.

**Courses.**  `World.Course` are the steps of a run as long as nothing outside cancels its context,
and then what is due when the run is over.  An action is *order-free* (`Action.OrderFree`) if, in
all circumstances, a course of it that comes to an end decides how all others end, there and in
worlds that come to look alike.  It *honours* cancellation (`Action.Honours`) if under a cancelled
context it always succeeds and leaves the logs and the run state alone, it is *calm*
(`Action.Calm`) if it never panics, and it *returns* (`Action.Returns`) if it can always be run to
its end.
-/

namespace Workflow

open Store

/-- What may happen outside a run. -/
structure Outside where
  /-- All that may be on the agenda. -/
  agenda : List Appointment := []
  /-- The time before which no timer behind the context of the run runs out. -/
  horizon : Option Nat := none

/-- The time lies before the horizon. -/
def Outside.Before (o : Outside) (time : Nat) : Prop :=
  ∀ h ∈ o.horizon, time < h

namespace World

variable {w v z : World} {o : Outside} {env env' : Env} {a : Action}

/-- The world in which an action is to be run. -/
def stage (w : World) (env : Env) (a : Action) : World :=
  { w with root := .unstarted env a }

/-! ## What happens outside -/

/-- Something that is due outside happens. -/
inductive Befalls (w : World) : World → Prop where
  | timer (t : Timer) (running : t ∈ w.store.contexts.timers)
      (due : w.store.contexts.isDue t = true) :
      Befalls w { w with store := w.store.withContexts (w.store.contexts.fire t) }
  | appointment (place : Nat) (x : Appointment) (hx : w.agenda[place]? = some x)
      (due : x.time ≤ w.store.clock) :
      Befalls w { w with store := w.store.suffer x.deed, agenda := w.agenda.eraseIdx place }

/-- Things that are due outside happen, one after another. -/
def Settles : World → World → Prop :=
  Relation.ReflTransGen Befalls

/-- Nothing is due outside. -/
structure IsStill (w : World) : Prop where
  timers : ∀ t ∈ w.store.contexts.timers, w.store.contexts.isDue t = false
  agenda : ∀ x ∈ w.agenda, w.store.clock < x.time

lemma Befalls.exists_turn (h : w.Befalls v) :
    ∃ t : Turn, t.isTask = false ∧ w.isReady t = true ∧ v = w.take t := by
  cases h with
  | timer t running due =>
      exact ⟨.timer t, rfl, by simp [isReady, running, due], rfl⟩
  | appointment place x hx due =>
      exact ⟨.appointment place, rfl, by simp [isReady, hx, due], by simp [take, hx]⟩

lemma Befalls.of_turn {t : Turn} (outside : t.isTask = false) (ready : w.isReady t = true) :
    w.Befalls (w.take t) := by
  cases t with
  | timer t =>
      simp only [isReady, Bool.and_eq_true, List.contains_iff_mem] at ready
      exact .timer t ready.1 ready.2
  | appointment place =>
      cases hx : w.agenda[place]? with
      | none => simp [isReady, hx] at ready
      | some x =>
          simp only [take, hx]
          exact .appointment place x hx (by simpa [isReady, hx] using ready)
  | root | task | orphan | orphanTask => cases outside

/-- Without orphans only the root and its tasks have turns, and what is outside. -/
lemma ready_cases {t : Turn} (ready : w.isReady t = true) (alone : w.orphans = []) :
    t = .root ∨ (∃ index path, t = .task index path) ∨ w.Befalls (w.take t) := by
  cases t with
  | root => exact .inl rfl
  | task index path => exact .inr (.inl ⟨index, path, rfl⟩)
  | orphan place => simp [isReady, alone] at ready
  | orphanTask place index path => simp [isReady, alone] at ready
  | timer | appointment => exact .inr (.inr (.of_turn rfl ready))

/-- The root takes no part in what happens outside. -/
lemma Befalls.withRoot (h : w.Befalls v) (root : Root) :
    ({ w with root } : World).Befalls { v with root } := by
  cases h with
  | timer t running due => exact .timer t running due
  | appointment place x hx due => exact .appointment place x hx due

lemma Settles.withRoot (h : w.Settles v) (root : Root) :
    ({ w with root } : World).Settles { v with root } := by
  induction h with
  | refl => exact .refl
  | tail _ h ih => exact ih.tail (h.withRoot root)

lemma Befalls.root_eq (h : w.Befalls v) : v.root = w.root := by
  cases h <;> rfl

lemma Settles.root_eq (h : w.Settles v) : v.root = w.root := by
  induction h with
  | refl => rfl
  | tail _ h ih => exact h.root_eq.trans ih

/-- What happens outside changes nothing but cells, timers and tokens. -/
structure Beside (w v : World) : Prop where
  clock : v.store.clock = w.store.clock
  log : v.store.log = w.store.log
  calls : v.store.calls = w.store.calls
  states : v.store.states = w.store.states
  isOpen : v.store.closed = w.store.closed
  runs : v.store.runs = w.store.runs
  supply : v.store.contexts.supply = w.store.contexts.supply
  held : v.store.contexts.held = w.store.contexts.held
  orphans : v.orphans = w.orphans
  timers : ∀ t ∈ v.store.contexts.timers, t ∈ w.store.contexts.timers
  cancelled : ∀ n ∈ w.store.contexts.cancelled, n ∈ v.store.contexts.cancelled
  agenda : ∀ x ∈ v.agenda, x ∈ w.agenda

lemma Beside.refl (w : World) : w.Beside w :=
  ⟨rfl, rfl, rfl, rfl, rfl, rfl, rfl, rfl, rfl, fun _ h => h, fun _ h => h, fun _ h => h⟩

lemma Beside.trans (h : w.Beside v) (h' : v.Beside z) : w.Beside z where
  clock := h'.clock.trans h.clock
  log := h'.log.trans h.log
  calls := h'.calls.trans h.calls
  states := h'.states.trans h.states
  isOpen := h'.isOpen.trans h.isOpen
  runs := h'.runs.trans h.runs
  supply := h'.supply.trans h.supply
  held := h'.held.trans h.held
  orphans := h'.orphans.trans h.orphans
  timers t ht := h.timers t (h'.timers t ht)
  cancelled n hn := h'.cancelled n (h.cancelled n hn)
  agenda x hx := h.agenda x (h'.agenda x hx)

lemma Beside.stateOf (h : w.Beside v) (number : Nat) :
    v.store.stateOf number = w.store.stateOf number := by
  rw [Store.stateOf, Store.stateOf, h.states]

lemma Befalls.beside (h : w.Befalls v) : w.Beside v := by
  cases h with
  | timer t running due =>
      have hfire : (w.store.contexts.fire t).supply = w.store.contexts.supply ∧
          (w.store.contexts.fire t).held = w.store.contexts.held ∧
          (∀ u ∈ (w.store.contexts.fire t).timers, u ∈ w.store.contexts.timers) ∧
          ∀ n ∈ w.store.contexts.cancelled, n ∈ (w.store.contexts.fire t).cancelled := by
        unfold Contexts.fire
        dsimp only
        split_ifs
        · exact ⟨rfl, rfl, fun _ => List.mem_of_mem_filter, fun _ h => h⟩
        · exact ⟨rfl, rfl, fun _ => List.mem_of_mem_filter, fun _ => List.mem_cons_of_mem _⟩
      exact ⟨Contexts.clock_fire _ _, rfl, rfl, rfl, rfl, rfl, hfire.1, hfire.2.1, rfl, hfire.2.2.1,
        hfire.2.2.2, fun _ h => h⟩
  | appointment place x hx due =>
      have hagenda : ∀ y ∈ w.agenda.eraseIdx place, y ∈ w.agenda :=
        fun _ => List.mem_of_mem_eraseIdx
      obtain ⟨number, time, deed⟩ := x
      cases deed with
      | cancel c =>
          exact ⟨rfl, rfl, rfl, rfl, rfl, rfl, rfl, rfl, rfl, fun _ h => h,
            fun _ => List.mem_cons_of_mem _, hagenda⟩
      | disown cell =>
          exact ⟨rfl, rfl, rfl, rfl, rfl, rfl, rfl, rfl, rfl, fun _ h => h, fun _ h => h, hagenda⟩
      | settle cell how =>
          have hcontexts := contexts_settle w.store cell how
          obtain ⟨hlog, hcalls, hstates⟩ := Store.suffer_eq w.store (.settle cell how)
          have hruns := sameRuns_suffer w.store (.settle cell how)
          refine ⟨congrArg Contexts.clock hcontexts, hlog, hcalls, hstates, hruns.closed,
            hruns.runs, congrArg Contexts.supply hcontexts, congrArg Contexts.held hcontexts, rfl,
            ?_, ?_, hagenda⟩
          · intro t ht
            exact congrArg Contexts.timers hcontexts ▸ ht
          · intro n hn
            exact (congrArg Contexts.cancelled hcontexts).symm ▸ hn

lemma Settles.beside (h : w.Settles v) : w.Beside v := by
  induction h with
  | refl => exact .refl w
  | tail _ h ih => exact ih.trans h.beside

/-- Each thing that happens outside is one less to happen. -/
lemma Befalls.remaining_lt (h : w.Befalls v) :
    v.store.contexts.timers.length + v.agenda.length
      < w.store.contexts.timers.length + w.agenda.length := by
  cases h with
  | timer t running due =>
      have htimers : (w.store.contexts.fire t).timers
          = w.store.contexts.timers.filter fun u => u != t := by
        unfold Contexts.fire
        dsimp only
        split_ifs <;> rfl
      have hlt : (w.store.contexts.fire t).timers.length < w.store.contexts.timers.length := by
        rw [htimers]
        exact List.length_filter_lt_length_iff_exists.mpr ⟨t, running, by simp⟩
      exact Nat.add_lt_add_right hlt _
  | appointment place x hx due =>
      have htimers : (w.store.suffer x.deed).contexts.timers = w.store.contexts.timers := by
        cases x.deed with
        | cancel | disown => rfl
        | settle cell how => exact congrArg Contexts.timers (contexts_settle w.store cell how)
      have hlt : place < w.agenda.length := (List.getElem?_eq_some_iff.mp hx).1
      dsimp only
      rw [htimers, List.length_eraseIdx_of_lt hlt]
      omega

lemma exists_befalls (h : ¬ w.IsStill) : ∃ v, w.Befalls v := by
  by_cases htimer : ∃ t ∈ w.store.contexts.timers, w.store.contexts.isDue t = true
  · obtain ⟨t, ht, due⟩ := htimer
    exact ⟨_, .timer t ht due⟩
  · obtain ⟨x, hx, due⟩ : ∃ x ∈ w.agenda, x.time ≤ w.store.clock := by
      by_contra hnone
      exact h ⟨fun t ht => Bool.eq_false_iff.mpr fun due => htimer ⟨t, ht, due⟩,
        fun x hx => Nat.lt_of_not_le fun due => hnone ⟨x, hx, due⟩⟩
    obtain ⟨place, hplace⟩ := List.mem_iff_getElem?.mp hx
    exact ⟨_, .appointment place x hplace due⟩

/-- What is due outside comes to an end. -/
theorem exists_settles (w : World) : ∃ v, w.Settles v ∧ v.IsStill := by
  induction hn : w.store.contexts.timers.length + w.agenda.length using Nat.strongRecOn
    generalizing w with
  | ind n ih =>
    by_cases still : w.IsStill
    · exact ⟨w, .refl, still⟩
    · obtain ⟨v, hv⟩ := exists_befalls still
      obtain ⟨z, hz, hstill⟩ := ih _ (hn ▸ hv.remaining_lt) v rfl
      exact ⟨z, hz.head hv, hstill⟩

/-! ## Circumstances -/

/-- Actions can be run in the world under `env`, and while they are, nothing happens outside that
`o` does not allow. -/
structure Suits (w : World) (o : Outside) (env : Env) : Prop where
  hosts : w.Hosts env.context
  kept_lt : ∀ h ∈ w.store.contexts.held, ∀ n ∈ h.2.timers, n < w.store.contexts.supply
  alone : w.orphans = []
  isOpen : w.store.closed = false
  state_lt : env.state < w.store.states.length
  agenda : ∀ x ∈ w.agenda, x ∈ o.agenda
  /-- Nobody outside cancels the context by its name. -/
  spared : ∀ x ∈ w.agenda, ∀ c, x.deed = .cancel c → c.token.number ∉ env.context.token.path
  /-- No timer behind the context runs out before the horizon. -/
  timers : w.store.isTokenCancelled env.context = false →
    ∀ t ∈ w.store.contexts.timers, t.token.number ∈ env.context.token.path →
      ∃ h ∈ o.horizon, h ≤ t.deadline

/-- The context is not cancelled, and the horizon not reached. -/
structure IsLive (w : World) (o : Outside) (c : Context) : Prop where
  token : w.store.isTokenCancelled c = false
  clock : o.Before w.store.clock

lemma Beside.isTokenCancelled (h : w.Beside v) {c : Context}
    (cancelled : w.store.isTokenCancelled c = true) : v.store.isTokenCancelled c = true :=
  Contexts.isTokenCancelled_mono h.cancelled cancelled

lemma Beside.isCancelled (h : w.Beside v) {c : Context} (cancelled : w.store.isCancelled c = true) :
    v.store.isCancelled c = true :=
  Contexts.isCancelled_mono h.clock.ge h.cancelled cancelled

lemma mem_cancelled_suffer {s : Store} {d : Deed} {n : Nat} :
    n ∈ (s.suffer d).contexts.cancelled ↔
      n ∈ s.contexts.cancelled ∨ ∃ c, d = .cancel c ∧ n = c.token.number := by
  cases d with
  | cancel c =>
      change n ∈ c.token.number :: s.contexts.cancelled ↔ _
      simp [or_comm]
  | disown cell =>
      change n ∈ s.contexts.cancelled ↔ _
      simp
  | settle cell how => simp [Store.suffer, contexts_settle]

lemma Suits.befalls (suits : w.Suits o env) (h : w.Befalls v) : v.Suits o env := by
  have hb := h.beside
  have hcancelled : ∀ n ∈ v.store.contexts.cancelled, n < w.store.contexts.supply := by
    intro n hn
    cases h with
    | timer t running due =>
        rcases Contexts.mem_cancelled_fire.mp hn with hn | ⟨rfl, -⟩
        · exact suits.hosts.cancelled_lt n hn
        · exact suits.hosts.running_lt t running
    | appointment place x hx due =>
        rcases mem_cancelled_suffer.mp hn with hn | ⟨c, hdeed, rfl⟩
        · exact suits.hosts.cancelled_lt n hn
        · exact suits.hosts.agenda_lt x (List.mem_of_getElem? hx) c hdeed
  refine ⟨⟨?_, ?_, ?_, ?_, ?_, ?_⟩, ?_, hb.orphans.trans suits.alone, hb.isOpen.trans suits.isOpen,
    ?_, fun x hx => suits.agenda x (hb.agenda x hx),
    fun x hx => suits.spared x (hb.agenda x hx), ?_⟩
  · rw [hb.supply]; exact suits.hosts.path_lt
  · rw [hb.held]; exact suits.hosts.kept
  · rw [hb.held, hb.supply]; exact suits.hosts.held_lt
  · rw [hb.supply]; exact fun t ht => suits.hosts.running_lt t (hb.timers t ht)
  · rw [hb.supply]; exact hcancelled
  · rw [hb.supply]; exact fun x hx => suits.hosts.agenda_lt x (hb.agenda x hx)
  · rw [hb.held, hb.supply]; exact suits.kept_lt
  · rw [hb.states]; exact suits.state_lt
  · intro live t ht
    exact suits.timers (Contexts.isTokenCancelled_eq_false_of_grown hb.cancelled live) t
      (hb.timers t ht)

lemma Suits.settles (suits : w.Suits o env) (h : w.Settles v) : v.Suits o env := by
  induction h with
  | refl => exact suits
  | tail _ h ih => exact ih.befalls h

/-- Before the horizon nothing outside cancels the context. -/
lemma IsLive.befalls (live : w.IsLive o env.context) (suits : w.Suits o env) (h : w.Befalls v) :
    v.IsLive o env.context := by
  refine ⟨?_, by rw [h.beside.clock]; exact live.clock⟩
  have hold : ∀ n ∈ env.context.token.path, n ∉ w.store.contexts.cancelled := by
    intro n hn hmem
    have := live.token
    rw [show w.store.isTokenCancelled env.context = true from
      Contexts.isTokenCancelled_iff.mpr ⟨n, hn, hmem⟩] at this
    cases this
  refine Bool.eq_false_iff.mpr fun hcancelled => ?_
  obtain ⟨n, hn, hmem⟩ := Contexts.isTokenCancelled_iff.mp hcancelled
  cases h with
  | timer t running due =>
      rcases Contexts.mem_cancelled_fire.mp hmem with hmem | ⟨rfl, hfresh⟩
      · exact hold n hn hmem
      · obtain ⟨h, hh, hle⟩ := suits.timers live.token t running hn
        have hlt : w.store.contexts.clock < h := live.clock h hh
        simp only [Contexts.isDue, hfresh, Bool.or_false, decide_eq_true_eq] at due
        omega
  | appointment place x hx due =>
      rcases mem_cancelled_suffer.mp hmem with hmem | ⟨c, hdeed, rfl⟩
      · exact hold n hn hmem
      · exact suits.spared x (List.mem_of_getElem? hx) c hdeed hn

lemma IsLive.settles (live : w.IsLive o env.context) (suits : w.Suits o env) (h : w.Settles v) :
    v.IsLive o env.context := by
  induction h with
  | refl => exact live
  | tail before h ih => exact ih.befalls (suits.settles before) h

/-! ## What actions can see -/

/-- The worlds look alike to actions that are run under `env` in the one and `env'` in the other. -/
structure Alike (env : Env) (w : World) (env' : Env) (w' : World) : Prop where
  clock : w.store.clock = w'.store.clock
  cells : w.store.cells = w'.store.cells
  log : w.store.log = w'.store.log
  calls : w.store.calls.calls = w'.store.calls.calls
  state : w.store.stateOf env.state = w'.store.stateOf env'.state
  cancelled : w.store.isTokenCancelled env.context = w'.store.isTokenCancelled env'.context
  deadline : env.context.deadline = env'.context.deadline
  agenda : w.agenda = w'.agenda

lemma Alike.symm (h : Alike env w env' v) : Alike env' v env w :=
  ⟨h.clock.symm, h.cells.symm, h.log.symm, h.calls.symm, h.state.symm, h.cancelled.symm,
    h.deadline.symm, h.agenda.symm⟩

lemma Alike.trans {env'' : Env} (h : Alike env w env' v) (h' : Alike env' v env'' z) :
    Alike env w env'' z :=
  ⟨h.clock.trans h'.clock, h.cells.trans h'.cells, h.log.trans h'.log, h.calls.trans h'.calls,
    h.state.trans h'.state, h.cancelled.trans h'.cancelled, h.deadline.trans h'.deadline,
    h.agenda.trans h'.agenda⟩

/-- Whatever is due outside the two worlds, and in whatever order it happens, they look alike when
it has. -/
def Matches (env : Env) (w : World) (env' : Env) (w' : World) : Prop :=
  ∀ z z', w.Settles z → z.IsStill → w'.Settles z' → z'.IsStill → Alike env z env' z'

lemma Matches.symm {w' : World} (h : Matches env w env' w') : Matches env' w' env w :=
  fun z z' hz still hz' still' => (h z' z hz' still' hz still).symm

/-- Where nothing is due outside, nothing happens there. -/
lemma IsStill.not_befalls (still : w.IsStill) : ¬ w.Befalls v := by
  rintro (⟨t, running, due⟩ | ⟨place, x, hx, due⟩)
  · rw [still.timers t running] at due
    cases due
  · have := still.agenda x (List.mem_of_getElem? hx)
    omega

/-- As long as nothing on the agenda is due, it makes no difference in what order timers run out. -/
lemma Suits.matches_self (suits : w.Suits o env) (clock : o.Before w.store.clock)
    (undue : ∀ x ∈ w.agenda, w.store.clock < x.time) : Matches env w env w := by
  have hsame : ∀ {z}, w.Settles z → z.store.cells = w.store.cells ∧ z.agenda = w.agenda := by
    intro z hz
    induction hz with
    | refl => exact ⟨rfl, rfl⟩
    | tail before hb ih =>
        cases hb with
        | timer t running due => exact ih
        | appointment place x hx due =>
            have hlt := undue x (ih.2 ▸ List.mem_of_getElem? hx)
            rw [(Settles.beside before).clock] at due
            omega
  intro z z' hz _ hz' _
  have hcancelled :
      z.store.isTokenCancelled env.context = z'.store.isTokenCancelled env.context := by
    cases hw : w.store.isTokenCancelled env.context with
    | true => rw [hz.beside.isTokenCancelled hw, hz'.beside.isTokenCancelled hw]
    | false =>
        have live : w.IsLive o env.context := ⟨hw, clock⟩
        rw [(live.settles suits hz).token, (live.settles suits hz').token]
  have hb := hz.beside
  have hb' := hz'.beside
  exact ⟨hb.clock.trans hb'.clock.symm, (hsame hz).1.trans (hsame hz').1.symm,
    hb.log.trans hb'.log.symm, congrArg CallLog.calls (hb.calls.trans hb'.calls.symm),
    (hb.stateOf _).trans (hb'.stateOf _).symm, hcancelled, rfl,
    (hsame hz).2.trans (hsame hz').2.symm⟩

lemma Matches.settles {w' : World} (h : Matches env w env' w') (hs : w'.Settles v) :
    Matches env w env' v :=
  fun z z' hz still hz' => h z z' hz still (hs.trans hz')

/-- The worlds agree in all that actions and the outside can see. -/
structure Same (w w' : World) : Prop where
  clock : w'.store.contexts.clock = w.store.contexts.clock
  cancelled : ∀ n, n ∈ w'.store.contexts.cancelled ↔ n ∈ w.store.contexts.cancelled
  timers : w'.store.contexts.timers = w.store.contexts.timers
  states : w'.store.states = w.store.states
  cells : w'.store.cells = w.store.cells
  log : w'.store.log = w.store.log
  calls : w'.store.calls = w.store.calls
  agenda : w'.agenda = w.agenda

lemma Same.symm (h : w.Same v) : v.Same w :=
  ⟨h.clock.symm, fun n => (h.cancelled n).symm, h.timers.symm, h.states.symm, h.cells.symm,
    h.log.symm, h.calls.symm, h.agenda.symm⟩

lemma isTokenCancelled_congr {x y : Contexts} (h : ∀ n, n ∈ y.cancelled ↔ n ∈ x.cancelled)
    (t : Token) : y.isTokenCancelled t = x.isTokenCancelled t := by
  rw [Bool.eq_iff_iff, Contexts.isTokenCancelled_iff, Contexts.isTokenCancelled_iff]
  simp only [h]

lemma Same.isDue (h : w.Same v) (t : Timer) :
    v.store.contexts.isDue t = w.store.contexts.isDue t := by
  rw [Contexts.isDue, Contexts.isDue, h.clock, isTokenCancelled_congr h.cancelled]

lemma Same.befalls {w' : World} (h : w.Same w') (hb : w.Befalls v) :
    ∃ v', w'.Befalls v' ∧ v.Same v' := by
  cases hb with
  | timer t running due =>
      refine ⟨_, .timer t (h.timers ▸ running) ((h.isDue t).trans due), ?_, fun n => ?_, ?_,
        h.states, h.cells, h.log, h.calls, h.agenda⟩
      · exact (Contexts.clock_fire _ t).trans (h.clock.trans (Contexts.clock_fire _ t).symm)
      · refine Contexts.mem_cancelled_fire.trans (Iff.trans ?_ Contexts.mem_cancelled_fire.symm)
        rw [h.cancelled, isTokenCancelled_congr h.cancelled]
      · exact (Contexts.timers_fire _ t).trans
          ((congrArg _ h.timers).trans (Contexts.timers_fire _ t).symm)
  | appointment place x hx due =>
      have hclock : w'.store.clock = w.store.clock := h.clock
      refine ⟨_, .appointment place x (h.agenda ▸ hx) (hclock ▸ due), ?_, fun n => ?_, ?_, ?_, ?_,
        ?_, ?_, congrArg (·.eraseIdx place) h.agenda⟩
      · cases x.deed <;> simp [Store.suffer, Store.cancel, Store.withContexts, Contexts.cancel,
          Store.disown, contexts_settle, h.clock]
      · refine mem_cancelled_suffer.trans (Iff.trans ?_ mem_cancelled_suffer.symm)
        rw [h.cancelled]
      · cases x.deed <;> simp [Store.suffer, Store.cancel, Store.withContexts, Contexts.cancel,
          Store.disown, contexts_settle, h.timers]
      · exact (Store.suffer_eq _ _).2.2.trans (h.states.trans (Store.suffer_eq _ _).2.2.symm)
      · cases x.deed with
        | cancel c => exact h.cells
        | disown cell => exact congrArg (·.modify cell .disown) h.cells
        | settle cell how =>
            simp only [Store.suffer, Store.settle, h.cells]
            cases w.store.cells[cell]? with
            | none => exact h.cells
            | some c =>
                dsimp only
                split
                · dsimp only
                  split <;> rfl
                · exact h.cells
      · exact (Store.suffer_eq _ _).1.trans (h.log.trans (Store.suffer_eq _ _).1.symm)
      · exact (Store.suffer_eq _ _).2.1.trans (h.calls.trans (Store.suffer_eq _ _).2.1.symm)

lemma Same.settles {w' : World} (h : w.Same w') (hs : w.Settles v) :
    ∃ v', w'.Settles v' ∧ v.Same v' := by
  induction hs with
  | refl => exact ⟨w', .refl, h⟩
  | tail _ hb ih =>
      obtain ⟨v', hv', hsame⟩ := ih
      obtain ⟨z', hz', hsame'⟩ := hsame.befalls hb
      exact ⟨z', hv'.tail hz', hsame'⟩

lemma Same.isStill (h : w.Same v) (still : w.IsStill) : v.IsStill := by
  have hclock : v.store.clock = w.store.clock := h.clock
  refine ⟨fun t ht => (h.isDue t).trans (still.timers t (h.timers ▸ ht)), fun x hx => ?_⟩
  rw [hclock]
  exact still.agenda x (h.agenda ▸ hx)

lemma Same.alike (h : w.Same v) : Alike env w env v :=
  ⟨h.clock.symm, h.cells.symm, h.log.symm, congrArg CallLog.calls h.calls.symm,
    by rw [Store.stateOf, Store.stateOf, h.states],
    (isTokenCancelled_congr h.cancelled _).symm, rfl, h.agenda.symm⟩

lemma Matches.same {w' : World} (h : Matches env w env' w') (same : w'.Same v) :
    Matches env w env' v := by
  intro z z' hz still hz' still'
  obtain ⟨u, hu, hsame⟩ := same.symm.settles hz'
  exact (h z u hz still hu (hsame.isStill still')).trans hsame.symm.alike

/-! ## Courses -/

/-- A step of a run under the context `c`, while nothing outside cancels that: any turn, and as long
as the run is not over, time. -/
inductive Goes (o : Outside) (c : Context) (w : World) : World → Prop where
  | turn (t : Turn) (ready : w.isReady t = true) : Goes o c w (w.take t)
  | tick {time : Nat} (running : w.root.isOver = false) (quiet : ∀ t, w.isReady t = false)
      (next : w.nextTime? = some time)
      (spared : w.store.isTokenCancelled c = true ∨ o.Before time) : Goes o c w (w.advance time)

/-- Such steps, one after another. -/
def Course (o : Outside) (c : Context) : World → World → Prop :=
  Relation.ReflTransGen (Goes o c)

/-- The run is over, and nothing is due outside. -/
def Settled (w : World) (x : Exit) : Prop :=
  w.root = .ended x ∧ w.IsStill

/-- The action, run in the world under `env`, can end with `x` in the world `f`. -/
def Runs (w : World) (o : Outside) (env : Env) (a : Action) (x : Exit) (f : World) : Prop :=
  Course o env.context (w.stage env a) f ∧ f.root = .ended x

lemma Goes.step {c : Context} (h : Goes o c w v) : Step w v := by
  cases h with
  | turn t ready => exact .turn t ready
  | tick running quiet next spared => exact .tick quiet next

lemma Course.reachable {c : Context} (h : Course o c w v) : Reachable w v := by
  induction h with
  | refl => exact .refl
  | tail _ h ih => exact .step ih h.step

lemma Settles.course {c : Context} (h : w.Settles v) : Course o c w v := by
  induction h with
  | refl => exact .refl
  | tail _ h ih =>
      obtain ⟨t, -, ready, rfl⟩ := h.exists_turn
      exact ih.tail (.turn t ready)

/-- What happens outside before a run is polled would have happened without it. -/
lemma Befalls.of_stage (h : (w.stage env a).Befalls v) :
    ∃ w', w.Befalls w' ∧ v = w'.stage env a := by
  cases h with
  | timer t running due => exact ⟨_, .timer t running due, rfl⟩
  | appointment place x hx due => exact ⟨_, .appointment place x hx due, rfl⟩

lemma reachable_iff : Reachable w v ↔ Relation.ReflTransGen Step w v := by
  constructor
  · intro h
    induction h with
    | refl => exact .refl
    | step _ s ih => exact ih.tail s
  · intro h
    induction h with
    | refl => exact .refl
    | tail _ s ih => exact .step ih s

/-- Before its first turn an action does nothing, whatever steps are considered. -/
lemma steps_of_stage {w₀ : World} {R : World → World → Prop} (steps : ∀ {w v}, R w v → Step w v)
    (alone : w₀.orphans = []) (h : Relation.ReflTransGen R (w₀.stage env a) v) :
    ∃ w, w₀.Settles w ∧
      (v = w.stage env a ∨ Relation.ReflTransGen R ((w.stage env a).take .root) v) := by
  induction h with
  | refl => exact ⟨w₀, .refl, .inl rfl⟩
  | tail _ goes ih =>
      obtain ⟨w, hw, rfl | hreach⟩ := ih
      · have halone : w.orphans = [] := hw.beside.orphans.trans alone
        cases steps goes with
        | tick quiet next => cases quiet .root
        | turn t ready =>
            rcases ready_cases ready halone with rfl | ⟨index, path, rfl⟩ | hb
            · exact ⟨w, hw, .inr .refl⟩
            · cases ready
            · obtain ⟨w', hw', heq⟩ := hb.of_stage
              exact ⟨w', hw.tail hw', .inl heq⟩
      · exact ⟨w, hw, .inr (hreach.tail goes)⟩

lemma Reachable.of_stage {w₀ : World} (alone : w₀.orphans = [])
    (h : Reachable (w₀.stage env a) v) :
    ∃ w, w₀.Settles w ∧ (v = w.stage env a ∨ Reachable ((w.stage env a).take .root) v) := by
  simp only [reachable_iff] at h ⊢
  exact steps_of_stage id alone h

lemma Course.of_stage {w₀ : World} {c : Context} (alone : w₀.orphans = [])
    (h : Course o c (w₀.stage env a) v) :
    ∃ w, w₀.Settles w ∧ (v = w.stage env a ∨ Course o c ((w.stage env a).take .root) v) :=
  steps_of_stage Goes.step alone h

/-- When no course is barred from its end, what can be reached is reached by a course. -/
lemma Reachable.course {c : Context} (h : Reachable w v) (running : v.root.isOver = false)
    (returns : ∀ v, Course o c w v → ∃ x f, Course o c v f ∧ f.Settled x) : Course o c w v := by
  induction h with
  | refl => exact .refl
  | @step y z _ step ih =>
      have hrunning : y.root.isOver = false := by
        refine Bool.eq_false_iff.mpr fun isOver => ?_
        rw [(step.aftermath isOver).root_eq, isOver] at running
        cases running
      have hy := ih hrunning
      cases step with
      | turn t ready => exact hy.tail (.turn t ready)
      | @tick time quiet next =>
          obtain ⟨x, f, hf, hsettled, -⟩ := returns y hy
          rcases Relation.ReflTransGen.cases_head hf with rfl | ⟨y', hgoes, -⟩
          · rw [hsettled] at hrunning
            cases hrunning
          · cases hgoes with
            | turn t ready => rw [quiet t] at ready; cases ready
            | @tick time' _ _ next' spared =>
                rw [next] at next'
                cases next'
                exact hy.tail (.tick hrunning quiet next spared)

end World

/-! ## Actions of a kind -/

/-- What comes of the action depends on what it can see when it starts, and not on the order of
turns: when one course of it comes to an end, in any circumstances, before its context is cancelled
from outside, then every course in circumstances that look alike can be continued to an end, and all
ends look alike.  What else tells two worlds apart, such as the numbers of tokens and runs, the
trace and the timers of others, no action can ask for. -/
def Action.OrderFree (o : Outside) (a : Action) : Prop :=
  ∀ (w w' : World) (env env' : Env), w.Suits o env → w.IsLive o env.context →
    w'.Suits o env' → w'.IsLive o env'.context → World.Matches env w env' w' →
    ∀ x f, World.Course o env.context (w.stage env a) f → f.Settled x →
      (∀ v, World.Course o env'.context (w'.stage env' a) v →
        ∃ x' f', World.Course o env'.context v f' ∧ f'.Settled x') ∧
      ∀ x' f', World.Course o env'.context (w'.stage env' a) f' → f'.Settled x' →
        x' = x ∧ World.Alike env f env' f'

/-- The action honours cancellation: run under a cancelled context it always comes to an end,
succeeds, and has then left the logs and the run state as they were. -/
def Action.Honours (o : Outside) (a : Action) : Prop :=
  ∀ (w : World) (env : Env), w.Suits o env → w.store.isCancelled env.context = true →
    ∀ v, World.Reachable (w.stage env a) v →
      (∃ x u, World.Reachable v u ∧ u.root = .ended x) ∧
      ∀ x, v.root = .ended x → x = .done ∧ v.store.log = w.store.log ∧
        v.store.calls.calls = w.store.calls.calls ∧
        v.store.stateOf env.state = w.store.stateOf env.state

/-- The action never panics. -/
def Action.Calm (o : Outside) (a : Action) : Prop :=
  ∀ (w : World) (env : Env), w.Suits o env → ∀ v, World.Reachable (w.stage env a) v →
    ∀ payload, v.root ≠ .ended (.panicked payload)

/-- The action can always be run to its end, whatever it has done so far. -/
def Action.Returns (o : Outside) (a : Action) : Prop :=
  ∀ (w : World) (env : Env), w.Suits o env → ∀ v, World.Reachable (w.stage env a) v →
    ∃ x u, World.Reachable v u ∧ u.root = .ended x

/-- The caller of a scenario in which nothing happens from outside suits all actions, until its
context is timed out. -/
theorem Scenario.start_suits (sc : Scenario) (unplanned : sc.happenings = []) :
    sc.start.Suits { horizon := sc.timeout } sc.opening.1 := by
  have hagenda : sc.start.agenda = [] := by simp [start, opening, unplanned]
  refine ⟨sc.start_hosts, ?_, rfl, rfl, ?_, ?_, ?_, ?_⟩
  · obtain ⟨_, _, _, timeout, cancelled, _⟩ := sc
    cases timeout <;> cases cancelled <;> simp [start, opening, Contexts.newToken, Contexts.hold,
      Contexts.withDeadline, Contexts.childToken, Contexts.ofToken, Contexts.cancel]
  · simp [start, opening]
  · simp [hagenda]
  · simp [hagenda]
  · intro _ t ht _
    obtain ⟨_, _, _, timeout, cancelled, _⟩ := sc
    cases timeout <;> cases cancelled <;> simp_all [start, opening, Contexts.newToken,
      Contexts.hold, Contexts.withDeadline, Contexts.childToken, Contexts.ofToken, Contexts.cancel,
      Contexts.earlier]

/-- At the beginning that context is cancelled, or it is not timed out yet, and what is due outside
leads to the same in whatever order it happens. -/
theorem Scenario.start_begins (sc : Scenario) (unplanned : sc.happenings = []) :
    sc.start.store.isCancelled sc.opening.1.context = true ∨
      Outside.Before { horizon := sc.timeout } sc.start.store.clock ∧
        World.Matches sc.opening.1 sc.start sc.opening.1 sc.start := by
  have hagenda : sc.start.agenda = [] := by simp [start, opening, unplanned]
  have hclock : sc.start.store.clock = 0 := by
    obtain ⟨_, _, _, timeout, cancelled, _⟩ := sc
    cases timeout <;> cases cancelled <;> rfl
  by_cases htimeout : sc.timeout = some 0
  · refine .inl (Contexts.isCancelled_iff.mpr (.inr ⟨0, ?_, Nat.zero_le _⟩))
    obtain ⟨_, _, _, timeout, _⟩ := sc
    cases htimeout
    rfl
  · have hbefore : Outside.Before { horizon := sc.timeout } sc.start.store.clock := by
      intro h hh
      rw [hclock]
      refine Nat.pos_of_ne_zero ?_
      rintro rfl
      exact htimeout hh
    exact .inr ⟨hbefore, (sc.start_suits unplanned).matches_self hbefore (by simp [hagenda])⟩

end Workflow
