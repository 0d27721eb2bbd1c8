import Workflow.Proofs.Slot
import Workflow.Proofs.Frame

/-!
# One action in two worlds

A throttled run lends its scope to the tasks of its children; a linear run has its children run
under the caller's own context.  `World.Backs` and `World.Lends` say what has to be so in a world
for this to make no difference, and the operations of the dispatcher keep it (`Backs.lend`,
`Lends.endTask`, `Lends.cancel`).

When an order-free child can come to an end in the one world, then in another one that comes to look
alike it always can, and ends alike: **`World.Runs.returns`**, **`World.Runs.agree`**.  Under a
cancelled context children that honour that come to nothing: `World.Chain.of_cancelled`.
-/

namespace Workflow

open Store

namespace World

variable {o : Outside} {env env' : Env} {c : Action} {w v z m f f' : World} {e x x' : Exit}
  {cs : List Action} {base task r : Nat}

/-! ## Results -/

/-- The logs are the same, and the run state of the given number. -/
structure SameResults (number : Nat) (w v : World) : Prop where
  log : w.store.log = v.store.log
  calls : w.store.calls.calls = v.store.calls.calls
  state : w.store.stateOf number = v.store.stateOf number

lemma SameResults.symm {n : Nat} (h : w.SameResults n v) : v.SameResults n w :=
  ⟨h.log.symm, h.calls.symm, h.state.symm⟩

lemma SameResults.trans {n : Nat} (h : w.SameResults n v) (h' : v.SameResults n z) :
    w.SameResults n z :=
  ⟨h.log.trans h'.log, h.calls.trans h'.calls, h.state.trans h'.state⟩

lemma SameLogs.sameResults (h : w.SameLogs v) (n : Nat) : v.SameResults n w :=
  ⟨h.1, congrArg CallLog.calls h.2.1, by rw [Store.stateOf, Store.stateOf, h.2.2]⟩

lemma Beside.sameResults (h : w.Beside v) (n : Nat) : v.SameResults n w :=
  ⟨h.log, congrArg CallLog.calls h.calls, h.stateOf n⟩

lemma Alike.sameResults (h : Alike env w env' v) (state : env'.state = env.state) :
    w.SameResults env.state v :=
  ⟨h.log, h.calls, h.state.trans (by rw [state])⟩

/-- Worlds that come to look alike have the same results already. -/
lemma Matches.sameResults (h : Matches env w env' v) (state : env'.state = env.state) :
    w.SameResults env.state v := by
  obtain ⟨z, hz, still⟩ := exists_settles w
  obtain ⟨z', hz', still'⟩ := exists_settles v
  have halike := h z z' hz still hz' still'
  exact (hz.beside.sameResults _).symm.trans
    ((halike.sameResults state).trans (hz'.beside.sameResults _))

/-! ## Changes of the ledger -/

/-- Actions can be run in the world as well when the ledger of contexts has changed a little. -/
lemma Suits.update (suits : w.Suits o env) {s : Store} (isOpen : s.closed = w.store.closed)
    (states : s.states = w.store.states)
    (supply_le : w.store.contexts.supply ≤ s.contexts.supply)
    (kept : ∀ n ∈ env.context.timers, ∃ h ∈ s.contexts.held, n ∈ h.2.timers)
    (held : ∀ h ∈ s.contexts.held, h.1 < s.contexts.supply ∧ ∀ n ∈ h.2.timers,
      n < w.store.contexts.supply)
    (timers : s.contexts.timers = w.store.contexts.timers)
    (cancelled : ∀ n ∈ s.contexts.cancelled, n < s.contexts.supply)
    (grown : ∀ n ∈ w.store.contexts.cancelled, n ∈ s.contexts.cancelled) :
    ({ w with store := s } : World).Suits o env where
  hosts := {
    path_lt := fun n hn => (suits.hosts.path_lt n hn).trans_le supply_le
    kept := kept
    held_lt := fun h hh => (held h hh).1
    running_lt := fun t ht => (suits.hosts.running_lt t (timers ▸ ht)).trans_le supply_le
    cancelled_lt := cancelled
    agenda_lt := fun x hx c hc => (suits.hosts.agenda_lt x hx c hc).trans_le supply_le }
  kept_lt h hh n hn := ((held h hh).2 n hn).trans_le supply_le
  alone := suits.alone
  isOpen := isOpen.trans suits.isOpen
  state_lt := by
    change env.state < s.states.length
    rw [states]
    exact suits.state_lt
  agenda := suits.agenda
  spared := suits.spared
  timers live t ht :=
    suits.timers (Contexts.isTokenCancelled_eq_false_of_grown grown live) t (timers ▸ ht)

lemma Suits.timers_lt (suits : w.Suits o env) :
    ∀ n ∈ env.context.timers, n < w.store.contexts.supply := by
  intro n hn
  obtain ⟨h, hh, hmem⟩ := suits.hosts.kept n hn
  exact suits.kept_lt h hh n hmem

lemma Suits.root (suits : w.Suits o env) (root : Root) : ({ w with root } : World).Suits o env :=
  ⟨⟨suits.hosts.path_lt, suits.hosts.kept, suits.hosts.held_lt, suits.hosts.running_lt,
    suits.hosts.cancelled_lt, suits.hosts.agenda_lt⟩, suits.kept_lt, suits.alone, suits.isOpen,
    suits.state_lt, suits.agenda, suits.spared, suits.timers⟩

lemma Suits.noted (suits : w.Suits o env) {s : Store} (h : w.store.Noted s) :
    ({ w with store := s } : World).Suits o env := by
  refine suits.update h.isOpen h.states ?_ ?_ ?_ ?_ ?_ ?_
  all_goals rw [h.contexts]
  · exact suits.hosts.kept
  · exact fun p hp => ⟨suits.hosts.held_lt p hp, suits.kept_lt p hp⟩
  · exact suits.hosts.cancelled_lt
  · exact fun _ h => h

lemma same_of_noted {s : Store} (h : w.store.Noted s) : w.Same { w with store := s } :=
  ⟨by rw [h.contexts], fun n => by rw [h.contexts], by rw [h.contexts], h.states, h.cells, h.log,
    h.calls, rfl⟩

/-- What can be seen of a world decides whether a context is live there. -/
lemma IsLive.same {c : Context} (live : w.IsLive o c) (same : w.Same v) : v.IsLive o c := by
  have hclock : v.store.clock = w.store.clock := same.clock
  refine ⟨?_, by rw [hclock]; exact live.clock⟩
  rw [Store.isTokenCancelled, isTokenCancelled_congr same.cancelled]
  exact live.token

lemma Same.sameResults (h : w.Same v) (n : Nat) : v.SameResults n w :=
  ⟨h.log, congrArg CallLog.calls h.calls, by rw [Store.stateOf, Store.stateOf, h.states]⟩

lemma Suits.noting (suits : w.Suits o env) (r : Nat) (m : Mark) : (w.noting r m).Suits o env :=
  suits.noted (.mark _ _ _)

lemma IsLive.noting {c : Context} (live : w.IsLive o c) (r : Nat) (m : Mark) :
    (w.noting r m).IsLive o c :=
  ⟨live.token, live.clock⟩

lemma same_noting (w : World) (r : Nat) (m : Mark) : w.Same (w.noting r m) :=
  same_of_noted (.mark _ _ _)

/-- Actions can be run under the context, and what keeps its timers running is held by others than
those that have made their handles from `base` on. -/
structure Backs (w : World) (o : Outside) (env : Env) (base : Nat) : Prop where
  suits : w.Suits o env
  base_le : base ≤ w.store.contexts.supply
  kept : ∀ n ∈ env.context.timers, ∃ h ∈ w.store.contexts.held, h.1 < base ∧ n ∈ h.2.timers

/-- A task has been given the context. -/
structure Lends (w : World) (o : Outside) (env : Env) (base task : Nat) : Prop
    extends w.Backs o env base where
  mine : base ≤ task
  task_lt : task < w.store.contexts.supply
  lent : ∀ h ∈ w.store.contexts.held, h.1 = task → h.2 = env.context

lemma Backs.root (h : w.Backs o env base) (root : Root) :
    ({ w with root } : World).Backs o env base :=
  ⟨h.suits.root root, h.base_le, h.kept⟩

lemma Lends.root (h : w.Lends o env base task) (root : Root) :
    ({ w with root } : World).Lends o env base task :=
  ⟨h.toBacks.root root, h.mine, h.task_lt, h.lent⟩

lemma Backs.befalls (h : w.Backs o env base) (hb : w.Befalls v) : v.Backs o env base := by
  refine ⟨h.suits.befalls hb, ?_, ?_⟩
  · rw [hb.beside.supply]; exact h.base_le
  · rw [hb.beside.held]; exact h.kept

lemma Lends.befalls (h : w.Lends o env base task) (hb : w.Befalls v) :
    v.Lends o env base task := by
  refine ⟨h.toBacks.befalls hb, h.mine, ?_, ?_⟩
  · rw [hb.beside.supply]; exact h.task_lt
  · rw [hb.beside.held]; exact h.lent

/-- A task is given the context. -/
lemma Backs.lend (h : w.Backs o env base) {s : Store}
    (noted : Noted { w.store with contexts := (w.store.contexts.hold env.context).2 } s) :
    ({ w with store := s } : World).Lends o env base w.store.contexts.supply ∧
      w.Same { w with store := s } := by
  have hcontexts : s.contexts = (w.store.contexts.hold env.context).2 := noted.contexts
  have hsupply : s.contexts.supply = w.store.contexts.supply + 1 := by rw [hcontexts]; rfl
  have hheld : s.contexts.held
      = (w.store.contexts.supply, env.context) :: w.store.contexts.held := by rw [hcontexts]; rfl
  have hlt := h.suits.hosts.held_lt
  refine ⟨⟨⟨h.suits.update noted.isOpen noted.states ?_ ?_ ?_ ?_ ?_ ?_, ?_, ?_⟩, h.base_le, ?_, ?_⟩,
    ?_⟩
  · omega
  · rw [hheld]
    intro n hn
    obtain ⟨p, hp, hmem⟩ := h.suits.hosts.kept n hn
    exact ⟨p, List.mem_cons_of_mem _ hp, hmem⟩
  · rw [hheld, hsupply]
    refine List.forall_mem_cons.mpr ⟨⟨Nat.lt_succ_self _, h.suits.timers_lt⟩, fun p hp => ?_⟩
    exact ⟨(hlt p hp).trans (Nat.lt_succ_self _), h.suits.kept_lt p hp⟩
  · rw [hcontexts]; rfl
  · rw [hsupply, hcontexts]
    exact fun n hn => (h.suits.hosts.cancelled_lt n hn).trans (Nat.lt_succ_self _)
  · rw [hcontexts]
    exact fun n hn => hn
  · exact h.base_le.trans (by dsimp only; omega)
  · dsimp only
    rw [hheld]
    intro n hn
    obtain ⟨p, hp, hmem⟩ := h.kept n hn
    exact ⟨p, List.mem_cons_of_mem _ hp, hmem⟩
  · dsimp only; omega
  · dsimp only
    rw [hheld]
    refine List.forall_mem_cons.mpr ⟨fun _ => rfl, fun p hp heq => ?_⟩
    have := hlt p hp
    omega
  · exact ⟨by rw [hcontexts]; rfl, fun n => by rw [hcontexts]; rfl, by rw [hcontexts]; rfl,
      noted.states, noted.cells, noted.log, noted.calls, rfl⟩

/-- While an action is run under the context, it stays lent. -/
lemma Lends.reachable (h : w.Lends o env base task) (reach : Reachable (w.stage env c) v) :
    v.Lends o env base task := by
  obtain ⟨hsuits, hlater⟩ := h.suits.reachable reach
  refine ⟨⟨hsuits, h.base_le.trans hlater.supply_le, ?_⟩, h.mine,
    h.task_lt.trans_le hlater.supply_le, ?_⟩
  · intro n hn
    obtain ⟨p, hp, hlt, hmem⟩ := h.kept n hn
    exact ⟨p, hlater.held p hp (h.suits.hosts.held_lt p hp), hlt, hmem⟩
  · intro p hp heq
    rcases hlater.new p hp with hp | hle
    · exact h.lent p hp heq
    · have := h.task_lt
      omega

lemma Lends.noting (h : w.Lends o env base task) (r : Nat) (m : Mark) :
    (w.noting r m).Lends o env base task :=
  ⟨⟨h.suits.noting r m, h.base_le, h.kept⟩, h.mine, h.task_lt, h.lent⟩

/-- A task lets go of the context, and nothing else happens: the timers are kept by others. -/
lemma Lends.endTask (h : w.Lends o env base task) {s : Store}
    (noted : Noted (w.store.endTask task) s) :
    ({ w with store := s } : World).Backs o env base ∧ w.Same { w with store := s } := by
  have hcontexts : s.contexts = w.store.contexts.release task := noted.contexts
  have hkept : ∀ n ∈ env.context.timers, ∃ p ∈ s.contexts.held, p.1 < base ∧ n ∈ p.2.timers := by
    intro n hn
    obtain ⟨p, hp, hlt, hmem⟩ := h.kept n hn
    have hne : p.1 ≠ task := (hlt.trans_le h.mine).ne
    exact ⟨p, by rw [hcontexts]; exact Contexts.mem_held_release.mpr ⟨hp, hne⟩, hlt, hmem⟩
  have hcancelled : ∀ n, n ∈ s.contexts.cancelled ↔ n ∈ w.store.contexts.cancelled := by
    intro n
    rw [hcontexts, Contexts.mem_cancelled_release]
    refine or_iff_left ?_
    rintro ⟨c, hc, hn, hfree⟩
    have hlent : c = env.context := h.lent _ (Contexts.mem_held_of_find? hc) rfl
    rw [hlent] at hn
    obtain ⟨p, hp, -, hmem⟩ := hkept n hn
    rw [← hcontexts, Contexts.isKept_iff.mpr ⟨p, hp, hmem⟩] at hfree
    cases hfree
  have hsupply : s.contexts.supply = w.store.contexts.supply := by
    rw [hcontexts, Contexts.supply_release]
  have hheld : ∀ p ∈ s.contexts.held, p ∈ w.store.contexts.held := by
    intro p hp
    rw [hcontexts] at hp
    exact (Contexts.mem_held_release.mp hp).1
  refine ⟨⟨h.suits.update noted.isOpen noted.states hsupply.ge ?_ ?_ ?_ ?_ ?_, ?_, hkept⟩, ?_⟩
  · intro n hn
    obtain ⟨p, hp, -, hmem⟩ := hkept n hn
    exact ⟨p, hp, hmem⟩
  · rw [hsupply]
    exact fun p hp => ⟨h.suits.hosts.held_lt p (hheld p hp), h.suits.kept_lt p (hheld p hp)⟩
  · rw [hcontexts, Contexts.timers_release]
  · rw [hsupply]
    exact fun n hn => h.suits.hosts.cancelled_lt n ((hcancelled n).mp hn)
  · exact fun n hn => (hcancelled n).mpr hn
  · dsimp only
    rw [hsupply]
    exact h.base_le
  · exact ⟨by rw [hcontexts, Contexts.clock_release], hcancelled,
      by rw [hcontexts, Contexts.timers_release], noted.states, noted.cells, noted.log, noted.calls,
      rfl⟩

/-- The context is cancelled. -/
lemma Lends.cancel (h : w.Lends o env base task) :
    ({ w with store := w.store.cancel env.context } : World).Lends o env base task := by
  refine ⟨⟨h.suits.update rfl rfl (le_refl _) h.suits.hosts.kept ?_ rfl ?_ ?_, h.base_le, h.kept⟩,
    h.mine, h.task_lt, h.lent⟩
  · exact fun p hp => ⟨h.suits.hosts.held_lt p hp, h.suits.kept_lt p hp⟩
  · exact List.forall_mem_cons.mpr
      ⟨h.suits.hosts.path_lt _ List.mem_cons_self, h.suits.hosts.cancelled_lt⟩
  · exact fun n hn => List.mem_cons_of_mem _ hn

lemma isCancelled_cancel (s : Store) (c : Context) : (s.cancel c).isCancelled c = true :=
  Contexts.isCancelled_iff.mpr (.inl ⟨_, List.mem_cons_self, List.mem_cons_self⟩)

/-! ## One child in two worlds -/

/-- In both worlds actions can be run, under live contexts, and they come to look alike. -/
structure Abreast (o : Outside) (env env' : Env) (m w : World) : Prop where
  there : m.Suits o env
  live : m.IsLive o env.context
  here : w.Suits o env'
  live' : w.IsLive o env'.context
  alike : Matches env m env' w

lemma Abreast.noting (h : Abreast o env env' m w) (r r' : Nat) (k k' : Mark) :
    Abreast o env env' (m.noting r k) (w.noting r' k') :=
  ⟨h.there.noting r k, h.live.noting r k, h.here.noting r' k', h.live'.noting r' k',
    ((h.alike.same (same_noting w r' k')).symm.same (same_noting m r k)).symm⟩

lemma Abreast.befalls (h : Abreast o env env' m w) (hb : w.Befalls v) :
    Abreast o env env' m v :=
  ⟨h.there, h.live, h.here.befalls hb, h.live'.befalls h.here hb, h.alike.settles (.single hb)⟩

lemma Abreast.same (h : Abreast o env env' m w) (same : w.Same v) (suits : v.Suits o env') :
    Abreast o env env' m v :=
  ⟨h.there, h.live, suits, h.live'.same same, h.alike.same same⟩

section

variable (free : c.OrderFree o) (abreast : Abreast o env env' m w) (runs : m.Runs o env c x f)

include free abreast runs

/-- When the child can come to an end in the one world, then its run in the other is a course that
can be continued to an end. -/
lemma Runs.returns : (∀ v, Reachable (w.stage env' c) v → v.root.isOver = false →
      Course o env'.context (w.stage env' c) v) ∧
    ∀ v, Reachable (w.stage env' c) v → ∃ x' f', Reachable v f' ∧ f'.root = .ended x' := by
  obtain ⟨z, hz, still⟩ := exists_settles f
  obtain ⟨returns, -⟩ := free m w env env' abreast.there abreast.live abreast.here abreast.live'
    abreast.alike x z (runs.1.trans hz.course) ⟨hz.root_eq.trans runs.2, still⟩
  have hcourse : ∀ v, Reachable (w.stage env' c) v → v.root.isOver = false →
      Course o env'.context (w.stage env' c) v :=
    fun v reach running => reach.course running returns
  refine ⟨hcourse, fun v reach => ?_⟩
  cases hroot : v.root with
  | ended x' => exact ⟨x', v, .refl, hroot⟩
  | dropped => exact absurd hroot (reach.root_ne_dropped (by simp [stage]))
  | unstarted env'' a =>
      obtain ⟨x', f', hf', hsettled⟩ := returns v (hcourse v reach (by rw [hroot]; rfl))
      exact ⟨x', f', hf'.reachable, hsettled.1⟩
  | running p =>
      obtain ⟨x', f', hf', hsettled⟩ := returns v (hcourse v reach (by rw [hroot]; rfl))
      exact ⟨x', f', hf'.reachable, hsettled.1⟩

/-- It ends alike in both. -/
lemma Runs.agree (runs' : w.Runs o env' c x' f') : x' = x ∧ Matches env f env' f' := by
  have hends : ∀ z z', f.Settles z → z.IsStill → f'.Settles z' → z'.IsStill →
      x' = x ∧ Alike env z env' z' := by
    intro z z' hz still hz' still'
    obtain ⟨-, agree⟩ := free m w env env' abreast.there abreast.live abreast.here abreast.live'
      abreast.alike x z (runs.1.trans hz.course) ⟨hz.root_eq.trans runs.2, still⟩
    exact agree x' z' (runs'.1.trans hz'.course) ⟨hz'.root_eq.trans runs'.2, still'⟩
  obtain ⟨z, hz, still⟩ := exists_settles f
  obtain ⟨z', hz', still'⟩ := exists_settles f'
  exact ⟨(hends z z' hz still hz' still').1,
    fun z z' hz still hz' still' => (hends z z' hz still hz' still').2⟩

end

/-- In worlds that come to look alike the contexts are both live or both cancelled. -/
lemma Matches.abreast_or (alike : Matches env f env' f') (there : f.Suits o env)
    (here : f'.Suits o env')
    (clock : f.store.isTokenCancelled env.context = true ∨ o.Before f.store.clock)
    (clock' : f'.store.isTokenCancelled env'.context = true ∨ o.Before f'.store.clock) :
    Abreast o env env' f f' ∨ (f.store.isTokenCancelled env.context = true ∧
      f'.store.isTokenCancelled env'.context = true) := by
  obtain ⟨z, hz, still⟩ := exists_settles f
  obtain ⟨z', hz', still'⟩ := exists_settles f'
  have hflag := (alike z z' hz still hz' still').cancelled
  -- A context that is not cancelled is not when the world has become still.
  have hkeep : ∀ {f z : World} {env : Env}, f.Settles z → f.Suits o env →
      (f.store.isTokenCancelled env.context = true ∨ o.Before f.store.clock) →
      z.store.isTokenCancelled env.context = f.store.isTokenCancelled env.context := by
    intro f z env hz suits clock
    cases hf : f.store.isTokenCancelled env.context with
    | true => exact hz.beside.isTokenCancelled hf
    | false =>
        have hclock : o.Before f.store.clock := clock.resolve_left (by rw [hf]; simp)
        exact (IsLive.settles ⟨hf, hclock⟩ suits hz).token
  rw [hkeep hz there clock, hkeep hz' here clock'] at hflag
  cases hf : f.store.isTokenCancelled env.context with
  | true => exact .inr ⟨rfl, hflag ▸ hf⟩
  | false =>
      rw [hf] at hflag clock
      rw [← hflag] at clock'
      exact .inl ⟨there, ⟨hf, clock.resolve_left (by simp)⟩, here,
        ⟨hflag.symm, clock'.resolve_left (by simp)⟩, alike⟩

/-- When it has ended in the one world, the other one keeps abreast of it, unless the contexts are
cancelled. -/
lemma Runs.together (free : c.OrderFree o) (abreast : Abreast o env env' m w)
    (runs : m.Runs o env c x f) (reach : Reachable (w.stage env' c) v)
    (running : v.root.isOver = false) {t : Turn} (ready : v.isReady t = true)
    (hx : (v.take t).root = .ended x') :
    x' = x ∧ Matches env f env' (v.take t) ∧ f.Suits o env ∧
      (Abreast o env env' f (v.take t) ∨ (f.store.isTokenCancelled env.context = true ∧
        (v.take t).store.isTokenCancelled env'.context = true)) := by
  have runs' : w.Runs o env' c x' (v.take t) :=
    ⟨((Runs.returns free abreast runs).1 v reach running).tail (.turn t ready), hx⟩
  obtain ⟨hx, hmatch⟩ := Runs.agree free abreast runs runs'
  obtain ⟨hf, -⟩ := abreast.there.reachable runs.1.reachable
  obtain ⟨hf', -⟩ := abreast.here.reachable runs'.1.reachable
  exact ⟨hx, hmatch, hf, hmatch.abreast_or hf hf' (abreast.there.course abreast.live.clock runs.1)
    (abreast.here.course abreast.live'.clock runs'.1)⟩

/-! ## Cancelled contexts -/

lemma isCancelled_of_isTokenCancelled {s : Store} {c : Context}
    (h : s.isTokenCancelled c = true) : s.isCancelled c = true :=
  Bool.or_eq_true_iff.mpr (.inl h)

lemma Later.isCancelled (h : w.Later base v) {c : Context}
    (cancelled : w.store.isCancelled c = true) : v.store.isCancelled c = true :=
  Contexts.isCancelled_mono h.clock_le h.cancelled cancelled

lemma Same.isCancelled (h : w.Same v) (c : Context) :
    v.store.isCancelled c = w.store.isCancelled c := by
  rw [Store.isCancelled, Store.isCancelled, Contexts.isCancelled, Contexts.isCancelled,
    isTokenCancelled_congr h.cancelled, Contexts.isPast, Contexts.isPast, h.clock]

/-- Under a cancelled context children that honour that come to nothing. -/
lemma Chain.of_cancelled {n i : Nat} (chain : Chain o env r n i w cs e z) :
    w.Suits o env → w.store.isCancelled env.context = true → (∀ c ∈ cs, c.Honours o) →
      e = .done ∧ z.SameResults env.state w := by
  induction chain with
  | nil => exact fun _ _ _ => ⟨rfl, rfl, rfl, rfl⟩
  | @next i w f z c cs e runs rest ih =>
      intro suits cancelled honours
      have hsuits := suits.noting r (.started i c)
      obtain ⟨hf, hlater⟩ := hsuits.reachable runs.1.reachable
      obtain ⟨-, hlog, hcalls, hstate⟩ := ((honours c List.mem_cons_self) _ env hsuits cancelled _
        runs.1.reachable).2 _ runs.2
      obtain ⟨he, hresults⟩ := ih (hf.noting r _) (hlater.isCancelled cancelled)
        fun c hc => honours c (List.mem_cons_of_mem _ hc)
      exact ⟨he, hresults.trans ⟨hlog, hcalls, hstate⟩⟩
  | @stop w f c cs x runs stops =>
      intro suits cancelled honours
      exact absurd (((honours c List.mem_cons_self) _ env (suits.noting r _) cancelled _
        runs.1.reachable).2 _ runs.2).1 stops

end World

end Workflow
