import Workflow.Proofs.Lending
import Workflow.Proofs.Prompt

/-!
# With one slot a throttled run does what a linear run does

A linear run polls its children itself, and stops at the first that does not succeed.  A throttled
run gives every child a task, tells those that are still to come by its scope that they are to be
skipped, and goes on after a failure.  With one slot, and with children that are order-free and
honour cancellation, both come to the same: **`World.throttled_one`**.

**Keeping in step.**  The linear run is taken as a chain of its children (`World.chain_of_course`),
and the throttled one runs them in their turns (`World.Attended`).  `World.InStep` relates the two
between one child and the next, and each child that is run keeps them in step or fails in both
(`World.InStep.serve`).

**After a failure** nothing is left to compare with.  All that is said is that the later children
are run one after another in what the failure has left behind (`World.Sequel`), and that nothing of
it is lost.  They may keep the run from returning at all: `World.throttled_one_unanswered`.
-/

namespace Workflow

open Store

namespace World

variable {o : Outside} {env env' : Env} {c : Action} {w v z m f f' y : World} {e x x' : Exit}
  {cs : List Action} {base task r r' n : Nat} {xs xs₀ : List Exit}

/-! ## Keeping pace -/

/-- The throttled run, in whose world `w` the children have ended with the exits `xs` and the slot
is free, has come as far as the linear run that is the given chain and ends with `e` in the world
`z`.  Once it was told to skip the remainder, or its context was cancelled, there is nothing to do
but what the linear run has done already. -/
inductive InStep (o : Outside) (env env' : Env) (base r n : Nat) (cs : List Action) (e : Exit)
    (z : World) : List Exit → World → Prop where
  | going {xs : List Exit} {w m : World} (past : ∀ x ∈ xs, x = .done) (backs : w.Backs o env' base)
      (abreast : Abreast o env env' m w)
      (chain : Chain o env r n xs.length m (cs.drop xs.length) e z) :
      InStep o env env' base r n cs e z xs w
  | idle {xs : List Exit} {w : World} (past : ∀ x ∈ xs, x = .done ∨ x = .failed .skipRemainder)
      (backs : w.Backs o env' base) (cancelled : w.store.isCancelled env'.context = true)
      (success : e = .done) (results : w.SameResults env.state z) :
      InStep o env env' base r n cs e z xs w

/-- The child that has just ended has failed, and so has the linear run there. -/
structure HasFailed (o : Outside) (env env' : Env) (base n : Nat) (cs : List Action) (e : Exit)
    (z : World) (xs : List Exit) (w : World) : Prop where
  backs : w.Backs o env' base
  results : w.SameResults env.state z
  failure : ∃ f c, xs = List.replicate n .done ++ [.failed f] ∧ f ≠ .skipRemainder ∧
    cs[n]? = some c ∧ e = .failed (f.inAction c.name)

section

variable (h : InStep o env env' base r n cs e z xs w)

include h

lemma InStep.backs : w.Backs o env' base := by
  cases h with
  | going _ backs => exact backs
  | idle _ backs => exact backs

/-- What the dispatcher does to its world makes no difference. -/
lemma InStep.same (same : w.Same v) (backs : v.Backs o env' base) :
    InStep o env env' base r n cs e z xs v := by
  cases h with
  | going past _ abreast chain => exact .going past backs (abreast.same same backs.suits) chain
  | idle past _ cancelled success results =>
      exact .idle past backs ((same.isCancelled _).trans cancelled) success
        ((same.sameResults _).trans results)

lemma InStep.root (root : Root) : InStep o env env' base r n cs e z xs { w with root } :=
  h.same ⟨rfl, fun _ => .rfl, rfl, rfl, rfl, rfl, rfl, rfl⟩ (h.backs.root root)

lemma InStep.befalls (hb : w.Befalls v) : InStep o env env' base r n cs e z xs v := by
  have hbacks := h.backs.befalls hb
  cases h with
  | going past _ abreast chain => exact .going past hbacks (abreast.befalls hb) chain
  | idle past _ cancelled success results =>
      exact .idle past hbacks (hb.beside.isCancelled cancelled) success
        ((hb.beside.sameResults _).trans results)

/-- When all children have ended, the linear run has succeeded, and the results are the same. -/
lemma InStep.finished (state : env'.state = env.state) (all : xs.length = cs.length) :
    e = .done ∧ resultOf cs xs = .done ∧ w.SameResults env.state z := by
  have hdone : (∀ x ∈ xs, x = .done ∨ x = .failed .skipRemainder) → resultOf cs xs = .done := by
    intro past
    refine resultOf_eq_done.mpr fun i c x _ hx => ?_
    rcases past x (List.mem_of_getElem? hx) with rfl | rfl <;> rfl
  cases h with
  | going past _ abreast chain =>
      rw [List.drop_eq_nil_of_le all.ge] at chain
      cases chain
      exact ⟨rfl, hdone fun x hx => .inl (past x hx), (abreast.alike.sameResults state).symm⟩
  | idle past _ _ success results => exact ⟨success, hdone past, results⟩

end

lemma Exit.stopping_failed {f : Failure} (h : f ≠ .skipRemainder) (name : String) :
    (Exit.failed f).stopping name = .failed (f.inAction name) := by
  cases f <;> first | exact absurd rfl h | rfl

/-! ## A child in its turn

In each of these the child has just ended in the world `u`, where its task still has the scope, and
the dispatcher makes `s` of the store. -/

section

variable {u : World} {s : Store} (lends : u.Lends o env' base task)
  (vacates : u.store.Vacates env'.context task x s)

include lends vacates

/-- The child has succeeded in the linear run as well, and that goes on from there. -/
lemma InStep.of_next (state : env'.state = env.state) (past : ∀ y ∈ xs, y = .done)
    (honours : ∀ c ∈ cs, c.Honours o) (hx : x = .done) (hmatch : Matches env f env' u)
    (hf : f.Suits o env) (hor : Abreast o env env' f u ∨
      f.store.isTokenCancelled env.context = true ∧ u.store.isTokenCancelled env'.context = true)
    (rest : Chain o env r n (xs.length + 1) (f.noting r (.ended xs.length .done))
      (cs.drop (xs.length + 1)) e z) :
    InStep o env env' base r n cs e z (xs ++ [x]) { u with store := s } := by
  obtain ⟨hbacks, hsame⟩ := lends.endTask (vacates.other (by simp [hx]))
  have hnoting : f.Same (f.noting r (.ended xs.length .done)) := same_noting _ _ _
  refine InStep.same ?_ hsame hbacks
  rcases hor with habreast | ⟨hcancelled, hcancelled'⟩
  · have hlen : (xs ++ [x]).length = xs.length + 1 := by simp
    refine .going (List.forall_mem_append.mpr ⟨past, by simp [hx]⟩) lends.toBacks
      ⟨hf.noting r _, habreast.live.noting r _, habreast.here, habreast.live',
        (hmatch.symm.same hnoting).symm⟩ ?_
    rw [hlen]
    exact rest
  · -- Nothing more comes of the linear run.
    obtain ⟨he, hresults⟩ := rest.of_cancelled (hf.noting r _)
      (isCancelled_of_isTokenCancelled hcancelled)
      fun c hc => honours c (List.mem_of_mem_drop hc)
    refine .idle (List.forall_mem_append.mpr ⟨fun y hy => .inl (past y hy), by simp [hx]⟩)
      lends.toBacks (isCancelled_of_isTokenCancelled hcancelled') he ?_
    exact (hmatch.sameResults state).symm.trans
      ((hnoting.sameResults _).symm.trans hresults.symm)

/-- The linear run has stopped with the child: either that asked to skip the remainder, or it has
failed. -/
lemma InStep.of_stop (past : ∀ y ∈ xs, y = .done) (hc : cs[xs.length]? = some c)
    (stops : x ≠ .done) (ends : ∀ payload, x ≠ .panicked payload)
    (results : u.SameResults env.state z) :
    InStep o env env' base r xs.length cs (x.stopping c.name) z (xs ++ [x])
        { u with store := s } ∨
      HasFailed o env env' base xs.length cs (x.stopping c.name) z (xs ++ [x])
        { u with store := s } := by
  cases x with
  | done => exact absurd rfl stops
  | panicked payload => exact absurd rfl (ends payload)
  | failed g =>
      by_cases hg : g = .skipRemainder
      · subst hg
        obtain ⟨hbacks, hsame⟩ := lends.cancel.endTask (vacates.skip rfl)
        refine .inl (InStep.same (.idle ?_ lends.cancel.toBacks (isCancelled_cancel _ _) rfl ?_)
          hsame hbacks)
        · exact List.forall_mem_append.mpr ⟨fun y hy => .inl (past y hy), by simp⟩
        · exact ⟨results.log, results.calls, results.state⟩
      · obtain ⟨hbacks, hsame⟩ := lends.endTask (vacates.other (by simpa using hg))
        have hxs : xs = List.replicate xs.length .done := List.eq_replicate_of_mem past
        exact .inr ⟨hbacks, (hsame.sameResults _).trans results, g, c, by rw [← hxs], hg, hc,
          Exit.stopping_failed hg _⟩

/-- The child was run under a cancelled context. -/
lemma InStep.of_idle (past : ∀ y ∈ xs, y = .done ∨ y = .failed .skipRemainder) (hx : x = .done)
    (cancelled : u.store.isCancelled env'.context = true) (success : e = .done)
    (results : u.SameResults env.state z) :
    InStep o env env' base r n cs e z (xs ++ [x]) { u with store := s } := by
  obtain ⟨hbacks, hsame⟩ := lends.endTask (vacates.other (by simp [hx]))
  refine InStep.same (.idle ?_ lends.toBacks cancelled success results) hsame hbacks
  exact List.forall_mem_append.mpr ⟨past, by simp [hx]⟩

end

/-- **A child is run in its turn, and both runs have gone on alike.** -/
lemma InStep.serve (h : InStep o env env' base r n cs e z xs w) (lends : w.Lends o env' base task)
    (state : env'.state = env.state) (ends : ∀ payload, e ≠ .panicked payload)
    (children : ∀ c ∈ cs, c.OrderFree o ∧ c.Honours o) (hc : cs[xs.length]? = some c)
    (reach : Reachable ((w.noting r' (.started xs.length c)).stage env' c) v)
    (running : v.root.isOver = false) {t : Turn} (ready : v.isReady t = true)
    (hx : (v.take t).root = .ended x) {s : Store}
    (vacates : (v.take t).store.Vacates env'.context task x s) :
    InStep o env env' base r n cs e z (xs ++ [x]) { v.take t with store := s } ∨
      HasFailed o env env' base n cs e z (xs ++ [x]) { v.take t with store := s } := by
  have hmem := List.mem_of_getElem? hc
  have hreach : Reachable ((w.noting r' (.started xs.length c)).stage env' c) (v.take t) :=
    .step reach (.turn t ready)
  have hlends : (v.take t).Lends o env' base task := (lends.noting r' _).reachable hreach
  obtain ⟨hlt, hget⟩ := List.getElem?_eq_some_iff.mp hc
  cases h with
  | @going m past _ abreast chain =>
      rw [List.drop_eq_getElem_cons hlt, hget] at chain
      have hnoting := abreast.noting r r' (.started xs.length c) (.started xs.length c)
      have htogether := fun {x₀ f} (runs : (m.noting r (.started xs.length c)).Runs o env c x₀ f) =>
        Runs.together (children c hmem).1 hnoting runs reach running ready hx
      cases chain with
      | next runs rest =>
          obtain ⟨hdone, hmatch, hf, hor⟩ := htogether runs
          exact .inl (.of_next hlends vacates state past (fun c hc => (children c hc).2) hdone
            hmatch hf hor rest)
      | @stop _ f _ _ x₀ runs stops =>
          obtain ⟨rfl, hmatch, -, -⟩ := htogether runs
          refine InStep.of_stop hlends vacates past hc stops ?_ (hmatch.sameResults state).symm
          rintro payload rfl
          exact ends payload rfl
  | idle past backs cancelled success results =>
      have hsuits := backs.suits.noting r' (.started xs.length c)
      obtain ⟨hdone, hlog, hcalls, hstate⟩ :=
        ((children c hmem).2 _ env' hsuits cancelled _ hreach).2 x hx
      have hcancelled := (hsuits.reachable hreach).2.isCancelled cancelled
      have hsame := ((same_noting w r' (.started xs.length c)).sameResults env.state).trans results
      exact .inl (.of_idle hlends vacates past hdone hcancelled success
        (.trans ⟨hlog, hcalls, state ▸ hstate⟩ hsame))

/-- A child can always be run to its end. -/
lemma InStep.returns (h : InStep o env env' base r n cs e z xs w)
    (children : ∀ c ∈ cs, c.OrderFree o ∧ c.Honours o) (hc : cs[xs.length]? = some c)
    (reach : Reachable ((w.noting r' (.started xs.length c)).stage env' c) v) :
    ∃ x f, Reachable v f ∧ f.root = .ended x := by
  have hmem := List.mem_of_getElem? hc
  obtain ⟨hlt, hget⟩ := List.getElem?_eq_some_iff.mp hc
  cases h with
  | going past _ abreast chain =>
      rw [List.drop_eq_getElem_cons hlt, hget] at chain
      have hnoting := abreast.noting r r' (.started xs.length c) (.started xs.length c)
      cases chain with
      | next runs rest => exact (Runs.returns (children c hmem).1 hnoting runs).2 v reach
      | stop runs stops => exact (Runs.returns (children c hmem).1 hnoting runs).2 v reach
  | idle past backs cancelled success results =>
      exact ((children c hmem).2 _ env' (backs.suits.noting r' _) cancelled v reach).1

/-- A throttled run with one slot keeps in step with the linear one, until that has failed. -/
theorem attends_inStep (state : env'.state = env.state) (ends : ∀ payload, e ≠ .panicked payload)
    (children : ∀ c ∈ cs, c.OrderFree o ∧ c.Honours o) :
    Attends r' env' cs (InStep o env env' base r n cs e z) (HasFailed o env env' base n cs e z)
      fun xs task w => InStep o env env' base r n cs e z xs w ∧ w.Lends o env' base task where
  alone h := ⟨h.backs.suits.alone, h.backs.suits.isOpen⟩
  alone' h := h.1.backs.suits.alone
  root root h := h.root root
  brokenRoot root h := ⟨h.backs.root root, ⟨h.results.log, h.results.calls, h.results.state⟩,
    h.failure⟩
  takenRoot root h := ⟨h.1.root root, h.2.root root⟩
  befalls h hb := h.befalls hb
  takenBefalls h hb := ⟨h.1.befalls hb, h.2.befalls hb⟩
  lend h _ noted := by
    obtain ⟨hlends, hsame⟩ := h.backs.lend noted
    exact ⟨h.same hsame hlends.toBacks, hlends⟩
  serve h hc reach running ready hx vacates :=
    h.1.serve h.2 state ends children hc reach running ready hx vacates

/-! ## After a failure -/

/-- From the world `y` on, in which the children have ended with the exits `xs₀`, later children
have been run one after another, each from the world on in which the one before had ended: a task
was admitted, the child was run in it on its own until it ended with `x`, and the slot was free
again.  The root of the worlds is of no account. -/
inductive Sequel (r : Nat) (env : Env) (cs : List Action) (xs₀ : List Exit) (y : World) :
    List Exit → World → Prop where
  | none : Sequel r env cs xs₀ y xs₀ y
  | root {xs : List Exit} {w : World} (before : Sequel r env cs xs₀ y xs w) (root : Root) :
      Sequel r env cs xs₀ y xs { w with root }
  | outside {xs : List Exit} {w v : World} (before : Sequel r env cs xs₀ y xs w)
      (befalls : w.Befalls v) : Sequel r env cs xs₀ y xs v
  | child {xs : List Exit} {w v u : World} {c : Action} {x : Exit} {s s' : Store}
      (before : Sequel r env cs xs₀ y xs w) (next : cs[xs.length]? = some c)
      (admitted : Noted { w.store with contexts := (w.store.contexts.hold env.context).2 } s)
      (settles : ({ w with store := s } : World).Settles v)
      (runs : Reachable ((v.noting r (.started xs.length c)).stage env c) u)
      (ended : u.root = .ended x)
      (vacates : u.store.Vacates env.context w.store.contexts.supply x s') :
      Sequel r env cs xs₀ y (xs ++ [x]) { u with store := s' }

/-- The children so far are the first ones. -/
lemma Sequel.begins (h : Sequel r env cs xs₀ y xs w) : xs₀ <+: xs := by
  induction h with
  | none => exact List.prefix_rfl
  | root _ _ ih => exact ih
  | outside _ _ ih => exact ih
  | child _ _ _ _ _ _ _ ih => exact ih.trans (List.prefix_append _ _)

/-- With the slot free, later children have been run after the failure. -/
structure Follows (o : Outside) (r : Nat) (env : Env) (base : Nat) (cs : List Action)
    (xs₀ : List Exit) (y : World) (xs : List Exit) (w : World) : Prop where
  backs : w.Backs o env base
  sequel : Sequel r env cs xs₀ y xs w

/-- One more was admitted, and has the given task. -/
structure FollowsOn (o : Outside) (r : Nat) (env : Env) (base : Nat) (cs : List Action)
    (xs₀ : List Exit) (y : World) (xs : List Exit) (task : Nat) (w : World) : Prop where
  lends : w.Lends o env base task
  sequel : ∃ w' s, Sequel r env cs xs₀ y xs w' ∧ task = w'.store.contexts.supply ∧
    Noted { w'.store with contexts := (w'.store.contexts.hold env.context).2 } s ∧
    ({ w' with store := s } : World).Settles w

/-- All that is still to be known after the failure is that the later children are run one after
another. -/
theorem attends_follows : Attends r env cs (Follows o r env base cs xs₀ y) (fun _ _ => False)
    (FollowsOn o r env base cs xs₀ y) where
  alone h := ⟨h.backs.suits.alone, h.backs.suits.isOpen⟩
  alone' h := h.lends.suits.alone
  root root h := ⟨h.backs.root root, h.sequel.root root⟩
  brokenRoot _ h := h
  takenRoot root h := by
    obtain ⟨w', s, hsequel, htask, hnoted, hsettles⟩ := h.sequel
    exact ⟨h.lends.root root, { w' with root }, s, hsequel.root root, htask, hnoted,
      hsettles.withRoot root⟩
  befalls h hb := ⟨h.backs.befalls hb, h.sequel.outside hb⟩
  takenBefalls h hb := by
    obtain ⟨w', s, hsequel, htask, hnoted, hsettles⟩ := h.sequel
    exact ⟨h.lends.befalls hb, w', s, hsequel, htask, hnoted, hsettles.tail hb⟩
  lend h _ noted := ⟨(h.backs.lend noted).1, _, _, h.sequel, rfl, noted, .refl⟩
  serve := by
    intro xs task w c v t x s h hc reach running ready hx vacates
    obtain ⟨w', s', hsequel, rfl, hnoted, hsettles⟩ := h.sequel
    have hreach := Reachable.step reach (.turn t ready)
    have hlends := (h.lends.noting r (.started xs.length c)).reachable hreach
    refine .inl ⟨?_, hsequel.child hc hnoted hsettles hreach hx vacates⟩
    by_cases hskip : x = .failed .skipRemainder
    · exact (hlends.cancel.endTask (vacates.skip hskip)).1
    · exact (hlends.endTask (vacates.other hskip)).1

/-- The failure of a child before which all succeeded is the failure of the run. -/
lemma resultOf_eq_of_failure {g : Failure} (hg : g ≠ .skipRemainder) (hc : cs[n]? = some c)
    (begins : List.replicate n .done ++ [.failed g] <+: xs) :
    resultOf cs xs = .failed (g.inAction c.name) := by
  obtain ⟨more, rfl⟩ := begins
  refine resultOf_eq_failed hc (x := .failed g) (by simp) ?_ fun j hj c' x' _ hx' => ?_
  · cases g <;> first | exact absurd rfl hg | rfl
  · rw [List.append_assoc, List.getElem?_append_left (by simpa using hj)] at hx'
    rw [List.eq_of_mem_replicate (List.mem_of_getElem? hx')]
    rfl

/-! ## The beginning -/

/-- Whether a scope that was just made is cancelled is decided by what it follows. -/
lemma isTokenCancelled_scope {w : World} {y : Contexts}
    (fresh : w.store.contexts.supply ∉ y.cancelled) :
    y.isTokenCancelled (w.scopeEnv env).context.token = y.isTokenCancelled env.context.token := by
  rw [Bool.eq_iff_iff, Contexts.isTokenCancelled_iff, Contexts.isTokenCancelled_iff]
  refine ⟨fun ⟨k, hk, hmem⟩ => ?_, fun ⟨k, hk, hmem⟩ => ⟨k, List.mem_cons_of_mem _ hk, hmem⟩⟩
  rcases List.mem_cons.mp hk with rfl | hk
  · exact absurd hmem fresh
  · exact ⟨k, hk, hmem⟩

section

variable {s : Store} (suits : w.Suits o env)
  (noted : Noted { w.store with contexts := (w.store.contexts.child env.context).2 } s)

include suits noted

/-- The children of a throttled run can be run under its scope. -/
lemma Suits.backs_scope :
    ({ w with store := s } : World).Backs o (w.scopeEnv env) w.store.contexts.supply := by
  have hcontexts : s.contexts = (w.store.contexts.child env.context).2 := noted.contexts
  have hsupply : s.contexts.supply = w.store.contexts.supply + 1 := by rw [hcontexts]; rfl
  have hheld : s.contexts.held = w.store.contexts.held := by rw [hcontexts]; rfl
  have htimers : s.contexts.timers = w.store.contexts.timers := by rw [hcontexts]; rfl
  have hcancelled : s.contexts.cancelled = w.store.contexts.cancelled := by rw [hcontexts]; rfl
  have hfresh : w.store.contexts.supply ∉ s.contexts.cancelled := by
    rw [hcancelled]
    exact fun hmem => (suits.hosts.cancelled_lt _ hmem).false
  have hsame : ({ w with store := s } : World).Suits o env := by
    refine suits.update noted.isOpen noted.states (by omega) (by rw [hheld]; exact suits.hosts.kept)
      ?_ htimers ?_ (by rw [hcancelled]; exact fun _ h => h)
    · rw [hheld, hsupply]
      exact fun p hp => ⟨(suits.hosts.held_lt p hp).trans (Nat.lt_succ_self _),
        suits.kept_lt p hp⟩
    · rw [hcancelled, hsupply]
      exact fun n hn => (suits.hosts.cancelled_lt n hn).trans (Nat.lt_succ_self _)
  refine ⟨{ hsame with hosts := { hsame.hosts with path_lt := ?_ }, spared := ?_, timers := ?_ },
    by dsimp only; omega, ?_⟩
  · dsimp only
    rw [hsupply]
    exact List.forall_mem_cons.mpr ⟨Nat.lt_succ_self _,
      fun n hn => (suits.hosts.path_lt n hn).trans (Nat.lt_succ_self _)⟩
  · intro x hx c hc hmem
    rcases List.mem_cons.mp hmem with heq | hmem
    · exact (suits.hosts.agenda_lt x hx c hc).ne heq
    · exact suits.spared x hx c hc hmem
  · intro live t ht hmem
    rcases List.mem_cons.mp hmem with heq | hmem
    · exact absurd heq (suits.hosts.running_lt t (htimers ▸ ht)).ne
    · refine hsame.timers ?_ t ht hmem
      exact (isTokenCancelled_scope hfresh).symm.trans live
  · dsimp only
    rw [hheld]
    intro n hn
    obtain ⟨h, hh, hmem⟩ := suits.hosts.kept n hn
    exact ⟨h, hh, suits.hosts.held_lt h hh, hmem⟩

/-- Its scope makes no difference to what can be seen. -/
lemma Matches.scope (alike : Matches env' m env w) :
    Matches env' m (w.scopeEnv env) { w with store := s } := by
  have hcontexts : s.contexts = (w.store.contexts.child env.context).2 := noted.contexts
  have hsame : w.Same { w with store := s } :=
    ⟨by rw [hcontexts]; rfl, fun n => by rw [hcontexts]; rfl, by rw [hcontexts]; rfl, noted.states,
      noted.cells, noted.log, noted.calls, rfl⟩
  intro z z' hz still hz' still'
  obtain ⟨u, hu, hsame'⟩ := hsame.symm.settles hz'
  have halike := (alike z u hz still hu (hsame'.isStill still')).trans hsame'.symm.alike
  have hfresh : w.store.contexts.supply ∉ z'.store.contexts.cancelled := by
    intro hmem
    have := (suits.settles hu).hosts.cancelled_lt _ ((hsame'.cancelled _).mpr hmem)
    rw [hu.beside.supply] at this
    exact this.false
  exact { halike with
    cancelled := halike.cancelled.trans (isTokenCancelled_scope hfresh).symm }

end

/-- The linear run has failed where it stopped. -/
lemma Chain.failed {i : Nat} {g : Failure} (chain : Chain o env r n i w cs e z)
    (failed : e = .failed g) : ∃ (c : Action) (f : Failure), cs[n - i]? = some c ∧ i ≤ n ∧
      f ≠ .skipRemainder ∧ g = f.inAction c.name := by
  induction chain with
  | nil => cases failed
  | @next i w f z c cs e runs rest ih =>
      obtain ⟨c', f', hc, hle, hne, hg⟩ := ih failed
      refine ⟨c', f', ?_, by omega, hne, hg⟩
      rw [show n - i = n - (i + 1) + 1 by omega]
      exact hc
  | @stop w f c cs x runs stops =>
      cases x with
      | done => exact absurd rfl stops
      | panicked => cases failed
      | failed f =>
          by_cases hf : f = .skipRemainder
          · subst hf
            cases failed
          · rw [Exit.stopping_failed hf] at failed
            cases failed
            exact ⟨c, f, by simp, le_refl _, hf, rfl⟩

/-- A throttled run with one slot that was started in the world `w₀` keeps in step with the linear
run. -/
def GoesOn (w₀ : World) (o : Outside) (env : Env) (r n : Nat) (cs : List Action) (e : Exit)
    (z v : World) : Prop :=
  Attended w₀.store.runs (w₀.scopeEnv env) cs
    (InStep o env (w₀.scopeEnv env) w₀.store.contexts.supply r n cs e z)
    (fun xs task w => InStep o env (w₀.scopeEnv env) w₀.store.contexts.supply r n cs e z xs w ∧
      w.Lends o (w₀.scopeEnv env) w₀.store.contexts.supply task) v

/-- A child of the throttled run has just failed, as it has in the linear run. -/
def Fails (w₀ : World) (o : Outside) (env : Env) (n : Nat) (cs : List Action) (e : Exit)
    (z y : World) : Prop :=
  y.Breaks w₀.store.runs (w₀.scopeEnv env) cs
    (HasFailed o env (w₀.scopeEnv env) w₀.store.contexts.supply n cs e z)

section

variable {w₀ l : World} {s s' : Store} (suits : w₀.Suits o env) (settles : w₀.Settles l)
  (noted : l.store.Noted s) (chain : Chain o env r n 0 { l with store := s } cs e z)
  (settles' : w₀.Settles w)
  (noted' : Noted { w.store with contexts := (w.store.contexts.child env.context).2 } s')

include suits settles noted chain settles' noted'

/-- Both runs begin under a cancelled context. -/
lemma InStep.of_cancelled (honours : ∀ c ∈ cs, c.Honours o)
    (cancelled : w₀.store.isCancelled env.context = true) :
    InStep o env (w.scopeEnv env) w.store.contexts.supply r n cs e z [] { w with store := s' } := by
  have hnoted : l.Same { l with store := s } := same_of_noted noted
  have hcontexts : s'.contexts = (w.store.contexts.child env.context).2 := noted'.contexts
  have hlinear : ({ l with store := s } : World).store.isCancelled env.context = true :=
    (hnoted.isCancelled _).trans (settles.beside.isCancelled cancelled)
  obtain ⟨he, hresults⟩ := chain.of_cancelled ((suits.settles settles).noted noted) hlinear honours
  refine .idle (by simp) ((suits.settles settles').backs_scope noted') ?_ he ?_
  · have hpast : ({ w with store := s' } : World).store.isCancelled env.context = true := by
      rw [Store.isCancelled, hcontexts]
      exact settles'.beside.isCancelled cancelled
    rcases Contexts.isCancelled_iff.mp hpast with ⟨k, hk, hmem⟩ | hdeadline
    · exact Contexts.isCancelled_iff.mpr (.inl ⟨k, List.mem_cons_of_mem _ hk, hmem⟩)
    · exact Contexts.isCancelled_iff.mpr (.inr hdeadline)
  · have hthrottled : ({ w with store := s' } : World).SameResults env.state w₀ :=
      .trans ⟨noted'.log, congrArg CallLog.calls noted'.calls,
        congrArg (·.getD env.state .empty) noted'.states⟩ (settles'.beside.sameResults _)
    have hlinear : ({ l with store := s } : World).SameResults env.state w₀ :=
      (hnoted.sameResults _).trans (settles.beside.sameResults _)
    exact hthrottled.trans (hlinear.symm.trans hresults.symm)

/-- Both begin under a live one. -/
lemma InStep.of_live (live : w₀.IsLive o env.context) (settled : Matches env w₀ env w₀) :
    InStep o env (w.scopeEnv env) w.store.contexts.supply r n cs e z [] { w with store := s' } := by
  have hnoted : l.Same { l with store := s } := same_of_noted noted
  have hcontexts : s'.contexts = (w.store.contexts.child env.context).2 := noted'.contexts
  have hbacks := (suits.settles settles').backs_scope noted'
  have halike : Matches env { l with store := s } (w.scopeEnv env) { w with store := s' } :=
    Matches.scope (suits.settles settles') noted'
      (((settled.settles settles').symm.settles settles).same hnoted).symm
  have hlive : ({ l with store := s } : World).IsLive o env.context :=
    (live.settles suits settles).same hnoted
  have hclock : ({ w with store := s' } : World).store.clock = w₀.store.clock := by
    rw [Store.clock, hcontexts]
    exact settles'.beside.clock
  rcases halike.abreast_or ((suits.settles settles).noted noted) hbacks.suits (.inr hlive.clock)
    (.inr (by rw [hclock]; exact live.clock)) with habreast | ⟨htoken, -⟩
  · exact .going (by simp) hbacks habreast chain
  · rw [hlive.token] at htoken
    cases htoken

end

/-- From its first turn on the throttled run keeps in step with the linear one. -/
lemma goesOn_of_chain {w₀ l : World} {limit : Limit} (one : limit.value = 1)
    (suits : w₀.Suits o env)
    (begins : w₀.store.isCancelled env.context = true ∨
      o.Before w₀.store.clock ∧ Matches env w₀ env w₀)
    (children : ∀ c ∈ cs, c.OrderFree o ∧ c.Honours o) (ends : ∀ payload, e ≠ .panicked payload)
    (settles : w₀.Settles l) {s : Store} (noted : l.store.Noted s)
    (chain : Chain o env r n 0 { l with store := s } cs e z) (settles' : w₀.Settles w) :
    w₀.GoesOn o env r n cs e z ((w.stage env (.throttled limit cs)).take .root) := by
  have hruns : w.store.runs = w₀.store.runs := settles'.beside.runs
  have hsupply : w.store.contexts.supply = w₀.store.contexts.supply := settles'.beside.supply
  have hscope : w.scopeEnv env = w₀.scopeEnv env := by
    simp only [scopeEnv, Contexts.child, Contexts.childToken, hsupply]
  rw [GoesOn, ← hscope, ← hsupply, ← hruns]
  refine Attends.begins one (attends_inStep rfl ends children) fun s' noted' => ?_
  by_cases hcancelled : w₀.store.isCancelled env.context = true
  · exact .of_cancelled suits settles noted chain settles' noted' (fun c hc => (children c hc).2)
      hcancelled
  · obtain ⟨hbefore, settled⟩ := begins.resolve_left hcancelled
    have hlive : w₀.IsLive o env.context :=
      ⟨Bool.eq_false_iff.mpr fun h => hcancelled (isCancelled_of_isTokenCancelled h), hbefore⟩
    exact .of_live suits settles noted chain settles' noted' hlive settled

lemma Attended.ended {free : List Exit → World → Prop} {taken : List Exit → Nat → World → Prop}
    (h : Attended r env cs free taken v) (ended : v.root = .ended x) :
    ∃ xs w, free xs w ∧ xs.length = cs.length ∧ w.SameLogs v ∧ x = resultOf cs xs := by
  cases h with
  | waits waits =>
      rw [waits.root] at ended
      cases ended
  | admitted _ _ root =>
      rw [root] at ended
      cases ended
  | serves _ _ _ root =>
      rw [inTurn_running root] at ended
      cases ended
  | finished holds all logs root =>
      rw [root] at ended
      cases ended
      exact ⟨_, _, holds, all, logs, rfl⟩

/-- The later children can be run to their ends. -/
lemma returning_followsOn {f : Failure} (later : ∀ c ∈ cs.drop (n + 1), c.Returns o) :
    Returning r' env' cs
      (FollowsOn o r' env' base cs (List.replicate n .done ++ [.failed f]) y) := by
  intro xs task w c holds hc v reach
  obtain ⟨w', s, hsequel, -⟩ := holds.sequel
  have hle : n + 1 ≤ xs.length := by simpa using hsequel.begins.length_le
  have hmem : c ∈ cs.drop (n + 1) := by
    refine List.mem_of_getElem? (i := xs.length - (n + 1)) ?_
    rw [List.getElem?_drop, Nat.add_sub_cancel' hle]
    exact hc
  exact later c hmem _ env' (holds.lends.suits.noting r' _) v reach

/-- Whatever has gone on, the first turn of the run at the latest brings it into step with the
linear run, until a child has failed. -/
lemma exists_goesOn {w₀ l : World} {limit : Limit} (one : limit.value = 1) (suits : w₀.Suits o env)
    (begins : w₀.store.isCancelled env.context = true ∨
      o.Before w₀.store.clock ∧ Matches env w₀ env w₀)
    (children : ∀ c ∈ cs, c.OrderFree o ∧ c.Honours o) (ends : ∀ payload, e ≠ .panicked payload)
    (settles : w₀.Settles l) {s : Store} (noted : l.store.Noted s)
    (chain : Chain o env r n 0 { l with store := s } cs e z)
    (reach : Reachable (w₀.stage env (.throttled limit cs)) v) :
    ∃ v', Reachable v v' ∧ (∀ x, v.root = .ended x → v' = v) ∧
      (w₀.GoesOn o env r n cs e z v' ∨
        ∃ y, Reachable (w₀.stage env (.throttled limit cs)) y ∧ Reachable y v' ∧
          w₀.Fails o env n cs e z y) := by
  obtain ⟨w, hw, hv⟩ := reach.of_stage suits.alone
  have hfirst := goesOn_of_chain one suits begins children ends settles noted chain hw
  have hreach : Reachable (w₀.stage env (.throttled limit cs))
      ((w.stage env (.throttled limit cs)).take .root) :=
    .step (Settles.course (o := o) (c := env.context) (hw.withRoot _)).reachable (.turn .root rfl)
  rcases hv with rfl | hv
  · exact ⟨_, .step .refl (.turn .root rfl), (fun _ hx => by cases hx), .inl hfirst⟩
  · refine ⟨v, .refl, fun _ _ => rfl, ?_⟩
    rcases Attended.reachable hfirst (attends_inStep rfl ends children) hv with h | h
    · exact .inl h
    · obtain ⟨y, hy, hbreaks, hyv⟩ := h
      exact .inr ⟨y, hreach.trans hy, hyv, hbreaks⟩

/-- When a run that has kept in step is over, the linear run has succeeded, and so has it. -/
lemma GoesOn.ended {w₀ : World} (h : w₀.GoesOn o env r n cs e z v) (hx : v.root = .ended x) :
    e = .done ∧ x = .done ∧ v.SameResults env.state z := by
  obtain ⟨xs, w, holds, all, hlogs, rfl⟩ := Attended.ended h hx
  obtain ⟨hdone, hresult, hw⟩ := holds.finished rfl all
  exact ⟨hdone, hresult, (hlogs.sameResults _).trans hw⟩

/-- A run that keeps in step can be run to its end, or to where a child fails. -/
lemma GoesOn.ends {w₀ : World} (h : w₀.GoesOn o env r n cs e z v)
    (ends : ∀ payload, e ≠ .panicked payload)
    (children : ∀ c ∈ cs, c.OrderFree o ∧ c.Honours o) :
    ∃ f, Reachable v f ∧ ((∃ x, f.root = .ended x) ∨ w₀.Fails o env n cs e z f) :=
  Attended.ends h (attends_inStep rfl ends children)
    fun _ _ _ _ holds hc _ reach => holds.1.returns children hc reach

/-! ## The run as a whole -/

/-- On the way from `start` to `v` a throttled run was in the world `y`, in which the children had
ended with the exits `xs₀` and no more were running.  All that has happened since was done by later
children, run one after another. -/
structure LastsOn (start : World) (env : Env) (cs : List Action) (xs₀ : List Exit) (y v : World) :
    Prop where
  before : Reachable start y
  after : Reachable y v
  ended : ∃ d, y.root = .running (.concurrent d (endedChildren cs xs₀))
  log : y.store.log.toList <+: v.store.log.toList
  calls : y.store.calls.calls.toList <+: v.store.calls.calls.toList
  rest : ∃ xs w, Sequel start.store.runs (start.scopeEnv env) cs xs₀ y xs w ∧
    xs.length = cs.length ∧ w.SameLogs v

/-- Where the linear run has succeeded, no child of the throttled one fails. -/
lemma not_fails {w₀ : World} : ¬ w₀.Fails o env n cs .done z y := by
  rintro ⟨xs, d, h⟩
  obtain ⟨f, c, -, -, -, he⟩ := h.holds.failure
  cases he

section

variable {w₀ : World} {a : Action} {g : Failure}
  (h : w₀.Fails o env n cs (.failed (g.inAction c.name)) z y)

include h

/-- After the failure the later children are run one after another. -/
lemma Fails.follows (reach : Reachable y v) : y.SameResults env.state z ∧
    (∃ d, y.root = .running (.concurrent d
      (endedChildren cs (List.replicate n .done ++ [.failed g])))) ∧
    Attended w₀.store.runs (w₀.scopeEnv env) cs
      (Follows o w₀.store.runs (w₀.scopeEnv env) w₀.store.contexts.supply cs
        (List.replicate n .done ++ [.failed g]) y)
      (FollowsOn o w₀.store.runs (w₀.scopeEnv env) w₀.store.contexts.supply cs
        (List.replicate n .done ++ [.failed g]) y) v := by
  obtain ⟨xs, d, holds, le, root, gate, remembers⟩ := h
  obtain ⟨g', c', rfl, -, -, he⟩ := holds.failure
  obtain ⟨-, rfl⟩ : c.name = c'.name ∧ g = g' := by simpa [Failure.inAction] using he
  refine ⟨holds.results, ⟨d, root⟩, ?_⟩
  rcases (Attended.waits ⟨⟨holds.backs, .none⟩, le, root, gate, remembers⟩).reachable
    attends_follows reach with h | ⟨_, -, ⟨_, _, h⟩, -⟩
  · exact h
  · exact h.holds.elim

/-- If they return, so does the run. -/
lemma Fails.ends (later : ∀ c ∈ cs.drop (n + 1), c.Returns o) (reach : Reachable y v) :
    ∃ x f, Reachable v f ∧ f.root = .ended x := by
  obtain ⟨f, hf, ⟨x, hx⟩ | ⟨_, _, h⟩⟩ := (h.follows reach).2.2.ends attends_follows
    (returning_followsOn later)
  · exact ⟨x, f, hf, hx⟩
  · exact h.holds.elim

/-- In the end the failure is that of the run. -/
lemma Fails.lastsOn (suits : w₀.Suits o env) (hg : g ≠ .skipRemainder) (hc : cs[n]? = some c)
    (before : Reachable (w₀.stage env a) y) (after : Reachable y v) (hx : v.root = .ended x) :
    x = .failed (g.inAction c.name) ∧ y.SameResults env.state z ∧
      LastsOn (w₀.stage env a) env cs (List.replicate n .done ++ [.failed g]) y v := by
  obtain ⟨hresults, hroot, hfollows⟩ := h.follows after
  obtain ⟨xs, w, holds, all, hlogs, rfl⟩ := hfollows.ended hx
  obtain ⟨howned, -⟩ := (suits.isOwned _).reachable before
  obtain ⟨-, hlater⟩ := howned.reachable after
  exact ⟨resultOf_eq_of_failure hg hc holds.sequel.begins, hresults, before, after, hroot,
    hlater.log, hlater.calls, xs, w, holds.sequel, all, hlogs⟩

end

end World

open World

/-- **One child after another.**  Take children whose own behaviour does not depend on the order of
turns and that honour cancellation, and a caller whose context is cancelled before the run, or is
not cancelled from outside while it goes on.  If a linear run of them can end with `e`, then of a
throttled run with one slot, whatever the order of the turns:

* if `e` is success, the run can always be continued to an end, and all ends are successes with the
  same logs and the same run state;
* if `e` is a failure, all ends are the same failure.  On the way the logs and the run state were
  those of the linear run, when the child that has failed had ended; everything else was done by
  later children, one after another.  If the later children return, the run can always be continued
  to an end. -/
theorem World.throttled_one {w₀ u : World} {o : Outside} {env : Env} {cs : List Action}
    {limit : Limit} {e : Exit} (one : limit.value = 1) (suits : w₀.Suits o env)
    (begins : w₀.store.isCancelled env.context = true ∨
      o.Before w₀.store.clock ∧ Matches env w₀ env w₀)
    (children : ∀ c ∈ cs, c.OrderFree o ∧ c.Honours o)
    (course : Course o env.context (w₀.stage env (.linear cs)) u) (ended : u.root = .ended e) :
    (e = .done → ∀ v, Reachable (w₀.stage env (.throttled limit cs)) v →
      (∃ x f, Reachable v f ∧ f.root = .ended x) ∧
      ∀ x, v.root = .ended x → x = .done ∧ v.SameResults env.state u) ∧
    ∀ g, e = .failed g → ∃ n c f, cs[n]? = some c ∧ f ≠ .skipRemainder ∧ g = f.inAction c.name ∧
      (∀ v x, Reachable (w₀.stage env (.throttled limit cs)) v → v.root = .ended x →
        x = .failed g ∧ ∃ y, y.SameResults env.state u ∧
          LastsOn (w₀.stage env (.throttled limit cs)) env cs
            (List.replicate n .done ++ [.failed f]) y v) ∧
      ((∀ c ∈ cs.drop (n + 1), c.Returns o) →
        ∀ v, Reachable (w₀.stage env (.throttled limit cs)) v →
          ∃ x f, Reachable v f ∧ f.root = .ended x) := by
  obtain ⟨l, n, z, hl, hlogs, hchain⟩ := chain_of_course suits.alone course ended
  have hresults : z.SameResults env.state u := (hlogs.sameResults _).symm
  have hnoted : l.store.Noted ((l.store.newRun (.linear cs)).2.report l.store.runs
      (.linearStart cs.length)) := ⟨rfl, rfl, rfl, rfl, rfl, rfl⟩
  have hgoes := fun ends {v} reach =>
    exists_goesOn (v := v) one suits begins children ends hl hnoted hchain reach
  refine ⟨?_, ?_⟩
  · rintro rfl v reach
    obtain ⟨v', hv', hsame, hon | ⟨y, -, -, hfails⟩⟩ := hgoes (by simp) reach
    · refine ⟨?_, fun x hx => ?_⟩
      · obtain ⟨f, hf, ⟨x, hx⟩ | hfails⟩ := hon.ends (by simp) children
        · exact ⟨x, f, hv'.trans hf, hx⟩
        · exact absurd hfails not_fails
      · rw [hsame x hx] at hon
        obtain ⟨-, hdone, hv⟩ := hon.ended hx
        exact ⟨hdone, hv.trans hresults⟩
    · exact absurd hfails not_fails
  · rintro g rfl
    obtain ⟨c, f, hc, -, hf, rfl⟩ := hchain.failed rfl
    refine ⟨n, c, f, hc, hf, rfl, fun v x reach hx => ?_, fun later v reach => ?_⟩
    · obtain ⟨v', -, hsame, h⟩ := hgoes (by simp) reach
      rw [hsame x hx] at h
      rcases h with hon | ⟨y, hy, hyv, hfails⟩
      · cases (hon.ended hx).1
      · obtain ⟨hfailed, hyz, hlasts⟩ := hfails.lastsOn suits hf hc hy hyv hx
        exact ⟨hfailed, y, hyz.trans hresults, hlasts⟩
    · obtain ⟨v', hv', -, hon | ⟨y, -, hyv, hfails⟩⟩ := hgoes (by simp) reach
      · obtain ⟨f', hf', ⟨x, hx⟩ | hfails⟩ := hon.ends (by simp) children
        · exact ⟨x, f', hv'.trans hf', hx⟩
        · obtain ⟨x, u, hu, hx⟩ := hfails.ends later .refl
          exact ⟨x, u, hv'.trans (hf'.trans hu), hx⟩
      · obtain ⟨x, u, hu, hx⟩ := hfails.ends later hyv
        exact ⟨x, u, hv'.trans hu, hx⟩

/-- The second of three recording actions fails. -/
def Scenario.failSecond : Scenario where
  action := .linear
    [({ name := "first", honorsCancel := true } : Recording).action,
      ({ name := "second", outcome := .fail "no", honorsCancel := true } : Recording).action,
      ({ name := "third", honorsCancel := true } : Recording).action]

/-- Whatever the order of the turns, the third is run with one slot, and the failure is that of the
second. -/
theorem World.throttled_one_failSecond :
    let start := Scenario.failSecond.start
    let env := Scenario.failSecond.opening.1
    let cs := [({ name := "first", honorsCancel := true } : Recording).action,
      ({ name := "second", outcome := .fail "no", honorsCancel := true } : Recording).action,
      ({ name := "third", honorsCancel := true } : Recording).action]
    let failure : Failure := .failed "second" (.plain "no")
    let u := (start.stage env (.linear cs)).take .root
    u.root = .ended (.failed failure) ∧ u.store.calls.calls = #["first", "second"] ∧
      ∀ v, Reachable (start.stage env (.throttled .one cs)) v →
        (∃ x f, Reachable v f ∧ f.root = .ended x) ∧ ∀ x, v.root = .ended x →
          x = .failed failure ∧ #["first", "second"].toList <+: v.store.calls.calls.toList := by
  intro start env cs failure u
  have hroot : u.root = .ended (.failed failure) := rfl
  have hchildren : ∀ c ∈ cs, ∃ r : Recording, r.delay = none ∧ r.honorsCancel = true ∧
      c = r.action := by
    simp only [cs, List.forall_mem_cons]
    exact ⟨⟨_, rfl, rfl, rfl⟩, ⟨_, rfl, rfl, rfl⟩, ⟨_, rfl, rfl, rfl⟩, by simp⟩
  have hkinds : ∀ c ∈ cs, c.OrderFree { horizon := none } ∧ c.Honours { horizon := none } := by
    intro c hc
    obtain ⟨r, hprompt, hhonors, rfl⟩ := hchildren c hc
    exact ⟨r.orderFree hprompt _, r.honours hprompt hhonors _⟩
  obtain ⟨n, c, f, -, -, -, hends, hreturns⟩ := (throttled_one
    (show Limit.one.value = 1 from rfl) (Scenario.failSecond.start_suits rfl)
    (Scenario.failSecond.start_begins rfl) hkinds (.single (.turn .root rfl)) hroot).2 failure rfl
  refine ⟨hroot, rfl, fun v reach => ⟨hreturns (fun c hc => ?_) v reach, fun x hx => ?_⟩⟩
  · obtain ⟨r, hprompt, -, rfl⟩ := hchildren c (List.mem_of_mem_drop hc)
    exact r.returns hprompt _
  · obtain ⟨hx, y, hresults, hlasts⟩ := hends v x reach hx
    refine ⟨hx, ?_⟩
    have hcalls : y.store.calls.calls = #["first", "second"] := hresults.calls
    exact hcalls ▸ hlasts.calls

/-- The first of two actions fails, and the second waits to be cancelled. -/
def Action.failThenWait : List Action :=
  [({ name := "first", outcome := .fail "no", honorsCancel := true } : Recording).action,
    .waiting "second"]

/-- The second action waits in a throttled run with one slot. -/
def Scenario.waitSecond : Scenario where
  action := .throttled .one Action.failThenWait

/-- The world in which it waits. -/
def World.unanswered : World :=
  (((Scenario.waitSecond.start.take .root).take (.task 0 [])).take .root).take (.task 1 [])

lemma World.reachable_unanswered : Reachable Scenario.waitSecond.start unanswered :=
  .step (.step (.step (.step .refl (.turn .root rfl)) (.turn (.task 0 []) rfl))
    (.turn .root rfl)) (.turn (.task 1 []) rfl)

lemma World.unanswered_root : ∃ (d : Dispatch) (y : Exit),
    unanswered.root = .running (.concurrent d [.ended "first" y, .running 4 "second"
      (.leaf ⟨⟨⟨2, [0]⟩, none, []⟩, 0⟩ [] (.ask .untilCancelled fun _ => .succeed))]) ∧
    d.queue = [] ∧ d.collected = 1 :=
  ⟨_, _, rfl, rfl, rfl⟩

/-- Nothing goes on there any more. -/
lemma World.unanswered_not_step (v : World) : ¬ Step unanswered v := by
  obtain ⟨d, y, hroot, hqueue, hcollected⟩ := unanswered_root
  have hcancelled : unanswered.store.contexts.cancelled = [] := rfl
  have htimers : unanswered.store.contexts.timers = [] := rfl
  have hagenda : unanswered.agenda = [] := rfl
  have horphans : unanswered.orphans = [] := rfl
  generalize unanswered = w at hroot hcancelled htimers hagenda horphans
  rintro (⟨t, ready⟩ | ⟨quiet, next⟩)
  · rcases ready_cases ready horphans with rfl | ⟨index, path, rfl⟩ | hb
    · simp [isReady, hroot, Proc.isReady, Dispatch.isReady, hqueue, hcollected, Child.isLive,
        Child.task?] at ready
    · simp only [isReady, hroot, Proc.isReadyAt, isReadyAmong_eq] at ready
      rcases index with - | - | index
      · simp [Child.isReadyAt] at ready
      · cases path with
        | nil =>
            simp [Child.isReadyAt, Proc.isReady, Body.isReady, grants, perform?,
              Store.isTokenCancelled, Contexts.isTokenCancelled, hcancelled] at ready
        | cons i path => simp [Child.isReadyAt, Proc.isReadyAt] at ready
      · simp at ready
    · exact IsStill.not_befalls ⟨by simp [htimers], by simp [hagenda]⟩ hb
  · simp [nextTime?, times, hroot, htimers, hagenda, Proc.wakeTimes, wakeTimesAmong,
      Child.wakeTimes, wakeTime?] at next

/-- The later children may keep a throttled run from returning at all, although the linear run has
failed: nobody cancels the scope when a child has failed. -/
theorem World.throttled_one_unanswered :
    ¬ ∀ {w₀ u : World} {o : Outside} {env : Env} {cs : List Action} {limit : Limit} {g : Failure},
      limit.value = 1 → w₀.Suits o env →
      (w₀.store.isCancelled env.context = true ∨
        o.Before w₀.store.clock ∧ Matches env w₀ env w₀) →
      (∀ c ∈ cs, c.Calm o ∧ c.OrderFree o ∧ c.Honours o) →
      Course o env.context (w₀.stage env (.linear cs)) u → u.root = .ended (.failed g) →
      ∀ v, Reachable (w₀.stage env (.throttled limit cs)) v →
        ∃ f, Reachable v f ∧ f.root = .ended (.failed g) := by
  intro claim
  have hkinds : ∀ c ∈ Action.failThenWait, c.Calm { horizon := none } ∧
      c.OrderFree { horizon := none } ∧ c.Honours { horizon := none } := by
    simp only [Action.failThenWait, List.forall_mem_cons]
    exact ⟨⟨Recording.calm _ _, Recording.orderFree rfl _, Recording.honours rfl rfl _⟩,
      ⟨Action.calm_waiting _ _, Action.orderFree_waiting _ _, Action.honours_waiting _ _⟩, by simp⟩
  obtain ⟨f, hf, hx⟩ := claim (show Limit.one.value = 1 from rfl)
    (Scenario.waitSecond.start_suits rfl) (Scenario.waitSecond.start_begins rfl) hkinds
    (.single (.turn .root rfl)) rfl unanswered reachable_unanswered
  rcases Relation.ReflTransGen.cases_head (reachable_iff.mp hf) with rfl | ⟨v, hstep, -⟩
  · obtain ⟨d, y, hroot, -⟩ := unanswered_root
    rw [hroot] at hx
    cases hx
  · exact unanswered_not_step v hstep

end Workflow
