import Mathlib.Logic.Function.Basic
import Workflow.Proofs.Custody

/-!
# Who may cancel a token

While an action runs for a caller, tokens are made for different ends, and for each end there is
somebody who may cancel the token.  An *origin* is given to every number that becomes that of a
token: those that were there before belong to the caller; a timer cancels the token of a context
with a deadline, at the latest when nobody holds that context any more; the token of the scope that
a throttled run made for its children is cancelled when one of them has asked to skip the remainder;
a token that a body has derived for an action that it runs is cancelled by nobody.

**The law.**  `Store.InOrder` says that the ledger of contexts agrees with the origins, and the
cancelled scopes with the trace.

**The steps.**  `Store.Grows` is what code does to a store as it runs: the law holds afterwards,
origins are given to new numbers only, and nothing that was there before is cancelled.  The lemmas
below show it of each thing that code does, from marks (`Grows.mark`) to the cancellation of a scope
(`Grows.skip`).
-/

namespace Workflow

open Store

/-! ## Origins -/

/-- What the token of a number was made for. -/
inductive Origin where
  /-- There is no token of the number that was made since. -/
  | unused
  /-- It was there before. -/
  | caller
  /-- The context of the token has a deadline. -/
  | timed
  /-- A body derived it for an action that it runs. -/
  | plain
  /-- It is that of the scope of a run. -/
  | scope (run : Nat)

/-- The context that an action is run with, and the number that came next at that time. -/
structure Caller where
  context : Context
  supply : Nat

/-- Origins were given to unused numbers, and nothing else has changed. -/
def Keeps (o o' : Nat → Origin) : Prop :=
  ∀ n, o n ≠ .unused → o' n = o n

/-- The run has no scope. -/
def NoScope (o : Nat → Origin) (run : Nat) : Prop :=
  ∀ n, o n ≠ .scope run

/-- The timers that a context keeps running are the caller's, or were started since. -/
def Context.Fair (k : Caller) (o : Nat → Origin) (c : Context) : Prop :=
  ∀ n ∈ c.timers, n ∈ k.context.timers ∨ o n = .timed

lemma Caller.fair (k : Caller) (o : Nat → Origin) : k.context.Fair k o :=
  fun _ hn => .inl hn

lemma Keeps.refl (o : Nat → Origin) : Keeps o o := fun _ _ => rfl

lemma Keeps.eq {o o' : Nat → Origin} (h : Keeps o o') {n : Nat} {x : Origin} (hn : o n = x)
    (hx : x ≠ .unused) : o' n = x := by
  rw [h n (by rw [hn]; exact hx), hn]

lemma Keeps.update {o : Nat → Origin} {n : Nat} (hn : o n = .unused) (x : Origin) :
    Keeps o (Function.update o n x) := by
  intro m hm
  rw [Function.update_of_ne]
  rintro rfl
  exact hm hn

lemma Context.Fair.keeps {k : Caller} {o o' : Nat → Origin} {c : Context} (h : c.Fair k o)
    (keeps : Keeps o o') : c.Fair k o' :=
  fun n hn => (h n hn).imp_right fun hn => keeps.eq hn (by simp)

/-! ## The ledger -/

/-- The ledger of contexts agrees with the origins. -/
structure Contexts.Known (k : Caller) (o : Nat → Origin) (x : Contexts) : Prop where
  supply_le : k.supply ≤ x.supply
  unused : ∀ n, x.supply ≤ n → o n = .unused
  caller : ∀ n < k.supply, o n = .caller
  timers : ∀ t ∈ x.timers, o t.token.number = .caller ∨ o t.token.number = .timed
  /-- What is held since keeps no other timers running. -/
  held : ∀ h ∈ x.held, k.supply ≤ h.1 → h.2.Fair k o
  /-- The caller keeps its own timers running. -/
  kept : ∀ n ∈ k.context.timers, ∃ h ∈ x.held, h.1 < k.supply ∧ n ∈ h.2.timers

namespace Contexts.Known

variable {k : Caller} {o : Nat → Origin} {x : Contexts} {c : Context}

lemma caller_ne (h : x.Known k o) {n : Nat} (hn : n < k.supply) {y : Origin} (hy : o n = y) :
    y = .caller := by
  rw [← hy, h.caller n hn]

/-- The next number becomes that of a token. -/
lemma token (h : x.Known k o) (y : Origin) :
    ({ x with supply := x.supply + 1 } : Contexts).Known k (Function.update o x.supply y) where
  supply_le := h.supply_le.trans (Nat.le_succ _)
  unused n hn := by
    have hn : x.supply + 1 ≤ n := hn
    rw [Function.update_of_ne (by omega)]
    exact h.unused n (by omega)
  caller n hn := by
    rw [Function.update_of_ne (by have := h.supply_le; omega)]
    exact h.caller n hn
  timers t ht := by
    have hkeeps := Keeps.update (h.unused x.supply (le_refl _)) y
    exact (h.timers t ht).imp (fun ht => hkeeps.eq ht (by simp)) fun ht => hkeeps.eq ht (by simp)
  held p hp hle := (h.held p hp hle).keeps (.update (h.unused x.supply (le_refl _)) y)
  kept := h.kept

/-- The next number becomes that of a handle. -/
lemma hold (h : x.Known k o) (fair : c.Fair k o) : (x.hold c).2.Known k o where
  supply_le := h.supply_le.trans (Nat.le_succ _)
  unused n hn := h.unused n (by have : x.supply + 1 ≤ n := hn; omega)
  caller := h.caller
  timers := h.timers
  held p hp hle := by
    rcases List.mem_cons.mp hp with rfl | hp
    · exact fair
    · exact h.held p hp hle
  kept n hn := by
    obtain ⟨p, hp, hlt, hmem⟩ := h.kept n hn
    exact ⟨p, List.mem_cons_of_mem _ hp, hlt, hmem⟩

/-- A timer is started for the token of a context with a deadline. -/
lemma withDeadline (h : x.Known k o) (deadline : Nat) :
    (x.withDeadline c deadline).2.Known k (Function.update o x.supply .timed) where
  __ := h.token .timed
  timers t ht := by
    rcases List.mem_append.mp ht with ht | ht
    · exact (h.token .timed).timers t ht
    · rw [List.mem_singleton.mp ht]
      exact .inr (Function.update_self ..)

/-- A handle that was given out since is let go: the ledger agrees, and only timers that were
started since are stopped. -/
lemma release (h : x.Known k o) {handle : Nat} (mine : k.supply ≤ handle) :
    (x.release handle).Known k o ∧
      ∃ more, (x.release handle).cancelled = more ++ x.cancelled ∧ ∀ n ∈ more, o n = .timed := by
  unfold Contexts.release
  cases hfind : x.find? handle with
  | none => exact ⟨h, [], rfl, by simp⟩
  | some c =>
      have hkept : ∀ n ∈ k.context.timers, ∃ p ∈ x.held.filter fun p => p.1 != handle,
          p.1 < k.supply ∧ n ∈ p.2.timers := by
        intro n hn
        obtain ⟨p, hp, hlt, hmem⟩ := h.kept n hn
        exact ⟨p, List.mem_filter.mpr ⟨hp, bne_iff_ne.mpr (by omega)⟩, hlt, hmem⟩
      refine ⟨⟨h.supply_le, h.unused, h.caller, h.timers, ?_, hkept⟩, _, rfl, ?_⟩
      · exact fun p hp => h.held p (List.mem_of_mem_filter hp)
      · intro n hn
        obtain ⟨hn, hlast⟩ := List.mem_filter.mp (List.mem_reverse.mp hn)
        refine (h.held _ (Contexts.mem_held_of_find? hfind) mine n hn).resolve_left
          fun hcaller => ?_
        -- The caller holds on to its own timers.
        obtain ⟨p, hp, -, hmem⟩ := hkept n hcaller
        simp only [Contexts.isKept, Bool.not_eq_true', List.any_eq_false] at hlast
        exact hlast p hp (List.contains_iff_mem.mpr hmem)

end Contexts.Known

/-! ## The store -/

/-- A child of the run has asked to skip the remainder, and the run has taken notice. -/
def Store.Skipped (s : Store) (run : Nat) : Prop :=
  ∃ i, .ended i (.failed .skipRemainder) ∈ s.marks run

/-- Whatever was cancelled was cancelled by somebody who may, and of the scopes those are cancelled
whose runs were told to skip the remainder. -/
structure Store.InOrder (k : Caller) (o : Nat → Origin) (s : Store) : Prop where
  tidy : s.Tidy
  known : s.contexts.Known k o
  bound : ∀ n r, o n = .scope r → r < s.runs
  single : ∀ n m r, o n = .scope r → o m = .scope r → n = m
  cancelled : ∀ n ∈ s.contexts.cancelled,
    o n = .caller ∨ o n = .timed ∨ ∃ r, o n = .scope r ∧ s.Skipped r
  skipped : ∀ n r, o n = .scope r → s.Skipped r → n ∈ s.contexts.cancelled

/-- What code does to a store as it runs. -/
structure Store.Grows (k : Caller) (o : Nat → Origin) (s : Store) (o' : Nat → Origin) (s' : Store) :
    Prop where
  order : s'.InOrder k o'
  clock : s'.clock = s.clock
  runs_le : s.runs ≤ s'.runs
  keeps : Keeps o o'
  /-- No run that was there before gets a scope. -/
  fresh : ∀ n r, o n = .unused → o' n = .scope r → s.runs ≤ r
  /-- Nothing that is the caller's is cancelled. -/
  quiet : ∀ n < k.supply, (n ∈ s'.contexts.cancelled ↔ n ∈ s.contexts.cancelled)

lemma Store.skipped_congr {s s' : Store} {r : Nat} (h : s'.notes r = s.notes r) :
    s'.Skipped r ↔ s.Skipped r := by
  rw [Skipped, Skipped, marks_congr h]

/-- A mark that is no request to skip the remainder makes no difference to whether there was one. -/
lemma Store.skipped_mark {s : Store} {r : Nat} {m : Mark}
    (plain : ∀ i, m ≠ .ended i (.failed .skipRemainder)) (r' : Nat) :
    (s.mark r m).Skipped r' ↔ s.Skipped r' := by
  by_cases hr : r' = r
  · subst hr
    simp only [Skipped, marks_mark, List.mem_append, List.mem_singleton]
    exact exists_congr fun i => or_iff_left (plain i).symm
  · exact skipped_congr (notes_mark_of_ne s m hr)

/-- The token of the scope that a run gets is the only one of that run. -/
lemma NoScope.update_eq {o : Nat → Origin} {r : Nat} (h : NoScope o r) {n₀ n r' : Nat}
    (hn : Function.update o n₀ (.scope r) n = .scope r') :
    n = n₀ ∧ r' = r ∨ n ≠ n₀ ∧ r' ≠ r ∧ o n = .scope r' := by
  by_cases hnn : n = n₀
  · subst hnn
    rw [Function.update_self] at hn
    exact .inl ⟨rfl, (Origin.scope.inj hn).symm⟩
  · rw [Function.update_of_ne hnn] at hn
    exact .inr ⟨hnn, fun hr => h n (hr ▸ hn), hn⟩

lemma Store.InOrder.plain_notMem {k : Caller} {o : Nat → Origin} {s : Store} (h : s.InOrder k o)
    {n : Nat} (hn : o n = .plain) : n ∉ s.contexts.cancelled := by
  intro hmem
  rcases h.cancelled n hmem with h | h | ⟨r, h, -⟩ <;> simp [hn] at h

/-- A scope is cancelled when its run was told to skip the remainder. -/
lemma Store.InOrder.scope_mem {k : Caller} {o : Nat → Origin} {s : Store} (h : s.InOrder k o)
    {n r : Nat} (hn : o n = .scope r) : n ∈ s.contexts.cancelled ↔ s.Skipped r := by
  refine ⟨fun hmem => ?_, h.skipped n r hn⟩
  rcases h.cancelled n hmem with h | h | ⟨r', h, hskip⟩
  · simp [hn] at h
  · simp [hn] at h
  · rw [hn] at h
    rw [Origin.scope.inj h]
    exact hskip

/-- Nothing that concerns runs happens, and of the tokens only those of timers are cancelled. -/
lemma Store.InOrder.ledger {k : Caller} {o o' : Nat → Origin} {s s' : Store} (h : s.InOrder k o)
    (same : s.SameRuns s') (known : s'.contexts.Known k o') (keeps : Keeps o o')
    (scopes : ∀ n r, o' n = .scope r → o n = .scope r)
    (grown : ∃ more, s'.contexts.cancelled = more ++ s.contexts.cancelled ∧
      ∀ n ∈ more, o' n = .caller ∨ o' n = .timed) : s'.InOrder k o' where
  tidy := same.tidy h.tidy
  known := known
  bound n r hn := (h.bound n r (scopes n r hn)).trans_eq same.runs.symm
  single n m r hn hm := h.single n m r (scopes n r hn) (scopes m r hm)
  cancelled n hn := by
    obtain ⟨more, heq, hmore⟩ := grown
    rw [heq, List.mem_append] at hn
    rcases hn with hn | hn
    · exact (hmore n hn).imp_right .inl
    · rcases h.cancelled n hn with hn | hn | ⟨r, hn, hskip⟩
      · exact .inl (keeps.eq hn (by simp))
      · exact .inr (.inl (keeps.eq hn (by simp)))
      · exact .inr (.inr ⟨r, keeps.eq hn (by simp), (skipped_congr (same.notes r)).mpr hskip⟩)
  skipped n r hn hskip := by
    obtain ⟨more, heq, -⟩ := grown
    rw [heq]
    exact List.mem_append_right _
      (h.skipped n r (scopes n r hn) ((skipped_congr (same.notes r)).mp hskip))

lemma Store.contexts_settle (s : Store) (cell : Nat) (how : Settlement Datum) :
    (s.settle cell how).2.contexts = s.contexts := by
  unfold Store.settle
  split
  · rfl
  · split
    · dsimp only
      split <;> rfl
    · rfl

namespace Store.Grows

variable {k : Caller} {o o' o'' : Nat → Origin} {s s' s'' : Store}

lemma refl (h : s.InOrder k o) : s.Grows k o o s where
  order := h
  clock := rfl
  runs_le := le_refl _
  keeps := .refl o
  fresh n r hn hn' := by simp [hn] at hn'
  quiet _ _ := Iff.rfl

theorem trans (h : s.Grows k o o' s') (h' : s'.Grows k o' o'' s'') : s.Grows k o o'' s'' where
  order := h'.order
  clock := h'.clock.trans h.clock
  runs_le := h.runs_le.trans h'.runs_le
  keeps n hn := by
    have hn' := h.keeps n hn
    rw [h'.keeps n (by rw [hn']; exact hn), hn']
  fresh n r hn hn'' := by
    by_cases hn' : o' n = .unused
    · exact h.runs_le.trans (h'.fresh n r hn' hn'')
    · exact h.fresh n r hn (by rw [← h'.keeps n hn', hn''])
  quiet n hn := (h'.quiet n hn).trans (h.quiet n hn)

/-- A run that was there before still has no scope. -/
lemma noScope (h : s.Grows k o o' s') {r : Nat} (hr : r < s.runs) (hscope : NoScope o r) :
    NoScope o' r := by
  intro n hn
  by_cases hunused : o n = .unused
  · have := h.fresh n r hunused hn
    omega
  · exact hscope n (by rw [← h.keeps n hunused, hn])

/-! ## What concerns the ledger -/

/-- Nothing that concerns runs happens, and of the tokens only those of timers that were started
since are cancelled. -/
lemma ledger (h : s.InOrder k o) (same : s.SameRuns s') (known : s'.contexts.Known k o')
    (keeps : Keeps o o') (scopes : ∀ n r, o' n = .scope r → o n = .scope r)
    (grown : ∃ more, s'.contexts.cancelled = more ++ s.contexts.cancelled ∧
      ∀ n ∈ more, o' n = .timed) : s.Grows k o o' s' where
  order := by
    obtain ⟨more, heq, hmore⟩ := grown
    exact h.ledger same known keeps scopes ⟨more, heq, fun n hn => .inr (hmore n hn)⟩
  clock := same.clock
  runs_le := same.runs.ge
  keeps := keeps
  fresh n r hn hn' := by
    have := scopes n r hn'
    simp [hn] at this
  quiet n hn := by
    obtain ⟨more, heq, hmore⟩ := grown
    rw [heq, List.mem_append, or_iff_right]
    intro hmem
    have := known.caller_ne hn (hmore n hmem)
    cases this

/-- Nothing happens that concerns runs or contexts. -/
lemma aside (h : s.InOrder k o) (same : s.SameRuns s') (contexts : s'.contexts = s.contexts) :
    s.Grows k o o s' :=
  .ledger h same (by rw [contexts]; exact h.known) (.refl o) (fun _ _ hn => hn)
    ⟨[], by rw [contexts]; rfl, by simp⟩

lemma newTask (h : s.InOrder k o) {c : Context} (fair : c.Fair k o) :
    s.Grows k o o (s.newTask c).2 :=
  .ledger h (s.sameRuns_newTask c) (h.known.hold fair) (.refl o) (fun _ _ hn => hn)
    ⟨[], rfl, by simp⟩

lemma endTask (h : s.InOrder k o) {task : Nat} (mine : k.supply ≤ task) :
    s.Grows k o o (s.endTask task) := by
  obtain ⟨known, grown⟩ := h.known.release mine
  exact .ledger h (s.sameRuns_endTask task) known (.refl o) (fun _ _ hn => hn) grown

lemma leave (h : s.InOrder k o) {handle : Option Nat} (mine : ∀ n, handle = some n → k.supply ≤ n) :
    s.Grows k o o (s.leave handle) := by
  cases handle with
  | none => exact .refl h
  | some handle => exact endTask h (mine handle rfl)

lemma endGuards (h : s.InOrder k o) (gs : List Guard) : s.Grows k o o (s.endGuards gs) := by
  refine .aside h (s.sameRuns_endGuards gs) ?_
  induction gs generalizing s with
  | nil => rfl
  | cons g gs ih =>
      have hguard : s.Grows k o o (s.endGuard g) :=
        .aside h (s.sameRuns_endGuard g) (by cases g <;> rfl)
      exact (ih hguard.order).trans (by cases g <;> rfl)

lemma raiseGuard (h : s.InOrder k o) (g : Guard) : s.Grows k o o (s.raiseGuard g) :=
  .aside h (s.sameRuns_raiseGuard g) (by cases g <;> rfl)

/-- Of all effects only one cancels something. -/
lemma perform? (h : s.InOrder k o) {env : Env} {e : Effect} (gentle : e ≠ .cancel) {reply : e.Reply}
    (granted : s.perform? env e = some (reply, s')) : s.Grows k o o s' := by
  refine .aside h (sameRuns_perform? granted) ?_
  cases e <;> simp only [Store.perform?, Option.some.injEq, Prod.mk.injEq] at granted
  case cancel => exact absurd rfl gentle
  case clock | deadline | isCancelled | log | record | state => obtain ⟨-, rfl⟩ := granted; rfl
  case settle cell how =>
    rw [show s' = (s.settle cell how).2 by rw [granted]]
    exact contexts_settle s cell how
  case await =>
    obtain ⟨v, -, hv⟩ := Option.map_eq_some_iff.mp granted
    cases hv; rfl
  all_goals
    split_ifs at granted <;> cases granted <;> rfl

/-! ## What concerns runs -/

/-- A mark is noted that is no request to skip the remainder of a run with a scope. -/
lemma mark (h : s.InOrder k o) {r : Nat} (hr : r < s.runs) (m : Mark)
    (harmless : (∀ i, m ≠ .ended i (.failed .skipRemainder)) ∨ NoScope o r) :
    s.Grows k o o (s.mark r m) := by
  have hskip : ∀ n r', o n = .scope r' → ((s.mark r m).Skipped r' ↔ s.Skipped r') := by
    intro n r' hn
    rcases harmless with hplain | hscope
    · exact skipped_mark hplain r'
    · exact skipped_congr (notes_mark_of_ne s m fun hr => hscope n (hr ▸ hn))
  refine ⟨⟨(Touches.mark r s m).tidy h.tidy hr, h.known, h.bound, h.single, fun n hn => ?_,
    fun n r' hn hs => ?_⟩, rfl, le_refl _, .refl o, (refl h).fresh, fun _ _ => Iff.rfl⟩
  · refine (h.cancelled n hn).imp_right (Or.imp_right ?_)
    rintro ⟨r', hn', hs⟩
    exact ⟨r', hn', (hskip n r' hn').mpr hs⟩
  · exact h.skipped n r' hn ((hskip n r' hn).mp hs)

lemma finishRun (h : s.InOrder k o) {r : Nat} (hr : r < s.runs) (e : Exit) :
    s.Grows k o o (s.mark r (.finished e)) :=
  .mark h hr _ (.inl fun i => by simp)

lemma report (h : s.InOrder k o) {r : Nat} (hr : r < s.runs) (event : Event) :
    s.Grows k o o (s.report r event) :=
  .mark h hr _ (.inl fun i => by simp)

/-- A run begins.  It has no scope, and nobody has asked it for anything. -/
lemma newRun (h : s.InOrder k o) (a : Action) :
    s.Grows k o o (s.newRun a).2 ∧ NoScope o s.runs ∧ ¬(s.newRun a).2.Skipped s.runs := by
  have hnotes : ∀ r, r ≠ s.runs → (s.newRun a).2.notes r = s.notes r := fun r hr =>
    notes_mark_of_ne { s with runs := s.runs + 1 } _ hr
  have hscope : NoScope o s.runs := fun n hn => absurd (h.bound n _ hn) (lt_irrefl _)
  have hskip : ∀ n r, o n = .scope r → ((s.newRun a).2.Skipped r ↔ s.Skipped r) := by
    intro n r hn
    exact skipped_congr (hnotes r fun hr => hscope n (hr ▸ hn))
  refine ⟨⟨⟨⟨fun r hr => ?_, h.tidy.isOpen⟩, h.known, fun n r hn => ?_, h.single, fun n hn => ?_,
    fun n r hn hs => ?_⟩, rfl, Nat.le_succ _, .refl o, (refl h).fresh, fun _ _ => Iff.rfl⟩, hscope,
    ?_⟩
  · have hr : s.runs + 1 ≤ r := hr
    rw [hnotes r (by omega)]
    exact h.tidy.fresh r (by omega)
  · exact (h.bound n r hn).trans (Nat.lt_succ_self _)
  · refine (h.cancelled n hn).imp_right (Or.imp_right ?_)
    rintro ⟨r, hn', hs⟩
    exact ⟨r, hn', (hskip n r hn').mpr hs⟩
  · exact h.skipped n r hn ((hskip n r hn).mp hs)
  · rintro ⟨i, hi⟩
    have hmarks : (s.newRun a).2.marks s.runs = s.marks s.runs ++ [.begun a] :=
      marks_mark { s with runs := s.runs + 1 } s.runs (.begun a)
    rw [hmarks, marks, h.tidy.fresh s.runs (le_refl _)] at hi
    simp at hi

/-- A run that has begun since makes a scope for its children. -/
lemma derive (h : s.Grows k o o s') {r : Nat} (new : s.runs ≤ r) (bound : r < s'.runs)
    (noScope : NoScope o r) (unasked : ¬s'.Skipped r) (c : Context) :
    s.Grows k o (Function.update o s'.contexts.supply (.scope r))
      ({ s' with contexts := (s'.contexts.child c).2 }.mark r
        (.derived (s'.contexts.child c).1)) := by
  set n₀ := s'.contexts.supply with hn₀
  have hkeeps : Keeps o (Function.update o n₀ (.scope r)) :=
    .update (h.order.known.unused n₀ (le_refl _)) _
  have hother : ∀ n r', Function.update o n₀ (.scope r) n = .scope r' → n = n₀ ∧ r' = r ∨
      n ≠ n₀ ∧ r' ≠ r ∧ o n = .scope r' := fun n r' hn => noScope.update_eq hn
  set s₁ : Store := { s' with contexts := (s'.contexts.child c).2 } with hs₁
  have hsame : s'.SameRuns s₁ := .of_trace rfl rfl rfl rfl
  have htouch : Touches r s' (s₁.mark r (.derived (s'.contexts.child c).1)) :=
    (Touches.of_sameRuns hsame r).trans (.mark r s₁ _)
  have hskip : ∀ r', (s₁.mark r (.derived (s'.contexts.child c).1)).Skipped r' ↔ s'.Skipped r' :=
    fun r' => (skipped_mark (by simp) r').trans (skipped_congr (hsame.notes r'))
  refine ⟨⟨htouch.tidy h.order.tidy bound, h.order.known.token _, fun n r' hn => ?_,
    fun n m r' hn hm => ?_, fun n hn => ?_, fun n r' hn hs => ?_⟩, h.clock, h.runs_le, hkeeps,
    fun n r' hn hn' => ?_, h.quiet⟩
  · rcases hother n r' hn with ⟨-, rfl⟩ | ⟨-, -, hn⟩
    · exact bound
    · exact h.order.bound n r' hn
  · rcases hother n r' hn with ⟨rfl, rfl⟩ | ⟨-, hne, hn⟩
    · rcases hother m r' hm with ⟨rfl, -⟩ | ⟨-, hne, -⟩
      · rfl
      · exact absurd rfl hne
    · rcases hother m r' hm with ⟨-, rfl⟩ | ⟨-, -, hm⟩
      · exact absurd rfl hne
      · exact h.order.single n m r' hn hm
  · rcases h.order.cancelled n hn with hn | hn | ⟨r', hn, hs⟩
    · exact .inl (hkeeps.eq hn (by simp))
    · exact .inr (.inl (hkeeps.eq hn (by simp)))
    · exact .inr (.inr ⟨r', hkeeps.eq hn (by simp), (hskip r').mpr hs⟩)
  · rcases hother n r' hn with ⟨-, rfl⟩ | ⟨-, -, hn⟩
    · exact absurd ((hskip r').mp hs) unasked
    · exact h.order.skipped n r' hn ((hskip r').mp hs)
  · rcases hother n r' hn' with ⟨-, rfl⟩ | ⟨-, -, hn'⟩
    · exact new
    · simp [hn] at hn'

/-- A child has asked to skip the remainder: the scope of the children is cancelled, and nothing
else. -/
lemma skip (h : s.InOrder k o) {r index : Nat} {name : String} {c : Context}
    (scope : o c.token.number = .scope r) :
    s.Grows k o o (((s.mark r (.ended index (.failed .skipRemainder))).report r
      (.throttledSkip index name)).cancel c) := by
  set s' := ((s.mark r (.ended index (.failed .skipRemainder))).report r
    (.throttledSkip index name)).cancel c with hs'
  have htouch : Touches r s s' :=
    (Touches.mark r s _).trans ((Touches.mark r _ _).trans (.of_sameRuns (sameRuns_cancel _ c) r))
  have hskip : s'.Skipped r := by
    refine ⟨index, ?_⟩
    rw [hs', (sameRuns_cancel _ c).marks, report_eq_mark, marks_mark, marks_mark]
    simp
  have hcancelled : s'.contexts.cancelled = c.token.number :: s.contexts.cancelled := rfl
  have hr : r < s.runs := h.bound _ r scope
  refine ⟨⟨htouch.tidy h.tidy hr, { h.known with }, h.bound, h.single, fun n hn => ?_,
    fun n r' hn hs => ?_⟩, rfl, le_refl _, .refl o, (refl h).fresh, fun n hn => ?_⟩
  · rw [hcancelled] at hn
    rcases List.mem_cons.mp hn with rfl | hn
    · exact .inr (.inr ⟨r, scope, hskip⟩)
    · refine (h.cancelled n hn).imp_right (Or.imp_right ?_)
      rintro ⟨r', hn', hs⟩
      refine ⟨r', hn', ?_⟩
      by_cases hrr : r' = r
      · rw [hrr]; exact hskip
      · exact (skipped_congr (htouch.notes r' hrr)).mpr hs
  · rw [hcancelled]
    by_cases hrr : r' = r
    · subst hrr
      rw [h.single n _ r' hn scope]
      exact List.mem_cons_self
    · exact List.mem_cons_of_mem _
        (h.skipped n r' hn ((skipped_congr (htouch.notes r' hrr)).mp hs))
  · rw [hcancelled, List.mem_cons, or_iff_right]
    rintro rfl
    have := h.known.caller_ne hn scope
    cases this

end Store.Grows

end Workflow
