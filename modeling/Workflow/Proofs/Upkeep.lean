import Mathlib.Data.List.Nodup
import Mathlib.Data.Nat.Find
import Workflow.Proofs.Expiry

/-!
# How long a timer runs

A timer is started with every deadline that is given to a context, and it is gone when the token of
that context is cancelled.  So timers would pile up if some token was never cancelled, and a context
would be cut short if its token was cancelled too early.  Neither happens: when no timer has
anything to do, a token is left uncancelled exactly if nobody has cancelled it or one that it
follows, no deadline above it has been reached, and of every timer above it somebody holds a context
that keeps it (`Contexts.isTokenCancelled_eq_false_iff`).

**Letting go.**  `Contexts.Maintained` is what the ledger owes to its timers: a timer that no handle
keeps has had its token cancelled, and no token has two timers.  Every step keeps that
(`Contexts.Maintained.step`), letting go of a handle included: all that it kept alone is cancelled.

**Coming to an end.**  When all contexts were let go, or all deadlines are over, every timer that is
left has something to do, and ends as soon as it has its turn.
-/

namespace Workflow

variable {log new : List Occurrence} {s s' : Contexts}

/-- Somebody holds a context that was given a deadline with the token `n`, or that came from such a
context. -/
def Contexts.Upheld (log : List Occurrence) (s : Contexts) (n : Nat) : Prop :=
  ∃ h c d, s.find? h = some c ∧ Dated log h n d

/-- A token that was made for a deadline expires at some time: at the earliest of those that were
given. -/
lemma Timed.exists_expires {n : Nat} (timed : Timed log n) : ∃ d, Expires log n d := by
  classical
  obtain ⟨h, of, x, hmem⟩ := timed
  have hgiven : ∃ y, Given log h y := ⟨x, n, h, of, .refl, hmem⟩
  exact ⟨Nat.find hgiven, h, of, x, hmem, Nat.find_spec hgiven, fun y hy => Nat.find_min' hgiven hy⟩

lemma Expires.timed {n d : Nat} (expires : Expires log n d) : Timed log n := by
  obtain ⟨h, of, x, hmem, -⟩ := expires
  exact ⟨h, of, x, hmem⟩

namespace Contexts

/-! ## Letting go -/

/-- Where handles are told apart, whatever is held is found. -/
lemma find?_of_mem_held {p : Nat × Context} (hp : p ∈ s.held) : ∃ c, s.find? p.1 = some c := by
  refine Option.isSome_iff_exists.mp ?_
  rw [find?, Option.isSome_map, List.find?_isSome]
  exact ⟨p, hp, beq_self_eq_true p.1⟩

/-- A timer is kept by those who hold a context that came from the one it was started for. -/
lemma Faithful.isKept_iff (f : s.Faithful log) {n : Nat} :
    s.isKept n = true ↔ s.Upheld log n := by
  rw [Contexts.isKept_iff]
  constructor
  · rintro ⟨p, hp, hmem⟩
    obtain ⟨c, hc⟩ := find?_of_mem_held hp
    obtain ⟨d, hd⟩ := ((f.held p hp).timers n).mp hmem
    exact ⟨p.1, c, d, hc, hd⟩
  · rintro ⟨h, c, d, hc, hd⟩
    have hheld := mem_held_of_find? hc
    exact ⟨(h, c), hheld, ((f.held _ hheld).timers n).mpr ⟨d, hd⟩⟩

/-- A timer that was kept and is not any more was kept under the handle that was let go, and its
token is cancelled with it. -/
lemma Faithful.mem_cancelled_release_of_isKept (f : s.Faithful log) {h n : Nat}
    (before : s.isKept n = true) (after : (s.release h).isKept n = false) :
    n ∈ (s.release h).cancelled := by
  obtain ⟨p, hp, hmem⟩ := Contexts.isKept_iff.mp before
  have hhandle : p.1 = h := by
    by_contra hne
    have hkept := Contexts.isKept_iff.mpr ⟨p, mem_held_release.mpr ⟨hp, hne⟩, hmem⟩
    rw [after] at hkept
    cases hkept
  -- What stands under one handle keeps the same timers, whichever entry is looked up.
  obtain ⟨c, hc⟩ := find?_of_mem_held hp
  have htimers : n ∈ c.timers :=
    ((f.held _ (mem_held_of_find? hc)).timers n).mpr (((f.held p hp).timers n).mp hmem)
  rw [hhandle] at hc
  exact mem_cancelled_release.mpr (.inr ⟨c, hc, htimers, after⟩)

/-- What a ledger owes to its timers. -/
structure Maintained (log : List Occurrence) (s : Contexts) : Prop where
  /-- The token of a timer that nobody keeps is cancelled. -/
  kept : ∀ n, Timed log n → s.isKept n = true ∨ n ∈ s.cancelled
  /-- No token has two timers. -/
  single : (s.timers.map fun t => t.token.number).Nodup

namespace Maintained

lemma empty (clock : Nat) : Maintained [] { clock } where
  kept := by simp [Timed]
  single := List.nodup_nil

/-- A step that lets go of nothing and starts no timer. -/
lemma mono (m : s.Maintained log) (held : ∀ p ∈ s.held, p ∈ s'.held)
    (cancelled : ∀ n ∈ s.cancelled, n ∈ s'.cancelled) (timers : s'.timers.Sublist s.timers)
    (plain : ∀ h n of d, .context h n (.timed of d) ∉ new) : s'.Maintained (log ++ new) where
  kept n hn := by
    refine (m.kept n ((timed_append_iff plain).mp hn)).imp (fun hkept => ?_) (cancelled n)
    obtain ⟨p, hp, hmem⟩ := Contexts.isKept_iff.mp hkept
    exact Contexts.isKept_iff.mpr ⟨p, held p hp, hmem⟩
  single := m.single.sublist (timers.map _)

/-- A context is given a deadline: whoever has asked for it holds it, and its timer is the only one
of its token. -/
lemma withDeadline (m : s.Maintained log) (f : s.Faithful log) (c : Context) (of h x : Nat) :
    Maintained (log ++ [.token (s.withDeadline c x).1.token (some c.token.number),
        .context h s.supply (.timed of x)])
      ((s.withDeadline c x).2.hold (s.withDeadline c x).1).2 where
  kept n hn := by
    obtain ⟨h', of', d, hmem⟩ := hn
    simp only [List.mem_append, List.mem_cons, reduceCtorEq, Occurrence.context.injEq,
      List.not_mem_nil, or_false, false_or] at hmem
    rcases hmem with hmem | ⟨-, rfl, -⟩
    · refine (m.kept n ⟨h', of', d, hmem⟩).imp_left fun hkept => ?_
      obtain ⟨p, hp, hn⟩ := Contexts.isKept_iff.mp hkept
      exact Contexts.isKept_iff.mpr ⟨p, List.mem_cons_of_mem _ hp, hn⟩
    · exact .inl (Contexts.isKept_iff.mpr ⟨_, List.mem_cons_self, List.mem_cons_self⟩)
  single := by
    have hold : ∀ t ∈ s.timers, t.token.number < s.supply :=
      fun t ht => (f.timers t ht).2.timed.lt f.below
    show ((s.timers ++ [_]).map fun u : Timer => u.token.number).Nodup
    rw [List.map_append, List.map_singleton, List.nodup_append]
    refine ⟨m.single, List.nodup_singleton _, ?_⟩
    rintro a ha b hb rfl
    obtain ⟨t, ht, rfl⟩ := List.mem_map.mp ha
    have hlt := hold t ht
    rw [List.mem_singleton.mp hb] at hlt
    exact lt_irrefl _ hlt

lemma release (m : s.Maintained log) (f : s.Faithful log) (h : Nat) :
    (s.release h).Maintained log where
  kept n hn := by
    rcases m.kept n hn with hkept | hcancelled
    · cases hafter : (s.release h).isKept n with
      | true => exact .inl rfl
      | false => exact .inr (f.mem_cancelled_release_of_isKept hkept hafter)
    · exact .inr (mem_cancelled_release.mpr (.inl hcancelled))
  single := by
    rw [timers_release]
    exact m.single

/-- Every step keeps what a ledger owes to its timers. -/
lemma step (m : s.Maintained log) (f : s.Faithful log) (step : Step log s new s') :
    s'.Maintained (log ++ new) := by
  have hsame : ∀ n ∈ s.cancelled, n ∈ s'.cancelled := step.mono.1
  cases step with
  | new made held | child _ made held =>
      cases made
      cases held
      exact m.mono (fun _ => List.mem_cons_of_mem _) hsame (.refl _) (by simp)
  | ofToken _ held | clone _ held =>
      cases held
      exact m.mono (fun _ => List.mem_cons_of_mem _) hsame (.refl _) (by simp)
  | withDeadline _ made held =>
      cases made
      cases held
      exact m.withDeadline f _ _ _ _
  | newToken made | childToken _ made =>
      cases made
      exact m.mono (fun _ => id) hsame (.refl _) (by simp)
  | cancel _ | cancelToken _ => exact m.mono (fun _ => id) hsame (.refl _) (by simp)
  | drop h => rw [List.append_nil]; exact m.release f h
  | timer _ _ =>
      refine m.mono (fun p hp => ?_) hsame ?_ (by simp)
      · rw [held_fire]; exact hp
      · rw [timers_fire]; exact List.filter_sublist
  | time _ => exact m.mono (fun _ => id) hsame (.refl _) (by simp)

end Maintained

lemma Leads.maintained {log' : List Occurrence} (leads : Leads log s log' s') (f : s.Faithful log)
    (m : s.Maintained log) : s'.Maintained log' := by
  induction leads with
  | refl => exact m
  | step before step ih => exact ih.step (before.faithful f) step

lemma History.maintained (history : History log s) : s.Maintained log := by
  obtain ⟨clock, leads⟩ := history
  exact leads.maintained (.empty clock) (.empty clock)

/-! ## What is left when nothing is ready -/

section

variable (f : s.Faithful log) (quiet : s.TimersQuiet)

include f quiet

/-- A timer that has nothing to do runs for a token that is not cancelled. -/
lemma Faithful.mem_timers_iff {t : Token} (recorded : Recorded log t) (timed : Timed log t.number) :
    (∃ u ∈ s.timers, u.token.number = t.number) ↔ s.isTokenCancelled t = false := by
  constructor
  · rintro ⟨u, hu, hnumber⟩
    have hdue := quiet u hu
    rw [isDue, Bool.or_eq_false_iff] at hdue
    refine Bool.eq_false_iff.mpr fun hcancelled => ?_
    rw [f.isTokenCancelled_iff recorded, ← hnumber,
      ← f.isTokenCancelled_iff (f.timers u hu).1, hdue.2] at hcancelled
    cases hcancelled
  · intro hlive
    obtain ⟨d, hexpires⟩ := timed.exists_expires
    rcases f.running _ d hexpires with ⟨u, hu, hnumber, -⟩ | hcancelled
    · exact ⟨u, hu, hnumber⟩
    · rw [(f.isTokenCancelled_iff recorded).mpr hcancelled] at hlive
      cases hlive

/-- **Three reasons.**  When nothing is ready, a token is cancelled only if somebody has done it, a
deadline has been reached, or a timer above it is kept by nobody. -/
theorem isTokenCancelled_eq_false_iff (m : s.Maintained log) {t : Token}
    (recorded : Recorded log t) :
    s.isTokenCancelled t = false ↔
      ¬ CalledOff log t.number ∧
      (∀ n d, Follows log t.number n → Expires log n d → s.clock < d) ∧
      (∀ n, Follows log t.number n → Timed log n → s.Upheld log n) := by
  rw [Bool.eq_false_iff, ne_eq, f.isTokenCancelled_iff recorded]
  constructor
  · intro hlive
    refine ⟨fun ⟨n, hn, hoff⟩ => hlive ⟨n, hn, f.calledOff n hoff⟩, fun n d hn hexpires => ?_,
      fun n hn htimed => ?_⟩
    · rcases f.running n d hexpires with ⟨u, hu, -, rfl⟩ | ⟨k, hk, hcancelled⟩
      · have hdue := quiet u hu
        rw [isDue, Bool.or_eq_false_iff, decide_eq_false_iff_not] at hdue
        exact not_le.mp hdue.1
      · exact absurd ⟨k, hn.trans hk, hcancelled⟩ hlive
    · rcases m.kept n htimed with hkept | hcancelled
      · exact f.isKept_iff.mp hkept
      · exact absurd ⟨n, hn, hcancelled⟩ hlive
  · rintro ⟨hoff, hclock, hupheld⟩ ⟨n, hn, hcancelled⟩
    rcases f.cancelled n hcancelled with h | ⟨d, hexpires, hd⟩ | ⟨htimed, hunkept⟩
    · exact hoff ⟨n, hn, h⟩
    · exact absurd hd (not_le.mpr (hclock n d hn hexpires))
    · rw [f.isKept_iff.mpr (hupheld n hn htimed)] at hunkept
      cases hunkept

end

/-! ## Coming to an end -/

/-- When all contexts were let go, or all deadlines are over, every timer has something to do. -/
lemma Faithful.isDue_of_over (f : s.Faithful log) (m : s.Maintained log)
    (spent : (∀ h, s.find? h = none) ∨ ∀ n d, Expires log n d → d ≤ s.clock) {u : Timer}
    (hu : u ∈ s.timers) : s.isDue u = true := by
  obtain ⟨hrecorded, hexpires⟩ := f.timers u hu
  rw [isDue, Bool.or_eq_true, decide_eq_true_eq]
  rcases spent with hgone | hpast
  · refine .inr ((f.isTokenCancelled_iff hrecorded).mpr ⟨_, .refl, ?_⟩)
    refine (m.kept _ hexpires.timed).resolve_left fun hkept => ?_
    obtain ⟨h, c, d, hc, -⟩ := f.isKept_iff.mp hkept
    rw [hgone h] at hc
    cases hc
  · exact .inl (hpast _ _ hexpires)

/-- Where all timers that there are have something to do, none is left when they have done it. -/
lemma timers_eq_nil (due : ∀ u ∈ s.timers, s.isDue u = true) (quiet : s.TimersQuiet) :
    s.timers = [] := by
  refine List.eq_nil_iff_forall_not_mem.mpr fun u hu => ?_
  have hdue := due u hu
  rw [quiet u hu] at hdue
  cases hdue

/-- **Timers neither leak nor die early.**  Take any ledger with the record of everything that a
program has done to it, contexts around tokens of any origin included.

* Every timer runs for a token that was made for a deadline, until the earliest of those that were
  given to its context, and no token has two.
* When no timer has anything to do, the timer of a token that was made for a deadline is running if
  and only if the token is not cancelled; and it is not cancelled if and only if nobody has
  cancelled it or one that it follows, the clock is before its deadline and before those of all that
  it follows, and for each of these somebody holds the context it was made for, or one that came
  from that.
* When all contexts were let go, or all deadlines are over, every timer that is left has something
  to do; when they have had their turns, before any time goes by, there is none. -/
theorem timers_exact (history : History log s) :
    (∀ u ∈ s.timers, Recorded log u.token ∧ Expires log u.token.number u.deadline) ∧
    (s.timers.map fun u => u.token.number).Nodup ∧
    (s.TimersQuiet → ∀ t, Recorded log t → Timed log t.number →
      ((∃ u ∈ s.timers, u.token.number = t.number) ↔ s.isTokenCancelled t = false) ∧
      (s.isTokenCancelled t = false ↔
        ¬ CalledOff log t.number ∧
        (∀ n d, Follows log t.number n → Expires log n d → s.clock < d) ∧
        (∀ n, Follows log t.number n → Timed log n → s.Upheld log n))) ∧
    ((∀ h, s.find? h = none) ∨ (∀ n d, Expires log n d → d ≤ s.clock) →
      (∀ u ∈ s.timers, s.isDue u = true) ∧
      (s.TimersQuiet → s.timers.length = 0) ∧
      ∃ s', Leads log s log s' ∧ s'.clock = s.clock ∧ s'.timers.length = 0) := by
  have f := history.faithful
  have m := history.maintained
  refine ⟨f.timers, m.single, fun quiet t recorded timed => ⟨f.mem_timers_iff quiet recorded timed,
    isTokenCancelled_eq_false_iff f quiet m recorded⟩, fun spent => ?_⟩
  have hdue : ∀ u ∈ s.timers, s.isDue u = true := fun u => f.isDue_of_over m spent
  refine ⟨hdue, fun quiet => List.length_eq_zero_iff.mpr (timers_eq_nil hdue quiet), ?_⟩
  obtain ⟨s', leads, quiet, hheld, hclock⟩ := exists_quiet log s
  refine ⟨s', leads, hclock, List.length_eq_zero_iff.mpr (timers_eq_nil ?_ quiet)⟩
  -- Running the timers lets go of nothing and takes no time, so it is over there as well.
  refine fun u => (leads.faithful f).isDue_of_over (leads.maintained f m) ?_
  rw [hclock]
  exact spent.imp_left fun hgone h => by rw [find?, hheld]; exact hgone h

/-- A context with a deadline, one around its token, and one with a later deadline that was derived
from that. -/
def wrappedTimer : Contexts where
  supply := 7
  timers := [⟨⟨2, [0]⟩, 10⟩, ⟨⟨5, [2, 0]⟩, 20⟩]
  held := [(6, ⟨⟨5, [2, 0]⟩, some 20, [5]⟩), (4, ⟨⟨2, [0]⟩, none, []⟩),
    (3, ⟨⟨2, [0]⟩, some 10, [2]⟩), (1, ⟨⟨0, []⟩, none, []⟩)]

/-- What has happened to `wrappedTimer`. -/
def wrappedTimerLog : List Occurrence :=
  [.token ⟨0, []⟩ none, .context 1 0 .new, .token ⟨2, [0]⟩ (some 0), .context 3 2 (.timed 1 10),
    .context 4 2 .wrapped, .token ⟨5, [2, 0]⟩ (some 2), .context 6 5 (.timed 4 20)]

/-- The token of the last context is not cancelled, since somebody holds a context that keeps the
first timer.  The last context does not: when that one is let go, its token is cancelled. -/
theorem timers_exact_wrappedTimer :
    History wrappedTimerLog wrappedTimer ∧ wrappedTimer.TimersQuiet ∧
      wrappedTimer.isTokenCancelled ⟨5, [2, 0]⟩ = false ∧
      wrappedTimer.Upheld wrappedTimerLog 2 ∧ wrappedTimer.Upheld wrappedTimerLog 5 ∧
      (wrappedTimer.release 3).isTokenCancelled ⟨5, [2, 0]⟩ = true := by
  let root : Context := ⟨⟨0, []⟩, none, []⟩
  let timed : Context := ⟨⟨2, [0]⟩, some 10, [2]⟩
  let around : Context := ⟨⟨2, [0]⟩, none, []⟩
  have hnew : Step [] { } (wrappedTimerLog.take 2) ⟨0, 2, [], [], [(1, root)]⟩ :=
    .new (t := ⟨0, []⟩) rfl rfl
  have htimed : Step (wrappedTimerLog.take 2) ⟨0, 2, [], [], [(1, root)]⟩
      [.token ⟨2, [0]⟩ (some 0), .context 3 2 (.timed 1 10)]
      ⟨0, 4, [], [⟨⟨2, [0]⟩, 10⟩], [(3, timed), (1, root)]⟩ :=
    .withDeadline (c := root) rfl rfl rfl
  have hwrapped : Step (wrappedTimerLog.take 4)
      ⟨0, 4, [], [⟨⟨2, [0]⟩, 10⟩], [(3, timed), (1, root)]⟩ [.context 4 2 .wrapped]
      ⟨0, 5, [], [⟨⟨2, [0]⟩, 10⟩], [(4, around), (3, timed), (1, root)]⟩ :=
    .ofToken (t := ⟨2, [0]⟩) ⟨some 0, by simp [wrappedTimerLog]⟩ rfl
  have hlast : Step (wrappedTimerLog.take 5)
      ⟨0, 5, [], [⟨⟨2, [0]⟩, 10⟩], [(4, around), (3, timed), (1, root)]⟩
      [.token ⟨5, [2, 0]⟩ (some 2), .context 6 5 (.timed 4 20)] wrappedTimer :=
    .withDeadline (c := around) rfl rfl rfl
  have history : History wrappedTimerLog wrappedTimer :=
    ⟨0, (((Leads.refl.step hnew).step htimed).step hwrapped).step hlast⟩
  have quiet : ∀ t ∈ wrappedTimer.timers, wrappedTimer.isDue t = false := by decide
  have recorded : Recorded wrappedTimerLog ⟨5, [2, 0]⟩ := ⟨some 2, by simp [wrappedTimerLog]⟩
  have hfirst : Timed wrappedTimerLog 2 := ⟨3, 1, 10, by simp [wrappedTimerLog]⟩
  have hsecond : Timed wrappedTimerLog 5 := ⟨6, 4, 20, by simp [wrappedTimerLog]⟩
  have hfollows : Follows wrappedTimerLog 5 2 :=
    .single ⟨⟨5, [2, 0]⟩, by simp [wrappedTimerLog], rfl⟩
  have hexact := (timers_exact history).2.2.1 quiet ⟨5, [2, 0]⟩ recorded hsecond
  have hupheld := (hexact.2.mp rfl).2.2
  exact ⟨history, quiet, rfl, hupheld 2 hfollows hfirst, hupheld 5 .refl hsecond, rfl⟩

end Contexts

end Workflow
