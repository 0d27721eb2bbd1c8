import Workflow.Proofs.Fidelity
import Workflow.Store

/-!
# What the cancellation of a context means

A context that is held is cancelled if and only if somebody has cancelled its token or one that it
follows, or its deadline has been reached; and its deadline is the earliest of those that were given
to it and to the contexts it came from.  Neither the timers nor the handles that are let go make a
difference (`Contexts.Faithful.isCancelled_iff`).

**Timers.**  They do not decide whether a context is cancelled, but whoever waits for its token
waits for them.  When no timer has anything to do, the token is cancelled if and only if the
context is (`Contexts.Faithful.isTokenCancelled_eq`); and the timers come to rest whenever they are
let (`Contexts.exists_quiet`).

**Time.**  Nothing that is cancelled is ever taken back (`Contexts.Leads.isCancelled`).
-/

namespace Workflow

/-- Who waits for a token to be cancelled goes on as soon as it is. -/
lemma Store.grants_untilCancelled (s : Store) (env : Env) :
    s.grants env .untilCancelled = s.contexts.isTokenCancelled env.context.token := by
  rw [grants, perform?, isTokenCancelled]
  cases s.contexts.isTokenCancelled env.context.token <;> rfl

namespace Contexts

variable {log new log' : List Occurrence} {s s' : Contexts} {c : Context} {h : Nat}

/-! ## Nothing is taken back -/

/-- Cancelling a token cancels what follows it, and nothing else. -/
lemma isCancelled_cancel_iff {t : Token} :
    (s.cancel t).isCancelled c = true ↔ s.isCancelled c = true ∨ t.number ∈ c.token.path := by
  have hmem : ∀ n, n ∈ (s.cancel t).cancelled ↔ n = t.number ∨ n ∈ s.cancelled :=
    fun n => List.mem_cons
  have hclock : (s.cancel t).clock = s.clock := rfl
  simp only [isCancelled_iff, hmem, hclock, and_or_left, exists_or, exists_eq_right]
  rw [or_assoc, or_comm]

/-- What a step leaves: everything that was cancelled is, and the clock has not gone back. -/
lemma Step.mono (step : Step log s new s') :
    (∀ n ∈ s.cancelled, n ∈ s'.cancelled) ∧ s.clock ≤ s'.clock := by
  cases step with
  | new made held | child _ made held | withDeadline _ made held =>
      cases made
      cases held
      exact ⟨fun _ => id, le_rfl⟩
  | ofToken _ held | clone _ held =>
      cases held
      exact ⟨fun _ => id, le_rfl⟩
  | newToken made | childToken _ made =>
      cases made
      exact ⟨fun _ => id, le_rfl⟩
  | cancel _ | cancelToken _ => exact ⟨fun _ => List.mem_cons_of_mem _, le_rfl⟩
  | drop h => exact ⟨fun _ hn => mem_cancelled_release.mpr (.inl hn), (clock_release s h).ge⟩
  | timer _ _ => exact ⟨fun _ hn => mem_cancelled_fire.mpr (.inl hn), (clock_fire s _).ge⟩
  | time later => exact ⟨fun _ => id, later⟩

lemma Leads.mono (leads : Leads log s log' s') :
    (∀ n ∈ s.cancelled, n ∈ s'.cancelled) ∧ s.clock ≤ s'.clock := by
  induction leads with
  | refl => exact ⟨fun _ => id, le_rfl⟩
  | step _ step ih => exact ⟨fun n hn => step.mono.1 n (ih.1 n hn), ih.2.trans step.mono.2⟩

/-- A context that is cancelled stays so, whatever is done. -/
lemma Leads.isCancelled (leads : Leads log s log' s') (hc : s.isCancelled c = true) :
    s'.isCancelled c = true := by
  obtain ⟨hmore, hclock⟩ := leads.mono
  rw [isCancelled_iff] at hc ⊢
  rcases hc with ⟨n, hn, hcancelled⟩ | ⟨d, hd, hle⟩
  · exact .inl ⟨n, hn, hmore n hcancelled⟩
  · exact .inr ⟨d, hd, hle.trans hclock⟩

lemma Leads.trans {log'' : List Occurrence} {s'' : Contexts} (leads : Leads log s log' s')
    (leads' : Leads log' s' log'' s'') : Leads log s log'' s'' := by
  induction leads' with
  | refl => exact leads
  | step _ step ih => exact ih.step step

lemma History.leads (history : History log s) (leads : Leads log s log' s') : History log' s' :=
  history.imp fun _ before => before.trans leads

/-- A step of which nothing is put on record. -/
lemma Leads.silent (step : Step log s [] s') : Leads log s log s' := by
  have leads := Leads.refl.step step
  rwa [List.append_nil] at leads

/-! ## The timers come to rest -/

/-- The timers can be run until none of them has anything to do, and that changes nothing else. -/
lemma exists_quiet (log : List Occurrence) (s : Contexts) :
    ∃ s', Leads log s log s' ∧ s'.TimersQuiet ∧ s'.held = s.held ∧ s'.clock = s.clock := by
  induction hn : s.timers.length using Nat.strong_induction_on generalizing s with
  | _ n ih =>
      by_cases hquiet : s.TimersQuiet
      · exact ⟨s, .refl, hquiet, rfl, rfl⟩
      · simp only [TimersQuiet, not_forall, Bool.not_eq_false] at hquiet
        obtain ⟨t, ht, hdue⟩ := hquiet
        have hlt : (s.fire t).timers.length < n := by
          rw [timers_fire, ← hn]
          exact List.length_filter_lt_length_iff_exists.mpr ⟨t, ht, by simp⟩
        obtain ⟨s', leads, hquiet, hheld, hclock⟩ := ih _ hlt (s.fire t) rfl
        refine ⟨s', (Leads.silent (.timer ht hdue)).trans leads, hquiet, ?_, ?_⟩
        · rw [hheld, held_fire]
        · rw [hclock, clock_fire]

/-! ## What is cancelled -/

namespace Faithful

variable (f : s.Faithful log) (held : (h, c) ∈ s.held)

include f held

/-- **A context is cancelled for two reasons only**: somebody has cancelled what it follows, or its
deadline has been reached. -/
lemma isCancelled_iff (wraps : WrapsUntimed log) : s.isCancelled c = true ↔
    CalledOff log c.token.number ∨ ∃ d, c.deadline = some d ∧ d ≤ s.clock := by
  have hc := f.held _ held
  rw [Contexts.isCancelled_iff]
  constructor
  · rintro (⟨n, hn, hcancelled⟩ | hpast)
    · have hfollows := (f.orderly.path _ hc.token n).mpr hn
      -- The timer of a token that it follows is one that it keeps.
      have hkeeps : Timed log n → n ∈ c.timers := hc.covers wraps n hn
      rcases f.cancelled n hcancelled with
        h | ⟨d, ⟨h', of, x, hmem, hleast⟩, hd⟩ | ⟨htimed, hunkept⟩
      · exact .inl ⟨n, hfollows, h⟩
      · -- So the deadline of that token is one that was given to a context it came from.
        obtain ⟨y, h'', of', hderived, hmem'⟩ := (hc.timers n).mp (hkeeps ⟨h', of, x, hmem⟩)
        obtain rfl := f.orderly.own _ _ _ _ _ hmem hmem' rfl rfl
        obtain ⟨m, h₁, of₁, hderived₁, hmem₁⟩ := hleast.1
        have hgiven : Given log h d := ⟨m, h₁, of₁, hderived.trans hderived₁, hmem₁⟩
        have hdeadline := hc.deadline
        cases hown : c.deadline with
        | none =>
            rw [hown] at hdeadline
            exact absurd hgiven (Set.eq_empty_iff_forall_notMem.mp hdeadline d)
        | some e =>
            rw [hown] at hdeadline
            exact .inr ⟨e, rfl, (hdeadline.2 hgiven).trans hd⟩
      · simp [isKept_iff.mpr ⟨_, held, hkeeps htimed⟩] at hunkept
    · exact .inr hpast
  · rintro (⟨n, hfollows, hcancelled⟩ | hpast)
    · exact .inl ⟨n, (f.orderly.path _ hc.token n).mp hfollows, f.calledOff n hcancelled⟩
    · exact .inr hpast

/-- When no timer has anything to do, the token of a context is cancelled if and only if the context
is. -/
lemma isTokenCancelled_eq (quiet : s.TimersQuiet) :
    s.isTokenCancelled c.token = s.isCancelled c := by
  have hc := f.held _ held
  rw [Bool.eq_iff_iff, isCancelled, Bool.or_eq_true, or_iff_left_of_imp]
  intro hpast
  obtain ⟨d, hd, hle⟩ := isPast_iff.mp hpast
  obtain ⟨n, hn, hexp⟩ := hc.expires d hd
  rw [f.isTokenCancelled_iff hc.token]
  rcases f.running n d hexp with ⟨t, ht, -, rfl⟩ | ⟨m, hm, hcancelled⟩
  · have hdue := quiet t ht
    simp [isDue, hle] at hdue
  · exact ⟨m, ((f.orderly.path _ hc.token n).mpr hn).trans hm, hcancelled⟩

/-- Cancelling a context leaves those alone that it came from, and its siblings. -/
lemma isCancelled_cancel_eq {h' : Nat} {c' : Context} (held' : (h', c') ∈ s.held)
    (ne : c'.token.number ≠ c.token.number) (kin : Derived log h h' ∨ Siblings log h h') :
    (s.cancel c.token).isCancelled c' = s.isCancelled c' := by
  have hc := f.held _ held
  have hc' := f.held _ held'
  obtain ⟨d, hd⟩ := hc.entry
  obtain ⟨d', hd'⟩ := hc'.entry
  rw [Bool.eq_iff_iff, isCancelled_cancel_iff, or_iff_left]
  rw [← f.orderly.path _ hc'.token]
  rcases kin with hderived | hsiblings
  · intro hfollows
    have hback := f.orderly.follows_of_derived hderived hd hd'
    exact ne (f.orderly.follows_antisymm hfollows hback)
  · exact f.orderly.not_follows_of_siblings hsiblings hd hd'

end Faithful

/-- **Exact meaning of cancellation.**  Take any ledger with the record of everything that a program
has done to it, where contexts were made only around such tokens as do not come from a context with
a deadline.  Of every context `c` that is held, under the handle `h`:

* its deadline is the earliest of those that were given to it and to what it came from;
* it is cancelled if and only if somebody has cancelled its token or one that it follows, or its
  deadline has been reached;
* whoever lets go of another handle leaves it there, and cancels it neither;
* cancelling a token cancels it if the token is one that it follows, and makes no difference to it
  otherwise; the tokens of all contexts that it came from are such;
* cancelling it makes no difference to what it came from, except where the token is its own, and
  none to its siblings;
* once it is cancelled it stays so, whatever is done;
* when no timer has anything to do, its token is cancelled if and only if it is itself, and who
  waits for that goes on exactly then; the timers come to that without anybody's help. -/
theorem cancellation_exact (history : History log s) (wraps : WrapsUntimed log)
    (held : s.find? h = some c) :
    Earliest {d | Given log h d} c.deadline ∧
    (s.isCancelled c = true ↔
      CalledOff log c.token.number ∨ ∃ d, c.deadline = some d ∧ d ≤ s.clock) ∧
    (∀ h', h' ≠ h → (s.release h').find? h = some c ∧
      (s.release h').isCancelled c = s.isCancelled c) ∧
    (∀ t, (s.cancel t).isCancelled c = true ↔
      s.isCancelled c = true ∨ Follows log c.token.number t.number) ∧
    (∀ h' c', s.find? h' = some c' → Derived log h h' →
      Follows log c.token.number c'.token.number) ∧
    (∀ h' c', s.find? h' = some c' → Derived log h h' ∨ Siblings log h h' →
      c'.token.number ≠ c.token.number →
      (s.cancel c.token).isCancelled c' = s.isCancelled c') ∧
    (∀ log' s', Leads log s log' s' → s.isCancelled c = true → s'.isCancelled c = true) ∧
    (s.TimersQuiet → s.isTokenCancelled c.token = s.isCancelled c ∧
      ∀ (store : Store) (env : Env), store.contexts = s → env.context = c →
        store.grants env .untilCancelled = s.isCancelled c) ∧
    ∃ s', Leads log s log s' ∧ s'.TimersQuiet ∧ s'.find? h = some c ∧
      s'.isCancelled c = s.isCancelled c := by
  have f := history.faithful
  have hheld := mem_held_of_find? held
  have hc := f.held _ hheld
  obtain ⟨d, hd⟩ := hc.entry
  refine ⟨hc.deadline, f.isCancelled_iff hheld wraps, fun h' hne => ?_, fun t => ?_,
    fun h' c' held' hderived => ?_, fun h' c' held' kin ne => ?_,
    fun log' s' leads => leads.isCancelled, fun quiet => ⟨?_, ?_⟩, ?_⟩
  · have hfind : (s.release h').find? h = some c := by
      rw [find?_release_of_ne hne.symm, held]
    refine ⟨hfind, ?_⟩
    rw [Bool.eq_iff_iff, f.isCancelled_iff hheld wraps,
      (f.release h').isCancelled_iff (mem_held_of_find? hfind) wraps, clock_release]
  · rw [isCancelled_cancel_iff, f.orderly.path _ hc.token]
  · obtain ⟨d', hd'⟩ := (f.held _ (mem_held_of_find? held')).entry
    exact f.orderly.follows_of_derived hderived hd hd'
  · exact f.isCancelled_cancel_eq hheld (mem_held_of_find? held') ne kin
  · exact f.isTokenCancelled_eq hheld quiet
  · rintro store env rfl rfl
    rw [← f.isTokenCancelled_eq hheld quiet]
    exact store.grants_untilCancelled env
  · obtain ⟨s', leads, quiet, hsame, hclock⟩ := exists_quiet log s
    have hfind : s'.find? h = some c := by rw [find?, hsame, ← find?, held]
    refine ⟨s', leads, quiet, hfind, ?_⟩
    rw [Bool.eq_iff_iff, f.isCancelled_iff hheld wraps,
      (leads.faithful f).isCancelled_iff (mem_held_of_find? hfind) wraps, hclock]

/-- A context, one derived from it with a deadline, and one derived from that; then the second one
is let go, and the clock reaches the deadline before the timer has run. -/
def lateTimer : Contexts where
  clock := 10
  supply := 6
  timers := [⟨⟨2, [0]⟩, 10⟩]
  held := [(5, ⟨⟨4, [2, 0]⟩, some 10, [2]⟩), (1, ⟨⟨0, []⟩, none, []⟩)]

/-- What has happened to `lateTimer`. -/
def lateTimerLog : List Occurrence :=
  [.token ⟨0, []⟩ none, .context 1 0 .new, .token ⟨2, [0]⟩ (some 0), .context 3 2 (.timed 1 10),
    .token ⟨4, [2, 0]⟩ (some 2), .context 5 4 (.child 3)]

/-- The last context has the deadline of the one that was let go, and is cancelled when the clock
reaches it, though its token is not; the first one is not. -/
theorem cancellation_exact_lateTimer :
    History lateTimerLog lateTimer ∧ WrapsUntimed lateTimerLog ∧
      (∃ c, lateTimer.find? 5 = some c ∧ lateTimer.isCancelled c = true ∧
        lateTimer.isTokenCancelled c.token = false ∧
        Earliest {d | Given lateTimerLog 5 d} c.deadline) ∧
      ∃ c, lateTimer.find? 1 = some c ∧ lateTimer.isCancelled c = false ∧
        ¬ CalledOff lateTimerLog c.token.number := by
  let root : Context := ⟨⟨0, []⟩, none, []⟩
  let timed : Context := ⟨⟨2, [0]⟩, some 10, [2]⟩
  let last : Context := ⟨⟨4, [2, 0]⟩, some 10, [2]⟩
  have hnew : Step [] { } (lateTimerLog.take 2) ⟨0, 2, [], [], [(1, root)]⟩ :=
    .new (t := ⟨0, []⟩) rfl rfl
  have htimed : Step (lateTimerLog.take 2) ⟨0, 2, [], [], [(1, root)]⟩
      [.token ⟨2, [0]⟩ (some 0), .context 3 2 (.timed 1 10)]
      ⟨0, 4, [], [⟨⟨2, [0]⟩, 10⟩], [(3, timed), (1, root)]⟩ :=
    .withDeadline (c := root) rfl rfl rfl
  have hchild : Step (lateTimerLog.take 4) ⟨0, 4, [], [⟨⟨2, [0]⟩, 10⟩], [(3, timed), (1, root)]⟩
      [.token ⟨4, [2, 0]⟩ (some 2), .context 5 4 (.child 3)]
      ⟨0, 6, [], [⟨⟨2, [0]⟩, 10⟩], [(5, last), (3, timed), (1, root)]⟩ :=
    .child (c := timed) rfl rfl rfl
  have hhistory : History lateTimerLog lateTimer :=
    ⟨0, ((((Leads.refl.step hnew).step htimed).step hchild).step (.drop 3)).step
      (.time (Nat.zero_le 10))⟩
  have hwraps : WrapsUntimed lateTimerLog := by
    intro h n hmem
    simp [lateTimerLog] at hmem
  have hlast := cancellation_exact (h := 5) hhistory hwraps rfl
  have hfirst := cancellation_exact (h := 1) hhistory hwraps rfl
  refine ⟨hhistory, hwraps, ⟨_, rfl, ?_, rfl, hlast.1⟩, _, rfl, rfl, fun hoff => ?_⟩
  · exact hlast.2.1.mpr (.inr ⟨10, rfl, le_refl 10⟩)
  · exact Bool.noConfusion (hfirst.2.1.mpr (.inl hoff))

end Contexts

end Workflow
