import Mathlib.Order.Bounds.Basic
import Mathlib.Order.Lattice
import Workflow.Proofs.Descent
import Workflow.Proofs.Ledger

/-!
# The ledger is true to its record

A ledger keeps with every context what follows from how it came about: a deadline, the timers it
keeps running, the tokens that its own follows.  `Contexts.Faithful` says that all this agrees with
the record of what has happened, and that every cancelled token was cancelled for a reason: somebody
has done it, its deadline has been reached, or it was made for a context with a deadline and nobody
holds a context any more that keeps its timer running.

**New contexts.**  A context around a token, one derived from another, and one that is given a
deadline are what the record says of them (`Context.Faithful.around`, `.derive`, `.timed`).

**Steps.**  One lemma covers all ways in which a ledger grows (`Contexts.Faithful.grow`);
cancelling, letting go, a timer's turn and the passing of time have one each.  So whatever a
program does, its ledger stays faithful (**`Contexts.Leads.faithful`**).
-/

namespace Workflow

variable {log new : List Occurrence} {k : Nat} {c : Context} {s s' : Contexts}

/-! ## Deadlines on record -/

lemma Earliest.insert {times : Set Nat} {inherited : Option Nat} (h : Earliest times inherited)
    (d : Nat) : IsLeast (insert d times) (Contexts.earlier inherited d) := by
  cases inherited with
  | none =>
      rw [show times = ∅ from h, insert_empty_eq]
      exact isLeast_singleton
  | some e =>
      rw [Contexts.earlier, min_comm]
      exact IsLeast.insert d h

lemma Timed.append {n : Nat} (h : Timed log n) : Timed (log ++ new) n := by
  obtain ⟨h, of, d, hmem⟩ := h
  exact ⟨h, of, d, List.mem_append_left _ hmem⟩

lemma timed_append_iff (plain : ∀ h n of d, .context h n (.timed of d) ∉ new) {n : Nat} :
    Timed (log ++ new) n ↔ Timed log n := by
  refine exists_congr fun h => exists_congr fun of => exists_congr fun d => ?_
  rw [List.mem_append, or_iff_left (plain h n of d)]

lemma Follows.append {n m : Nat} (h : Follows log n m) : Follows (log ++ new) n m := by
  refine Relation.ReflTransGen.mono ?_ n m h
  rintro x y ⟨t, ht, hn⟩
  exact ⟨t, List.mem_append_left _ ht, hn⟩

lemma Recorded.append {t : Token} (h : Recorded log t) : Recorded (log ++ new) t :=
  h.imp fun _ => List.mem_append_left _

lemma WrapsUntimed.of_append (h : WrapsUntimed (log ++ new)) : WrapsUntimed log :=
  fun x n hx m hm htimed => h x n (List.mem_append_left _ hx) m hm.append htimed.append

section

variable (below : Below k log) (fresh : Fresh k new)

include below in
lemma Timed.lt {n : Nat} (h : Timed log n) : n < k := by
  obtain ⟨h, of, d, hmem⟩ := h
  exact (below.context _ _ _ hmem).2.1

include below fresh in
lemma Expires.append {n d : Nat} (h : Expires log n d) : Expires (log ++ new) n d := by
  obtain ⟨h, of, x, hmem, hleast⟩ := h
  refine ⟨h, of, x, List.mem_append_left _ hmem, ?_⟩
  simpa only [Given.append_iff below fresh (below.context _ _ _ hmem).1] using hleast

variable (timed : ∀ h n of d, .context h n (.timed of d) ∈ new → k ≤ n)

include timed

lemma Timed.of_append {n : Nat} (h : Timed (log ++ new) n) (hn : n < k) : Timed log n := by
  obtain ⟨h, of, d, hmem⟩ := h
  rcases List.mem_append.mp hmem with hmem | hmem
  · exact ⟨h, of, d, hmem⟩
  · have := timed h n of d hmem
    omega

include below fresh in
lemma Expires.of_append {n d : Nat} (h : Expires (log ++ new) n d) (hn : n < k) :
    Expires log n d := by
  obtain ⟨h, of, x, hmem, hleast⟩ := h
  rcases List.mem_append.mp hmem with hmem | hmem
  · refine ⟨h, of, x, hmem, ?_⟩
    simpa only [Given.append_iff below fresh (below.context _ _ _ hmem).1] using hleast
  · have := timed h n of x hmem
    omega

end

/-! ## What a context keeps -/

/-- A context under the handle `h` is what the record says of it. -/
structure Context.Faithful (log : List Occurrence) (h : Nat) (c : Context) : Prop where
  entry : ∃ d, .context h c.token.number d ∈ log
  token : Recorded log c.token
  deadline : Earliest {d | Given log h d} c.deadline
  timers : ∀ n, n ∈ c.timers ↔ ∃ d, Dated log h n d
  /-- One of the tokens that it follows was made for its deadline. -/
  expires : ∀ d, c.deadline = some d → ∃ n ∈ c.token.path, Expires log n d
  /-- It keeps the timers of all tokens that it follows, unless it comes from a token that was taken
  out of a context with a deadline. -/
  covers : WrapsUntimed log → ∀ n ∈ c.token.path, Timed log n → n ∈ c.timers

namespace Context.Faithful

/-- Nothing new makes a difference to a context that was there before. -/
lemma append {h : Nat} (f : c.Faithful log h) (orderly : Orderly log) (below : Below k log)
    (fresh : Fresh k new) (timed : ∀ h n of d, .context h n (.timed of d) ∈ new → k ≤ n) :
    c.Faithful (log ++ new) h := by
  obtain ⟨d, hd⟩ := f.entry
  have hh := (below.context _ _ _ hd).1
  refine ⟨⟨d, List.mem_append_left _ hd⟩, f.token.append, ?_, ?_, ?_, ?_⟩
  · simpa only [Given.append_iff below fresh hh] using f.deadline
  · simpa only [Dated.append_iff below fresh hh] using f.timers
  · intro d hd
    obtain ⟨n, hn, hexp⟩ := f.expires d hd
    exact ⟨n, hn, hexp.append below fresh⟩
  · intro hw n hn htimed
    have hle := orderly.le_of_follows ((orderly.path _ f.token n).mpr hn)
    have hlt := (below.context _ _ _ hd).2.1
    exact f.covers hw.of_append n hn (htimed.of_append timed (hle.trans_lt hlt))

/-- A context around a token has no deadline. -/
lemma around {t : Token} {h : Nat} {d : Descent} (below : Below k log) (hk : h = k)
    (root : d.source? = none) (recorded : Recorded log t)
    (untimed : WrapsUntimed (log ++ [.context h t.number d]) →
      ∀ m ∈ t.path, ¬ Timed (log ++ [.context h t.number d]) m) :
    (Contexts.ofToken t).Faithful (log ++ [.context h t.number d]) h := by
  have hfresh : Fresh k [.context h t.number d] := .context_singleton hk.ge _ _
  have hdated : ∀ n x, ¬ Dated (log ++ [.context h t.number d]) h n x := by
    intro n x hx
    rcases (Dated.new_iff below hk (by simp [root]) hfresh).mp hx with ⟨-, of, rfl⟩ | ⟨p, hp, -⟩
    · cases root
    · rw [root] at hp
      cases hp
  refine ⟨⟨d, by simp [Contexts.ofToken]⟩, recorded.append, ?_, ?_, ?_, ?_⟩
  · simp [Contexts.ofToken, Earliest, Given, hdated]
  · simp [Contexts.ofToken, hdated]
  · simp [Contexts.ofToken]
  · exact fun hw n hn htimed => absurd htimed (untimed hw n hn)

/-- A context that comes from another, with nothing changed but its token, at the most. -/
lemma derive {p h : Nat} {b : Context} {d : Descent} (f : c.Faithful log p)
    (below : Below k log) (hk : h = k) (source : d.source? = some p)
    (plain : ∀ of x, d ≠ .timed of x) (recorded : Recorded log b.token)
    (deadline : b.deadline = c.deadline) (timers : b.timers = c.timers)
    (above : ∀ m ∈ c.token.path, m ∈ b.token.path)
    (path : ∀ m ∈ b.token.path, m ∈ c.token.path ∨ ¬ Timed log m) :
    b.Faithful (log ++ [.context h b.token.number d]) h := by
  have hfresh : Fresh k [.context h b.token.number d] := .context_singleton hk.ge _ _
  obtain ⟨e, he⟩ := f.entry
  have hp : ∀ q, d.source? = some q → q < k := by
    intro q hq
    cases source.symm.trans hq
    exact (below.context _ _ _ he).1
  have hdated : ∀ n x, Dated (log ++ [.context h b.token.number d]) h n x ↔ Dated log p n x := by
    intro n x
    rw [Dated.new_iff below hk hp hfresh, or_iff_right, source]
    · simp
    · rintro ⟨-, of, hd⟩
      exact plain of x hd
  refine ⟨⟨d, by simp⟩, recorded.append, ?_, ?_, ?_, ?_⟩
  · simpa only [Given, hdated, deadline] using f.deadline
  · simpa only [hdated, timers] using f.timers
  · intro x hx
    obtain ⟨n, hn, hexp⟩ := f.expires x (deadline ▸ hx)
    exact ⟨n, above n hn, hexp.append below hfresh⟩
  · rintro hw n hn ⟨h', of, x, hmem⟩
    have htimed : Timed log n := by
      rcases List.mem_append.mp hmem with hmem | hmem
      · exact ⟨h', of, x, hmem⟩
      · simp only [List.mem_singleton, Occurrence.context.injEq] at hmem
        exact absurd hmem.2.2.symm (plain of x)
    rw [timers]
    exact f.covers hw.of_append n ((path n hn).resolve_right (not_not_intro htimed)) htimed

/-- A context that comes from another and is given a deadline. -/
lemma timed {p h x : Nat} {t : Token} (f : c.Faithful log p) (below : Below k log) (hk : h = k)
    (recorded : Recorded log t) (path : t.ancestors = c.token.path) :
    Context.Faithful (log ++ [.context h t.number (.timed p x)]) h
      ⟨t, some (Contexts.earlier c.deadline x), t.number :: c.timers⟩ := by
  have hfresh : Fresh k [.context h t.number (.timed p x)] := .context_singleton hk.ge _ _
  obtain ⟨e, he⟩ := f.entry
  have hp : ∀ q, (Descent.timed p x).source? = some q → q < k := by
    rintro q ⟨⟩
    exact (below.context _ _ _ he).1
  have hdated : ∀ n y, Dated (log ++ [.context h t.number (.timed p x)]) h n y ↔
      (n = t.number ∧ y = x) ∨ Dated log p n y := by
    intro n y
    rw [Dated.new_iff below hk hp hfresh]
    simp [Descent.source?, eq_comm]
  have hgiven : {y | Given (log ++ [.context h t.number (.timed p x)]) h y}
      = insert x {y | Given log p y} := by
    ext y
    simp [Given, hdated, exists_or]
  have hleast := f.deadline.insert x
  rw [← hgiven] at hleast
  refine ⟨⟨.timed p x, by simp⟩, recorded.append, hleast, ?_, ?_, ?_⟩
  · intro n
    simp [hdated, exists_or, f.timers]
  · rintro y ⟨⟩
    exact ⟨t.number, Token.mem_path.mpr (.inl rfl), h, p, x, by simp, hleast⟩
  · rintro hw n hn ⟨h', of, y, hmem⟩
    rcases Token.mem_path.mp hn with rfl | hn
    · exact List.mem_cons_self
    · rw [path] at hn
      refine List.mem_cons.mpr ?_
      rcases List.mem_append.mp hmem with hmem | hmem
      · exact .inr (f.covers hw.of_append n hn ⟨h', of, y, hmem⟩)
      · simp only [List.mem_singleton, Occurrence.context.injEq] at hmem
        exact .inl hmem.2.1

end Context.Faithful

/-! ## What a ledger keeps -/

namespace Contexts

/-- The ledger is what the record says. -/
structure Faithful (log : List Occurrence) (s : Contexts) : Prop where
  below : Below s.supply log
  orderly : Orderly log
  held : ∀ p ∈ s.held, p.2.Faithful log p.1
  timers : ∀ t ∈ s.timers, Recorded log t.token ∧ Expires log t.token.number t.deadline
  /-- A timer runs until its token is cancelled. -/
  running : ∀ n d, Expires log n d →
    (∃ t ∈ s.timers, t.token.number = n ∧ t.deadline = d) ∨ ∃ m, Follows log n m ∧ m ∈ s.cancelled
  /-- A token is cancelled by somebody, by its timer, or since nobody keeps its timer. -/
  cancelled : ∀ n ∈ s.cancelled, .cancelled n ∈ log ∨ (∃ d, Expires log n d ∧ d ≤ s.clock) ∨
    (Timed log n ∧ s.isKept n = false)
  calledOff : ∀ n, .cancelled n ∈ log → n ∈ s.cancelled

namespace Faithful

lemma empty (clock : Nat) : Faithful [] { clock } where
  below := ⟨by simp, by simp⟩
  orderly := .nil
  held := by simp
  timers := by simp
  running := by simp [Expires]
  cancelled := by simp
  calledOff := by simp

/-- A token on record is cancelled if one that it follows was cancelled itself. -/
lemma isTokenCancelled_iff (f : s.Faithful log) {t : Token} (recorded : Recorded log t) :
    s.isTokenCancelled t = true ↔ ∃ m, Follows log t.number m ∧ m ∈ s.cancelled := by
  rw [Contexts.isTokenCancelled_iff]
  exact exists_congr fun m => and_congr_left fun _ => (f.orderly.path t recorded m).symm

/-- The ledger grows by a token, a context or both, and a timer if the context has a deadline of its
own.  All that is new is about new numbers. -/
lemma grow (f : s.Faithful log) (more : Option (Nat × Context)) (started : Option Timer)
    (clock : s'.clock = s.clock) (same : s'.cancelled = s.cancelled)
    (held : s'.held = more.toList ++ s.held) (timers : s'.timers = s.timers ++ started.toList)
    (fresh : Fresh s.supply new)
    (timed : ∀ h n of d, .context h n (.timed of d) ∈ new → s.supply ≤ n)
    (silent : ∀ n, .cancelled n ∉ new) (below : Below s'.supply (log ++ new))
    (orderly : Orderly (log ++ new)) (fair : ∀ p ∈ more, p.2.Faithful (log ++ new) p.1)
    (kept : ∀ p ∈ more, ∀ n ∈ p.2.timers, n < s.supply → s.isKept n = true)
    (begun : ∀ t ∈ started, Recorded (log ++ new) t.token ∧
      Expires (log ++ new) t.token.number t.deadline)
    (every : ∀ n d, s.supply ≤ n → Expires (log ++ new) n d →
      ∃ t ∈ started, t.token.number = n ∧ t.deadline = d) :
    s'.Faithful (log ++ new) where
  below := below
  orderly := orderly
  held p hp := by
    rw [held, List.mem_append, Option.mem_toList] at hp
    rcases hp with hp | hp
    · exact fair p hp
    · exact (f.held p hp).append f.orderly f.below fresh timed
  timers t ht := by
    rw [timers, List.mem_append, Option.mem_toList] at ht
    rcases ht with ht | ht
    · exact ⟨(f.timers t ht).1.append, (f.timers t ht).2.append f.below fresh⟩
    · exact begun t ht
  running n d hexp := by
    rw [timers, same]
    -- A timer is running for an old token if one was before, and for a new one it is started.
    rcases Nat.lt_or_ge n s.supply with hn | hn
    · rcases f.running n d (hexp.of_append f.below fresh timed hn) with ⟨t, ht, h⟩ | ⟨m, hm, h⟩
      · exact .inl ⟨t, List.mem_append_left _ ht, h⟩
      · exact .inr ⟨m, hm.append, h⟩
    · obtain ⟨t, ht, h⟩ := every n d hn hexp
      exact .inl ⟨t, List.mem_append_right _ (Option.mem_toList.mpr ht), h⟩
  cancelled n hn := by
    rw [same] at hn
    rw [clock]
    rcases f.cancelled n hn with h | ⟨d, hexp, hd⟩ | ⟨htimed, hunkept⟩
    · exact .inl (List.mem_append_left _ h)
    · exact .inr (.inl ⟨d, hexp.append f.below fresh, hd⟩)
    · -- What is new keeps no timer that nobody has kept before.
      refine .inr (.inr ⟨htimed.append, Bool.eq_false_iff.mpr fun hkept => ?_⟩)
      obtain ⟨p, hp, hmem⟩ := isKept_iff.mp hkept
      rw [held, List.mem_append, Option.mem_toList] at hp
      rcases hp with hp | hp
      · simp [kept p hp n hmem (htimed.lt f.below)] at hunkept
      · simp [isKept_iff.mpr ⟨p, hp, hmem⟩] at hunkept
  calledOff n hn := by
    rw [same]
    exact f.calledOff n ((List.mem_append.mp hn).resolve_right (silent n))

/-! ### What a program makes -/

lemma mint (f : s.Faithful log) {t : Token} {of : Option Nat} (number : t.number = s.supply)
    (ancestry : Ancestry log t of) :
    Faithful (log ++ [.token t of]) { s with supply := s.supply + 1 } := by
  refine f.grow none none rfl rfl rfl (List.append_nil _).symm
    (.token_singleton number.ge of) (by simp) (by simp)
    (f.below.append_token number (ancestry.lt f.below)) (f.orderly.token f.below number ancestry)
    (by simp) (by simp) (by simp) ?_
  rintro n d hn ⟨h, p, x, hmem, -⟩
  simp only [List.mem_append, List.mem_singleton, reduceCtorEq, or_false] at hmem
  have := (f.below.context _ _ _ hmem).2.1
  omega

/-- A context is held that has the token of another one, or of none. -/
lemma share (f : s.Faithful log) {d : Descent} (plain : d.parent? = none)
    (source : ∀ p, d = .clone p → (p, c) ∈ s.held) (recorded : Recorded log c.token)
    (fair : c.Faithful (log ++ [.context s.supply c.token.number d]) s.supply)
    (kept : ∀ n ∈ c.timers, s.isKept n = true) :
    Faithful (log ++ [.context s.supply c.token.number d]) (s.hold c).2 := by
  have huntimed : ∀ of x, d ≠ .timed of x := by
    rintro of x rfl
    cases plain
  have hclone : ∀ p, d = .clone p → ∃ e, .context p c.token.number e ∈ log :=
    fun p hp => (f.held _ (source p hp)).entry
  have hknown : ∀ p, d.source? = some p → p < s.supply := by
    intro p hp
    obtain rfl := Descent.eq_clone plain hp
    obtain ⟨e, he⟩ := hclone p rfl
    exact (f.below.context _ _ _ he).1
  have hn : c.token.number < s.supply := by
    obtain ⟨of, hof⟩ := recorded
    exact (f.below.token _ _ hof).1
  refine f.grow (some (s.supply, c)) none rfl rfl rfl (List.append_nil _).symm
    (.context_singleton le_rfl _ _) ?_ (by simp) (f.below.append_context rfl hn hknown)
    (f.orderly.context f.below rfl (by simp [plain]) hclone (by simp [plain])) (by simpa using fair)
    ?_ (by simp) ?_
  · intro h n of x hmem
    simp only [List.mem_singleton, Occurrence.context.injEq] at hmem
    exact absurd hmem.2.2.symm (huntimed of x)
  · rintro p ⟨⟩ n hn -
    exact kept n hn
  · rintro n x hle ⟨h, of, y, hmem, -⟩
    simp only [List.mem_append, List.mem_singleton, Occurrence.context.injEq] at hmem
    rcases hmem with hmem | ⟨-, -, hd⟩
    · have := (f.below.context _ _ _ hmem).2.1
      omega
    · exact absurd hd.symm (huntimed of y)

/-- A token is made, and a context that has it is held; a timer is started if the context is given a
deadline. -/
lemma derive (f : s.Faithful log) {of : Option Nat} {d : Descent} (started : Option Timer)
    (number : c.token.number = s.supply) (ancestry : Ancestry log c.token of)
    (plain : ∀ p, d ≠ .clone p)
    (parent : ∀ p, d.source? = some p → ∃ m e, .context p m e ∈ log ∧ of = some m)
    (fair : c.Faithful (log ++ [.token c.token of] ++
      [.context (s.supply + 1) c.token.number d]) (s.supply + 1))
    (kept : ∀ n ∈ c.timers, n < s.supply → s.isKept n = true)
    (begun : ∀ t ∈ started,
      t.token = c.token ∧ c.deadline = some t.deadline ∧ ∃ p x, d = .timed p x)
    (timed : ∀ p x, d = .timed p x → started.isSome = true) :
    Faithful (log ++ [.token c.token of, .context (s.supply + 1) c.token.number d])
      { s with
        supply := s.supply + 2
        held := (s.supply + 1, c) :: s.held
        timers := s.timers ++ started.toList } := by
  obtain ⟨hbelow, horderly⟩ := f.orderly.derived f.below number ancestry plain parent
  rw [← List.append_cons] at fair
  refine f.grow (some (s.supply + 1, c)) started rfl rfl rfl rfl ?_ ?_ (by simp)
    hbelow horderly (by simpa using fair) ?_ ?_ ?_
  · constructor
    · simp [number]
    · intro h n e hmem
      simp only [List.mem_cons, reduceCtorEq, Occurrence.context.injEq, List.not_mem_nil, or_false,
        false_or] at hmem
      omega
  · intro h n p x hmem
    simp only [List.mem_cons, reduceCtorEq, Occurrence.context.injEq, List.not_mem_nil, or_false,
      false_or] at hmem
    omega
  · rintro p ⟨⟩ n hn hlt
    exact kept n hn hlt
  · intro t ht
    obtain ⟨htoken, hdeadline, p, x, rfl⟩ := begun t ht
    rw [htoken]
    refine ⟨⟨of, by simp⟩, s.supply + 1, p, x, by simp, ?_⟩
    have hleast := fair.deadline
    rw [hdeadline] at hleast
    exact hleast
  · rintro n x hle ⟨h, p, y, hmem, hleast⟩
    simp only [List.mem_append, List.mem_cons, reduceCtorEq, Occurrence.context.injEq,
      List.not_mem_nil, or_false, false_or] at hmem
    rcases hmem with hmem | ⟨rfl, rfl, rfl⟩
    · have := (f.below.context _ _ _ hmem).2.1
      omega
    · obtain ⟨t, rfl⟩ := Option.isSome_iff_exists.mp (timed p y rfl)
      obtain ⟨htoken, hdeadline, -⟩ := begun t rfl
      have hleast' := fair.deadline
      rw [hdeadline] at hleast'
      exact ⟨t, rfl, by rw [htoken], IsLeast.unique hleast' hleast⟩

lemma newContext (f : s.Faithful log) :
    Faithful (log ++ [.token s.newToken.1 none, .context (s.supply + 1) s.supply .new])
      (s.newToken.2.hold (ofToken s.newToken.1)).2 := by
  have hminted := f.mint (t := s.newToken.1) rfl (.inl ⟨rfl, rfl⟩)
  have hfair := Context.Faithful.around (d := .new) hminted.below rfl rfl
    ⟨none, List.mem_append_right _ List.mem_cons_self⟩ fun _ m hm htimed => ?_
  · have hderived := f.derive (c := ofToken s.newToken.1) (d := .new) none rfl
      (.inl ⟨rfl, rfl⟩) (by simp) (by simp [Descent.source?]) hfair (by simp [ofToken]) (by simp)
      (by simp)
    rwa [Option.toList_none, List.append_nil] at hderived
  · obtain rfl := List.mem_singleton.mp hm
    rw [timed_append_iff (by simp), timed_append_iff (by simp)] at htimed
    exact absurd (htimed.lt f.below) (lt_irrefl _)

lemma wrap (f : s.Faithful log) {t : Token} (recorded : Recorded log t) :
    Faithful (log ++ [.context s.supply t.number .wrapped]) (s.hold (ofToken t)).2 := by
  refine f.share (c := ofToken t) (d := .wrapped) rfl (by simp) recorded
    (.around f.below rfl rfl recorded fun hw m hm htimed => ?_) (by simp [ofToken])
  refine hw s.supply t.number (by simp [ofToken]) m ?_ htimed
  exact ((f.orderly.path t recorded m).mpr hm).append

section

variable {p : Nat} (source : (p, c) ∈ s.held)

include source

lemma clone (f : s.Faithful log) :
    Faithful (log ++ [.context s.supply c.token.number (.clone p)]) (s.hold c).2 :=
  f.share rfl (by rintro q ⟨⟩; exact source) (f.held _ source).token
    ((f.held _ source).derive f.below rfl rfl (by simp) (f.held _ source).token rfl rfl
      (fun _ => id) fun _ => .inl)
    fun _ hn => isKept_iff.mpr ⟨_, source, hn⟩

/-- The token of a context derived from another, and what becomes of that one meanwhile. -/
lemma mint_child (f : s.Faithful log) :
    Faithful (log ++ [.token (s.childToken c.token).1 (some c.token.number)])
        (s.childToken c.token).2 ∧
      c.Faithful (log ++ [.token (s.childToken c.token).1 (some c.token.number)]) p :=
  ⟨f.mint rfl (.inr ⟨_, (f.held _ source).token, rfl, rfl⟩),
    (f.held _ source).append f.orderly f.below
      (.token_singleton (k := s.supply) le_rfl _) (by simp)⟩

lemma child (f : s.Faithful log) :
    Faithful (log ++ [.token (s.child c).1.token (some c.token.number),
        .context (s.supply + 1) s.supply (.child p)]) ((s.child c).2.hold (s.child c).1).2 := by
  obtain ⟨hminted, hsource⟩ := f.mint_child source
  have hfair := hsource.derive (b := (s.child c).1) (d := .child p) hminted.below rfl rfl (by simp)
    ⟨_, List.mem_append_right _ List.mem_cons_self⟩ rfl rfl (fun _ => List.mem_cons_of_mem _)
    fun m hm => ?_
  · have hderived := f.derive (c := (s.child c).1) (d := .child p) none rfl
      (.inr ⟨_, (f.held _ source).token, rfl, rfl⟩) (by simp) ?_ hfair
      (fun n hn _ => isKept_iff.mpr ⟨_, source, hn⟩) (by simp) (by simp)
    · rwa [Option.toList_none, List.append_nil] at hderived
    · rintro q ⟨⟩
      obtain ⟨e, he⟩ := (f.held _ source).entry
      exact ⟨_, e, he, rfl⟩
  · rcases List.mem_cons.mp hm with rfl | hm
    · refine .inr fun htimed => ?_
      rw [timed_append_iff (by simp)] at htimed
      exact absurd (htimed.lt f.below) (lt_irrefl _)
    · exact .inl hm

/-- A context is derived from another and given a deadline. -/
lemma withDeadline (f : s.Faithful log) (x : Nat) :
    Faithful (log ++ [.token (s.withDeadline c x).1.token (some c.token.number),
        .context (s.supply + 1) s.supply (.timed p x)])
      ((s.withDeadline c x).2.hold (s.withDeadline c x).1).2 := by
  obtain ⟨hminted, hsource⟩ := f.mint_child source
  have hfair := hsource.timed (x := x) hminted.below rfl
    ⟨_, List.mem_append_right _ List.mem_cons_self⟩ rfl
  refine f.derive (c := (s.withDeadline c x).1) (d := .timed p x)
    (some ⟨(s.withDeadline c x).1.token, earlier c.deadline x⟩) rfl
    (.inr ⟨_, (f.held _ source).token, rfl, rfl⟩) (by simp) ?_ hfair ?_ ?_ (by simp)
  · rintro q ⟨⟩
    obtain ⟨e, he⟩ := (f.held _ source).entry
    exact ⟨_, e, he, rfl⟩
  · intro n hn hlt
    rcases List.mem_cons.mp hn with rfl | hn
    · exact absurd hlt (lt_irrefl _)
    · exact isKept_iff.mpr ⟨_, source, hn⟩
  · rintro t ⟨⟩
    exact ⟨rfl, rfl, p, x, rfl⟩

end

/-! ### What becomes of it -/

lemma cancel (f : s.Faithful log) (t : Token) :
    (s.cancel t).Faithful (log ++ [.cancelled t.number]) where
  below := by
    have hbelow : Below s.supply (log ++ [.cancelled t.number]) :=
      ⟨by simpa using f.below.token, by simpa using f.below.context⟩
    exact hbelow
  orderly := f.orderly.cancelled t.number
  held p hp := (f.held p hp).append f.orderly f.below (.cancelled _ _) (by simp)
  timers u hu :=
    ⟨(f.timers u hu).1.append, (f.timers u hu).2.append f.below (.cancelled _ _)⟩
  running n d hexp := by
    have hn : n < s.supply := by
      obtain ⟨h, of, x, hmem, -⟩ := hexp
      exact (f.below.context h n (.timed of x) (by simpa using hmem)).2.1
    refine (f.running n d (hexp.of_append f.below (.cancelled _ _) (by simp) hn)).imp_right ?_
    exact Exists.imp fun m hm => ⟨hm.1.append, List.mem_cons_of_mem _ hm.2⟩
  cancelled n hn := by
    rcases List.mem_cons.mp hn with rfl | hn
    · exact .inl (by simp)
    · rcases f.cancelled n hn with h | ⟨d, hexp, hd⟩ | ⟨htimed, hunkept⟩
      · exact .inl (List.mem_append_left _ h)
      · exact .inr (.inl ⟨d, hexp.append f.below (.cancelled _ _), hd⟩)
      · exact .inr (.inr ⟨htimed.append, hunkept⟩)
  calledOff n hn := by
    rcases List.mem_append.mp hn with hn | hn
    · exact List.mem_cons_of_mem _ (f.calledOff n hn)
    · simp only [List.mem_singleton, Occurrence.cancelled.injEq] at hn
      exact hn ▸ List.mem_cons_self

lemma release (f : s.Faithful log) (h : Nat) : (s.release h).Faithful log where
  below := by simpa using f.below
  orderly := f.orderly
  held p hp := f.held p (mem_held_release.mp hp).1
  timers t ht := f.timers t (by simpa using ht)
  running n d hexp := by
    refine (f.running n d hexp).imp (fun ht => by simpa using ht) ?_
    exact Exists.imp fun m hm => ⟨hm.1, mem_cancelled_release.mpr (.inl hm.2)⟩
  cancelled n hn := by
    have hunkept : s.isKept n = false → (s.release h).isKept n = false := by
      intro hs
      refine Bool.eq_false_iff.mpr fun hkept => ?_
      obtain ⟨p, hp, hmem⟩ := isKept_iff.mp hkept
      simp [isKept_iff.mpr ⟨p, (mem_held_release.mp hp).1, hmem⟩] at hs
    -- A token that is cancelled with the handle was made for a context with a deadline.
    rcases mem_cancelled_release.mp hn with hn | ⟨c, hc, hmem, hlast⟩
    · simpa using (f.cancelled n hn).imp_right (Or.imp_right (And.imp_right hunkept))
    · obtain ⟨d, h', of, -, hentry⟩ := ((f.held _ (mem_held_of_find? hc)).timers n).mp hmem
      exact .inr (.inr ⟨⟨h', of, d, hentry⟩, hlast⟩)
  calledOff n hn := mem_cancelled_release.mpr (.inl (f.calledOff n hn))

/-- A timer that has something to do runs to its end. -/
lemma fire (f : s.Faithful log) {t : Timer} (ht : t ∈ s.timers) (due : s.isDue t = true) :
    (s.fire t).Faithful log where
  below := by simpa using f.below
  orderly := f.orderly
  held p hp := f.held p (by simpa using hp)
  timers u hu := f.timers u (mem_timers_fire.mp hu).1
  running n d hexp := by
    have hmono : ∀ m, m ∈ s.cancelled → m ∈ (s.fire t).cancelled :=
      fun m hm => mem_cancelled_fire.mpr (.inl hm)
    rcases f.running n d hexp with ⟨u, hu, hn, hd⟩ | ⟨m, hm, hcancelled⟩
    · by_cases heq : u = t
      · -- The timer has run, and left its token cancelled.
        subst heq hn
        refine .inr ?_
        obtain ⟨m, hm, hcancelled⟩ :=
          Contexts.isTokenCancelled_iff.mp (isTokenCancelled_fire s u)
        exact ⟨m, (f.orderly.path _ (f.timers u hu).1 m).mpr hm, hcancelled⟩
      · exact .inl ⟨u, mem_timers_fire.mpr ⟨hu, heq⟩, hn, hd⟩
    · exact .inr ⟨m, hm, hmono m hcancelled⟩
  cancelled n hn := by
    have hkept : (s.fire t).isKept n = s.isKept n := by rw [isKept, isKept, held_fire]
    rw [hkept, clock_fire]
    rcases mem_cancelled_fire.mp hn with hn | ⟨rfl, hlive⟩
    · exact f.cancelled n hn
    · -- It has cancelled a live token, so it was due for its deadline.
      rw [isDue, hlive, Bool.or_false, decide_eq_true_eq] at due
      exact .inr (.inl ⟨t.deadline, (f.timers t ht).2, due⟩)
  calledOff n hn := mem_cancelled_fire.mpr (.inl (f.calledOff n hn))

lemma advance (f : s.Faithful log) {clock : Nat} (later : s.clock ≤ clock) :
    (s.advance clock).Faithful log where
  __ := f
  cancelled n hn :=
    (f.cancelled n hn).imp_right (Or.imp_left (Exists.imp fun _ h => ⟨h.1, h.2.trans later⟩))

lemma step (f : s.Faithful log) (h : Step log s new s') : s'.Faithful (log ++ new) := by
  cases h with
  | new made held =>
      cases made
      cases held
      exact f.newContext
  | ofToken known held =>
      cases held
      exact f.wrap known
  | clone source held =>
      cases held
      exact f.clone (mem_held_of_find? source)
  | child source made held =>
      cases made
      cases held
      exact f.child (mem_held_of_find? source)
  | withDeadline source made held =>
      cases made
      cases held
      exact f.withDeadline (mem_held_of_find? source) _
  | newToken made =>
      simp only [Contexts.newToken, Prod.mk.injEq] at made
      obtain ⟨rfl, rfl⟩ := made
      exact f.mint rfl (.inl ⟨rfl, rfl⟩)
  | childToken known made =>
      simp only [Contexts.childToken, Prod.mk.injEq] at made
      obtain ⟨rfl, rfl⟩ := made
      exact f.mint rfl (.inr ⟨_, known, rfl, rfl⟩)
  | cancel source => exact f.cancel _
  | cancelToken known => exact f.cancel _
  | drop h => rw [List.append_nil]; exact f.release h
  | timer running due => rw [List.append_nil]; exact f.fire running due
  | time later => rw [List.append_nil]; exact f.advance later

end Faithful

lemma Leads.faithful {log' : List Occurrence} (h : Leads log s log' s') (f : s.Faithful log) :
    s'.Faithful log' := by
  induction h with
  | refl => exact f
  | step _ step ih => exact ih.step step

lemma History.faithful (h : History log s) : s.Faithful log := by
  obtain ⟨clock, leads⟩ := h
  exact leads.faithful (.empty clock)

end Contexts

end Workflow
