import Workflow.Runner
import Workflow.Proofs.Outcome

/-!
# Limits that are accepted and gates that can be made

There are several ways to make a throttled runner (`Action.ThrottledFrom`), and however it was made,
it has the limit that was asked for (`Action.ThrottledFrom.eq`).  A gate cannot be made with every
limit that is accepted.  A runner whose limit is greater than `maxSlots` is made without complaint,
and its run breaks off with a panic before any child starts; a runner with any other accepted limit
never panics, whatever its children do, and reports a child's panic as a failure.

`World.throttled_gate` says so of every run at any depth, and of what the caller of the root gets.
`World.accepted_limit_panics` is the smallest limit of the first kind.
-/

namespace Workflow

open Store

/-! ## Ways to make a throttled runner -/

/-- The action is a throttled runner over the children `cs` that was made with the limit `n`, which
was accepted: from a limit, a number, settings or the text of the variable, and given more children
afterwards, perhaps. -/
inductive Action.ThrottledFrom (n : Nat) : List Action → Action → Prop where
  | limit {limit : Limit} (value : limit.value = n) (cs : List Action) :
      ThrottledFrom n cs (.throttled limit cs)
  | number {cs : List Action} {a : Action} (h : n < wordBound) (made : throttledOf n h cs = .ok a) :
      ThrottledFrom n cs a
  | settings {s : Settings} {cs : List Action} {a : Action} (value : s.maxConcurrency = n)
      (made : throttledBy s cs = .ok a) : ThrottledFrom n cs a
  | environment {fallback s : Settings} {raw : Option String} {cs : List Action} {a : Action}
      (read : Settings.ofVariable fallback raw = .ok s) (value : s.maxConcurrency = n)
      (made : throttledBy s cs = .ok a) : ThrottledFrom n cs a
  | push {cs : List Action} {a : Action} (h : ThrottledFrom n cs a) (c : Action) :
      ThrottledFrom n (cs ++ [c]) (a.push c)

namespace Action

variable {n : Nat} {cs : List Action} {a : Action}

lemma throttledOf_eq_ok {h : n < wordBound} (made : throttledOf n h cs = .ok a) :
    ∃ limit : Limit, limit.value = n ∧ a = .throttled limit cs := by
  unfold throttledOf Limit.ofNat at made
  split_ifs at made with pos
  · cases made
    exact ⟨⟨n, pos, h⟩, rfl, rfl⟩
  · cases made

/-- However it was made, the runner has the limit that was asked for. -/
lemma ThrottledFrom.eq (made : a.ThrottledFrom n cs) :
    ∃ limit : Limit, limit.value = n ∧ a = .throttled limit cs := by
  induction made with
  | limit value cs => exact ⟨_, value, rfl⟩
  | number _ made => exact throttledOf_eq_ok made
  | settings value made | environment _ value made =>
      subst value
      exact throttledOf_eq_ok made
  | push _ c ih =>
      obtain ⟨limit, value, rfl⟩ := ih
      exact ⟨limit, value, rfl⟩

end Action

/-! ## Runs of throttled runners -/

lemma Exit.ofResult_ne_panicked (f : Option Failure) (payload : Option String) :
    Exit.ofResult f ≠ .panicked payload := by
  cases f <;> simp [ofResult]

namespace Chronicle

variable {ms : List Mark} {ch : Chronicle} {limit : Limit} {cs : List Action} {e : Exit}

/-- A run whose gate could not be made has no child that was started. -/
lemma of_refused (h : ofMarks? ms = some ch) (hr : ch.runner = .throttled limit cs)
    (refused : maxSlots < limit.value) (he : ch.exit = some e) :
    e = .panicked (some slotsPanic) ∧ ∀ i c, .started i c ∉ ms := by
  have houtcome := outcome?_of_exit h he
  simp only [outcome?, hr, if_pos refused] at houtcome
  split_ifs at houtcome with hstages
  refine ⟨(Option.some.inj houtcome).symm, fun i c hm => ?_⟩
  have hlife : .started i c ∈ lifeOf i ms := List.mem_filter.mpr ⟨hm, by simp [Mark.child?]⟩
  rw [lifeOf_eq h, hstages] at hlife
  cases hlife

/-- A run whose gate could be made comes to the result of the exits of its children. -/
lemma of_admitted (h : ofMarks? ms = some ch) (hr : ch.runner = .throttled limit cs)
    (admitted : limit.value ≤ maxSlots) (he : ch.exit = some e) :
    ∃ exits : List Exit, exits.length = cs.length ∧ e = resultOf cs exits ∧
      ∀ (i : Nat) x, exits[i]? = some x → .ended i x ∈ ms := by
  have hd : ch.runner.dispatch? = some (some limit.value, cs) := by rw [hr]; rfl
  obtain ⟨exits, hst, hlen, heq⟩ := exits_of_outcome? hd (by simpa using admitted)
    (outcome?_of_exit h he)
  refine ⟨exits, hlen, heq, fun i x hx => ?_⟩
  have hlife : .ended i x ∈ lifeOf i ms := by
    rw [lifeOf_eq h, hst, List.getElem?_map, hx]
    simp [Stage.life]
  exact List.mem_of_mem_filter hlife

end Chronicle

/-- A run whose gate cannot be made panics when it is polled for the first time. -/
lemma World.Opens.pollRoot_refused {w : World} {env : Env} {limit : Limit} {cs : List Action}
    (opens : w.Opens env (.throttled limit cs)) (refused : maxSlots < limit.value) :
    (w.take .root).root = .ended (.panicked (some slotsPanic)) := by
  simp only [take, World.pollRoot, opens.root, Action.start_throttled, startThrottled,
    if_pos refused]
  rfl

/-- **Which accepted limits can be run.**  Take a throttled runner with an accepted limit, however
it was made, and any children.  When the limit is greater than `maxSlots`, every run of it at any
depth that ends has panicked without starting a child, and one that was just opened panics at once.
With any other limit no run panics: it comes to the result of its children's exits, in which the
panic of a child before which none failed is a failure under the name of that child.  So the caller
of the root gets a panic exactly when the limit is greater than `maxSlots`. -/
theorem World.throttled_gate {n : Nat} {cs : List Action} {a : Action}
    (made : a.ThrottledFrom n cs) :
    (∀ (w₀ : World) env, w₀.Opens env a → maxSlots < n →
      (w₀.take .root).root = .ended (.panicked (some slotsPanic))) ∧
    (∀ (w₀ : World) env w e, w₀.Opens env a → Leads w₀ w → w.root = .ended e →
      ((∃ payload, e = .panicked payload) ↔ maxSlots < n)) ∧
    ∀ (w : World) r e, w.HasRun r a → .finished e ∈ w.store.marks r →
      (maxSlots < n → e = .panicked (some slotsPanic) ∧ ∀ i c, .started i c ∉ w.store.marks r) ∧
      (n ≤ maxSlots → (∃ f, e = .ofResult f) ∧ ∃ exits : List Exit, exits.length = cs.length ∧
        e = resultOf cs exits ∧ (∀ (i : Nat) x, exits[i]? = some x → .ended i x ∈ w.store.marks r) ∧
        ∀ (i : Nat) c payload, cs[i]? = some c → exits[i]? = some (.panicked payload) →
          (∀ j < i, ∀ c' x', cs[j]? = some c' → exits[j]? = some x' → x'.failureOf c'.name = none) →
          e = .failed (.panicked c.name (payload.getD "non-string panic payload"))) := by
  obtain ⟨limit, rfl, rfl⟩ := made.eq
  have hrun : ∀ (w : World) r e, w.HasRun r (.throttled limit cs) → .finished e ∈ w.store.marks r →
      ∃ ch, w.store.chronicle? r = some ch ∧ ch.runner = .throttled limit cs ∧
        ch.exit = some e := by
    intro w r e run finished
    obtain ⟨ch, hch, hr⟩ := run.chronicle
    exact ⟨ch, hch, hr, (Chronicle.finished_mem hch e).mp finished⟩
  refine ⟨fun w₀ env opens refused => opens.pollRoot_refused refused, ?_, ?_⟩
  · intro w₀ env w e opens leads ended
    have hbegun : w.HasRun w₀.store.runs (.throttled limit cs) := by
      have hroot := (leads.accounted opens).root
      rw [ended] at hroot
      obtain ⟨ch, hch, hr, -⟩ := hroot _ rfl
      exact ⟨w₀, env, _, opens, leads, le_refl _, (Chronicle.begun_mem hch _).mpr hr.symm⟩
    obtain ⟨ch, hch, hr, he⟩ := hrun w _ e hbegun (leads.finished opens rfl ended)
    constructor
    · rintro ⟨payload, rfl⟩
      by_contra hle
      obtain ⟨exits, -, heq, -⟩ := Chronicle.of_admitted hch hr (Nat.not_lt.mp hle) he
      exact Exit.ofResult_ne_panicked _ _ heq.symm
    · intro refused
      exact ⟨_, (Chronicle.of_refused hch hr refused he).1⟩
  · intro w r e run finished
    obtain ⟨ch, hch, hr, he⟩ := hrun w r e run finished
    refine ⟨fun refused => Chronicle.of_refused hch hr refused he, fun admitted => ?_⟩
    obtain ⟨exits, hlen, heq, hended⟩ := Chronicle.of_admitted hch hr admitted he
    refine ⟨⟨_, heq⟩, exits, hlen, heq, hended, fun i c payload hc hx hfirst => ?_⟩
    rw [heq]
    exact resultOf_eq_failed hc hx rfl hfirst

lemma maxSlots_succ_lt : maxSlots + 1 < wordBound := by decide

/-- The smallest limit that is accepted although a gate cannot be made with it. -/
def Limit.beyondSlots : Limit := ⟨maxSlots + 1, Nat.succ_pos _, maxSlots_succ_lt⟩

/-- A runner that was made from a number panics when it is run, and no child of it starts. -/
theorem World.throttled_gate_beyondSlots :
    Action.ThrottledFrom (maxSlots + 1) [.panicking "only" "early"]
        (.throttled .beyondSlots [.panicking "only" "early"]) ∧
      ((opening ⟨default, 0⟩ (.throttled .beyondSlots [.panicking "only" "early"])).take .root).root
        = .ended (.panicked (some slotsPanic)) :=
  have made : Action.ThrottledFrom (maxSlots + 1) [.panicking "only" "early"]
      (.throttled .beyondSlots [.panicking "only" "early"]) := .number maxSlots_succ_lt rfl
  ⟨made, (throttled_gate made).1 _ _ (opening_opens _ _) (Nat.lt_succ_self _)⟩

/-- **Not every accepted limit can be run.**  The number is accepted, also as a setting, and the run
of the runner, which has no children, is a panic for its caller. -/
theorem World.accepted_limit_panics :
    Action.throttledOf (maxSlots + 1) maxSlots_succ_lt [] = .ok (.throttled .beyondSlots []) ∧
      Action.throttledBy ⟨maxSlots + 1, maxSlots_succ_lt⟩ [] = .ok (.throttled .beyondSlots []) ∧
      ((opening ⟨default, 0⟩ (.throttled .beyondSlots [])).take .root).root
        = .ended (.panicked (some slotsPanic)) :=
  ⟨rfl, rfl, rfl⟩

end Workflow
