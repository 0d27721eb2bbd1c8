import Workflow.Proofs.Accounted

/-!
# What a concurrent run comes to

A run without a limit, or a throttled one whose gate can be made, ends when all its children have
ended, and gives back what `resultOf` says of their exits: the failure of the first child that
failed, in the order in which the children were submitted.  When and in which order they ended plays
no part in it.

`resultOf_eq_done` and `resultOf_eq_failed` say what that result is; `Chronicle.of_finished` reads
it off the chronicle of a run.
-/

namespace Workflow

open Store

/-! ## The result of exits -/

/-- What the exits of children come to: success, or the failure of the first child that failed. -/
def resultOf (cs : List Action) (exits : List Exit) : Exit :=
  .ofResult ((cs.zip exits).findSome? fun x => x.2.failureOf x.1.name)

lemma Exit.ofResult_eq_done {f : Option Failure} : Exit.ofResult f = .done ↔ f = none := by
  cases f <;> simp [ofResult]

/-- The result is success when no child failed. -/
lemma resultOf_eq_done {cs : List Action} {exits : List Exit} :
    resultOf cs exits = .done ↔ ∀ (i : Nat) c x, cs[i]? = some c → exits[i]? = some x →
      x.failureOf c.name = none := by
  rw [resultOf, Exit.ofResult_eq_done, List.findSome?_eq_none_iff]
  constructor
  · intro h i c x hc hx
    exact h (c, x) (List.mem_of_getElem? (List.getElem?_zip_eq_some.mpr ⟨hc, hx⟩))
  · rintro h ⟨c, x⟩ hmem
    obtain ⟨i, hi⟩ := List.mem_iff_getElem?.mp hmem
    obtain ⟨hc, hx⟩ := List.getElem?_zip_eq_some.mp hi
    exact h i c x hc hx

/-- The result is the failure of a child before which no child failed. -/
lemma resultOf_eq_failed {cs : List Action} {exits : List Exit} {i : Nat} {c : Action} {x : Exit}
    {f : Failure} (hc : cs[i]? = some c) (hx : exits[i]? = some x)
    (failure : x.failureOf c.name = some f)
    (first : ∀ j < i, ∀ c' x', cs[j]? = some c' → exits[j]? = some x' →
      x'.failureOf c'.name = none) : resultOf cs exits = .failed f := by
  have hzip : (cs.zip exits)[i]? = some (c, x) := List.getElem?_zip_eq_some.mpr ⟨hc, hx⟩
  obtain ⟨hi, hget⟩ := List.getElem?_eq_some_iff.mp hzip
  have hfind : ((cs.zip exits).findSome? fun x => x.2.failureOf x.1.name) = some f := by
    refine List.findSome?_eq_some_iff.mpr
      ⟨(cs.zip exits).take i, (c, x), (cs.zip exits).drop (i + 1), ?_, failure, ?_⟩
    · rw [← hget, ← List.drop_eq_getElem_cons hi, List.take_append_drop]
    · rintro ⟨c', x'⟩ hmem
      obtain ⟨j, hj, hget'⟩ := List.mem_take_iff_getElem.mp hmem
      obtain ⟨hc', hx'⟩ := List.getElem?_zip_eq_some.mp
        (List.getElem?_eq_some_iff.mpr ⟨by omega, hget'⟩)
      exact first j (by omega) c' x' hc' hx'
  rw [resultOf, hfind]; rfl

/-! ## The end of a run -/

namespace Chronicle

variable {ch : Chronicle} {slots : Option Nat} {cs : List Action} {e : Exit}

/-- The exit that the ends of the children of a concurrent run command is their result. -/
lemma exits_of_outcome? (hd : ch.runner.dispatch? = some (slots, cs))
    (accepted : ∀ n ∈ slots, n ≤ maxSlots) (h : ch.outcome? = some e) :
    ∃ exits : List Exit, ch.stages = exits.map .ended ∧ exits.length = cs.length ∧
      e = resultOf cs exits := by
  have hfirst : (firstFailure? (cs.map Action.name) ch.stages).map Exit.ofResult = some e := by
    match hr : ch.runner, hd with
    | .async cs', hd =>
        cases hd
        simpa only [outcome?, hr] using h
    | .throttled limit cs', hd =>
        cases hd
        have hle := accepted _ rfl
        simpa only [outcome?, hr, if_neg (Nat.not_lt.mpr hle)] using h
  obtain ⟨f, hf, rfl⟩ := Option.map_eq_some_iff.mp hfirst
  obtain ⟨exits, hst, hlen, rfl⟩ := firstFailure?_eq_some.mp hf
  refine ⟨exits, hst, by simpa using hlen, ?_⟩
  rw [resultOf, List.zip_map_left, List.findSome?_map]
  rfl

/-- A child with the mark of its end has ended. -/
lemma ended_mem {ms : List Mark} {i : Nat} {x : Exit} (h : ofMarks? ms = some ch)
    (hm : .ended i x ∈ ms) : ch.stages[i]? = some (.ended x) := by
  have hlife : .ended i x ∈ lifeOf i ms := List.mem_filter.mpr ⟨hm, by simp [Mark.child?]⟩
  rw [lifeOf_eq h] at hlife
  cases hst : ch.stages[i]? with
  | none => rw [hst] at hlife; cases hlife
  | some st =>
      rw [hst] at hlife
      cases hs : ch.spawns <;> cases st <;> simp_all [Stage.life]

/-- A child has ended exactly when it has the mark of its end. -/
lemma mem_ended_iff {ms : List Mark} {i : Nat} {x : Exit} (h : ofMarks? ms = some ch) :
    .ended i x ∈ ms ↔ ch.stages[i]? = some (.ended x) := by
  refine ⟨ended_mem h, fun hst => ?_⟩
  have hlife : .ended i x ∈ lifeOf i ms := by
    rw [lifeOf_eq h, hst]
    simp [Stage.life]
  exact List.mem_of_mem_filter hlife

/-- What the marks of a concurrent run that has ended say: every child was given a task, started and
ended, all before the run did, and the exit is the result of theirs. -/
lemma of_finished {before after : List Mark}
    (h : ofMarks? (before ++ .finished e :: after) = some ch)
    (hd : ch.runner.dispatch? = some (slots, cs)) (accepted : ∀ n ∈ slots, n ≤ maxSlots) :
    ∃ exits : List Exit, exits.length = cs.length ∧ e = resultOf cs exits ∧
      ∀ (i : Nat) c x, cs[i]? = some c → exits[i]? = some x →
        lifeOf i before = [.spawned i c, .started i c, .ended i x] := by
  obtain ⟨ch₀, ch₁, h₀, hnext, -, hrunner⟩ := of_split h (by simp)
  rw [← hrunner] at hd
  rcases exit_of_next? hnext with ⟨e', he, -, houtcome, -⟩ | ⟨hne, -⟩
  · cases he
    obtain ⟨exits, hst, hlen, rfl⟩ := exits_of_outcome? hd accepted houtcome
    refine ⟨exits, hlen, rfl, fun i c x hc hx => ?_⟩
    have hs : ch₀.spawns = true := by simp [spawns, hd]
    rw [lifeOf_eq h₀, hst, children_eq hd, hc, List.getElem?_map, hx, hs]
    rfl
  · exact absurd rfl (hne e)

end Chronicle

/-- What the root has come to is what its run has come to. -/
lemma World.Leads.finished {w₀ w : World} {env : Env} {a : Action} {e : Exit} {r : Nat}
    (opens : w₀.Opens env a) (leads : Leads w₀ w) (run : a.run? w₀.store.runs = some r)
    (ended : w.root = .ended e) : .finished e ∈ w.store.marks r := by
  have hroot := (leads.accounted opens).root
  rw [ended] at hroot
  obtain ⟨ch, hch, -, hexit⟩ := hroot r run
  exact (Chronicle.finished_mem hch e).mpr hexit

/-- **The result of a concurrent run.**  Take a run without a limit, or a throttled one with a limit
that a gate can be made with, in any world that an opening world leads to.  When it has ended, every
child was given a task once, was started once and has ended, before the run itself did.  It has
succeeded exactly if no child failed or panicked; otherwise it has given back the failure of the
first child that did, under the name of that child.  What the caller of the root gets is no other
exit; and another run of the same children in which each came to the same exit has the same result,
in whatever order they ended. -/
theorem World.concurrent_result {w : World} {r : Nat} {runner : Action} (run : w.HasRun r runner)
    {slots : Option Nat} {cs : List Action} (concurrent : runner.dispatch? = some (slots, cs))
    (accepted : ∀ n ∈ slots, n ≤ maxSlots) {e : Exit} {before after : List Mark}
    (finished : w.store.marks r = before ++ .finished e :: after) :
    ∃ exits : List Exit, exits.length = cs.length ∧
      (∀ (i : Nat) c x, cs[i]? = some c → exits[i]? = some x →
        lifeOf i before = [.spawned i c, .started i c, .ended i x]) ∧
      (e = .done ↔ ∀ (i : Nat) c x, cs[i]? = some c → exits[i]? = some x →
        x.failureOf c.name = none) ∧
      (∀ (i : Nat) c x f, cs[i]? = some c → exits[i]? = some x → x.failureOf c.name = some f →
        (∀ j < i, ∀ c' x', cs[j]? = some c' → exits[j]? = some x' → x'.failureOf c'.name = none) →
        e = .failed f) ∧
      (∀ w₀ env a e', w₀.Opens env a → Leads w₀ w → a.run? w₀.store.runs = some r →
        w.root = .ended e' → e' = e) ∧
      ∀ (w' : World) r' runner' slots' e', w'.HasRun r' runner' →
        runner'.dispatch? = some (slots', cs) → (∀ n ∈ slots', n ≤ maxSlots) →
        .finished e' ∈ w'.store.marks r' →
        (∀ (i : Nat) x, exits[i]? = some x → .ended i x ∈ w'.store.marks r') → e' = e := by
  obtain ⟨ch, hch, hrunner⟩ := run.chronicle
  subst hrunner
  have hmarks := hch
  rw [chronicle?, finished] at hmarks
  obtain ⟨exits, hlen, rfl, hlife⟩ := Chronicle.of_finished hmarks concurrent accepted
  refine ⟨exits, hlen, hlife, resultOf_eq_done, ?_, ?_, ?_⟩
  · intro i c x f hc hx hf hfirst
    exact resultOf_eq_failed hc hx hf hfirst
  · intro w₀ env a e' opens leads hrun hroot
    have h₁ := (Chronicle.finished_mem hch e').mp (leads.finished opens hrun hroot)
    have h₂ := (Chronicle.finished_mem hch (resultOf cs exits)).mp (by rw [finished]; simp)
    rw [h₁] at h₂
    exact Option.some.inj h₂
  · intro w' r' runner' slots' e' run' concurrent' accepted' finished' hsame
    obtain ⟨ch', hch', hrunner'⟩ := run'.chronicle
    subst hrunner'
    obtain ⟨exits', hst, hlen', rfl⟩ := Chronicle.exits_of_outcome? concurrent' accepted'
      (Chronicle.outcome?_of_exit hch' ((Chronicle.finished_mem hch' e').mp finished'))
    have hexits : exits' = exits := by
      refine List.ext_getElem (hlen'.trans hlen.symm) fun i hi' hi => ?_
      have hstage := Chronicle.ended_mem hch' (hsame i _ (List.getElem?_eq_getElem hi))
      rw [hst, List.getElem?_map, List.getElem?_eq_getElem hi'] at hstage
      simpa using hstage
    rw [hexits]

/-! A child that is slow to fail comes before one that fails at once. -/

/-- A leaf that lets others run first, once, and then fails. -/
def Action.failing (name text : String) : Action :=
  .leaf .function name (.giveWay (.fail (.plain text)))

/-- A leaf that panics. -/
def Action.panicking (name text : String) : Action :=
  .leaf .function name (.finish (.panicked (some text)))

/-- Two leaves side by side; the second fails first. -/
def Action.sideBySide : Action :=
  .async [.failing "slow" "late", .panicking "quick" "early"]

/-- The leaf that was submitted first gives its failure to the run. -/
theorem World.concurrent_result_sideBySide :
    let w := (((((opening ⟨default, 0⟩ .sideBySide).take .root).take (.task 1 [])).take
      (.task 0 [])).take (.task 0 [])).take .root
    w.store.marks 0 = (w.store.marks 0).dropLast ++
        [.finished (.failed (.failed "slow" (.plain "late")))] ∧
      ∃ exits : List Exit, exits.length = 2 ∧ ∀ (i : Nat) c x,
        [Action.failing "slow" "late", Action.panicking "quick" "early"][i]? = some c →
        exits[i]? = some x →
        lifeOf i (w.store.marks 0).dropLast = [.spawned i c, .started i c, .ended i x] := by
  intro w
  have hmarks : w.store.marks 0 = (w.store.marks 0).dropLast ++
      [.finished (.failed (.failed "slow" (.plain "late")))] := rfl
  have hleads : Leads (opening ⟨default, 0⟩ .sideBySide) w :=
    .step (.step (.step (.step (.step .refl (.turn .root rfl)) (.turn (.task 1 []) rfl))
      (.turn (.task 0 []) rfl)) (.turn (.task 0 []) rfl)) (.turn .root rfl)
  have hrun : w.HasRun 0 .sideBySide :=
    ⟨_, _, _, opening_opens ⟨default, 0⟩ .sideBySide, hleads, Nat.zero_le 0,
      List.mem_of_getElem? (i := 0) rfl⟩
  have hconcurrent : Action.sideBySide.dispatch? = some (none, _) := rfl
  obtain ⟨exits, hlen, hlife, -⟩ := concurrent_result hrun hconcurrent (by simp) hmarks
  exact ⟨hmarks, exits, hlen, hlife⟩

end Workflow
