import Workflow.Proofs.Rest

/-!
# The dispatcher keeps the law

A concurrent run does three things of its own: it gives tasks to children, collects their ends, and
ends itself.  Each keeps `Dispatch.Accounts`, and none touches another run.

* `admitAll_accounts`, `spawnAll_spec`: giving tasks, one by one as slots are free, or all at once;
* `collect_accounts`: collecting, up to the first child that has not ended;
* **`Dispatch.advance_ran`**: the dispatcher's whole turn.  When it ends the run, all children have
  ended and the exit is the one that their ends command.
-/

namespace Workflow

open Store

/-- Code of the run `top` — or of no run of its own — that held the runs `own` has run in the store
`s₀`.  It has stopped at the rest of the action `a`, holding the runs of that; or it has ended,
holds none, and its run has ended with the same exit. -/
def Ran (top : Option Nat) (own : List Nat) (s₀ : Store) (env : Env) (a : Action) :
    Store × Progress → Prop
  | (s, .paused p) => Handover own s₀ p.runs s ∧ p.RestOf s env a ∧ p.run? = top
  | (s, .ended e) => Handover own s₀ [] s ∧ ∀ r ∈ top, s.HasFinished r a.bare e

namespace Ran

variable {top : Option Nat} {own own' : List Nat} {s s' : Store} {env : Env} {a a' : Action}
  {out : Store × Progress}

lemma of_handover (h : Handover own s own' s') (ran : Ran top own' s' env a out) :
    Ran top own s env a out := by
  obtain ⟨s'', p | e⟩ := out
  · exact ⟨h.trans ran.1, ran.2⟩
  · exact ⟨h.trans ran.1, ran.2⟩

lemma of_bare (ran : Ran top own s env a out) (hb : a'.bare = a.bare) :
    Ran top own s env a' out := by
  obtain ⟨s'', p | e⟩ := out
  · exact ⟨ran.1, ran.2.1.of_bare hb, ran.2.2⟩
  · exact ⟨ran.1, by rw [hb]; exact ran.2⟩

/-- The end of a run with the exit that the ends of its children command. -/
lemma finishRun {r : Nat} {ch : Chronicle} {e : Exit} (touch : Touches r s s') (t : s.Tidy)
    (bound : r < s.runs) (chronicle : s'.chronicle? r = some ch) (runner : ch.runner = a.bare)
    (exit : ch.exit = none) (outcome : ch.outcome? = some e) :
    Ran (some r) [r] s env a (finishRun r e s') := by
  have hch := chronicle?_finished chronicle exit outcome
  refine ⟨.letGo (touch.trans (.mark r s' _)) t bound ⟨_, e, _, hch, runner, rfl⟩,
    fun r' hr' => ?_⟩
  cases hr'
  exact ⟨_, hch, runner, rfl⟩

end Ran

/-! ## Children -/

lemma Child.isLive_of_verdict? {c : Child} {v : Option Failure} (h : c.verdict? = some v) :
    c.isLive = false ∧ c.failure? = v := by
  refine ⟨?_, by simp [failure?, h]⟩
  cases c <;> simp_all [verdict?, isLive, task?]

lemma Child.failure?_ended (name : String) (e : Exit) :
    (Child.ended name e).failure? = e.failureOf name := by
  match e with
  | .done => rfl
  | .panicked _ => rfl
  | .failed f => cases f <;> rfl

/-- When all children have ended, the first failure among their ends is the first one that the
chronicle shows. -/
lemma firstFailure?_eq {children : List Child} {cs : List Action}
    (hlen : children.length = cs.length)
    (fits : ∀ (i : Nat) child c, children[i]? = some child → cs[i]? = some c → child.Fits c)
    (isOver : ∀ c ∈ children, c.isLive = false) :
    firstFailure? (cs.map Action.name) (children.map Child.stage)
      = some (children.findSome? Child.failure?) := by
  induction children generalizing cs with
  | nil =>
      obtain rfl : cs = [] := List.length_eq_zero_iff.mp hlen.symm
      rfl
  | cons child children ih =>
      obtain _ | ⟨c, cs⟩ := cs
      · simp at hlen
      have hfit : child.Fits c := fits 0 child c rfl rfl
      have htail := ih (by simpa using hlen) (fun i => fits (i + 1))
        fun c' hc' => isOver c' (List.mem_cons_of_mem _ hc')
      have hover := isOver child List.mem_cons_self
      cases child with
      | spawned | running => simp [Child.isLive, Child.task?] at hover
      | lost => exact absurd hfit id
      | ended name e =>
          obtain rfl : name = c.name := hfit
          simp only [List.map_cons, Child.stage, firstFailure?, htail, Option.map_some,
            List.findSome?_cons, Child.failure?_ended]
          cases e.failureOf c.name <;> rfl

/-! ## Giving tasks -/

section

variable {s : Store} {env : Env} {runner : Action} {slots : Option Nat} {cs : List Action}
  {d : Dispatch} {children : List Child}

/-- The child that is to be given a task next, and those behind it. -/
lemma of_cons_eq_drop {a : Action} {rest : List Action} {n : Nat} (h : a :: rest = cs.drop n) :
    cs[n]? = some a ∧ rest = cs.drop (n + 1) := by
  have hlt : n < cs.length := by
    by_contra hge
    rw [List.drop_eq_nil_of_le (by omega)] at h
    cases h
  rw [List.drop_eq_getElem_cons hlt] at h
  obtain ⟨ha, hrest⟩ := List.cons.inj h
  exact ⟨by rw [ha]; exact List.getElem?_eq_getElem hlt, hrest⟩

/-- One more child is given a task, for which a slot is taken. -/
lemma Dispatch.Accounts.spawn {a : Action} {rest : List Action} {free task : Nat}
    (h : Dispatch.Accounts s env runner slots cs { d with queue := a :: rest } children)
    (hd : runner.dispatch? = some (slots, cs)) (hgate : d.gate = some (free + 1))
    {s' : Store} (hs' : s'.chronicle? d.run
      = (s.chronicle? d.run).bind (·.next? (.spawned children.length a))) :
    Dispatch.Accounts s' env runner slots cs { d with gate := some free, queue := rest }
      (children ++ [.spawned task a]) := by
  have hslots : slots = some (free + 1 + children.countP Child.isLive) := by
    rw [← h.free]; simp [hgate]
  obtain ⟨haction, hrest⟩ := of_cons_eq_drop h.queue
  have hlive : (children.map Child.stage).countP Stage.isLive = children.countP Child.isLive := by
    rw [List.countP_map]
    exact List.countP_congr fun c _ => by cases c <;> rfl
  refine { h with chronicle := ?_, length_le := ?_, queue := ?_, whole := ?_, free := ?_,
                  fits := ?_, collected := ?_ }
  · rw [hs', h.chronicle]
    have hchildren : ∀ ch : Chronicle, ch.runner = runner → ch.children = cs :=
      fun ch hr => Chronicle.children_eq (by rw [hr]; exact hd)
    rw [Option.bind_some, Chronicle.next?, if_pos]
    · simp [Child.stage]
    · refine ⟨by simp, by rw [hchildren _ rfl]; exact haction, ?_⟩
      simp only [Chronicle.admits, Chronicle.live, hd, hslots, hlive]
      simp
  · rw [List.length_append, List.length_singleton]
    exact (List.getElem?_eq_some_iff.mp haction).1
  · simpa using hrest
  · intro hnone; rw [hslots] at hnone; cases hnone
  · rw [hslots]
    simp only [Option.map_some, List.countP_append, List.countP_singleton, Child.isLive,
      Child.task?, Option.isSome_some, if_true]
    congr 1; omega
  · intro i child c hchild hc
    rw [Chronicle.getElem?_concat] at hchild
    split_ifs at hchild with hi
    · cases hchild
      rw [hi, haction] at hc
      cases hc
      rfl
    · exact h.fits i child c hchild hc
  · obtain ⟨done, more, rfl, hdone, hover, hfail⟩ := h.collected
    exact ⟨done, more ++ [.spawned task a], by simp, hdone, hover, hfail⟩

/-- Children are given tasks as long as slots are free. -/
lemma Dispatch.admitAll_accounts (hd : runner.dispatch? = some (slots, cs)) :
    ∀ (queue : List Action) (d : Dispatch) (children : List Child) (s : Store),
      Dispatch.Accounts s env runner slots cs { d with queue } children →
      ∃ d' new s', d.admitAll queue children s = (d', children ++ new, s') ∧
        d'.Accounts s' env runner slots cs (children ++ new) ∧ Touches d.run s s' ∧
        d'.run = d.run ∧ d'.env = d.env ∧ ∀ c ∈ new, ∃ task a, c = .spawned task a
  | [], d, children, s, h =>
      ⟨{ d with queue := [] }, [], s, by simp [admitAll], by simpa using h, .refl _ _, rfl, rfl,
        by simp⟩
  | a :: rest, d, children, s, h => by
      by_cases hgate : ∃ free, d.gate = some (free + 1)
      · obtain ⟨free, hgate⟩ := hgate
        set s₁ := s.report d.run (.throttledAdmit children.length a.name) with hs₁
        set s₂ := (s₁.newTask d.env.context).2 with hs₂
        set task := (s₁.newTask d.env.context).1 with htask
        have hsame : s₁.SameRuns s₂ := s₁.sameRuns_newTask _
        have hchr : (s₂.mark d.run (.spawned children.length a)).chronicle? d.run
            = (s.chronicle? d.run).bind (·.next? (.spawned children.length a)) := by
          have h₁ : s₁.chronicle? d.run = s.chronicle? d.run := by
            rw [hs₁, report_eq_mark, chronicle?_mark h.chronicle, h.chronicle]; rfl
          have h₂ : s₂.chronicle? d.run = s.chronicle? d.run := by
            rw [chronicle?_congr (hsame.notes d.run), h₁]
          rw [chronicle?_mark (h₂.trans h.chronicle), h.chronicle]; rfl
        obtain ⟨d', new, s', heq, hacc, htouch, hrun, henv, hnew⟩ :=
          admitAll_accounts hd rest { d with gate := some free } (children ++ [.spawned task a])
            (s₂.mark d.run (.spawned children.length a)) (h.spawn hd hgate hchr)
        refine ⟨d', .spawned task a :: new, s', ?_, by simpa using hacc, ?_, hrun, henv, ?_⟩
        · simp only [admitAll, hgate]
          simpa using heq
        · exact (Touches.mark d.run s _).trans ((Touches.of_sameRuns hsame _).trans
            ((Touches.mark d.run s₂ _).trans htouch))
        · rintro c (_ | ⟨_, hc⟩)
          · exact ⟨task, a, rfl⟩
          · exact hnew c hc
      · refine ⟨{ d with queue := a :: rest }, [], s, ?_, by simpa using h, .refl _ _, rfl, rfl,
          by simp⟩
        rw [List.append_nil]
        unfold admitAll
        split
        · next free hfree => exact absurd ⟨free, hfree⟩ hgate
        · rfl

/-- All children are given tasks at once. -/
lemma Dispatch.spawnAll_spec (hr : runner = .async cs) :
    ∀ (rest : List Action) (s : Store) (ch : Chronicle), s.chronicle? d.run = some ch →
      ch.runner = runner → ch.exit = none → rest = cs.drop ch.stages.length →
      ∃ new s', d.spawnAll ch.stages.length rest s = (new, s') ∧
        s'.chronicle? d.run = some { ch with stages := ch.stages ++ new.map Child.stage } ∧
        Touches d.run s s' ∧ new.length = rest.length ∧
        ∀ (i : Nat) c, rest[i]? = some c → ∃ task, new[i]? = some (.spawned task c)
  | [], s, ch, hch, _, _, _ => ⟨[], s, rfl, by simpa using hch, .refl _ _, rfl, by simp⟩
  | a :: rest, s, ch, hch, hrun, hexit, hrest => by
      have hd : ch.runner.dispatch? = some (none, cs) := by rw [hrun, hr]; rfl
      obtain ⟨haction, hrest⟩ := of_cons_eq_drop hrest
      set s₁ := (s.newTask d.env.context).2 with hs₁
      set task := (s.newTask d.env.context).1 with htask
      have hsame : s.SameRuns s₁ := s.sameRuns_newTask _
      have hadmits : ch.admits = true := by simp [Chronicle.admits, hd, hexit]
      have hch₁ : (s₁.mark d.run (.spawned ch.stages.length a)).chronicle? d.run
          = some { ch with stages := ch.stages ++ [.waiting] } := by
        rw [chronicle?_mark ((chronicle?_congr (hsame.notes d.run)).trans hch)]
        simp [Chronicle.next?, hadmits, Chronicle.children_eq hd, haction]
      obtain ⟨new, s', heq, hch', htouch, hnew, hget⟩ :=
        spawnAll_spec hr rest _ _ hch₁ hrun hexit (by simpa using hrest)
      refine ⟨.spawned task a :: new, s', ?_, by simpa [Child.stage] using hch', ?_, by simp [hnew],
        ?_⟩
      · rw [List.length_append, List.length_singleton] at heq
        simp only [spawnAll]
        rw [← hs₁, heq]
      · exact (Touches.of_sameRuns hsame _).trans ((Touches.mark d.run s₁ _).trans htouch)
      · intro i c hc
        cases i with
        | zero => cases hc; exact ⟨task, rfl⟩
        | succ i => exact hget i c hc

/-! ## Collecting ends -/

/-- One more end is collected. -/
lemma Dispatch.Accounts.collectOne {c : Child} {done rest : List Child} {v : Option Failure}
    (h : d.Accounts s env runner slots cs (done ++ c :: rest)) (length : done.length = d.collected)
    (isOver : ∀ c' ∈ done ++ [c], c'.isLive = false)
    (failure : (d.failure <|> v) = (done ++ [c]).findSome? Child.failure?) {s' : Store}
    (kept : s'.chronicle? d.run = s.chronicle? d.run) :
    Dispatch.Accounts s' env runner slots cs
      { d with collected := d.collected + 1, failure := d.failure <|> v }
      (done ++ [c] ++ rest) := by
  rw [List.append_assoc]
  exact { h with
    chronicle := kept.trans h.chronicle
    collected := ⟨done ++ [c], rest, by simp, by simp [length], isOver, failure⟩ }

/-- Ends are collected up to the first child that has not ended. -/
lemma Dispatch.collect_accounts :
    ∀ (rest : List Child) (d : Dispatch) (done : List Child) (s : Store),
      d.Accounts s env runner slots cs (done ++ rest) → done.length = d.collected →
      (∀ c ∈ done, c.isLive = false) → d.failure = done.findSome? Child.failure? →
      ∃ d' s' complete, d.collect rest s = (d', s', complete) ∧
        d'.Accounts s' env runner slots cs (done ++ rest) ∧ Touches d.run s s' ∧
        d'.run = d.run ∧ d'.env = d.env ∧ d'.queue = d.queue ∧
        (complete = true → (∀ c ∈ done ++ rest, c.isLive = false) ∧
          d'.failure = (done ++ rest).findSome? Child.failure?)
  | [], d, done, s, h, _, hover, hfail =>
      ⟨d, s, true, rfl, h, .refl _ _, rfl, rfl, rfl, fun _ => by simpa using ⟨hover, hfail⟩⟩
  | c :: rest, d, done, s, h, hlen, hover, hfail => by
      cases hv : c.verdict? with
      | none => exact ⟨d, s, false, by simp [collect, hv], h, .refl _ _, rfl, rfl, rfl, by simp⟩
      | some v =>
          obtain ⟨hlive, hv'⟩ := Child.isLive_of_verdict? hv
          have hover' : ∀ c' ∈ done ++ [c], c'.isLive = false := by
            intro c' hc'
            rcases List.mem_append.mp hc' with hc' | hc'
            · exact hover c' hc'
            · rw [List.mem_singleton] at hc'; rwa [hc']
          have hfail' : (d.failure <|> v) = (done ++ [c]).findSome? Child.failure? := by
            rw [List.findSome?_append, ← hfail]
            cases d.failure <;> cases v <;> simp [hv']
          cases v with
          | none =>
              obtain ⟨d', s', complete, heq, hacc', htouch, hrun, henv, hqueue, hcomplete⟩ :=
                collect_accounts rest _ (done ++ [c]) s (h.collectOne hlen hover' hfail' rfl)
                  (by simp [hlen]) hover' hfail'
              refine ⟨d', s', complete, ?_, by simpa using hacc', htouch, hrun, henv,
                hqueue, by simpa using hcomplete⟩
              simp only [collect, hv]
              simpa using heq
          | some f =>
              have hs₁ : (s.report d.run (.childFailed d.runner c.name f.message)).chronicle? d.run
                  = s.chronicle? d.run := by
                rw [report_eq_mark, chronicle?_mark h.chronicle, h.chronicle]; rfl
              obtain ⟨d', s', complete, heq, hacc', htouch, hrun, henv, hqueue, hcomplete⟩ :=
                collect_accounts rest _ (done ++ [c]) _ (h.collectOne hlen hover' hfail' hs₁)
                  (by simp [hlen]) hover' hfail'
              refine ⟨d', s', complete, ?_, by simpa using hacc',
                (Touches.mark d.run s _).trans htouch, hrun, henv, hqueue, by simpa using hcomplete⟩
              simp only [collect, hv]
              exact heq

end

/-! ## The whole turn -/

section

variable {s s' : Store} {env : Env} {a runner : Action} {slots : Option Nat} {cs : List Action}
  {d d' : Dispatch} {children new : List Child}

/-- When all children have ended, their ends command an exit. -/
lemma Dispatch.Accounts.outcome?_eq (h : d.Accounts s env runner slots cs children)
    (hd : runner.dispatch? = some (slots, cs)) (full : d.queue = [])
    (isOver : ∀ c ∈ children, c.isLive = false) (scope : Option Context) :
    Chronicle.outcome? { runner, scope, stages := children.map Child.stage }
      = some (.ofResult (children.findSome? Child.failure?)) := by
  have hlen : children.length = cs.length := by
    have hq := h.queue
    rw [full] at hq
    have := List.drop_eq_nil_iff.mp hq.symm
    have := h.length_le
    omega
  have hfirst := firstFailure?_eq hlen h.fits isOver
  match runner, hd with
  | .async cs', hd =>
      simp only [Action.dispatch?, Option.some.injEq, Prod.mk.injEq] at hd
      obtain ⟨-, rfl⟩ := hd
      simp only [Chronicle.outcome?, hfirst, Option.map_some]
  | .throttled limit cs', hd =>
      simp only [Action.dispatch?, Option.some.injEq, Prod.mk.injEq] at hd
      obtain ⟨hlimit, rfl⟩ := hd
      have := h.slots_le _ hlimit.symm
      simp only [Chronicle.outcome?, hfirst, Option.map_some, if_neg (Nat.not_lt.mpr this)]

/-- The dispatcher waits at the rest of the run.  The runs below are not touched, and no new child
is running yet. -/
lemma Dispatch.Accounts.paused_ran (h : d'.Accounts s' env a.bare slots cs (children ++ new))
    (bare : a.bare.dispatch? = some (slots, cs)) (touch : Touches d.run s s')
    (run : d'.run = d.run) (context : d'.env = d.env)
    (fresh : ∀ c ∈ new, ∃ task a, c = .spawned task a)
    (below : ∀ (i : Nat) task name p c, children[i]? = some (.running task name p) →
      cs[i]? = some c → p.RestOf s d.env c) (t : s.Tidy)
    (nodup : (d.run :: runsAmong children).Nodup)
    (bound : ∀ r ∈ d.run :: runsAmong children, r < s.runs) :
    Ran (some d.run) (d.run :: runsAmong children) s env a
      (s', .paused (.concurrent d' (children ++ new))) := by
  refine ⟨?_, ?_, congrArg some run⟩
  · rw [Proc.runs, run, runsAmong_append, runsAmong_spawned fresh, List.append_nil]
    exact .of_touches touch t List.mem_cons_self nodup bound
  · refine .concurrent bare h fun i task name p c hchild hc => ?_
    rw [List.getElem?_append] at hchild
    split_ifs at hchild with hi
    · rw [context]
      refine (below i task name p c hchild hc).congr fun r hr => touch.notes r ?_
      rintro rfl
      exact (List.nodup_cons.mp nodup).1
        (mem_runsAmong.mpr ⟨_, List.mem_of_getElem? hchild, hr⟩)
    · obtain ⟨task', a', h'⟩ := fresh _ (List.mem_of_getElem? hchild)
      cases h'

/-- All children have ended, and the run ends. -/
lemma Dispatch.Accounts.ended_ran (h : d.Accounts s' env a.bare slots cs children)
    (bare : a.bare.dispatch? = some (slots, cs)) (touch : Touches d.run s s')
    (full : d.queue = []) (isOver : ∀ c ∈ children, c.isLive = false)
    (failure : d.failure = children.findSome? Child.failure?) (t : s.Tidy)
    (bound : d.run < s.runs) :
    Ran (some d.run) [d.run] s env a (finishRun d.run (.ofResult d.failure) s') := by
  have houtcome := h.outcome?_eq bare full isOver
  rw [← failure] at houtcome
  exact .finishRun touch t bound h.chronicle rfl rfl (houtcome _)

/-- What a concurrent run does when all its children are admitted: it collects their ends. -/
def Dispatch.wrapUp (d : Dispatch) (children : List Child) (s : Store) : Store × Progress :=
  let (d, s, complete) := d.collect (children.drop d.collected) s
  if complete then finishRun d.run (.ofResult d.failure) s
  else (s, .paused (.concurrent d children))

lemma Dispatch.advance_of_admitted (admitted : d.queue = []) :
    d.advance children s = d.wrapUp children s := by
  obtain ⟨run, env, gate, queue, collected, failure⟩ := d
  dsimp only at admitted
  subst admitted
  have hrefused : Dispatch.refused? ⟨run, env, gate, [], collected, failure⟩ s = none := by
    unfold Dispatch.refused?
    split <;> simp_all
  rw [Dispatch.advance, hrefused]
  rfl

/-- When nobody is refused children are admitted, and if there are none left the ends are
collected. -/
lemma Dispatch.advance_eq (accepted : d.refused? s = none) :
    d.advance children s =
      if (d.admitAll d.queue children s).1.queue.isEmpty then
        (d.admitAll d.queue children s).1.wrapUp (d.admitAll d.queue children s).2.1
          (d.admitAll d.queue children s).2.2
      else ((d.admitAll d.queue children s).2.2, .paused (.concurrent
        (d.admitAll d.queue children s).1 (d.admitAll d.queue children s).2.1)) := by
  rw [advance, accepted]
  rfl

/-- **The dispatcher's turn.**  It stops at the rest of the run, or it ends the run when all
children have ended, with the exit that their ends command. -/
theorem Dispatch.advance_ran (t : s.Tidy) (bare : a.bare.dispatch? = some (slots, cs))
    (node : d.Accounts s env a.bare slots cs children)
    (below : ∀ (i : Nat) task name p c, children[i]? = some (.running task name p) →
      cs[i]? = some c → p.RestOf s d.env c)
    (nodup : (d.run :: runsAmong children).Nodup)
    (bound : ∀ r ∈ d.run :: runsAmong children, r < s.runs) :
    Ran (some d.run) (d.run :: runsAmong children) s env a (d.advance children s) := by
  unfold advance
  rw [d.refused?_eq_none t.isOpen]
  obtain ⟨d₁, new, s₁, heq₁, hacc₁, htouch₁, hrun₁, henv₁, hnew⟩ :=
    admitAll_accounts bare d.queue d children s node
  simp only [heq₁]
  by_cases hqueue : d₁.queue.isEmpty = true
  · rw [if_pos hqueue]
    obtain ⟨done, rest, hsplit, hdone, hover, hfail⟩ := hacc₁.collected
    have hrest : (children ++ new).drop d₁.collected = rest := by
      rw [hsplit, ← hdone, List.drop_left]
    rw [hsplit] at hacc₁
    obtain ⟨d₂, s₂, complete, heq₂, hacc₂, htouch₂, hrun₂, henv₂, hqueue₂, hcomplete⟩ :=
      collect_accounts rest d₁ done s₁ hacc₁ hdone hover hfail
    rw [hrun₁] at hrun₂ htouch₂
    have htouch := htouch₁.trans htouch₂
    rw [← hsplit] at hacc₂ hcomplete
    rw [hrest, heq₂]
    dsimp only
    by_cases hc : complete = true
    · rw [if_pos hc]
      obtain ⟨hall, hfailure⟩ := hcomplete hc
      have hnil : runsAmong children = [] := by
        have := runsAmong_eq_nil hall
        rwa [runsAmong_append, runsAmong_spawned hnew, List.append_nil] at this
      rw [hnil, ← hrun₂]
      rw [← hrun₂] at htouch bound
      exact hacc₂.ended_ran bare htouch (hqueue₂.trans (List.isEmpty_iff.mp hqueue)) hall hfailure t
        (bound _ List.mem_cons_self)
    · rw [if_neg hc]
      exact hacc₂.paused_ran bare htouch hrun₂ (henv₂.trans henv₁) hnew below t nodup bound
  · rw [if_neg hqueue]
    exact hacc₁.paused_ran bare htouch₁ hrun₁ henv₁ hnew below t nodup bound

end

end Workflow
