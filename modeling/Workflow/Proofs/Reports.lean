import Workflow.Proofs.Orphans
import Workflow.Proofs.Phrases

/-!
# Running code tells what it does

Whatever code does, the events of each run go together with its other marks (`Store.Narrates`).  A
concurrent run that has not ended has reported the failures among the ends that it has collected
(`Dispatch.HasReported`), and so have the runs below it: `Proc.Narrated`.

**The results.**  `Action.start_spoken` and `Proc.resume_spoken` are about a task's own code,
**`Proc.resumeAt_narrates`** about a task anywhere below a process, and `Proc.drop_narrates` about a
process that is given up.
-/

namespace Workflow

open Store

/-! ## Stores -/

/-- In the runs with numbers from `base` on the events go together with the other marks. -/
def Store.Narrates (base : Nat) (s : Store) : Prop :=
  ∀ r, base ≤ r → Narrative (s.marks r)

section

variable {base : Nat} {s s' : Store} {r : Nat}

namespace Store.Narrates

lemma congr (h : s.Narrates base) (notes : ∀ r, s'.notes r = s.notes r) : s'.Narrates base := by
  intro r hb
  rw [marks_congr (notes r)]
  exact h r hb

/-- Only one run has got new marks. -/
lemma touch (h : s.Narrates base) (touch : Touches r s s')
    (narrative : Narrative (s.marks r) → Narrative (s'.marks r)) : s'.Narrates base := by
  intro r' hb
  by_cases hr : r' = r
  · subst hr
    exact narrative (h r' hb)
  · rw [marks_congr (touch.notes r' hr)]
    exact h r' hb

lemma mark (h : s.Narrates base) {m : Mark}
    (narrative : Narrative (s.marks r) → Narrative (s.marks r ++ [m])) :
    (s.mark r m).Narrates base :=
  h.touch (.mark r s m) fun hr => by
    rw [marks_mark]
    exact narrative hr

/-- A mark that may stand alone is noted. -/
lemma plain (h : s.Narrates base) {m : Mark} (plain : m.isPlain = true)
    (silent : told "conflux.child.failed" [m] = []) (goesOn : ∀ e, m ≠ .finished e) :
    (s.mark r m).Narrates base :=
  h.mark fun hr => hr.plain plain silent goesOn

/-- A run begins, and says so. -/
lemma newRun (h : s.Narrates base) (t : s.Tidy) (a : Action) {event : Event}
    (plain : (Mark.event event).isPlain = true)
    (silent : told "conflux.child.failed" [.event event] = []) :
    ((s.newRun a).2.report s.runs event).Narrates base := by
  have hfresh : s.marks s.runs = [] := by rw [marks, t.fresh _ (le_refl _)]; rfl
  have hbegun : Narrates base { s with runs := s.runs + 1 } := h.congr fun _ => rfl
  refine Narrates.plain (hbegun.mark fun _ => ?_) plain silent (by simp)
  rw [show Store.marks { s with runs := s.runs + 1 } s.runs = [] from hfresh]
  exact Narrative.nil.plain rfl rfl (by simp)

end Store.Narrates

lemma runnerOf?_newRun (t : s.Tidy) (a : Action) (event : Event) :
    runnerOf? (((s.newRun a).2.report s.runs event).marks s.runs) = some a := by
  rw [report_eq_mark, marks_mark]
  refine runnerOf?_snoc ?_ _
  exact Chronicle.runnerOf?_eq (chronicle?_newRun t a)

lemma told_newRun (t : s.Tidy) (a : Action) {event : Event}
    (silent : told "conflux.child.failed" [.event event] = []) :
    told "conflux.child.failed" (((s.newRun a).2.report s.runs event).marks s.runs) = [] := by
  have hfresh : s.marks s.runs = [] := by rw [marks, t.fresh _ (le_refl _)]; rfl
  have hbegun : (s.newRun a).2.marks s.runs = [.begun a] := by
    rw [Store.newRun, marks_mark]
    exact congrArg (· ++ [Mark.begun a]) hfresh
  rw [report_eq_mark, marks_mark, hbegun, told_append, silent]
  rfl

/-! ## Linear runs -/

/-- The run is that of a linear runner. -/
def Store.IsLinear (s : Store) (run : Nat) : Prop :=
  ∃ cs, runnerOf? (s.marks run) = some (.linear cs)

lemma Store.IsLinear.congr (h : s.IsLinear r) (notes : s'.notes r = s.notes r) : s'.IsLinear r := by
  rw [IsLinear, marks_congr notes]
  exact h

lemma Store.IsLinear.mark (h : s.IsLinear r) (m : Mark) : (s.mark r m).IsLinear r := by
  obtain ⟨cs, hcs⟩ := h
  refine ⟨cs, ?_⟩
  rw [marks_mark]
  exact runnerOf?_snoc hcs m

/-- Whatever a linear run notes, it tells nothing of tasks. -/
lemma Store.Narrates.linear (h : s.Narrates base) (linear : s.IsLinear r) (m : Mark) :
    (s.mark r m).Narrates base := by
  obtain ⟨cs, hcs⟩ := linear
  exact h.mark fun _ => .of_linear (runnerOf?_snoc hcs m) rfl

end

/-! ## Processes -/

/-- The report of a child, if it has ended and failed. -/
def Child.report? (runner : String) (c : Child) : Option Event :=
  c.failure?.map fun f => .childFailed runner c.name f.message

/-- The failures among the ends that a concurrent run has collected are those it has reported. -/
def Dispatch.HasReported (d : Dispatch) (s : Store) (children : List Child) : Prop :=
  told "conflux.child.failed" (s.marks d.run) =
    (children.take d.collected).filterMap (Child.report? d.runner)

/-- All concurrent runs whose code a process is, or the code of a task below it, have reported what
they have collected. -/
inductive Proc.Narrated (s : Store) : Proc → Prop where
  | leaf {env : Env} {guards : List Guard} {body : Body} : Narrated s (.leaf env guards body)
  | within {env : Env} {guards : List Guard} {handle : Option Nat} {inner : Proc}
      {k : Option Failure → Body} (below : Narrated s inner) :
      Narrated s (.within env guards handle inner k)
  | linear {run index : Nat} {env : Env} {name : String} {current : Proc} {rest : List Action}
      (below : Narrated s current) : Narrated s (.linear run env index name current rest)
  | concurrent {d : Dispatch} {children : List Child} (reported : d.HasReported s children)
      (below : ∀ task name p, .running task name p ∈ children → Narrated s p) :
      Narrated s (.concurrent d children)

/-- A task that is running has reported. -/
def Child.Narrated (s : Store) (c : Child) : Prop :=
  ∀ task name p, c = .running task name p → p.Narrated s

/-- Code has gone on, and told what it has done. -/
def Spoken (base : Nat) : Store × Progress → Prop
  | (s, .paused p) => s.Narrates base ∧ p.Narrated s
  | (s, .ended _) => s.Narrates base

section

variable {base : Nat} {s s₀ s' : Store} {out : Store × Progress}

lemma Dispatch.HasReported.congr {d : Dispatch} {children : List Child}
    (h : d.HasReported s children) (notes : s'.notes d.run = s.notes d.run) :
    d.HasReported s' children := by
  rw [HasReported, marks_congr notes]
  exact h

/-- It is about the runs that the process holds. -/
lemma Proc.Narrated.congr {p : Proc} (h : p.Narrated s)
    (notes : ∀ r ∈ p.runs, s'.notes r = s.notes r) : p.Narrated s' := by
  induction h with
  | leaf => exact .leaf
  | within _ ih => exact .within (ih notes)
  | linear _ ih => exact .linear (ih fun r hr => notes r (List.mem_cons_of_mem _ hr))
  | concurrent reported _ ih =>
      refine .concurrent (reported.congr (notes _ List.mem_cons_self)) fun task name p hp => ?_
      refine ih task name p hp fun r hr => notes r (List.mem_cons_of_mem _ ?_)
      exact mem_runsAmong.mpr ⟨_, hp, hr⟩

lemma Child.Narrated.congr {c : Child} (h : c.Narrated s)
    (notes : ∀ r ∈ c.runs, s'.notes r = s.notes r) : c.Narrated s' := by
  rintro task name p rfl
  exact (h task name p rfl).congr notes

/-- Children below which nothing is running have nothing to report. -/
lemma Child.narrated_of_spawned {c : Child} (h : ∃ task a, c = .spawned task a) :
    c.Narrated s := by
  obtain ⟨task, a, rfl⟩ := h
  rintro _ _ _ ⟨⟩

lemma Ran.tidy {top : Option Nat} {own : List Nat} {env : Env} {a : Action}
    (ran : Ran top own s env a out) : out.1.Tidy := by
  match out, ran with
  | (_, .paused _), ran => exact ran.1.tidy
  | (_, .ended _), ran => exact ran.1.tidy

/-- A run that the code does not hold keeps its notes, and there are no fewer runs. -/
lemma Ran.notes {top : Option Nat} {own : List Nat} {env : Env} {a : Action}
    (ran : Ran top own s env a out) {r : Nat} (bound : r < s.runs) (apart : r ∉ own) :
    out.1.notes r = s.notes r ∧ r < out.1.runs := by
  match out, ran with
  | (_, .paused _), ran => exact ⟨ran.1.others r bound apart, bound.trans_le ran.1.runs_le⟩
  | (_, .ended _), ran => exact ⟨ran.1.others r bound apart, bound.trans_le ran.1.runs_le⟩

/-! ## Going on after a part -/

/-- A body goes on after an action that it ran. -/
lemma Body.after_spoken {env : Env} {guards : List Guard} {handle : Option Nat}
    {next : Option Failure → Body} (spoken : Spoken base out) (tidy : out.1.Tidy)
    (after : ∀ f s, s.Tidy → s.Narrates base → Spoken base ((next f).resume env guards s)) :
    Spoken base (Body.after env guards handle next out) := by
  match out, spoken with
  | (s, .paused p), ⟨hs, hp⟩ => exact ⟨hs, .within hp⟩
  | (s, .ended e), hs =>
      have hleave := s.sameRuns_leave handle
      have hnext := fun f => after f _ (hleave.tidy tidy) (hs.congr hleave.notes)
      cases e with
      | done => exact hnext none
      | failed f => exact hnext (some f)
      | panicked payload =>
          exact hs.congr (hleave.trans ((s.leave handle).sameRuns_endGuards guards)).notes

/-- A linear run stops at a child that did not succeed. -/
lemma stopLinear_spoken {run : Nat} (h : s.Narrates base) (linear : s.IsLinear run) (index : Nat)
    (name : String) (e : Exit) : Spoken base (stopLinear run index name e s) := by
  have hmark := h.linear linear (.ended index e)
  have hlinear := linear.mark (.ended index e)
  have hreport := fun event => hmark.linear hlinear (.event event)
  unfold stopLinear
  match e with
  | .done | .panicked _ => exact hmark.linear hlinear _
  | .failed f =>
      cases f <;> exact Narrates.linear (hreport _) (hlinear.mark _) _

/-- A linear run goes on after one of its children. -/
lemma afterChild_spoken {run : Nat} {env : Env} {index : Nat} {name : String} {rest : List Action}
    (spoken : Spoken base out) (tidy : out.1.Tidy) (bound : run < out.1.runs)
    (linear : out.1.IsLinear run)
    (after : ∀ s, s.Tidy → run < s.runs → s.IsLinear run → s.Narrates base →
      Spoken base (startRest run env (index + 1) s rest)) :
    Spoken base (afterChild run env index name rest out) := by
  match out, spoken with
  | (s, .paused p), ⟨hs, hp⟩ => exact ⟨hs, .linear hp⟩
  | (s, .ended e), hs =>
      have hstop := stopLinear_spoken hs linear index name e
      cases e with
      | done =>
          exact after _ ((Touches.mark run s _).tidy tidy bound) bound (linear.mark _)
            (hs.linear linear _)
      | failed f => exact hstop
      | panicked payload => exact hstop

/-! ## The dispatcher's turn -/

variable {d : Dispatch} {children : List Child} {env : Env} {runner : Action}
  {slots : Option Nat} {cs : List Action}

/-- Children are admitted, each told of right before it is given its task. -/
lemma Dispatch.admitAll_narrates : ∀ (queue : List Action) (d : Dispatch) (children : List Child)
    (s : Store), s.Narrates base →
      (d.admitAll queue children s).2.2.Narrates base ∧
      told "conflux.child.failed" ((d.admitAll queue children s).2.2.marks d.run) =
        told "conflux.child.failed" (s.marks d.run) ∧
      (d.admitAll queue children s).1.collected = d.collected ∧
      (d.admitAll queue children s).1.runner = d.runner
  | [], d, children, s, h => ⟨h, rfl, rfl, rfl⟩
  | a :: rest, d, children, s, h => by
      unfold admitAll
      split
      · next free hgate =>
          set s₁ := s.report d.run (.throttledAdmit children.length a.name) with hs₁
          set s₂ := (s₁.newTask d.env.context).2 with hs₂
          have hsame : s₁.SameRuns s₂ := s₁.sameRuns_newTask _
          have hmarks : (s₂.mark d.run (.spawned children.length a)).marks d.run =
              s.marks d.run ++ [.event (.throttledAdmit children.length a.name)] ++
                [.spawned children.length a] := by
            rw [marks_mark, hsame.marks, hs₁, report_eq_mark, marks_mark]
          have htouch : Touches d.run s (s₂.mark d.run (.spawned children.length a)) :=
            (Touches.mark d.run s _).trans ((Touches.of_sameRuns hsame _).trans (.mark d.run s₂ _))
          have hnext : (s₂.mark d.run (.spawned children.length a)).Narrates base :=
            h.touch htouch fun hr => by
              rw [hmarks]
              exact hr.admitted children.length a
          obtain ⟨hs, htold, hcollected, hrunner⟩ := admitAll_narrates rest
            { d with gate := some free } (children ++ [.spawned (s₁.newTask d.env.context).1 a]) _
            hnext
          refine ⟨hs, htold.trans ?_, hcollected, hrunner.trans (by simp [runner, hgate])⟩
          rw [hmarks]
          simp [told_append, Event.name]
      · exact ⟨h, rfl, rfl, rfl⟩

/-- The ends that are collected are reported, up to the first child that has not ended. -/
lemma Dispatch.collect_narrates {ch : Chronicle} (going : ch.exit = none) :
    ∀ (rest : List Child) (d : Dispatch) (s : Store), children.drop d.collected = rest →
      s.Narrates base → s.chronicle? d.run = some ch → d.HasReported s children →
      (d.collect rest s).2.1.Narrates base ∧ Touches d.run s (d.collect rest s).2.1 ∧
      (d.collect rest s).2.1.chronicle? d.run = some ch ∧
      (d.collect rest s).1.HasReported (d.collect rest s).2.1 children ∧
      (d.collect rest s).1.run = d.run ∧ (d.collect rest s).1.runner = d.runner ∧
      ((d.collect rest s).2.2 = true → children.length ≤ (d.collect rest s).1.collected)
  | [], d, s, hrest, h, hch, hrep =>
      ⟨h, .refl _ _, hch, hrep, rfl, rfl, fun _ => List.drop_eq_nil_iff.mp hrest⟩
  | c :: rest, d, s, hrest, h, hch, hrep => by
      have hplace : children[d.collected]? = some c := by
        rw [← List.head?_drop, hrest]
        rfl
      have hrest' : children.drop (d.collected + 1) = rest := by
        rw [← List.drop_drop, hrest]
        rfl
      unfold collect
      cases hv : c.verdict? with
      | none => exact ⟨h, .refl _ _, hch, hrep, rfl, rfl, by simp⟩
      | some v =>
          have hreport : c.report? d.runner = v.map fun f => .childFailed d.runner c.name f.message :=
            by rw [Child.report?, (Child.isLive_of_verdict? hv).2]
          cases v with
          | none =>
              have hrep' : Dispatch.HasReported { d with collected := d.collected + 1 } s children := by
                have hsame : Dispatch.runner { d with collected := d.collected + 1 } = d.runner := rfl
                rw [HasReported, hsame, List.take_add_one, hplace, List.filterMap_append, hrep]
                simp [hreport]
              exact collect_narrates going rest { d with collected := d.collected + 1 } s hrest' h
                hch hrep'
          | some f =>
              set s₁ := s.report d.run (.childFailed d.runner c.name f.message) with hs₁
              set d₁ : Dispatch :=
                { d with collected := d.collected + 1, failure := d.failure <|> some f } with hd₁
              have hch₁ : s₁.chronicle? d.run = some ch := by
                rw [hs₁, report_eq_mark, chronicle?_mark hch]
                rfl
              have hrep' : d₁.HasReported s₁ children := by
                have hsame : d₁.runner = d.runner := rfl
                rw [HasReported, hsame, hd₁, List.take_add_one, hplace, List.filterMap_append, hs₁,
                  report_eq_mark, marks_mark, told_append, hrep]
                simp [hreport, Event.name]
              have hnext : s₁.Narrates base := h.mark fun hr => hr.failed hch going _ _ _
              obtain ⟨hs, htouch, hrest⟩ := collect_narrates going rest d₁ s₁ hrest' hnext hch₁ hrep'
              exact ⟨hs, (Touches.mark d.run s _).trans htouch, hrest⟩

/-- The reports of children are what their stages show. -/
lemma filterMap_report? (runner : String) (length : children.length ≤ cs.length)
    (fits : ∀ (i : Nat) child c, children[i]? = some child → cs[i]? = some c → child.Fits c) :
    children.filterMap (Child.report? runner) = reports runner cs (children.map Child.stage) := by
  induction children generalizing cs with
  | nil => simp [reports]
  | cons child children ih =>
      obtain _ | ⟨c, cs⟩ := cs
      · simp at length
      have htail := ih (by simpa using length) fun i => fits (i + 1)
      have hfit : child.Fits c := fits 0 child c rfl rfl
      have hhead : child.report? runner = child.stage.report? runner c.name := by
        cases child with
        | spawned | running => rfl
        | lost => exact absurd hfit id
        | ended name e =>
            obtain rfl : name = c.name := hfit
            rw [Child.report?, Child.failure?_ended]
            rfl
      rw [List.filterMap_cons, htail, hhead]
      rfl

lemma Dispatch.Accounts.runner_eq (h : d.Accounts s env runner slots cs children) :
    d.runner = runnerName slots := by
  rw [Dispatch.runner, runnerName, ← h.free, Option.isSome_map]

lemma Dispatch.Accounts.collected_le (h : d.Accounts s env runner slots cs children) :
    d.collected ≤ children.length := by
  obtain ⟨done, rest, rfl, hdone, -⟩ := h.collected
  rw [List.length_append]
  omega

/-- **The dispatcher's turn.**  When it ends the run, all failures have been reported. -/
lemma Dispatch.advance_spoken (t : s.Tidy) (h : s.Narrates base)
    (hd : runner.dispatch? = some (slots, cs)) (node : d.Accounts s env runner slots cs children)
    (reported : d.HasReported s children) (below : ∀ c ∈ children, c.Narrated s)
    (apart : d.run ∉ runsAmong children) : Spoken base (d.advance children s) := by
  unfold advance
  rw [d.refused?_eq_none t.isOpen]
  obtain ⟨d₁, new, s₁, heq₁, hacc₁, htouch₁, hrun₁, -, hnew⟩ :=
    admitAll_accounts hd d.queue d children s node
  obtain ⟨hs₁, htold₁, hcollected₁, hrunner₁⟩ := admitAll_narrates d.queue d children s h
  rw [heq₁] at hs₁ htold₁ hcollected₁ hrunner₁
  simp only [heq₁]
  have hrep₁ : d₁.HasReported s₁ (children ++ new) := by
    rw [HasReported, hrun₁, hcollected₁, hrunner₁, List.take_append_of_le_length node.collected_le]
    exact htold₁.trans reported
  -- The runs below are not touched, and the new children have none.
  have hbelow : ∀ {s'}, Touches d.run s s' → ∀ task name p,
      .running task name p ∈ children ++ new → p.Narrated s' := by
    intro s' htouch task name p hp
    rcases List.mem_append.mp hp with hp | hp
    · refine (below _ hp task name p rfl).congr fun r hr => htouch.notes r ?_
      rintro rfl
      exact apart (mem_runsAmong.mpr ⟨_, hp, hr⟩)
    · obtain ⟨_, _, heq⟩ := hnew _ hp
      cases heq
  split_ifs
  · obtain ⟨hs₂, htouch₂, hch₂, hrep₂, hrun₂, hrunner₂, hcomplete⟩ := collect_narrates rfl
      ((children ++ new).drop d₁.collected) d₁ s₁ rfl hs₁ hacc₁.chronicle hrep₁
    have hall := hcomplete ‹_›
    refine hs₂.mark fun hr => hr.finished fun ch slots' cs' f hch hd' _ => ?_
    rw [hrun₂] at hch
    cases Option.some.inj (hch₂.symm.trans hch)
    cases Option.some.inj (hd.symm.trans hd')
    rw [hrep₂, List.take_of_length_le hall, hrunner₂, hacc₁.runner_eq,
      filterMap_report? _ hacc₁.length_le hacc₁.fits]
  · obtain ⟨hs₂, htouch₂, -, hrep₂, -⟩ := collect_narrates rfl
      ((children ++ new).drop d₁.collected) d₁ s₁ rfl hs₁ hacc₁.chronicle hrep₁
    rw [hrun₁] at htouch₂
    exact ⟨hs₂, .concurrent hrep₂ (hbelow (htouch₁.trans htouch₂))⟩
  · exact ⟨hs₁, .concurrent hrep₁ (hbelow htouch₁)⟩

/-- A child has ended, and if it asks to skip the remainder that is told at once. -/
lemma Dispatch.childEnded_narrates (h : s.Narrates base)
    (hrunner : runnerOf? (s.marks d.run) = some runner)
    (hd : runner.dispatch? = some (slots, cs)) (gate : d.gate.isSome = slots.isSome) {i : Nat}
    {c : Action} (child : cs[i]? = some c) (e : Exit) :
    (d.childEnded i c.name e s).2.Narrates base ∧
      told "conflux.child.failed" ((d.childEnded i c.name e s).2.marks d.run) =
        told "conflux.child.failed" (s.marks d.run) := by
  unfold childEnded
  match hgate : d.gate, runner, hd with
  | none, .async cs', _ =>
      exact ⟨h.mark fun hr => hr.async hrunner (by simp) (by simp), by simp [told_append]⟩
  | none, .throttled limit cs', rfl | some free, .async cs', rfl => simp [hgate] at gate
  | some free, .throttled limit cs', rfl =>
      dsimp only
      split
      · set s₁ := s.mark d.run (.ended i (.failed .skipRemainder)) with hs₁
        set s₂ := s₁.report d.run (.throttledSkip i c.name) with hs₂
        have hsame := s₂.sameRuns_cancel d.env.context
        have hmarks : (s₂.cancel d.env.context).marks d.run = s.marks d.run ++
            [.ended i (.failed .skipRemainder)] ++ [.event (.throttledSkip i c.name)] := by
          rw [hsame.marks, hs₂, report_eq_mark, marks_mark, hs₁, marks_mark]
        have htouch : Touches d.run s (s₂.cancel d.env.context) :=
          (Touches.mark d.run s _).trans ((Touches.mark d.run s₁ _).trans (.of_sameRuns hsame _))
        refine ⟨h.touch htouch fun hr => ?_, ?_⟩ <;> rw [hmarks]
        · exact hr.skipped hrunner child
        · simp [told_append, Event.name]
      · next hne =>
          have hplain : (Mark.ended i e).isPlain = true := by
            unfold Mark.isPlain Mark.skipped?
            split <;> simp_all
          exact ⟨h.plain hplain (by simp) (by simp), by simp [told_append]⟩

end

/-! ## The beginnings of runs -/

section

variable {base : Nat} {s : Store} {run : Nat} {env : Env} {cs : List Action}

/-- All children are given tasks at once, of which nothing is told. -/
lemma Dispatch.spawnAll_narrates {d : Dispatch} : ∀ (rest : List Action) (first : Nat) (s : Store),
    s.Narrates base → runnerOf? (s.marks d.run) = some (.async cs) →
      (d.spawnAll first rest s).2.Narrates base ∧
      told "conflux.child.failed" ((d.spawnAll first rest s).2.marks d.run) =
        told "conflux.child.failed" (s.marks d.run)
  | [], _, s, h, _ => ⟨h, rfl⟩
  | a :: rest, first, s, h, hrunner => by
      set s₁ := (s.newTask d.env.context).2 with hs₁
      have hsame : s.SameRuns s₁ := s.sameRuns_newTask _
      have hrunner₁ : runnerOf? (s₁.marks d.run) = some (.async cs) := by
        rw [hsame.marks]
        exact hrunner
      have hmarks : (s₁.mark d.run (.spawned first a)).marks d.run =
          s.marks d.run ++ [.spawned first a] := by rw [marks_mark, hsame.marks]
      obtain ⟨hs, htold⟩ := spawnAll_narrates rest (first + 1) (s₁.mark d.run (.spawned first a))
        ((h.congr hsame.notes).mark fun hr => hr.async hrunner₁ (by simp) (by simp))
        (by rw [marks_mark]; exact runnerOf?_snoc hrunner₁ _)
      refine ⟨hs, htold.trans ?_⟩
      rw [hmarks]
      simp [told_append]

/-- A run that has just begun has collected nothing. -/
lemma Dispatch.advance_spoken_fresh {d : Dispatch} {runner : Action} {slots : Option Nat}
    {children : List Child} (t : s.Tidy) (h : s.Narrates base)
    (hd : runner.dispatch? = some (slots, cs)) (node : d.Accounts s env runner slots cs children)
    (collected : d.collected = 0) (silent : told "conflux.child.failed" (s.marks d.run) = [])
    (fresh : ∀ c ∈ children, ∃ task a, c = .spawned task a) :
    Spoken base (d.advance children s) := by
  refine d.advance_spoken t h hd node ?_ (fun c hc => Child.narrated_of_spawned (fresh c hc)) ?_
  · rw [HasReported, silent, collected]
    rfl
  · rw [runsAmong_spawned fresh]
    exact List.not_mem_nil

/-- A run without a limit begins. -/
lemma startAsync_spoken (t : s.Tidy) (bound : run < s.runs) (h : s.Narrates base)
    (chronicle : s.chronicle? run = some { runner := .async cs })
    (silent : told "conflux.child.failed" (s.marks run) = []) :
    Spoken base (startAsync run env cs s) := by
  rw [startAsync, if_neg (by rw [t.isOpen]; simp)]
  obtain ⟨hnode, htouch, hfresh⟩ := @startAsync_accounts s run env cs _ chronicle rfl
  obtain ⟨hs, htold⟩ := Dispatch.spawnAll_narrates (d := ⟨run, env, none, [], 0, none⟩) cs 0 s h
    (Chronicle.runnerOf?_eq chronicle)
  exact Dispatch.advance_spoken_fresh (htouch.tidy t bound) hs rfl hnode rfl (htold.trans silent)
    hfresh

/-- A throttled run begins, or breaks off because its gate cannot be made. -/
lemma startThrottled_spoken {limit : Limit} (t : s.Tidy) (bound : run < s.runs)
    (h : s.Narrates base) (chronicle : s.chronicle? run = some { runner := .throttled limit cs })
    (silent : told "conflux.child.failed" (s.marks run) = []) :
    Spoken base (startThrottled run env limit cs s) := by
  unfold startThrottled
  split_ifs with hslots
  · exact h.mark fun hr => hr.finished fun _ _ _ f _ _ he => by cases f <;> cases he
  · have hnode := @startThrottled_accounts s run env limit cs chronicle (Nat.not_lt.mp hslots)
    have hsame : s.SameRuns { s with contexts := (s.contexts.child env.context).2 } :=
      .of_trace rfl rfl rfl rfl
    have htouch := (Touches.of_sameRuns hsame run).trans
      (.mark run _ (.derived (s.contexts.child env.context).1))
    have hs := (h.congr hsame.notes).plain (r := run)
      (m := .derived (s.contexts.child env.context).1) rfl rfl (by simp)
    have htold : told "conflux.child.failed" ((Store.mark
        { s with contexts := (s.contexts.child env.context).2 } run
        (.derived (s.contexts.child env.context).1)).marks run) = [] := by
      rw [marks_mark, hsame.marks, told_append, silent]
      rfl
    exact Dispatch.advance_spoken_fresh (htouch.tidy t bound) hs rfl hnode rfl htold (by simp)

end

/-! ## From the beginning of an action -/

section

variable {base : Nat}

mutual

/-- **An action is started.** -/
theorem Action.start_spoken (env : Env) (s : Store) (t : s.Tidy) (h : s.Narrates base) :
    (a : Action) → Spoken base (a.start env s)
  | .leaf kind name body => by
      obtain ⟨own, s', -, hsame, -, heq⟩ := Action.start_leaf env s kind name body
      rw [heq]
      exact Body.resume_spoken own [] s' (hsame.tidy t) (h.congr hsame.notes) body
  | .linear children => by
      rw [Action.start]
      obtain ⟨hand, -⟩ := newRun_report t (.linear children) (.linearStart children.length)
      exact startRest_spoken env s.runs 0 _ hand.tidy (hand.bound _ List.mem_cons_self)
        ⟨children, runnerOf?_newRun t _ _⟩ (h.newRun t _ rfl rfl) children
  | .async children => by
      rw [Action.start_async]
      obtain ⟨hand, hch⟩ := newRun_report t (.async children) (.asyncDispatch children.length)
      exact startAsync_spoken hand.tidy (hand.bound _ List.mem_cons_self) (h.newRun t _ rfl rfl) hch
        (told_newRun t _ rfl)
  | .throttled limit children => by
      rw [Action.start_throttled]
      obtain ⟨hand, hch⟩ := newRun_report t (.throttled limit children)
        (.throttledDispatch limit.value children.length)
      exact startThrottled_spoken hand.tidy (hand.bound _ List.mem_cons_self) (h.newRun t _ rfl rfl)
        hch (told_newRun t _ rfl)
  | .named _ inner => by
      rw [Action.start]
      exact Action.start_spoken env s t h inner
  | .boxed inner => by
      rw [Action.start]
      exact Action.start_spoken env s t h inner

/-- A body goes on. -/
theorem Body.resume_spoken (env : Env) (guards : List Guard) (s : Store) (t : s.Tidy)
    (h : s.Narrates base) : (b : Body) → Spoken base (b.resume env guards s)
  | .finish e => by
      rw [Body.resume]
      exact h.congr (s.sameRuns_endGuards guards).notes
  | .ask e k => by
      rw [Body.resume]
      cases hperform : s.perform? env e with
      | none => exact ⟨h, .leaf⟩
      | some granted =>
          obtain ⟨reply, s'⟩ := granted
          have hsame := sameRuns_perform? hperform
          exact Body.resume_spoken env guards s' (hsame.tidy t) (h.congr hsame.notes) (k reply)
  | .giveWay k => by
      rw [Body.resume]
      exact ⟨h, .leaf⟩
  | .guard g k => by
      rw [Body.resume]
      have hsame := s.sameRuns_raiseGuard g
      exact Body.resume_spoken env (guards ++ [g]) _ (hsame.tidy t) (h.congr hsame.notes) k
  | .run inner under k => by
      rw [Body.resume_run]
      have hsame := s.sameRuns_enter env under
      have htidy := hsame.tidy t
      exact Body.after_spoken (Action.start_spoken _ _ htidy (h.congr hsame.notes) inner)
        (Action.start_ran _ _ htidy inner).tidy
        fun f s' t' h' => Body.resume_spoken env guards s' t' h' (k f)

/-- A linear run goes on with the next child. -/
theorem startRest_spoken (env : Env) (run index : Nat) (s : Store) (t : s.Tidy)
    (bound : run < s.runs) (linear : s.IsLinear run) (h : s.Narrates base) :
    (rest : List Action) → Spoken base (startRest run env index s rest)
  | [] => by
      rw [startRest]
      exact h.linear linear _
  | c :: rest => by
      rw [startRest_cons]
      have htidy := (Touches.mark run s (.started index c)).tidy t bound
      have hran := Action.start_ran env _ htidy c
      obtain ⟨hnotes, hbound⟩ := hran.notes bound List.not_mem_nil
      refine afterChild_spoken (Action.start_spoken env _ htidy (h.linear linear _) c) hran.tidy
        hbound ((linear.mark _).congr hnotes) fun s' t' bound' linear' h' => ?_
      exact startRest_spoken env run (index + 1) s' t' bound' linear' h' rest

end

/-- **A task's own code goes on.** -/
theorem Proc.resume_spoken {s : Store} {env : Env} {a : Action} {p : Proc} (rest : p.RestOf s env a)
    (narrated : p.Narrated s) (t : s.Tidy) (h : s.Narrates base) (nodup : p.runs.Nodup)
    (bound : ∀ r ∈ p.runs, r < s.runs) : Spoken base (p.resume s) := by
  induction rest with
  | leaf => exact Body.resume_spoken _ _ s t h _
  | within before bare leads surroundings rest ih =>
      obtain _ | ⟨hbelow⟩ := narrated
      rw [Proc.resume_within]
      exact Body.after_spoken (ih hbelow nodup bound) (Proc.resume_ran rest t nodup bound).tidy
        fun f s' t' h' => Body.resume_spoken _ _ s' t' h' _
  | @linear env a c before after run index name p bare place called chronicle rest ih =>
      obtain _ | _ | ⟨hbelow⟩ := narrated
      obtain ⟨hrun, hnodup⟩ := List.nodup_cons.mp nodup
      have hbound : ∀ r ∈ p.runs, r < s.runs := fun r hr => bound r (List.mem_cons_of_mem _ hr)
      have hran := Proc.resume_ran rest t hnodup hbound
      obtain ⟨hnotes, hlt⟩ := hran.notes (bound run List.mem_cons_self) hrun
      have hlinear : s.IsLinear run :=
        ⟨before ++ c :: after, (Chronicle.runnerOf?_eq chronicle).trans (congrArg some bare)⟩
      rw [Proc.resume_linear]
      exact afterChild_spoken (ih hbelow hnodup hbound) hran.tidy hlt (hlinear.congr hnotes)
        fun s' t' bound' linear' h' => startRest_spoken env run _ s' t' bound' linear' h' after
  | concurrent bare node below _ =>
      obtain _ | _ | _ | ⟨hreported, hbelow⟩ := narrated
      refine Dispatch.advance_spoken t h bare node hreported ?_ (List.nodup_cons.mp nodup).1
      rintro c hc task name p rfl
      exact hbelow task name p hc

end

/-! ## A task below a process -/

section

variable {base : Nat} {s : Store} {env : Env} {runner : Action} {slots : Option Nat}
  {cs : List Action} {d : Dispatch} {children : List Child} {child : Child} {i : Nat}

/-- A child of the run has gone on, and told what it has done.  That the run has reported is not
touched: it reports when it collects. -/
structure Child.Speaks (base : Nat) (s : Store) (d : Dispatch) (out : Store × Dispatch × Child) :
    Prop where
  narrates : out.1.Narrates base
  silent : told "conflux.child.failed" (out.1.marks d.run) =
    told "conflux.child.failed" (s.marks d.run)
  narrated : out.2.2.Narrated out.1

/-- The code of a child has stopped or ended, and the run above it takes notice of that. -/
lemma Child.after_speaks (task : Nat) {c : Action} {out : Store × Progress}
    (hd : runner.dispatch? = some (slots, cs)) (gate : d.gate.isSome = slots.isSome)
    (action : cs[i]? = some c) (spoken : Spoken base out)
    (hrunner : runnerOf? (out.1.marks d.run) = some runner)
    (silent : told "conflux.child.failed" (out.1.marks d.run) =
      told "conflux.child.failed" (s.marks d.run)) :
    Child.Speaks base s d (Child.after d i task c.name out) := by
  match out, spoken with
  | (s', .paused p), ⟨hs, hp⟩ =>
      refine ⟨hs, silent, ?_⟩
      rintro _ _ _ ⟨⟩
      exact hp
  | (s', .ended e), hs =>
      obtain ⟨hs', htold⟩ := d.childEnded_narrates hs hrunner hd gate action e
      have hend := (d.childEnded i c.name e s').2.sameRuns_endTask task
      refine ⟨hs'.congr hend.notes, ?_, ?_⟩
      · rw [Child.after, hend.marks]
        exact htold.trans silent
      · rintro _ _ _ ⟨⟩

/-- A child that has ended stays as it is. -/
lemma Child.resumeAt_of_isOver (ended : child.isLive = false) (path : List Nat) :
    child.resumeAt s d i path = (s, d, child) := by
  cases child with
  | spawned | running => cases ended
  | ended | lost => rw [Child.resumeAt] <;> simp

/-- A task goes on that is a child of the run or stands below one.  What is known about tasks
further down is taken from `below`. -/
lemma Child.resumeAt_speaks (path : List Nat) (t : s.Tidy) (h : s.Narrates base)
    (hd : runner.dispatch? = some (slots, cs)) (node : d.Accounts s env runner slots cs children)
    (place : children[i]? = some child)
    (rest : ∀ task name p c, child = .running task name p → cs[i]? = some c → p.RestOf s d.env c)
    (narrated : child.Narrated s) (nodup : (d.run :: child.runs).Nodup)
    (bound : ∀ r ∈ d.run :: child.runs, r < s.runs)
    (below : ∀ task name p index path, child = .running task name p →
      (p.resumeAt s index path).1.Narrates base ∧
        (p.resumeAt s index path).2.Narrated (p.resumeAt s index path).1 ∧
        (p.resumeAt s index path).1.notes d.run = s.notes d.run) :
    Child.Speaks base s d (child.resumeAt s d i path) := by
  obtain ⟨c, haction⟩ := node.getElem? place
  have hfits := node.fits i child c place haction
  have hgate : d.gate.isSome = slots.isSome := by rw [← node.free, Option.isSome_map]
  have hrunner := Chronicle.runnerOf?_eq node.chronicle
  have hrun : d.run < s.runs := bound d.run List.mem_cons_self
  match child, path with
  | .spawned task a, [] =>
      obtain rfl : a = c := hfits
      have hstart := Touches.mark d.run s (.started i a)
      have htidy := hstart.tidy t hrun
      obtain ⟨hnotes, -⟩ := (Action.start_ran d.env _ htidy a).notes hrun List.not_mem_nil
      rw [Child.resumeAt_spawned]
      refine Child.after_speaks task hd hgate haction
        (Action.start_spoken d.env _ htidy (h.plain rfl rfl (by simp)) a) ?_ ?_
      · rw [marks_congr hnotes, marks_mark]
        exact runnerOf?_snoc hrunner _
      · rw [marks_congr hnotes, marks_mark, told_append]
        exact List.append_nil _
  | .running task name p, [] =>
      obtain rfl : name = c.name := hfits
      obtain ⟨hfresh, hnodup⟩ := List.nodup_cons.mp nodup
      have hbound : ∀ r ∈ p.runs, r < s.runs := fun r hr => bound r (List.mem_cons_of_mem _ hr)
      have hrest := rest task _ p _ rfl haction
      obtain ⟨hnotes, -⟩ := (Proc.resume_ran hrest t hnodup hbound).notes hrun hfresh
      rw [Child.resumeAt_running]
      refine Child.after_speaks task hd hgate haction
        (Proc.resume_spoken hrest (narrated task _ p rfl) t h hnodup hbound) ?_ ?_
      · rw [marks_congr hnotes]
        exact hrunner
      · rw [marks_congr hnotes]
  | .running task name p, index :: path =>
      obtain ⟨hs, hp, hnotes⟩ := below task name p index path rfl
      rw [Child.resumeAt]
      refine ⟨hs, by rw [marks_congr hnotes], ?_⟩
      rintro _ _ _ ⟨⟩
      exact hp
  | .spawned _ _, _ :: _ | .ended _ _, _ | .lost _, _ =>
      rw [Child.resumeAt]
      · exact ⟨h, rfl, narrated⟩
      all_goals simp

/-- A run keeps its reports when a child that has not ended is replaced. -/
lemma Dispatch.HasReported.set {s' : Store} {gate : Option Nat} (h : d.HasReported s children)
    (runner : Dispatch.runner { d with gate } = d.runner)
    (silent : told "conflux.child.failed" (s'.marks d.run) =
      told "conflux.child.failed" (s.marks d.run)) (behind : d.collected ≤ i) (child' : Child) :
    Dispatch.HasReported { d with gate } s' (children.set i child') := by
  rw [HasReported, runner, silent, List.take_set_of_le behind]
  exact h

/-- When one child has gone on, the run above it and the other children have still reported.  Only a
child that has not ended can go on, and such a child was not collected. -/
lemma Child.Speaks.whole {out : Store × Dispatch × Child} (h : Child.Speaks base s d out)
    (proceeds : Child.Proceeds s env runner slots cs d children i child out)
    (node : d.Accounts s env runner slots cs children) (place : children[i]? = some child)
    (reported : d.HasReported s children)
    (below : ∀ task name p, .running task name p ∈ children → p.Narrated s)
    (nodup : (d.run :: runsAmong children).Nodup)
    (bound : ∀ r ∈ d.run :: runsAmong children, r < s.runs)
    (stays : child.isLive = false → out = (s, d, child)) :
    (Proc.concurrent out.2.1 (children.set i out.2.2)).Narrated out.1 := by
  refine .concurrent ?_ ?_
  · cases hlive : child.isLive with
    | false =>
        rw [stays hlive, set_of_getElem? place]
        exact reported
    | true =>
        obtain ⟨gate, heq, -, hacc, -⟩ := proceeds
        rw [heq]
        exact reported.set (hacc.runner_eq.trans node.runner_eq.symm) h.silent
          (node.collected_le_of_isLive place hlive) _
  · intro task name p hp
    obtain ⟨j, hj⟩ := List.mem_iff_getElem?.mp hp
    rw [List.getElem?_set] at hj
    split_ifs at hj with hij
    · exact h.narrated task name p (Option.some.inj hj)
    · exact (below task name p (List.mem_of_getElem? hj)).congr fun r hr =>
        proceeds.apart place nodup bound hij hj hr

/-- **A task goes on.**  The process above it has reported what it has collected. -/
theorem Proc.resumeAt_narrates {a : Action} {p : Proc} (rest : p.RestOf s env a)
    (narrated : p.Narrated s) (t : s.Tidy) (h : s.Narrates base) (nodup : p.runs.Nodup)
    (bound : ∀ r ∈ p.runs, r < s.runs) (index : Nat) (path : List Nat) :
    (p.resumeAt s index path).1.Narrates base ∧
      (p.resumeAt s index path).2.Narrated (p.resumeAt s index path).1 := by
  induction rest generalizing index path with
  | leaf =>
      rw [Proc.resumeAt]
      exact ⟨h, .leaf⟩
  | within before bare leads surroundings rest ih =>
      obtain _ | ⟨hbelow⟩ := narrated
      rw [Proc.resumeAt]
      obtain ⟨hs, hp⟩ := ih hbelow nodup bound index path
      exact ⟨hs, .within hp⟩
  | linear bare place called chronicle rest ih =>
      obtain _ | _ | ⟨hbelow⟩ := narrated
      rw [Proc.resumeAt]
      obtain ⟨hs, hp⟩ := ih hbelow (List.nodup_cons.mp nodup).2
        (fun r hr => bound r (List.mem_cons_of_mem _ hr)) index path
      exact ⟨hs, .linear hp⟩
  | @concurrent env a slots cs d children bare node below ih =>
      obtain _ | _ | _ | ⟨hreported, hbelow⟩ := narrated
      rw [Proc.resumeAt, resumeAmong_eq]
      cases hplace : children[index]? with
      | none => exact ⟨h, .concurrent hreported hbelow⟩
      | some child =>
          obtain ⟨hnodup, hbound⟩ := runs_of_child hplace nodup bound
          obtain ⟨c, haction⟩ := node.getElem? hplace
          have hmem := List.mem_of_getElem? hplace
          have hrest : ∀ task name p c, child = .running task name p → cs[index]? = some c →
              p.RestOf s d.env c := by
            rintro task name p c rfl hc
            exact below index task name p c hplace hc
          have hnarrated : child.Narrated s := by
            rintro task name p rfl
            exact hbelow task name p hmem
          have hproceeds := Child.resumeAt_proceeds path t bare node hplace hrest hnodup hbound
          have hspeaks := Child.resumeAt_speaks path t h bare node hplace hrest hnarrated hnodup
            hbound fun task name p index' path' hc => by
              subst hc
              obtain ⟨hfresh, hnodup'⟩ := List.nodup_cons.mp hnodup
              have hbound' : ∀ r ∈ p.runs, r < s.runs :=
                fun r hr => hbound r (List.mem_cons_of_mem _ hr)
              obtain ⟨hs, hp⟩ := ih index task name p c hplace haction
                (hbelow task name p hmem) hnodup' hbound' index' path'
              obtain ⟨hand, -⟩ := Proc.resumeAt_ran (hrest task name p c rfl haction) t hnodup'
                hbound' index' path'
              exact ⟨hs, hp, hand.others d.run (hbound _ List.mem_cons_self) hfresh⟩
          simp only [Nat.zero_add]
          refine ⟨hspeaks.narrates,
            hspeaks.whole hproceeds node hplace hreported hbelow nodup bound fun hover => ?_⟩
          rw [Child.resumeAt_of_isOver hover]

/-! ## Giving up -/

/-- **A process is dropped.**  The orphans that it leaves have reported what they have collected. -/
theorem Proc.drop_narrates {a : Action} {p : Proc} (rest : p.RestOf s env a)
    (narrated : p.Narrated s) (h : s.Narrates base) (nodup : p.runs.Nodup) :
    (p.drop s).1.Narrates base ∧ ∀ o ∈ (p.drop s).2, o.child.Narrated (p.drop s).1 := by
  induction rest with
  | leaf =>
      exact ⟨h.congr (s.sameRuns_endGuards _).notes, fun o ho => absurd ho List.not_mem_nil⟩
  | @within env own a inner kind name b₀ guards handle under k p before bare leads _ rest ih =>
      obtain _ | ⟨hbelow⟩ := narrated
      obtain ⟨hs, horphans⟩ := ih hbelow nodup
      have hsame := ((p.drop s).1.sameRuns_leave handle).trans (sameRuns_endGuards _ guards)
      exact ⟨hs.congr hsame.notes, fun o ho => (horphans o ho).congr fun r _ => hsame.notes r⟩
  | @linear env a c before after run index name p bare place called chronicle rest ih =>
      obtain _ | _ | ⟨hbelow⟩ := narrated
      obtain ⟨hrun, hnodup⟩ := List.nodup_cons.mp nodup
      obtain ⟨hs, horphans⟩ := ih hbelow hnodup
      have hdrops := Proc.drop_drops rest hnodup
      have hlinear : s.IsLinear run :=
        ⟨before ++ c :: after, (Chronicle.runnerOf?_eq chronicle).trans (congrArg some bare)⟩
      refine ⟨hs.linear (hlinear.congr (hdrops.others run hrun)) _, fun o ho => ?_⟩
      refine (horphans o ho).congr fun r hr => notes_mark_of_ne _ _ ?_
      rintro rfl
      exact hrun (hdrops.left.held r (mem_heldBy.mpr ⟨o, ho, hr⟩))
  | @concurrent env a slots cs d children bare node below ih =>
      obtain _ | _ | _ | ⟨hreported, hbelow⟩ := narrated
      refine ⟨h, fun o ho task name p hp => ?_⟩
      obtain ⟨i, c, hc, -, rfl⟩ := mem_orphansOf.mp ho
      obtain rfl : c = .running task name p := hp
      exact hbelow task name p (List.mem_of_getElem? hc)

/-- **An orphan is dropped.** -/
theorem Orphan.drop_narrates {own : Nat → Prop} {o : Orphan} {orphans : List Orphan}
    (left : s.LeftTo own (o :: orphans)) (narrated : o.child.Narrated s) (h : s.Narrates base) :
    (o.drop s).1.Narrates base ∧ ∀ o' ∈ (o.drop s).2, o'.child.Narrated (o.drop s).1 := by
  obtain ⟨run, index, child⟩ := o
  have hlive := left.live _ List.mem_cons_self
  match child, hlive with
  | .spawned task a, _ =>
      have hended : (s.endTask task).Narrates base := h.congr (s.sameRuns_endTask task).notes
      exact ⟨hended.plain rfl rfl (by simp), fun o ho => absurd ho List.not_mem_nil⟩
  | .running task name p, _ =>
      obtain ⟨env, a, hrest⟩ := left.rest _ List.mem_cons_self task name p rfl
      have hnodup : p.runs.Nodup := left.nodup_cons.1
      obtain ⟨hs, horphans⟩ := Proc.drop_narrates hrest (narrated task name p rfl) h hnodup
      have hdrops := Proc.drop_drops hrest hnodup
      have hsame := (p.drop s).1.sameRuns_endTask task
      refine ⟨(hs.congr hsame.notes).plain rfl rfl (by simp), fun o ho => ?_⟩
      refine (horphans o ho).congr fun r hr => (notes_mark_of_ne _ _ ?_).trans (hsame.notes r)
      rintro rfl
      exact left.parent_head.2.1 (hdrops.left.held r (mem_heldBy.mpr ⟨o, ho, hr⟩))

end

end Workflow
