import Workflow.Proofs.Expiry
import Workflow.Proofs.Settling

/-!
# What waits know

**One wait.**  What a wait has seen so far says something about the cell and about the context that
may interrupt it (`Wait.Knows`): if it sleeps and was told of nothing, the cell is pending and its
future there, and the context's token is not cancelled; if it is over, something was there to end
it.  A wait that nothing disturbs gets what the store answers at once (`Wait.result?_go_repeat`).

**All waits.**  Whatever happens keeps that so (`Exchange.Attentive.step`), since every change of
the cell and every cancellation is told to those that sleep.

**At rest.**  So where nothing can go on, exactly those waits are not over which nothing should have
ended (`Exchange.Attentive.result?_eq_none_iff`).
-/

namespace Workflow

variable {α : Type}

/-! ## One wait -/

/-- What a wait gets that is not disturbed: it falls asleep only as long as the cell can still be
settled and nothing interrupts it. -/
lemma Cell.answer?_eq (c : Cell α) (interrupted : Bool) : c.answer? interrupted =
    if c.isPending && c.owned && !interrupted then none else some c.get := by
  cases hslot : c.slot <;> cases ho : c.owned <;> cases interrupted <;>
    simp [answer?, Nat.repeat, waitStep, isPending, get, hslot, ho]

namespace Wait

/-- A wait within a context gets what the cell answers in five steps, when nothing comes in between
them. -/
lemma result?_go_repeat (c : Cell α) (s : Contexts) (handle : Nat) (context : Context) :
    (Nat.repeat (Wait.go c s) 5 { context := some (handle, context), phase := .begun }).result? =
      c.answer? (s.isTokenCancelled context.token) := by
  cases hslot : c.slot <;> cases ho : c.owned <;> cases hi : s.isTokenCancelled context.token <;>
    simp [Cell.answer?, Nat.repeat, Wait.go, next, Cell.waitStep, Cell.isPending, interrupted,
      result?, hslot, ho, hi]

/-- What an action gets that waits for a cell is what a wait within its context gets that is not
disturbed. -/
lemma perform?_await {s : Store} {cell : Nat} {c : Cell Datum} (there : s.cells[cell]? = some c)
    (env : Env) (handle : Nat) : s.perform? env (.await cell) =
      (Nat.repeat (Wait.go c s.contexts) 5
        ⟨some (handle, env.context), .begun, false, false, false⟩).result?.map fun v => (v, s) := by
  rw [result?_go_repeat, Store.perform?, Store.answer?, there]
  rfl

/-- There is a value to wait for. -/
def IsOpen (c : Cell α) : Prop :=
  c.isPending = true ∧ c.owned = true

/-- What a wait knows of the cell and of what may interrupt it, in each phase. -/
def Knows (c : Cell α) (s : Contexts) (w : Wait α) : Prop :=
  match w.phase with
  | .begun | .watching | .enlisting => True
  | .listening => w.notified = false → IsOpen c
  | .asleep => (w.notified = false → IsOpen c) ∧ (w.alerted = false → w.interrupted s ≠ some true)
  | .reading => c.isPending = false ∨ w.interrupted s = some true
  | .ended _ => ¬ IsOpen c ∨ w.interrupted s = some true

variable {c c' : Cell α} {s s' : Contexts} {w : Wait α}

lemma Knows.of_isAsleep (h : w.Knows c s) (asleep : w.isAsleep = true) :
    (w.notified = false → IsOpen c) ∧ (w.alerted = false → w.interrupted s ≠ some true) := by
  cases hphase : w.phase <;> simp_all [Knows, isAsleep]

lemma Knows.of_result? (h : w.Knows c s) {v : Option α} (hv : w.result? = some v) :
    ¬ IsOpen c ∨ w.interrupted s = some true := by
  cases hphase : w.phase <;> simp_all [Knows, result?]

/-- What a wait does next it does knowingly. -/
lemma Knows.go (h : w.Knows c s) : (w.go c s).Knows c s := by
  obtain ⟨context, phase, notified, alerted, abandoned⟩ := w
  cases phase with
  | begun =>
      cases hp : c.isPending <;> simp [Wait.go, next, Knows, Cell.waitStep, hp]
  | watching =>
      cases hp : c.isPending <;> simp [Wait.go, next, Knows, Cell.waitStep, hp, IsOpen]
  | enlisting =>
      cases hp : c.isPending <;> cases ho : c.owned <;> cases context <;>
        simp [Wait.go, next, Knows, Cell.waitStep, hp, ho, IsOpen, interrupted]
  | listening =>
      simp only [Wait.go, next, Cell.waitStep]
      split
      · next hi => exact .inr hi
      · -- Nobody has told it of a change since it asked, so the cell is as it has seen it.
        next hi => exact ⟨fun hn => h (by simpa [isAsleep] using hn), fun _ => hi⟩
  | asleep =>
      obtain ⟨hopen, hquiet⟩ := h
      cases notified <;> cases context <;> simp_all [Wait.go, next, Knows, interrupted]
  | reading => exact h.imp_left fun hp hopen => by simp [IsOpen, hp] at hopen
  | ended v => exact h

/-- A wait that is told that there is nothing to wait for any more knows it. -/
lemma Knows.notify (h : w.Knows c s) (closed : ¬ IsOpen c')
    (settled : c.isPending = false → c'.isPending = false) : w.notify.Knows c' s := by
  obtain ⟨context, phase, notified, alerted, abandoned⟩ := w
  cases phase with
  | begun | watching | enlisting => trivial
  | listening => simp [Wait.notify, isEnlisted, Knows]
  | asleep => exact ⟨by simp [Wait.notify, isEnlisted], h.2⟩
  | reading => exact h.imp_left settled
  | ended v => exact .inl closed

/-- A wait that is told of cancellations knows of them. -/
lemma Knows.alert (h : w.Knows c s)
    (more : w.interrupted s = some true → w.interrupted s' = some true) :
    (w.alert s').Knows c s' := by
  obtain ⟨context, phase, notified, alerted, abandoned⟩ := w
  cases phase with
  | begun | watching | enlisting => trivial
  | listening => exact h
  | asleep =>
      refine ⟨h.1, fun hcalm hi => ?_⟩
      simp only [Wait.alert, isAsleep, Bool.true_and, Bool.or_eq_false_iff,
        beq_eq_false_iff_ne] at hcalm
      exact hcalm.2 hi
  | reading => exact h.imp_right more
  | ended v => exact h.imp_right more

/-- What a wait gets is what is there when it is over. -/
lemma result?_go (active : w.result? = none) {v : Option α} (hv : (w.go c s).result? = some v)
    (knows : w.Knows c s) : v = c.get ∧ (¬ IsOpen c ∨ w.interrupted s = some true) := by
  obtain ⟨context, phase, notified, alerted, abandoned⟩ := w
  have hnone : c.isPending = true → c.get = none := by
    cases hslot : c.slot <;> simp [Cell.isPending, Cell.get, hslot]
  cases phase with
  | begun => cases hp : c.isPending <;> simp [Wait.go, next, result?, Cell.waitStep, hp] at hv
  | watching =>
      cases hp : c.isPending <;> simp [Wait.go, next, result?, Cell.waitStep, hp] at hv
      exact ⟨hv.symm, .inl fun hopen => by simp [IsOpen, hp] at hopen⟩
  | enlisting =>
      cases hp : c.isPending <;> cases ho : c.owned <;> cases context <;>
        simp [Wait.go, next, result?, Cell.waitStep, hp, ho, interrupted] at hv
      · exact ⟨by rw [hnone hp, hv], .inl fun hopen => by simp [IsOpen, ho] at hopen⟩
      · exact ⟨by rw [hnone hp, hv], .inl fun hopen => by simp [IsOpen, ho] at hopen⟩
  | listening =>
      simp only [Wait.go, next, result?, Cell.waitStep] at hv
      split at hv
      · next hover => split at hover <;> cases hover
      · cases hv
  | asleep => cases notified <;> cases context <;> simp [Wait.go, next, result?] at hv
  | reading =>
      cases hv
      exact ⟨rfl, knows.imp_left fun hp hopen => by simp [IsOpen, hp] at hopen⟩
  | ended v => cases active

end Wait

/-! ## All waits -/

namespace Cell

/-- A call settles a cell that has a value to wait for, or leaves it alone. -/
lemma attempt_cases {c c' : Cell α} {how : Settlement α} {did : Bool}
    (result : c.attempt how = (did, c')) :
    (did = true ∧ c'.isPending = false) ∨ (did = false ∧ c' = c) := by
  by_cases hslot : c.slot = .pending
  · rw [attempt_of_pending hslot] at result
    cases result
    exact .inl ⟨rfl, by cases how <;> rfl⟩
  · rw [attempt_of_settled hslot] at result
    cases result
    exact .inr ⟨rfl, rfl⟩

end Cell

lemma mem_modify {β : Type} {l : List β} {f : β → β} {i : Nat} {x : β} (h : x ∈ l.modify i f) :
    x ∈ l ∨ ∃ y, l[i]? = some y ∧ x = f y := by
  obtain ⟨j, hj⟩ := List.mem_iff_getElem?.mp h
  rw [List.getElem?_modify] at hj
  by_cases hij : i = j
  · subst hij
    obtain ⟨y, hy, rfl⟩ := Option.map_eq_some_iff.mp hj
    exact .inr ⟨y, hy, by simp⟩
  · simp only [hij, if_false] at hj
    exact .inl (List.mem_of_getElem? (by simpa using hj))

namespace Exchange

variable {e e' : Exchange α}

/-- Every wait knows what it needs to know, and holds on to the context it has borrowed. -/
structure Attentive (e : Exchange α) : Prop where
  history : e.contexts.History e.log
  knows : ∀ w ∈ e.waits, w.Knows e.cell e.contexts
  borrowed : ∀ w ∈ e.waits, w.isActive = true → ∀ h c, w.context = some (h, c) →
    e.contexts.find? h = some c

namespace Attentive

/-- The waits are told that the cell was settled or that its future was dropped. -/
lemma notify (a : e.Attentive) (cell : Cell α) (closed : ¬ Wait.IsOpen cell)
    (settled : e.cell.isPending = false → cell.isPending = false) (calls : List (Call α))
    (order : List Nat) :
    Attentive { e with cell, calls, order, waits := e.waits.map .notify } where
  history := a.history
  knows w' hw' := by
    obtain ⟨w, hw, rfl⟩ := List.mem_map.mp hw'
    exact (a.knows w hw).notify closed settled
  borrowed w' hw' active := by
    obtain ⟨w, hw, rfl⟩ := List.mem_map.mp hw'
    exact a.borrowed w hw active

/-- The waits are told of cancelled tokens. -/
lemma contexts (a : e.Attentive) {new : List Occurrence} {s : Contexts}
    (step : e.contexts.Step e.log new s)
    (borrowed : ∀ w ∈ e.waits, w.isActive = true → ∀ h c, w.context = some (h, c) →
      s.find? h = some c) :
    Attentive { e with contexts := s, log := e.log ++ new, waits := e.waits.map (.alert s) } where
  history := a.history.leads (Contexts.Leads.refl.step step)
  knows w' hw' := by
    obtain ⟨w, hw, rfl⟩ := List.mem_map.mp hw'
    refine (a.knows w hw).alert fun hi => ?_
    obtain ⟨c, hc, hcancelled⟩ := Option.map_eq_some_iff.mp hi
    obtain ⟨n, hn, hmem⟩ := Contexts.isTokenCancelled_iff.mp hcancelled
    rw [Wait.interrupted, hc, Option.map_some, Option.some.injEq]
    exact Contexts.isTokenCancelled_iff.mpr ⟨n, hn, step.mono.1 n hmem⟩
  borrowed w' hw' active := by
    obtain ⟨w, hw, rfl⟩ := List.mem_map.mp hw'
    exact borrowed w hw active

/-- A wait begins. -/
lemma wait (a : e.Attentive) {w : Wait α} (knows : w.Knows e.cell e.contexts)
    (borrowed : ∀ h c, w.context = some (h, c) → e.contexts.find? h = some c) :
    Attentive { e with waits := e.waits ++ [w] } where
  history := a.history
  knows w' hw' := by
    rcases List.mem_append.mp hw' with hw' | hw'
    · exact a.knows w' hw'
    · exact List.mem_singleton.mp hw' ▸ knows
  borrowed w' hw' active := by
    rcases List.mem_append.mp hw' with hw' | hw'
    · exact a.borrowed w' hw' active
    · exact List.mem_singleton.mp hw' ▸ borrowed

lemma step (a : e.Attentive) (h : Step e e') : e'.Attentive := by
  cases h with
  | call | report | answer | promise | forget => exact ⟨a.history, a.knows, a.borrowed⟩
  | @decide i how did cell call result =>
      rcases Cell.attempt_cases result with ⟨rfl, hsettled⟩ | ⟨rfl, rfl⟩
      · exact a.notify _ (fun hopen => by simp [Wait.IsOpen, hsettled] at hopen)
          (fun _ => hsettled) _ _
      · exact ⟨a.history, a.knows, a.borrowed⟩
  | dropFuture owned unused =>
      exact a.notify e.cell.disown (fun hopen => Bool.noConfusion hopen.2) id _ _
  | wait there => exact a.wait trivial (by simp)
  | waitWithin there held =>
      refine a.wait trivial ?_
      rintro h c ⟨⟩
      exact held
  | @goOn i w wait active =>
      refine ⟨a.history, fun w' hw' => ?_, fun w' hw' active' => ?_⟩
      · rcases mem_modify hw' with hw' | ⟨w, hw, rfl⟩
        · exact a.knows w' hw'
        · exact (a.knows w (List.mem_of_getElem? hw)).go
      · rcases mem_modify hw' with hw' | ⟨w'', hw, rfl⟩
        · exact a.borrowed w' hw' active'
        · cases wait.symm.trans hw
          exact a.borrowed w (List.mem_of_getElem? hw) active
  | abandon wait active =>
      refine ⟨a.history, fun w' hw' => ?_, fun w' hw' active' => ?_⟩
      · rcases mem_modify hw' with hw' | ⟨w, hw, rfl⟩
        · exact a.knows w' hw'
        · exact a.knows w (List.mem_of_getElem? hw)
      · rcases mem_modify hw' with hw' | ⟨w, hw, rfl⟩
        · exact a.borrowed w' hw' active'
        · simp [Wait.isActive] at active'
  | contexts step borrowed => exact a.contexts step borrowed

end Attentive

lemma Opens.attentive (h : e.Opens) : e.Attentive := by
  obtain ⟨log, contexts, history, rfl⟩ := h
  exact ⟨history, by simp, by simp⟩

lemma Leads.attentive (h : Leads e e') (a : e.Attentive) : e'.Attentive := by
  induction h with
  | refl => exact a
  | tail _ step ih => exact ih.step step

/-- What a step does to a wait: its result stays what it was, unless this is the step it takes. -/
lemma Step.wait_after (h : Step e e') {i : Nat} {w : Wait α} (hw : e.waits[i]? = some w) :
    ∃ w', e'.waits[i]? = some w' ∧ (w'.result? = w.result? ∨
      (e' = e.goOn i ∧ w' = w.go e.cell e.contexts ∧ w.isActive = true)) := by
  have hmap : ∀ f : Wait α → Wait α, (e.waits.map f)[i]? = some (f w) := by simp [hw]
  have hmodify : ∀ (f : Wait α → Wait α) (j : Nat), (e.waits.modify j f)[i]? =
      some (if j = i then f w else w) := by
    intro f j
    rw [List.getElem?_modify, hw]
    split <;> rfl
  cases h with
  | call | report | answer | promise | forget => exact ⟨w, hw, .inl rfl⟩
  | @decide _ how did cell call result =>
      cases did with
      | false => exact ⟨w, hw, .inl rfl⟩
      | true => exact ⟨_, hmap _, .inl rfl⟩
  | dropFuture => exact ⟨_, hmap _, .inl rfl⟩
  | wait | waitWithin => exact ⟨w, getElem?_append_singleton.mpr (.inl hw), .inl rfl⟩
  | @goOn j w' wait active =>
      refine ⟨_, hmodify _ j, ?_⟩
      split
      · next hij =>
          subst hij
          cases hw.symm.trans wait
          exact .inr ⟨rfl, rfl, active⟩
      · exact .inl rfl
  | @abandon j w' wait active =>
      refine ⟨_, hmodify _ j, .inl ?_⟩
      split <;> rfl
  | contexts step borrowed => exact ⟨_, hmap _, .inl rfl⟩

/-- What a wait has got it keeps. -/
lemma Leads.result? (h : Leads e e') {i : Nat} {w : Wait α} (hw : e.waits[i]? = some w)
    {v : Option α} (hv : w.result? = some v) :
    ∃ w', e'.waits[i]? = some w' ∧ w'.result? = some v := by
  induction h with
  | refl => exact ⟨w, hw, hv⟩
  | tail _ step ih =>
      obtain ⟨w', hw', hv'⟩ := ih
      obtain ⟨w'', hw'', hsame | ⟨-, -, hactive⟩⟩ := step.wait_after hw'
      · exact ⟨w'', hw'', hsame.trans hv'⟩
      · simp [Wait.isActive, hv'] at hactive

/-- The value of a cell is that of the call that has settled it. -/
lemma Ordered.get_eq_some_iff (o : e.Ordered) {v : α} :
    e.cell.get = some v ↔ e.Won (.value v) := by
  constructor
  · intro hget
    have hslot : e.cell.slot = .set v := by
      cases h : e.cell.slot <;> simp_all [Cell.get]
    cases horder : e.order with
    | nil => simp [(o.pending horder).1] at hslot
    | cons i rest =>
        have hhead : e.order.head? = some i := by rw [horder]; rfl
        obtain ⟨call, hcall, -, hset, -⟩ := o.first i hhead
        refine ⟨i, call, hhead, hcall, ?_⟩
        rw [hslot] at hset
        cases hhow : call.how <;> simp_all [Settlement.slot]
  · rintro ⟨i, call, hi, hcall, hhow⟩
    obtain ⟨call', hcall', -, hset, -⟩ := o.first i hi
    cases hcall.symm.trans hcall'
    rw [Cell.get, hset, hhow]
    rfl

/-! ## At rest -/

/-- Where nothing can go on, exactly those waits are not over which nothing should have ended. -/
lemma Attentive.result?_eq_none_iff (a : e.Attentive) (quiet : e.IsQuiet) {w : Wait α}
    (hw : w ∈ e.waits) (kept : w.abandoned = false) : w.result? = none ↔
      Wait.IsOpen e.cell ∧ ∀ h c, w.context = some (h, c) → e.contexts.isCancelled c = false := by
  have hknows := a.knows w hw
  constructor
  · intro hresult
    have hactive : w.isActive = true := by simp [Wait.isActive, kept, hresult]
    have hready := quiet.waits w hw
    simp only [Wait.isReady, hactive, Bool.true_and, Bool.or_eq_false_iff,
      Bool.not_eq_false'] at hready
    -- It sleeps, and nobody has told it of anything.
    obtain ⟨⟨hasleep, hnotified⟩, halerted⟩ := hready
    obtain ⟨hopen, hcalm⟩ := hknows.of_isAsleep hasleep
    refine ⟨hopen hnotified, fun h c hc => ?_⟩
    -- Its context cannot be past a deadline, since the timer would have run.
    have hheld := Contexts.mem_held_of_find? (a.borrowed w hw hactive h c hc)
    rw [← a.history.faithful.isTokenCancelled_eq hheld quiet.timers]
    simpa [Wait.interrupted, hc] using hcalm halerted
  · rintro ⟨hopen, hcalm⟩
    by_contra hresult
    obtain ⟨v, hv⟩ := Option.ne_none_iff_exists'.mp hresult
    rcases hknows.of_result? hv with hclosed | hinterrupted
    · exact hclosed hopen
    · obtain ⟨⟨h, c⟩, hc, hcancelled⟩ := Option.map_eq_some_iff.mp hinterrupted
      have hlive := hcalm h c hc
      rw [Contexts.isCancelled, Bool.or_eq_false_iff] at hlive
      exact Bool.noConfusion (hcancelled.symm.trans hlive.1)

end Exchange

end Workflow
