import Mathlib.Algebra.GroupWithZero.Nat
import Mathlib.Data.Prod.Lex
import Workflow.Proofs.Waiting

/-!
# Waits are released when they should be, and a value always wins

**Everything comes to rest.**  A call that has not returned, a timer that is due and a wait that is
ready can each take a step, and with it there is less left to do: fewer steps of calls, or as many
and fewer timers, or as many of those and fewer looks of waits (`Exchange.remaining`).  So whatever
the state, the calls, timers and waits can be run until none of them can go on
(`Exchange.exists_quiet`).

**The law** of waits is put together from that and from what waits know
(**`Exchange.waits_released`**).
-/

namespace Workflow

variable {α : Type}

/-! ## What is left to do -/

/-- How many steps a call has yet to take. -/
def CallPhase.remaining : CallPhase → Nat
  | begun => 3
  | decided _ => 2
  | reported _ => 1
  | returned _ => 0

/-- How many steps a wait has yet to take at the most, if nothing happens meanwhile.  One that was
told of something has to start again. -/
def Wait.remaining (c : Cell α) (w : Wait α) : Nat :=
  (match w.phase with
    | .begun => 5
    | .watching => if c.isPending then 4 else 1
    | .enlisting => if c.isPending then 3 else 2
    | .listening => 2
    | .reading => 1
    | .asleep | .ended _ => 0) +
  if w.notified || w.alerted then 6 else 0

lemma Wait.remaining_go_lt {c : Cell α} {s : Contexts} {w : Wait α} (ready : w.isReady = true) :
    (w.go c s).remaining c < w.remaining c := by
  obtain ⟨context, phase, notified, alerted, abandoned⟩ := w
  cases phase with
  | begun | watching | reading =>
      cases hp : c.isPending <;>
        simp [remaining, Wait.go, Wait.next, Cell.waitStep, isAsleep, hp]
  | enlisting =>
      cases hp : c.isPending <;> cases ho : c.owned <;> cases context <;>
        simp [remaining, Wait.go, Wait.next, Cell.waitStep, isAsleep, interrupted, hp, ho]
  | listening =>
      rcases hi : (⟨context, .listening, notified, alerted, abandoned⟩ : Wait α).interrupted s with
        _ | _ | _ <;> simp [remaining, Wait.go, Wait.next, Cell.waitStep, isAsleep, hi]
  | asleep =>
      -- What has woken it up is used up, which outweighs the looks that it takes from here.
      cases notified <;> cases alerted <;> cases context <;> cases hp : c.isPending <;>
        simp_all [remaining, Wait.go, Wait.next, isAsleep, isReady]
  | ended v => simp [isReady, isActive, result?] at ready

lemma sum_map_modify_lt {β : Type} {l : List β} {f : β → Nat} {g : β → β} {i : Nat} {x : β}
    (hx : l[i]? = some x) (lt : f (g x) < f x) : ((l.modify i g).map f).sum < (l.map f).sum := by
  induction l generalizing i with
  | nil => cases hx
  | cons y l ih =>
      cases i with
      | zero =>
          cases hx
          simpa using lt
      | succ i => simpa using ih hx

namespace Exchange

variable {e e' : Exchange α}

/-- How much is left to do: steps of calls first, then timers, then looks of waits. -/
def remaining (e : Exchange α) : Nat ×ₗ Nat ×ₗ Nat :=
  toLex ((e.calls.map (·.phase.remaining)).sum,
    toLex (e.contexts.timers.length, (e.waits.map (·.remaining e.cell)).sum))

/-! ## Everything comes to rest -/

/-- The waits that were not given up still are not. -/
def KeepsWaits (e e' : Exchange α) : Prop :=
  ∀ (i : Nat) (w : Wait α), e.waits[i]? = some w →
    ∃ w' : Wait α, e'.waits[i]? = some w' ∧ w'.abandoned = w.abandoned

lemma KeepsWaits.of_eq (h : e'.waits = e.waits) : e.KeepsWaits e' :=
  fun _ w hw => ⟨w, h ▸ hw, rfl⟩

lemma KeepsWaits.map {f : Wait α → Wait α} (h : e'.waits = e.waits.map f)
    (same : ∀ w, (f w).abandoned = w.abandoned) : e.KeepsWaits e' :=
  fun _ w hw => ⟨f w, by simp [h, hw], same w⟩

lemma KeepsWaits.trans {e'' : Exchange α} (h : e.KeepsWaits e') (h' : e'.KeepsWaits e'') :
    e.KeepsWaits e'' := by
  intro i w hw
  obtain ⟨w', hw', hsame⟩ := h i w hw
  obtain ⟨w'', hw'', hsame'⟩ := h' i w' hw'
  exact ⟨w'', hw'', hsame'.trans hsame⟩

/-- A call that has not returned can go on. -/
lemma exists_step_call {call : Call α} (hcall : call ∈ e.calls)
    (unfinished : ∀ did, call.phase ≠ .returned did) :
    ∃ e', Step e e' ∧ e'.remaining < e.remaining ∧ e.KeepsWaits e' := by
  obtain ⟨i, hi⟩ := List.mem_iff_getElem?.mp hcall
  have hless : ∀ p : CallPhase, p.remaining < call.phase.remaining →
      ((e.calls.set i ⟨call.how, p⟩).map (·.phase.remaining)).sum
        < (e.calls.map (·.phase.remaining)).sum := by
    intro p hp
    rw [List.set_eq_modify]
    exact sum_map_modify_lt hi hp
  obtain ⟨how, phase⟩ := call
  cases phase with
  | begun =>
      rcases hresult : e.cell.attempt how with ⟨did, cell⟩
      refine ⟨_, .decide hi hresult, Prod.Lex.toLex_lt_toLex.mpr (.inl (hless _ ?_)), ?_⟩
      · simp [CallPhase.remaining]
      · cases did with
        | false => exact .of_eq rfl
        | true => exact .map rfl fun _ => rfl
  | decided did =>
      refine ⟨_, .report hi, Prod.Lex.toLex_lt_toLex.mpr (.inl (hless _ ?_)), .of_eq rfl⟩
      simp [CallPhase.remaining]
  | reported did =>
      refine ⟨_, .answer hi, Prod.Lex.toLex_lt_toLex.mpr (.inl (hless _ ?_)), .of_eq rfl⟩
      simp [CallPhase.remaining]
  | returned did => exact absurd rfl (unfinished did)

/-- A timer that is due can go on. -/
lemma Attentive.exists_step_timer (a : e.Attentive) {t : Timer} (ht : t ∈ e.contexts.timers)
    (due : e.contexts.isDue t = true) :
    ∃ e', Step e e' ∧ e'.remaining < e.remaining ∧ e.KeepsWaits e' := by
  refine ⟨_, .contexts (.timer ht due) fun w hw active h c hc => ?_,
    Prod.Lex.toLex_lt_toLex.mpr (.inr ⟨rfl, Prod.Lex.toLex_lt_toLex.mpr (.inl ?_)⟩),
    .map rfl fun _ => rfl⟩
  · rw [Contexts.find?, Contexts.held_fire]
    exact a.borrowed w hw active h c hc
  · rw [Contexts.timers_fire]
    exact List.length_filter_lt_length_iff_exists.mpr ⟨t, ht, by simp⟩

/-- A wait that has something to do can go on. -/
lemma exists_step_wait {w : Wait α} (hw : w ∈ e.waits) (ready : w.isReady = true) :
    ∃ e', Step e e' ∧ e'.remaining < e.remaining ∧ e.KeepsWaits e' := by
  obtain ⟨i, hi⟩ := List.mem_iff_getElem?.mp hw
  have hactive : w.isActive = true := (Bool.and_eq_true_iff.mp ready).1
  refine ⟨_, .goOn hi hactive, Prod.Lex.toLex_lt_toLex.mpr (.inr ⟨rfl, Prod.Lex.toLex_lt_toLex.mpr
    (.inr ⟨rfl, sum_map_modify_lt hi (Wait.remaining_go_lt ready)⟩)⟩), fun j w' hw' => ?_⟩
  refine ⟨if i = j then w'.go e.cell e.contexts else w', ?_, by split <;> rfl⟩
  rw [goOn, List.getElem?_modify, hw']
  split <;> rfl

/-- Whatever can go on by itself can be run until nothing can, with no wait given up on the way. -/
lemma Attentive.exists_quiet (a : e.Attentive) :
    ∃ e', Leads e e' ∧ e'.IsQuiet ∧ e.KeepsWaits e' := by
  -- A timer's turn is a step only if the waits keep the contexts they have borrowed.
  induction hr : e.remaining using WellFoundedLT.induction generalizing e with
  | _ r ih =>
      by_cases hquiet : e.IsQuiet
      · exact ⟨e, .refl, hquiet, .of_eq rfl⟩
      · have hstep : ∃ e', Step e e' ∧ e'.remaining < e.remaining ∧ e.KeepsWaits e' := by
          by_contra hnone
          refine hquiet ⟨fun call hcall => ?_, fun w hw => ?_, fun t ht => ?_⟩
          · by_contra hphase
            exact hnone (exists_step_call hcall (not_exists.mp hphase))
          · exact Bool.eq_false_iff.mpr fun hready => hnone (exists_step_wait hw hready)
          · exact Bool.eq_false_iff.mpr fun hdue => hnone (a.exists_step_timer ht hdue)
        obtain ⟨e₁, step, hlt, hkeeps⟩ := hstep
        obtain ⟨e₂, leads, hquiet, hkeeps'⟩ := ih _ (hr ▸ hlt) (a.step step) rfl
        exact ⟨e₂, .head step leads, hquiet, hkeeps.trans hkeeps'⟩

/-! ## The law of waits -/

/-- **Waits are released exactly when they should be, and a value always wins.**  Take any exchange
that one around a new cell leads to.

* Where no call, no wait and no timer can go on, a wait that was not given up is not over if and
  only if the cell is pending, its future is still there, and the context of the wait, if it has
  one, is not cancelled.  The calls, waits and timers come to that when they are let.
* When a wait is over, which takes a step of its own, it has got the value that the cell was set to
  by then, and nothing if it was not; and it is over because the cell was settled, or its future is
  gone, or the token of its context is cancelled.  It keeps what it has got.
* A wait that goes on or is given up changes nothing but itself. -/
theorem waits_released {e₀ : Exchange α} (opens : e₀.Opens) (leads : Leads e₀ e) :
    (e.IsQuiet → ∀ w ∈ e.waits, w.abandoned = false → (w.result? = none ↔
      (e.cell.isPending = true ∧ e.cell.owned = true) ∧
        ∀ h c, w.context = some (h, c) → e.contexts.isCancelled c = false)) ∧
    (∃ e', Leads e e' ∧ e'.IsQuiet ∧ e.KeepsWaits e') ∧
    (∀ e' (i : Nat) (w w' : Wait α) v, Step e e' → e.waits[i]? = some w → w.result? = none →
      e'.waits[i]? = some w' → w'.result? = some v →
        (∀ x, v = some x ↔ e'.Won (.value x)) ∧
        (¬ (e'.cell.isPending = true ∧ e'.cell.owned = true) ∨
          ∃ h c, w.context = some (h, c) ∧ e'.contexts.isTokenCancelled c.token = true)) ∧
    (∀ e' (i : Nat) (w : Wait α) v, Leads e e' → e.waits[i]? = some w → w.result? = some v →
      ∃ w' : Wait α, e'.waits[i]? = some w' ∧ w'.result? = some v) ∧
    ∀ i e', e' = e.goOn i ∨ e' = e.abandon i →
      e' = { e with waits := e'.waits } ∧ ∀ j, j ≠ i → e'.waits[j]? = e.waits[j]? := by
  have a := leads.attentive opens.attentive
  have o := leads.ordered opens.ordered
  refine ⟨fun quiet w hw kept => a.result?_eq_none_iff quiet hw kept, a.exists_quiet,
    fun e' i w w' v step hw hnone hw' hv => ?_, fun e' i w v leads' hw hv => leads'.result? hw hv,
    fun i e' he' => ?_⟩
  · -- Only a step of its own ends a wait, and that step leaves the calls as they are.
    obtain ⟨w'', hw'', hsame | ⟨rfl, rfl, hactive⟩⟩ := step.wait_after hw
    · cases hw'.symm.trans hw''
      simp [hsame, hnone] at hv
    · cases hw'.symm.trans hw''
      obtain ⟨rfl, hover⟩ := Wait.result?_go hnone hv (a.knows w (List.mem_of_getElem? hw))
      refine ⟨fun x => o.get_eq_some_iff, hover.imp_right fun hinterrupted => ?_⟩
      obtain ⟨⟨h, c⟩, hc, hcancelled⟩ := Option.map_eq_some_iff.mp hinterrupted
      exact ⟨h, c, hc, hcancelled⟩
  · rcases he' with rfl | rfl
    · exact ⟨rfl, fun j hj => by simp [goOn, hj.symm]⟩
    · exact ⟨rfl, fun j hj => by simp [abandon, hj.symm]⟩

/-- While somebody waited for the cell within a context it was set, the context was cancelled and
the future dropped, one after the other; the wait has just woken up. -/
def lateValue : Exchange Nat where
  cell := ⟨.set 7, false⟩
  calls := [⟨.value 7, .returned true⟩]
  order := [0]
  events := [(0, .futureSettled)]
  waits := [⟨some (1, ⟨⟨0, []⟩, none, []⟩), .watching, false, false, false⟩]
  contexts := ⟨0, 2, [0], [], [(1, ⟨⟨0, []⟩, none, []⟩)]⟩
  log := [.token ⟨0, []⟩ none, .context 1 0 .new, .cancelled 0]

/-- The wait gets the value. -/
theorem waits_released_lateValue :
    Opens ({ } : Exchange Nat) ∧ Leads { } lateValue ∧ Step lateValue (lateValue.goOn 0) ∧
      (lateValue.goOn 0).waits.map (·.result?) = [some (some 7)] ∧
      (lateValue.goOn 0).Won (.value 7) := by
  let root : Context := ⟨⟨0, []⟩, none, []⟩
  let log : List Occurrence := [.token ⟨0, []⟩ none, .context 1 0 .new]
  let contexts : Contexts := ⟨0, 2, [], [], [(1, root)]⟩
  let entered (phase : WaitPhase Nat) : Exchange Nat :=
    { waits := [{ context := some (1, root), phase }], contexts, log }
  have hopens : Opens ({ } : Exchange Nat) := ⟨[], { }, ⟨0, .refl⟩, rfl⟩
  have hentered : Leads { } (entered .begun) :=
    (Relation.ReflTransGen.single (.contexts (.new (t := ⟨0, []⟩) rfl rfl) (by simp))).tail
      (.waitWithin (v := .future) rfl rfl)
  have hasleep : Leads { } (entered .asleep) :=
    (((hentered.tail (.goOn (i := 0) rfl rfl)).tail (.goOn (i := 0) rfl rfl)).tail
      (.goOn (i := 0) rfl rfl)).tail (.goOn (i := 0) rfl rfl)
  let settled : Exchange Nat :=
    { entered .asleep with
      cell := ⟨.set 7, true⟩
      calls := [⟨.value 7, .decided true⟩]
      order := [0]
      waits := [⟨some (1, root), .asleep, true, false, false⟩] }
  have hsettled : Leads { } settled :=
    (hasleep.tail (.call (.value 7) rfl)).tail (.decide (i := 0) rfl rfl)
  have hcancel : settled.contexts.Step settled.log [.cancelled 0] ⟨0, 2, [0], [], [(1, root)]⟩ :=
    .cancel (h := 1) (c := root) rfl
  have hborrowed : ∀ w ∈ settled.waits, w.isActive = true → ∀ h c, w.context = some (h, c) →
      (⟨0, 2, [0], [], [(1, root)]⟩ : Contexts).find? h = some c := by
    intro w hw _ h c hc
    obtain rfl := List.mem_singleton.mp hw
    cases hc
    rfl
  have hcancelled : Leads { } _ := hsettled.tail (.contexts hcancel hborrowed)
  have hleads : Leads { } lateValue :=
    (((hcancelled.tail (.report (i := 0) rfl)).tail (.answer (i := 0) rfl)).tail
      (.dropFuture rfl fun _ hcall => ⟨true, List.mem_singleton.mp hcall ▸ rfl⟩)).tail
      (.goOn (i := 0) rfl rfl)
  have hstep : Step lateValue (lateValue.goOn 0) := .goOn (i := 0) rfl rfl
  obtain ⟨-, -, hfinish, -⟩ := waits_released hopens hleads
  exact ⟨hopens, hleads, hstep, rfl,
    ((hfinish _ 0 _ _ _ hstep rfl rfl rfl rfl).1 7).mp rfl⟩

end Exchange

end Workflow
