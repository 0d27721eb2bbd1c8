import Mathlib.Data.List.Basic
import Workflow.Exchange
import Workflow.Store

/-!
# A cell is settled once

Of all calls that are to settle a cell the first one to take effect does, and no other.  Everything
that can be seen of the cell from then on, through whatever is left to see it through, says what
that call has made of it; before, it says that the cell is pending.

The order in which the calls have taken effect carries all that: the slot and the events are those
of the first call, and every step keeps it so (`Exchange.Ordered.step`).  A store settles a cell by
a call with which nothing interferes (`Exchange.exists_leads_settle`).
-/

namespace Workflow

variable {α : Type}

/-! ## One call -/

/-- What a settlement makes of the slot. -/
def Settlement.slot : Settlement α → Slot α
  | .value v => .set v
  | .cancelled => .cancelled

namespace Cell

lemma attempt_of_pending {c : Cell α} (pending : c.slot = .pending) (how : Settlement α) :
    c.attempt how = (true, { c with slot := how.slot }) := by
  cases how <;> simp [attempt, set, cancel, settle, isPending, pending, Settlement.slot]

lemma attempt_of_settled {c : Cell α} (settled : c.slot ≠ .pending) (how : Settlement α) :
    c.attempt how = (false, c) := by
  have hpending : c.isPending = false := by
    cases hslot : c.slot <;> simp_all [isPending]
  cases how <;> simp [attempt, set, cancel, settle, hpending]

lemma glimpse_of_slot {c : Cell α} {how : Settlement α} (h : c.slot = how.slot) :
    c.glimpse = how.glimpse := by
  cases how <;> simp_all [glimpse, isSet, isCancelled, get, Settlement.slot, Settlement.glimpse]

lemma glimpse_of_pending {c : Cell α} (h : c.slot = .pending) : c.glimpse = .pending := by
  simp [glimpse, isSet, isCancelled, get, h, Glimpse.pending]

/-- The views never contradict one another. -/
lemma glimpse_consistent (c : Cell α) :
    (c.glimpse.isSet && c.glimpse.isCancelled) = false ∧
      c.glimpse.value.isSome = c.glimpse.isSet := by
  cases hslot : c.slot <;> simp [glimpse, isSet, isCancelled, get, hslot]

end Cell

lemma Settlement.slot_ne_pending (how : Settlement α) : how.slot ≠ .pending := by
  cases how <;> simp [slot]

/-! ## Places in a list -/

lemma getElem?_append_singleton {β : Type} {l : List β} {x y : β} {i : Nat} :
    (l ++ [x])[i]? = some y ↔ l[i]? = some y ∨ i = l.length ∧ x = y := by
  grind

lemma getElem?_set_of_some {β : Type} {l : List β} {x y z : β} {i j : Nat} (h : l[i]? = some x) :
    (l.set i y)[j]? = some z ↔ (j = i ∧ y = z) ∨ (j ≠ i ∧ l[j]? = some z) := by
  have hi := (List.getElem?_eq_some_iff.mp h).1
  grind

namespace Exchange

variable {e e' : Exchange α}

/-- The order of the calls agrees with the cell and with what was reported. -/
structure Ordered (e : Exchange α) : Prop where
  decided : ∀ i, i ∈ e.order ↔ ∃ call, e.calls[i]? = some call ∧ call.phase.did?.isSome = true
  winner : ∀ i call, e.calls[i]? = some call → call.phase.did? = some true → e.order.head? = some i
  /-- The first call has settled the cell, and reports that when it has been decided. -/
  first : ∀ i, e.order.head? = some i → ∃ call, e.calls[i]? = some call ∧
    call.phase.did? = some true ∧ e.cell.slot = call.how.slot ∧
    e.events = if call.phase = .decided true then [] else [(i, .ofSettlement call.how)]
  pending : e.order = [] → e.cell.slot = .pending ∧ e.events = []

namespace Ordered

/-- Nothing but calls makes a difference. -/
lemma congr (o : e.Ordered) (slot : e'.cell.slot = e.cell.slot) (calls : e'.calls = e.calls)
    (order : e'.order = e.order) (events : e'.events = e.events) : e'.Ordered where
  decided := by rw [calls, order]; exact o.decided
  winner := by rw [calls, order]; exact o.winner
  first := by rw [calls, order, slot, events]; exact o.first
  pending := by rw [order, slot, events]; exact o.pending

lemma call (o : e.Ordered) (how : Settlement α) :
    Ordered { e with calls := e.calls ++ [{ how }] } where
  decided i := by
    rw [o.decided]
    refine exists_congr fun call => and_congr_left fun hdid => ?_
    rw [getElem?_append_singleton, or_iff_left]
    rintro ⟨-, rfl⟩
    cases hdid
  winner i call hcall hdid := by
    rcases getElem?_append_singleton.mp hcall with hcall | ⟨-, rfl⟩
    · exact o.winner i call hcall hdid
    · cases hdid
  first i hi := by
    obtain ⟨call, hcall, h⟩ := o.first i hi
    exact ⟨call, getElem?_append_singleton.mpr (.inl hcall), h⟩
  pending := o.pending

/-- A cell is pending as long as no call has taken effect, and no longer. -/
lemma slot_eq_pending_iff (o : e.Ordered) : e.cell.slot = .pending ↔ e.order = [] := by
  refine ⟨fun hslot => ?_, fun horder => (o.pending horder).1⟩
  cases horder : e.order with
  | nil => rfl
  | cons i rest =>
      obtain ⟨call, -, -, hset, -⟩ := o.first i (by rw [horder]; rfl)
      exact absurd (hset.symm.trans hslot) call.how.slot_ne_pending

/-- A call that has not taken effect is not in the order. -/
lemma not_mem_of_begun (o : e.Ordered) {place : Nat} {how : Settlement α}
    (call : e.calls[place]? = some ⟨how, .begun⟩) : place ∉ e.order := by
  rw [o.decided]
  rintro ⟨call', hcall', hdid⟩
  cases call.symm.trans hcall'
  cases hdid

/-- A call takes effect: the first one settles the cell, the others find it settled. -/
lemma decide (o : e.Ordered) {place : Nat} {how : Settlement α} {did : Bool} {cell : Cell α}
    (call : e.calls[place]? = some ⟨how, .begun⟩) (result : e.cell.attempt how = (did, cell))
    (waits : List (Wait α)) :
    Ordered { e with
      cell
      calls := e.calls.set place ⟨how, .decided did⟩
      order := e.order ++ [place]
      waits } where
  decided i := by
    simp only [List.mem_append, List.mem_singleton, o.decided, getElem?_set_of_some call]
    constructor
    · rintro (⟨call', hcall', hdid⟩ | rfl)
      · have hne : i ≠ place :=
          fun h => o.not_mem_of_begun call (h ▸ (o.decided i).mpr ⟨_, hcall', hdid⟩)
        exact ⟨call', .inr ⟨hne, hcall'⟩, hdid⟩
      · exact ⟨_, .inl ⟨rfl, rfl⟩, rfl⟩
    · rintro ⟨call', ⟨rfl, rfl⟩ | ⟨-, hcall'⟩, hdid⟩
      · exact .inr rfl
      · exact .inl ⟨call', hcall', hdid⟩
  winner i call' hcall' hdid := by
    rcases (getElem?_set_of_some call).mp hcall' with ⟨rfl, rfl⟩ | ⟨-, hcall'⟩
    · obtain rfl : did = true := Option.some.inj hdid
      have horder : e.order = [] := by
        rw [← o.slot_eq_pending_iff]
        by_contra hsettled
        rw [Cell.attempt_of_settled hsettled] at result
        cases result
      simp [horder]
    · simp [o.winner i call' hcall' hdid]
  first i hi := by
    cases horder : e.order with
    | nil =>
        -- Nothing has taken effect so far: this is the first call, and it settles the cell.
        obtain ⟨hslot, hevents⟩ := o.pending horder
        rw [Cell.attempt_of_pending hslot] at result
        cases result
        obtain rfl : place = i := by simpa [horder] using hi
        exact ⟨_, (getElem?_set_of_some call).mpr (.inl ⟨rfl, rfl⟩), rfl, rfl,
          by simpa using hevents⟩
    | cons j rest =>
        -- The first call has settled the cell, and this one leaves it alone.
        obtain rfl : j = i := by simpa [horder] using hi
        obtain ⟨call', hcall', hdid, hslot, hevents⟩ := o.first j (by rw [horder]; rfl)
        have hne : j ≠ place :=
          fun h => o.not_mem_of_begun call (h ▸ (o.decided j).mpr ⟨_, hcall', by rw [hdid]; rfl⟩)
        rw [Cell.attempt_of_settled (hslot ▸ call'.how.slot_ne_pending)] at result
        cases result
        exact ⟨call', (getElem?_set_of_some call).mpr (.inr ⟨hne, hcall'⟩), hdid, hslot, hevents⟩
  pending horder := by simp at horder

/-- A call that has taken effect goes on.  It reports that it has settled the cell when that is the
next thing it does. -/
lemma move (o : e.Ordered) {place : Nat} {how : Settlement α} {p p' : CallPhase} {did : Bool}
    {events : List (Nat × Event)} (call : e.calls[place]? = some ⟨how, p⟩)
    (before : p.did? = some did) (after : p'.did? = some did) (past : p' ≠ .decided true)
    (report : events =
      if p = .decided true then e.events ++ [(place, .ofSettlement how)] else e.events) :
    Ordered { e with calls := e.calls.set place ⟨how, p'⟩, events } where
  decided i := by
    simp only [o.decided, getElem?_set_of_some call]
    by_cases hi : i = place
    · subst hi
      simp [call, before, after]
    · simp [hi]
  winner i call' hcall' hdid := by
    rcases (getElem?_set_of_some call).mp hcall' with ⟨rfl, rfl⟩ | ⟨-, hcall'⟩
    · exact o.winner _ _ call (before.trans (after.symm.trans hdid))
    · exact o.winner i call' hcall' hdid
  first i hi := by
    obtain ⟨call', hcall', hdid, hslot, hevents⟩ := o.first i hi
    by_cases hne : i = place
    · subst hne
      cases call.symm.trans hcall'
      refine ⟨_, (getElem?_set_of_some call).mpr (.inl ⟨rfl, rfl⟩), ?_, hslot, ?_⟩
      · exact after.trans (before.symm.trans hdid)
      · dsimp only
        rw [if_neg past, report, hevents]
        split <;> rfl
    · refine ⟨call', (getElem?_set_of_some call).mpr (.inr ⟨hne, hcall'⟩), hdid, hslot, ?_⟩
      dsimp only
      rw [report, if_neg, hevents]
      rintro rfl
      -- A call that is to report has settled the cell, and there is only one such.
      have hwinner := o.winner place _ call rfl
      exact hne (Option.some.inj (hi.symm.trans hwinner))
  pending horder := by
    have hmem : place ∈ e.order := (o.decided place).mpr ⟨_, call, by rw [before]; rfl⟩
    simp [show e.order = [] from horder] at hmem

lemma step (o : e.Ordered) (h : Step e e') : e'.Ordered := by
  cases h with
  | call how owned => exact o.call how
  | decide call result => exact o.decide call result _
  | @report i how did call =>
      refine o.move call rfl rfl (by simp) ?_
      cases did <;> simp
  | answer call => exact o.move call rfl rfl (by simp) (by simp)
  | dropFuture | promise | forget | wait | waitWithin | goOn | abandon | contexts =>
      exact o.congr rfl rfl rfl rfl

end Ordered

lemma Opens.ordered (h : e.Opens) : e.Ordered := by
  obtain ⟨log, contexts, -, rfl⟩ := h
  constructor <;> simp

lemma Leads.ordered (h : Leads e e') (o : e.Ordered) : e'.Ordered := by
  induction h with
  | refl => exact o
  | tail _ step ih => exact ih.step step

/-! ## What is later -/

/-- What a step leaves: the calls that have taken effect stay the first, and no call turns into
another. -/
lemma Step.order (h : Step e e') : (∃ more, e'.order = e.order ++ more) ∧
    ∀ (i : Nat) (call : Call α), e.calls[i]? = some call →
      ∃ call' : Call α, e'.calls[i]? = some call' ∧ call'.how = call.how := by
  have hset : ∀ {place : Nat} {how : Settlement α} {p p' : CallPhase},
      e.calls[place]? = some ⟨how, p⟩ → ∀ (i : Nat) (call : Call α), e.calls[i]? = some call →
        ∃ call' : Call α, (e.calls.set place ⟨how, p'⟩)[i]? = some call' ∧
          call'.how = call.how := by
    intro place how p p' hplace i call hcall
    by_cases hi : i = place
    · subst hi
      cases hplace.symm.trans hcall
      exact ⟨_, (getElem?_set_of_some hplace).mpr (.inl ⟨rfl, rfl⟩), rfl⟩
    · exact ⟨call, (getElem?_set_of_some hplace).mpr (.inr ⟨hi, hcall⟩), rfl⟩
  cases h with
  | call how owned =>
      exact ⟨⟨[], (List.append_nil _).symm⟩, fun i call hcall =>
        ⟨call, getElem?_append_singleton.mpr (.inl hcall), rfl⟩⟩
  | decide call result => exact ⟨⟨_, rfl⟩, hset call⟩
  | report call => exact ⟨⟨[], (List.append_nil _).symm⟩, hset call⟩
  | answer call => exact ⟨⟨[], (List.append_nil _).symm⟩, hset call⟩
  | dropFuture | promise | forget | wait | waitWithin | goOn | abandon | contexts =>
      exact ⟨⟨[], (List.append_nil _).symm⟩, fun i call hcall => ⟨call, hcall, rfl⟩⟩

lemma Leads.head? (h : Leads e e') {i : Nat} (hi : e.order.head? = some i) :
    e'.order.head? = some i := by
  induction h with
  | refl => exact hi
  | tail _ step ih =>
      obtain ⟨more, hmore⟩ := step.order.1
      rw [hmore, List.head?_append, ih, Option.some_or]

lemma Leads.how (h : Leads e e') {i : Nat} {call : Call α} (hcall : e.calls[i]? = some call) :
    ∃ call', e'.calls[i]? = some call' ∧ call'.how = call.how := by
  induction h with
  | refl => exact ⟨call, hcall, rfl⟩
  | tail _ step ih =>
      obtain ⟨call', hcall', hhow⟩ := ih
      obtain ⟨call'', hcall'', hhow'⟩ := step.order.2 i call' hcall'
      exact ⟨call'', hcall'', hhow'.trans hhow⟩

/-! ## Nothing in between -/

/-- A call with which nothing interferes takes effect, reports and returns. -/
lemma exists_leads_call {how : Settlement α} {did : Bool} {c : Cell α}
    (owned : e.cell.owned = true) (result : e.cell.attempt how = (did, c)) :
    ∃ e', Leads e e' ∧ e'.cell = c ∧ e'.calls = e.calls ++ [⟨how, .returned did⟩] ∧
      e'.events = e.events ++ if did then [(e.calls.length, .ofSettlement how)] else [] := by
  have hlast : ∀ p : CallPhase, (e.calls ++ [⟨how, p⟩])[e.calls.length]? = some ⟨how, p⟩ := by
    simp
  have hset : ∀ p p' : CallPhase, (e.calls ++ [Call.mk how p]).set e.calls.length ⟨how, p'⟩ =
      e.calls ++ [⟨how, p'⟩] := by simp
  have hbegun : Leads e { e with calls := e.calls ++ [{ how }] } := .single (.call how owned)
  have hdecided := hbegun.tail (.decide (hlast _) result)
  rw [hset] at hdecided
  have hreported := hdecided.tail (.report (hlast _))
  rw [hset] at hreported
  have hreturned := hreported.tail (.answer (hlast _))
  rw [hset] at hreturned
  refine ⟨_, hreturned, rfl, rfl, ?_⟩
  cases did <;> simp

/-- Settling a cell in a store is such a call. -/
lemma exists_leads_settle {e : Exchange Datum} {s s' : Store} {cell : Nat} {how : Settlement Datum}
    {did : Bool} (there : s.cells[cell]? = some e.cell)
    (settled : s.settle cell how = (some did, s')) :
    ∃ e' reported, Leads e e' ∧ s'.cells[cell]? = some e'.cell ∧
      e'.calls = e.calls ++ [⟨how, .returned did⟩] ∧
      e'.events = e.events ++ reported ∧ s'.events = s.events ++ reported.map (·.2) := by
  have howned : e.cell.owned = true := by
    by_contra hgone
    simp [Store.settle, there, hgone] at settled
  have hcell : cell < s.cells.length := (List.getElem?_eq_some_iff.mp there).1
  rcases hresult : e.cell.attempt how with ⟨did', c⟩
  simp only [Store.settle, there, howned, if_true, hresult, Prod.mk.injEq,
    Option.some.injEq] at settled
  obtain ⟨rfl, rfl⟩ := settled
  obtain ⟨e', leads, rfl, hcalls, hevents⟩ := exists_leads_call howned hresult
  refine ⟨e', _, leads, ?_, hcalls, hevents, ?_⟩
  · cases did' <;> simp [Store.note, hcell]
  · cases did' <;> simp [Store.note, Store.events]

/-! ## What is seen -/

/-- Whatever is left to see a cell through shows the same. -/
lemma look?_eq {v : View} {g : Glimpse α} (h : e.look? v = some g) : g = e.cell.glimpse := by
  cases v <;> simp only [look?, Option.ite_none_right_eq_some, Option.some.injEq] at h
  · exact h.2.symm
  · exact h.2.symm

/-- **A cell is settled once, and all views agree for ever.**  Take any exchange that one around a
new cell leads to.

* Of the calls that have taken effect the first one has settled the cell, and no other.
* As long as none has taken effect nothing was reported, and all views show a pending cell.
* From then on the first call has reported once what it did, as soon as it has come past that
  point, that the cell got its value or that it was cancelled, and nobody else has reported
  anything.  All views show what that call has made of the cell, now and whatever happens later, be
  it that the future is dropped.
* No view shows a cell both set and cancelled, and a view has a value if and only if it shows the
  cell set.
* Dropping the future changes nothing in what the promises show. -/
theorem settled_once {e₀ : Exchange α} (opens : e₀.Opens) (leads : Leads e₀ e) :
    (∀ i, i ∈ e.order ↔ ∃ call, e.calls[i]? = some call ∧ call.phase.did?.isSome = true) ∧
    (∀ i call did, e.calls[i]? = some call → call.phase.did? = some did →
      (did = true ↔ e.order.head? = some i)) ∧
    (e.order = [] → e.events = [] ∧ ∀ v g, e.look? v = some g → g = .pending) ∧
    (∀ i, e.order.head? = some i → ∃ call, e.calls[i]? = some call ∧
      (call.phase = .decided true → e.events = []) ∧
      (call.phase ≠ .decided true →
        (∀ v, call.how = .value v → e.events = [(i, .futureSettled)]) ∧
        (call.how = .cancelled → e.events = [(i, .futureCanceled)])) ∧
      ∀ e', Leads e e' → e'.order.head? = some i ∧
        ∀ v g, e'.look? v = some g → g = call.how.glimpse) ∧
    (∀ v g, e.look? v = some g →
      (g.isSet && g.isCancelled) = false ∧ g.value.isSome = g.isSet) ∧
    ∀ place, e.dropFuture.look? (.promise place) = e.look? (.promise place) := by
  have o := leads.ordered opens.ordered
  refine ⟨o.decided, fun i call did hcall hdid => ?_, fun horder => ?_, fun i hi => ?_,
    fun v g hg => ?_, fun place => rfl⟩
  · refine ⟨?_, fun hi => ?_⟩
    · rintro rfl
      exact o.winner i call hcall hdid
    · obtain ⟨call', hcall', hdid', -⟩ := o.first i hi
      cases hcall.symm.trans hcall'
      exact Option.some.inj (hdid.symm.trans hdid')
  · obtain ⟨hslot, hevents⟩ := o.pending horder
    exact ⟨hevents, fun v g hg => (look?_eq hg).trans (Cell.glimpse_of_pending hslot)⟩
  · obtain ⟨call, hcall, -, -, hevents⟩ := o.first i hi
    refine ⟨call, hcall, fun hphase => by simp [hevents, hphase],
      fun hphase => ⟨fun v hhow => ?_, fun hhow => ?_⟩,
      fun e' leads' => ⟨leads'.head? hi, fun v g hg => ?_⟩⟩
    · rw [hevents, if_neg hphase, hhow, Event.ofSettlement]
    · rw [hevents, if_neg hphase, hhow, Event.ofSettlement]
    -- The first call is still the first, and still the same.
    obtain ⟨call', hcall', -, hslot', -⟩ := (leads'.ordered o).first i (leads'.head? hi)
    obtain ⟨call'', hcall'', hhow⟩ := leads'.how hcall
    cases hcall'.symm.trans hcall''
    rw [look?_eq hg, Cell.glimpse_of_slot (hslot'.trans (congrArg _ hhow))]
  · rw [look?_eq hg]
    exact e.cell.glimpse_consistent

/-- A call that is to set a cell and one that is to cancel it have begun; the second one took effect
first, then the other one, and neither has reported yet. -/
def raced : Exchange Nat where
  cell := ⟨.cancelled, true⟩
  calls := [⟨.value 1, .decided false⟩, ⟨.cancelled, .decided true⟩]
  order := [1, 0]
  promises := [true]

/-- The call that took effect first has told what it did and returned; the other one is still under
way. -/
def announced : Exchange Nat where
  cell := ⟨.cancelled, true⟩
  calls := [⟨.value 1, .decided false⟩, ⟨.cancelled, .returned true⟩]
  order := [1, 0]
  events := [(1, .futureCanceled)]
  promises := [true]

/-- The cell is cancelled, and will be for ever.  At first that is yet to be reported; it has been
when the call returns. -/
theorem settled_once_raced :
    Opens ({ } : Exchange Nat) ∧ Leads { } raced ∧ raced.events = [] ∧ Leads raced announced ∧
      announced.events = [(1, .futureCanceled)] ∧
      ∀ e', Leads raced e' → ∀ v g, e'.look? v = some g → g = ⟨false, true, none⟩ := by
  have hopens : Opens ({ } : Exchange Nat) := ⟨[], { }, ⟨0, .refl⟩, rfl⟩
  have hbegun : Leads ({ } : Exchange Nat)
      { calls := [⟨.value 1, .begun⟩, ⟨.cancelled, .begun⟩], promises := [true] } :=
    ((Relation.ReflTransGen.single (.promise (v := .future) rfl)).tail (.call (.value 1) rfl)).tail
      (.call .cancelled rfl)
  have hleads : Leads ({ } : Exchange Nat) raced :=
    (hbegun.tail (.decide (i := 1) rfl rfl)).tail (.decide (i := 0) rfl rfl)
  have hon : Leads raced announced :=
    (Relation.ReflTransGen.single (.report (i := 1) rfl)).tail (.answer (i := 1) rfl)
  obtain ⟨-, -, -, hfirst, -⟩ := settled_once hopens hleads
  obtain ⟨call, hcall, hnotYet, -, hlater⟩ := hfirst 1 rfl
  cases hcall
  obtain ⟨-, -, -, hfirst, -⟩ := settled_once hopens (hleads.trans hon)
  obtain ⟨call, hcall, -, hreported, -⟩ := hfirst 1 rfl
  cases hcall
  exact ⟨hopens, hleads, hnotYet rfl, hon, (hreported (by decide)).2 rfl,
    fun e' leads => (hlater e' leads).2⟩

end Exchange

end Workflow
