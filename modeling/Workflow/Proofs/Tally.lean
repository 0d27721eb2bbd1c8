import Workflow.Proofs.Updates
import Workflow.Proofs.Alone
import Workflow.Proofs.FiniteMap

/-!
# What a process has still to make

The tally of a value: which updates somebody has still to make of it, and how that changes with what
a run does.

* **The value.**  `Store.Holds` says what the value is now.  Only an access to its state and key can
  change it (`Store.Holds.perform?`, `Store.Holds.accessed`, `Store.Holds.updated`).
* **Processes.**  `Proc.Makes` says which updates the rest of an action has still to make.  What has
  been made so far is on the value: code that goes on from a value makes some of its updates, and
  what is left of them is what its process has to make (`Made`).
* **Parts of runs.**  A concurrent run hands the updates of its queue to the children that it admits
  and has none left when it ends (`Dispatch.advance_makes`); bodies and linear runs go on after one
  of their parts (`Body.after_makes`, `afterChild_makes`).
-/

namespace Workflow

open Store

/-! ## The value at a spot -/

lemma SharedMap.find?_perform_of_spares (m : RunState) {op : StateOp} {key : String}
    (spares : op.Spares key) : (m.perform op).2.map.find? key = m.map.find? key := by
  cases op with
  | insert other v =>
      have hne : key ≠ other := fun h => spares h.symm
      simp [perform, write, TypedMap.find?_insert, hne]
  | remove other =>
      have hne : key ≠ other := fun h => spares h.symm
      simp [perform, write, TypedMap.find?_erase, hne]
  | update other k f =>
      have hne : key ≠ other := fun h => spares h.symm
      simp [perform, write, TypedMap.find?_update, hne]
  | getOrInsert other k init =>
      have hne : key ≠ other := fun h => spares h.symm
      simp only [perform, write, recovered_eq, TypedMap.find?_getOrInsert]
      split <;> simp [hne]
  | get | contains | len | isEmpty | keys | describe => rfl

/-- The state with the number `n` has the value `v` at a spot, and tasks can be spawned. -/
structure Store.Holds (n : Nat) (t : Spot) (v : t.kind.Carrier) (s : Store) : Prop where
  isOpen : s.closed = false
  value : (s.stateOf n).map.find? t.key = some ⟨t.kind, v⟩

/-- The store after an access to the state with the number `n`. -/
def Store.accessed (s : Store) (n : Nat) (op : StateOp) : Store :=
  { s with states := s.states.set n ((s.stateOf n).perform op).2 }

lemma Store.stateOf_accessed (s : Store) {n m : Nat} (h : n < s.states.length) (op : StateOp) :
    (s.accessed m op).stateOf n = if m = n then ((s.stateOf n).perform op).2 else s.stateOf n := by
  simp only [stateOf, accessed, List.getD_eq_getElem?_getD, List.getElem?_set]
  by_cases hm : m = n
  · subst hm
    simp [h]
  · simp [hm]

lemma Body.resume_state (env : Env) (guards : List Guard) (s : Store) (op : StateOp)
    (next : StateReply → Body) :
    (Body.ask (.state op) next).resume env guards s =
      (next ((s.stateOf env.state).perform op).1).resume env guards (s.accessed env.state op) := by
  rw [Body.resume]
  rfl

lemma Body.acts_ask {env : Env} {guards : List Guard} {s s' : Store} {e : Effect}
    {next : e.Reply → Body} {reply : e.Reply} (granted : s.perform? env e = some (reply, s')) :
    (Body.ask e next).acts env guards s =
      s.act env.context (.ask e reply) :: (next reply).acts env guards s' := by
  rw [Body.acts, granted]

namespace Store.Holds

variable {n : Nat} {t : Spot} {v : t.kind.Carrier} {s s' : Store} {env : Env}

lemma of_eq (h : s.Holds n t v) (states : s'.states = s.states) (isOpen : s'.closed = s.closed) :
    s'.Holds n t v :=
  ⟨isOpen.trans h.isOpen, by rw [stateOf, states]; exact h.value⟩

/-- A state with a value is one that was made. -/
lemma lt (h : s.Holds n t v) : n < s.states.length := by
  by_contra hle
  have hvalue := h.value
  rw [stateOf, List.getD_eq_default _ _ (Nat.le_of_not_lt hle)] at hvalue
  cases hvalue

lemma newState (h : s.Holds n t v) (m : RunState) : (s.newState m).2.Holds n t v := by
  refine ⟨h.isOpen, ?_⟩
  rw [stateOf, Store.newState, List.getD_append _ _ _ _ h.lt]
  exact h.value

lemma endGuards (h : s.Holds n t v) (gs : List Guard) : (s.endGuards gs).Holds n t v := by
  induction gs generalizing s with
  | nil => exact h
  | cons g gs ih =>
      refine ih (s := s.endGuard g) ?_
      cases g <;> exact h.of_eq rfl rfl

lemma raiseGuard (h : s.Holds n t v) (g : Guard) : (s.raiseGuard g).Holds n t v := by
  cases g <;> exact h.of_eq rfl rfl

lemma mark (h : s.Holds n t v) (run : Nat) (m : Mark) : (s.mark run m).Holds n t v :=
  h.of_eq rfl rfl

/-- A run begins. -/
lemma newRun (h : s.Holds n t v) (a : Action) (event : Event) :
    ((s.newRun a).2.report s.runs event).Holds n t v :=
  h.of_eq rfl rfl

lemma leave (h : s.Holds n t v) (handle : Option Nat) : (s.leave handle).Holds n t v := by
  cases handle <;> exact h.of_eq rfl rfl

lemma enter (h : s.Holds n t v) (env : Env) (under : Under) :
    (s.enter env under).2.2.Holds n t v ∧ (s.enter env under).1.state = env.state := by
  cases under <;> exact ⟨h.of_eq rfl rfl, rfl⟩

/-- An access that spares the key, or is to another state. -/
lemma accessed (h : s.Holds n t v) {m : Nat} {op : StateOp} (spares : m = n → op.Spares t.key) :
    (s.accessed m op).Holds n t v := by
  refine ⟨h.isOpen, ?_⟩
  rw [s.stateOf_accessed h.lt]
  split_ifs with hm
  · exact (SharedMap.find?_perform_of_spares _ (spares hm)).trans h.value
  · exact h.value

/-- The updates that somebody makes take turns. -/
lemma updated (h : s.Holds n t v) {g : t.kind.Carrier → t.kind.Carrier × Attempt Reading}
    {v' : t.kind.Carrier} {r : Reading} (returns : g v = (v', .returned r)) :
    ((s.stateOf n).perform (.update t.key t.kind g)).1 = .updated (some (.returned r)) ∧
      (s.accessed n (.update t.key t.kind g)).Holds n t v' := by
  have hget : (s.stateOf n).map.get? t.key t.kind = some v := by
    simp [TypedMap.get?, h.value, TypedMap.cast?]
  refine ⟨?_, h.isOpen, ?_⟩
  · simp [SharedMap.perform, SharedMap.write, TypedMap.update, hget, returns]
  · rw [s.stateOf_accessed h.lt, if_pos rfl]
    simp [SharedMap.perform, SharedMap.write, TypedMap.update, hget, returns,
      TypedMap.find?_insert]

/-- Whatever else is granted. -/
lemma perform? (h : s.Holds n t v) {e : Effect} (other : ∀ op, e ≠ .state op) {reply : e.Reply}
    (granted : s.perform? env e = some (reply, s')) : s'.Holds n t v := by
  cases e <;> simp only [Store.perform?, Option.some.injEq, Prod.mk.injEq] at granted
  case state op => exact absurd rfl (other op)
  case clock | deadline | isCancelled | cancel | log | record =>
    obtain ⟨-, rfl⟩ := granted
    exact h.of_eq rfl rfl
  case settle cell how =>
    obtain ⟨-, -, hstates⟩ := s.suffer_eq (.settle cell how)
    have hs' : s' = s.suffer (.settle cell how) := by rw [suffer, granted]
    rw [hs']
    exact h.of_eq hstates (s.sameRuns_suffer _).closed
  case await =>
    obtain ⟨v, -, hv⟩ := Option.map_eq_some_iff.mp granted
    cases hv
    exact h
  all_goals
    split_ifs at granted <;> cases granted <;> exact h

end Store.Holds

/-! ## Endings -/

section

variable {t : Spot} {w : Ending} {fs gs : List t.Update} {fss : List (List t.Update)} {e : Exit}

lemma Ending.Fits.of_subset (h : w.Fits fs) (subset : gs ⊆ fs) : w.Fits gs := by
  rcases h with h | rfl
  · exact .inl h
  · exact .inr (List.subset_nil.mp subset)

lemma Ending.Fits.below (h : w.Fits fss.flatten) (mem : fs ∈ fss) : w.below.Fits fs := by
  have hsubset : fs ⊆ fss.flatten := fun f hf => List.mem_flatten_of_mem mem hf
  rcases h.of_subset hsubset with rfl | h
  · exact .inl rfl
  · exact .inr h

/-- What does not end in success has no updates to make. -/
lemma Ending.Fits.eq_nil (h : w.Fits fs) (admits : w.Admits e) (hne : e ≠ .done) : fs = [] := by
  rcases h with rfl | h
  · exact absurd admits hne
  · exact h

end

/-! ## Processes -/

section

variable (ok : Doing → Prop) (n : Nat) (t : Spot)

/-- Whether the state that code has access to is the one with the number `n`. -/
def Env.has (env : Env) : Bool :=
  env.state == n

/-- What a child has to make that has not started or has ended. -/
def Child.MakesIdle (mine : Bool) (w : Ending) : Child → List t.Update → Prop
  | .spawned _ a, fs => a.Makes ok t mine w fs
  | .running _ _ _, _ => True
  | .ended _ e, fs => fs = [] ∧ w.Admits e
  | .lost _, _ => False

/-- The state of a concurrent run whose children, those in the queue included, have to make updates
that commute with each other. -/
structure Dispatch.Makes (w : Ending) (d : Dispatch) (items : List (Child × List t.Update))
    (fss : List (List t.Update)) : Prop where
  queue : List.Forall₂ (Action.Makes ok t (d.env.has n) w.below) d.queue fss
  commute : (items.map (·.2) ++ fss).Pairwise Commuting
  failure : w = .success → d.failure = none
  collected_le : d.collected ≤ items.length
  collected : ∀ x ∈ items.take d.collected, x.1.isLive = false
  idle : ∀ x ∈ items, x.1.MakesIdle ok t (d.env.has n) w.below x.2

/-- The process makes the updates `fs` from here on. -/
inductive Proc.Makes : Ending → Proc → List t.Update → Prop where
  | leaf {w : Ending} {env : Env} {guards : List Guard} {body : Body} {fs : List t.Update}
      (rest : body.Makes ok t (env.has n) w fs) : Makes w (.leaf env guards body) fs
  | within {w w' : Ending} {env : Env} {guards : List Guard} {handle : Option Nat} {p : Proc}
      {next : Option Failure → Body} {fs gs : List t.Update} (inner : Makes w' p fs)
      (fits : w'.Fits fs) (panics : w' = .any → w = .any)
      (rest : ∀ f, w'.Admits (.ofResult f) → (next f).Makes ok t (env.has n) w gs) :
      Makes w (.within env guards handle p next) (fs ++ gs)
  | linear {w : Ending} {run : Nat} {env : Env} {index : Nat} {name : String} {p : Proc}
      {rest : List Action} {fs : List t.Update} {fss : List (List t.Update)}
      (current : Makes w p fs) (after : List.Forall₂ (Action.Makes ok t (env.has n) w) rest fss) :
      Makes w (.linear run env index name p rest) (fs ++ fss.flatten)
  | concurrent {w : Ending} {d : Dispatch} {items : List (Child × List t.Update)}
      {fss : List (List t.Update)} (dispatch : d.Makes ok n t w items fss)
      (below : ∀ task name p fs, (.running task name p, fs) ∈ items → Makes w.below p fs) :
      Makes w (.concurrent d (items.map (·.1))) (items.map (·.2) ++ fss).flatten

/-- The child makes the updates `fs` from here on. -/
def Child.Makes (mine : Bool) (w : Ending) : Child → List t.Update → Prop
  | .running _ _ p, fs => p.Makes ok n t w fs
  | child, fs => child.MakesIdle ok t mine w fs

/-- Code that has gone on from the value `v` has made some of the updates `fs`, and has to make the
others. -/
def Made (w : Ending) (fs : List t.Update) (v : t.kind.Carrier) : Store × Progress → Prop
  | (s, .paused p) => ∃ es gs, Spends fs es gs ∧ s.Holds n t (applyAll es v) ∧ p.Makes ok n t w gs
  | (s, .ended e) => ∃ es, Spends fs es [] ∧ s.Holds n t (applyAll es v) ∧ w.Admits e

end

section

variable {ok : Doing → Prop} {n : Nat} {t : Spot} {mine : Bool} {w w' : Ending}
  {fs gs es : List t.Update} {fss : List (List t.Update)} {v : t.kind.Carrier} {s : Store} {env : Env} {d : Dispatch}
  {items : List (Child × List t.Update)} {out : Store × Progress}

/-- The children of a run, of which the running ones are known by their processes. -/
lemma Dispatch.Makes.all (makes : d.Makes ok n t w items fss) (below : ∀ task name p fs,
    (.running task name p, fs) ∈ items → p.Makes ok n t w.below fs) :
    ∀ x ∈ items, x.1.Makes ok n t (d.env.has n) w.below x.2 := by
  rintro ⟨child, fs⟩ hx
  cases child with
  | running task name p => exact below task name p fs hx
  | spawned | ended | lost => exact makes.idle _ hx

lemma Proc.makes_concurrent {children : List Child} :
    (Proc.concurrent d children).Makes ok n t w fs ↔ ∃ items fss,
      children = items.map (·.1) ∧ fs = (items.map (·.2) ++ fss).flatten ∧
        d.Makes ok n t w items fss ∧ ∀ x ∈ items, x.1.Makes ok n t (d.env.has n) w.below x.2 := by
  constructor
  · intro h
    cases h with
    | concurrent dispatch below => exact ⟨_, _, rfl, rfl, dispatch, dispatch.all below⟩
  · rintro ⟨items, fss, rfl, rfl, dispatch, all⟩
    exact .concurrent dispatch fun task name p fs hp => all _ hp

lemma Made.of_spends (spends : Spends fs es gs) (made : Made ok n t w gs (applyAll es v) out) :
    Made ok n t w fs v out := by
  obtain ⟨s, p | e⟩ := out
  · obtain ⟨ds, hs, hspends, holds, hp⟩ := made
    exact ⟨es ++ ds, hs, spends.trans hspends, by rwa [applyAll_append], hp⟩
  · obtain ⟨ds, hspends, holds, admits⟩ := made
    exact ⟨es ++ ds, spends.trans hspends, by rwa [applyAll_append], admits⟩

/-- The end of code that has nothing left to make. -/
lemma Made.ended {e : Exit} (holds : s.Holds n t v) (admits : w.Admits e) :
    Made ok n t w [] v (s, .ended e) :=
  ⟨[], .refl [], holds, admits⟩

/-! ## Dispatch -/

/-- Children are admitted, and have to make what they had to in the queue. -/
lemma Dispatch.admitAll_makes (queue : List Action) (h : s.Holds n t v)
    (makes : { d with queue }.Makes ok n t w items fss)
    (all : ∀ x ∈ items, x.1.Makes ok n t (d.env.has n) w.below x.2) :
    ∃ items' fss', (d.admitAll queue (items.map (·.1)) s).2.1 = items'.map (·.1) ∧
      items'.map (·.2) ++ fss' = items.map (·.2) ++ fss ∧
      (d.admitAll queue (items.map (·.1)) s).1.Makes ok n t w items' fss' ∧
      (∀ x ∈ items', x.1.Makes ok n t (d.env.has n) w.below x.2) ∧
      (d.admitAll queue (items.map (·.1)) s).1.env = d.env ∧
      (d.admitAll queue (items.map (·.1)) s).2.2.Holds n t v := by
  induction queue generalizing d items fss s with
  | nil => exact ⟨items, fss, rfl, rfl, makes, all, rfl, h⟩
  | cons a rest ih =>
      obtain ⟨run, env, gate, q, collected, failure⟩ := d
      rw [Dispatch.admitAll]
      rcases gate with - | - | free
      · exact ⟨items, fss, rfl, rfl, makes, all, rfl, h⟩
      · exact ⟨items, fss, rfl, rfl, makes, all, rfl, h⟩
      · obtain ⟨queue, commute, failures, le, collected', idle⟩ := makes
        obtain ⟨fs, fss, ha, hrest, rfl⟩ := List.forall₂_cons_left_iff.mp queue
        dsimp only
        set task := s.contexts.supply
        have hlists : (items ++ [(Child.spawned task a, fs)]).map (·.2) ++ fss =
            items.map (·.2) ++ fs :: fss := by simp
        have hmakes : ({ run, env, gate := some free, queue := rest, collected, failure }
            : Dispatch).Makes ok n t w (items ++ [(.spawned task a, fs)]) fss := by
          refine ⟨hrest, by rwa [hlists], failures, le.trans (by simp), ?_, ?_⟩
          · rwa [List.take_append_of_le_length le]
          · exact List.forall_mem_append.mpr ⟨idle, List.forall_mem_singleton.mpr ha⟩
        have hall : ∀ x ∈ items ++ [(Child.spawned task a, fs)],
            x.1.Makes ok n t (env.has n) w.below x.2 :=
          List.forall_mem_append.mpr ⟨all, List.forall_mem_singleton.mpr ha⟩
        obtain ⟨items', fss', hchildren, hsame, hdone⟩ := ih
          (d := { run, env, gate := some free, queue := q, collected, failure })
          (s := ((s.report run (.throttledAdmit (items.map (·.1)).length a.name)).newTask
            env.context).2.mark run (.spawned (items.map (·.1)).length a))
          (h.of_eq rfl rfl) hmakes hall
        rw [List.map_append] at hchildren hdone
        exact ⟨items', fss', hchildren, hsame.trans hlists, hdone⟩

/-- What has changed once the ends of the children `cs` were collected, up to the first one that
has not ended. -/
structure Dispatch.Collects (w : Ending) (cs : List Child) (d d' : Dispatch) (complete : Bool) :
    Prop where
  env : d'.env = d.env
  queue : d'.queue = d.queue
  failure : w = .success → d.failure = none → d'.failure = none
  collected : ∃ k ≤ cs.length, d'.collected = d.collected + k ∧
    ∀ child ∈ cs.take k, child.isLive = false
  complete : complete = true → ∀ child ∈ cs, child.isLive = false

/-- One more end was there to collect. -/
lemma Dispatch.Collects.cons {cs : List Child} {child : Child} {failure : Option Failure}
    {d' : Dispatch} {complete : Bool} (hlive : child.isLive = false)
    (hfailure : w = .success → d.failure = none → failure = none)
    (h : Collects w cs { d with collected := d.collected + 1, failure } d' complete) :
    Collects w (child :: cs) d d' complete where
  env := h.env
  queue := h.queue
  failure hw hd := h.failure hw (hfailure hw hd)
  collected := by
    obtain ⟨k, hk, heq, htake⟩ := h.collected
    refine ⟨k + 1, Nat.succ_le_succ hk, ?_, List.forall_mem_cons.mpr ⟨hlive, htake⟩⟩
    rw [heq]
    dsimp only
    omega
  complete hc := List.forall_mem_cons.mpr ⟨hlive, h.complete hc⟩

/-- Ends of children are collected, none of them a failure if the children succeed. -/
lemma Dispatch.collect_makes (cs : List Child) (h : s.Holds n t v)
    (admits : w = .success → ∀ child ∈ cs, child.failure? = none) :
    (d.collect cs s).2.1.Holds n t v ∧
      Collects w cs d (d.collect cs s).1 (d.collect cs s).2.2 := by
  induction cs generalizing d s with
  | nil => exact ⟨h, rfl, rfl, fun _ hd => hd, ⟨0, by simp, rfl, by simp⟩, by simp⟩
  | cons child rest ih =>
      have hrest := fun hw => (List.forall_mem_cons.mp (admits hw)).2
      rw [Dispatch.collect]
      cases hverdict : child.verdict? with
      | none => exact ⟨h, rfl, rfl, fun _ hd => hd, ⟨0, by simp, rfl, by simp⟩, by simp⟩
      | some verdict =>
          obtain ⟨hlive, hfailure⟩ := Child.isLive_of_verdict? hverdict
          cases verdict with
          | none =>
              obtain ⟨hholds, hcollects⟩ :=
                ih (d := { d with collected := d.collected + 1 }) h hrest
              exact ⟨hholds, .cons hlive (fun _ hd => hd) hcollects⟩
          | some f =>
              obtain ⟨hholds, hcollects⟩ := ih (d := { d with
                collected := d.collected + 1, failure := d.failure <|> some f })
                (s := s.report d.run (.childFailed d.runner child.name f.message))
                (h.of_eq rfl rfl) hrest
              refine ⟨hholds, .cons hlive (fun hw _ => ?_) hcollects⟩
              have hnone := (List.forall_mem_cons.mp (admits hw)).1
              rw [hfailure] at hnone
              cases hnone

/-- A child that has ended has nothing left to make. -/
lemma Child.Makes.eq_nil {child : Child} (h : child.Makes ok n t mine w fs)
    (hlive : child.isLive = false) : fs = [] := by
  cases child with
  | ended name e => exact h.1
  | spawned | running => cases hlive
  | lost => exact h.elim

/-- A child that succeeds does not fail. -/
lemma Child.Makes.failure?_eq {child : Child} (h : child.Makes ok n t mine .success fs) :
    child.failure? = none := by
  cases child with
  | ended name e =>
      have he : e = .done := h.2
      rw [he]
      rfl
  | spawned | running => rfl
  | lost => exact h.elim

lemma Dispatch.Makes.collects {d' : Dispatch} {complete : Bool} (h : d.Makes ok n t w items fss)
    (collects : Collects w ((items.map (·.1)).drop d.collected) d d' complete) :
    d'.Makes ok n t w items fss where
  queue := by rw [collects.queue, collects.env]; exact h.queue
  commute := h.commute
  failure hw := collects.failure hw (h.failure hw)
  collected_le := by
    obtain ⟨k, hk, heq, -⟩ := collects.collected
    have hle := h.collected_le
    simp only [List.length_drop, List.length_map] at hk
    omega
  collected x hx := by
    obtain ⟨k, -, heq, htake⟩ := collects.collected
    rw [heq, List.take_add, List.mem_append] at hx
    rcases hx with hx | hx
    · exact h.collected x hx
    · refine htake x.1 ?_
      rw [← List.map_drop, ← List.map_take]
      exact List.mem_map_of_mem hx
  idle := by rw [collects.env]; exact h.idle

lemma Ending.admits_ofResult {f : Option Failure} (h : w = .success → f = none) :
    w.Admits (.ofResult f) := by
  cases w with
  | success => rw [h rfl]; rfl
  | returned => cases f <;> simp [Admits, Exit.ofResult]
  | any => trivial

/-- A concurrent run goes on. -/
theorem Dispatch.advance_makes (h : s.Holds n t v) (makes : d.Makes ok n t w items fss)
    (all : ∀ x ∈ items, x.1.Makes ok n t (d.env.has n) w.below x.2) :
    Made ok n t w (items.map (·.2) ++ fss).flatten v (d.advance (items.map (·.1)) s) := by
  rw [Dispatch.advance, d.refused?_eq_none h.isOpen]
  obtain ⟨items', fss', hchildren, hsame, hmakes, hall, henv, hholds⟩ :=
    Dispatch.admitAll_makes (d := d) d.queue h makes all
  dsimp only
  rw [← hsame]
  generalize d.admitAll d.queue (items.map (·.1)) s = out at hchildren hmakes henv hholds ⊢
  obtain ⟨d', children', s'⟩ := out
  dsimp only at hchildren hmakes henv hholds ⊢
  subst hchildren
  obtain ⟨hholds', hcollects⟩ := Dispatch.collect_makes (d := d') (w := w)
    ((items'.map (·.1)).drop d'.collected) hholds fun hw child hchild => by
      obtain ⟨x, hx, rfl⟩ := List.mem_map.mp (List.mem_of_mem_drop hchild)
      have := hall x hx
      rw [hw] at this
      exact this.failure?_eq
  split_ifs with hqueue hcomplete
  · have hnil : (items'.map (·.2) ++ fss').flatten = [] := by
      have hfss : fss' = [] := by
        have hforall := hmakes.queue
        rw [List.isEmpty_iff.mp hqueue] at hforall
        exact List.forall₂_nil_left_iff.mp hforall
      rw [hfss, List.append_nil, List.flatten_eq_nil_iff, List.forall_mem_map]
      intro x hx
      refine (hall x hx).eq_nil ?_
      rw [← List.take_append_drop d'.collected items'] at hx
      rcases List.mem_append.mp hx with hx | hx
      · exact hmakes.collected x hx
      · refine hcollects.complete hcomplete x.1 ?_
        rw [← List.map_drop]
        exact List.mem_map_of_mem hx
    rw [hnil]
    refine .ended (hholds'.of_eq rfl rfl) ?_
    exact Ending.admits_ofResult fun hw => hcollects.failure hw (hmakes.failure hw)
  · refine ⟨[], _, .refl _, hholds', Proc.makes_concurrent.mpr
      ⟨items', fss', rfl, rfl, hmakes.collects hcollects, by rwa [hcollects.env, henv]⟩⟩
  · exact ⟨[], _, .refl _, hholds, Proc.makes_concurrent.mpr
      ⟨items', fss', rfl, rfl, hmakes, by rwa [henv]⟩⟩

/-- A child has ended. -/
lemma Dispatch.childEnded_makes (h : s.Holds n t v) (index : Nat) (name : String) (e : Exit) :
    (d.childEnded index name e s).2.Holds n t v ∧
      (d.childEnded index name e s).1.env = d.env ∧ ∀ w items fss, d.Makes ok n t w items fss →
        (d.childEnded index name e s).1.Makes ok n t w items fss := by
  obtain ⟨run, env, gate, queue, collected, failure⟩ := d
  cases gate with
  | none => exact ⟨h.of_eq rfl rfl, rfl, fun w items fss hd => hd⟩
  | some free =>
      refine ⟨?_, rfl, fun w items fss hd => ⟨hd.queue, hd.commute, hd.failure, hd.collected_le,
        hd.collected, hd.idle⟩⟩
      unfold Dispatch.childEnded
      dsimp only
      split <;> exact h.of_eq rfl rfl

/-- All children of a run without a limit get tasks. -/
lemma Dispatch.spawnAll_makes (first : Nat) (cs : List Action) (h : s.Holds n t v)
    (makes : List.Forall₂ (Action.Makes ok t mine w) cs fss) :
    ∃ items : List (Child × List t.Update),
      (d.spawnAll first cs s).1 = items.map (·.1) ∧ items.map (·.2) = fss ∧
      (∀ x ∈ items, x.1.MakesIdle ok t mine w x.2 ∧ x.1.Makes ok n t mine w x.2) ∧
      (d.spawnAll first cs s).2.Holds n t v := by
  induction makes generalizing first s with
  | nil => exact ⟨[], rfl, rfl, by simp, h⟩
  | @cons a fs rest fss ha _ ih =>
      rw [Dispatch.spawnAll]
      obtain ⟨items, hitems, hlists, hall, hholds⟩ := ih (first + 1)
        (s := (s.newTask d.env.context).2.mark d.run (.spawned first a)) (h.of_eq rfl rfl)
      refine ⟨(.spawned s.contexts.supply a, fs) :: items, ?_, ?_, ?_, hholds⟩
      · exact congrArg _ hitems
      · exact congrArg _ hlists
      · exact List.forall_mem_cons.mpr ⟨⟨ha, ha⟩, hall⟩

/-! ## Going on after a part -/

/-- A body goes on after an action that it ran. -/
lemma Body.after_makes {guards : List Guard} {handle : Option Nat} {next : Option Failure → Body}
    (fits : w.Fits (fs ++ gs)) (made : Made ok n t w' fs v out)
    (fits' : w'.Fits fs) (panics : w' = .any → w = .any)
    (rest : ∀ f, w'.Admits (.ofResult f) → (next f).Makes ok t (env.has n) w gs)
    (only : Only ok (Body.actsAfter env guards handle next out))
    (after : ∀ f s' v', s'.Holds n t v' → (next f).Makes ok t (env.has n) w gs →
      Only ok ((next f).acts env guards s') → Made ok n t w gs v' ((next f).resume env guards s')) :
    Made ok n t w (fs ++ gs) v (Body.after env guards handle next out) := by
  obtain ⟨s', p | e⟩ := out
  · obtain ⟨es, hs, hspends, hholds, hp⟩ := made
    exact ⟨es, hs ++ gs, hspends.append gs, hholds,
      .within hp (fits'.of_subset hspends.left) panics rest⟩
  · obtain ⟨es, hspends, hholds, hadmits⟩ := made
    have hspends' : Spends (fs ++ gs) es gs := hspends.append gs
    have hleave := hholds.leave handle
    refine .of_spends hspends' ?_
    cases e with
    | done => exact after none _ _ hleave (rest none hadmits) only
    | failed f => exact after (some f) _ _ hleave (rest (some f) hadmits) only
    | panicked payload =>
        have hany : w' = .any := by
          cases w' with
          | success => cases hadmits
          | returned => exact absurd rfl (hadmits payload)
          | any => rfl
        have hw := panics hany
        have hnil : gs = [] :=
          (fits.of_subset (List.subset_append_right _ _)).resolve_left (by rw [hw]; decide)
        rw [hnil, hw]
        exact .ended (hleave.endGuards guards) trivial

/-- A body goes on with the reply to an effect that is no access to a state, or has to wait. -/
lemma Body.ask_makes {guards : List Guard} {e : Effect} {next : e.Reply → Body}
    (other : ∀ op, e ≠ .state op) (h : s.Holds n t v)
    (makes : (Proc.leaf env guards (.ask e next)).Makes ok n t w fs)
    (after : ∀ reply s', s.perform? env e = some (reply, s') → s'.Holds n t v →
      Made ok n t w fs v ((next reply).resume env guards s')) :
    Made ok n t w fs v ((Body.ask e next).resume env guards s) := by
  rw [Body.resume]
  cases hgranted : s.perform? env e with
  | none => exact ⟨[], fs, .refl fs, h, makes⟩
  | some granted => exact after _ _ hgranted (h.perform? other hgranted)

/-- A linear run stops at a child that did not succeed. -/
lemma stopLinear_makes {e : Exit} (h : s.Holds n t v) (admits : w.Admits e) (hne : e ≠ .done)
    (run index : Nat) (name : String) :
    Made ok n t w [] v (stopLinear run index name e s) := by
  cases w with
  | success => exact absurd admits hne
  | any =>
      unfold stopLinear
      dsimp only
      split <;> exact .ended (h.of_eq rfl rfl) trivial
  | returned =>
      unfold stopLinear
      dsimp only
      split
      · exact .ended (h.of_eq rfl rfl) (by simp [Ending.Admits])
      · exact .ended (h.of_eq rfl rfl) (by simp [Ending.Admits])
      · exact .ended (h.of_eq rfl rfl) admits

/-- A linear run goes on after one of its children. -/
lemma afterChild_makes {run index : Nat} {name : String} {rest : List Action}
    (fits : w.Fits (fs ++ fss.flatten)) (made : Made ok n t w fs v out)
    (queue : List.Forall₂ (Action.Makes ok t (env.has n) w) rest fss)
    (only : Only ok (actsAfterChild run env index rest out))
    (after : ∀ s' v', s'.Holds n t v' → Only ok (restActs run env (index + 1) s' rest) →
      Made ok n t w fss.flatten v' (startRest run env (index + 1) s' rest)) :
    Made ok n t w (fs ++ fss.flatten) v (afterChild run env index name rest out) := by
  obtain ⟨s', p | e⟩ := out
  · obtain ⟨es, gs, hspends, hholds, hp⟩ := made
    exact ⟨es, gs ++ fss.flatten, hspends.append _, hholds, .linear hp queue⟩
  · obtain ⟨es, hspends, hholds, hadmits⟩ := made
    refine .of_spends (hspends.append _) ?_
    rw [List.nil_append]
    have hstop : e ≠ .done → Made ok n t w fss.flatten (applyAll es v)
        (stopLinear run index name e s') := by
      intro hne
      have hnil : fss.flatten = [] :=
        (fits.of_subset (List.subset_append_right _ _)).eq_nil hadmits hne
      rw [hnil]
      exact stopLinear_makes hholds hadmits hne run index name
    cases e with
    | done => exact after _ _ (hholds.of_eq rfl rfl) only
    | failed f => exact hstop (by simp)
    | panicked payload => exact hstop (by simp)

end

end Workflow
