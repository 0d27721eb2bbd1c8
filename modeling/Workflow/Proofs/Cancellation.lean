import Workflow.Proofs.Admission
import Workflow.Proofs.Sight
import Workflow.Scenario

/-!
# Who sees a cancellation

Every action of a tree is handed a context.  `Proc.Hands` finds the contexts that were or will be
handed to the actions below a process, each with the throttled runs on the path to it.
`Proc.SeesAt` finds the points that the bodies of leaves come to in a turn of a task below a
process, and `World.Sees` has both.

As long as no leaf cancels a context itself, what such a context says is decided by the caller and
by the requests to skip the remainder that throttled runs on the path have got from children of
their own: **`World.cancellation_seen`**.

The caller is asked for little (`World.Hosts`): its context was there before, it keeps the context
while the run goes on, and what it cancels from outside was there before too.  Scenarios do so
(`Scenario.start_hosts`).
-/

namespace Workflow

open Store

/-! ## The contexts that are handed out -/

/-- The throttled runs that a concurrent run adds to the path to its children. -/
def Dispatch.scopes (d : Dispatch) : List Nat :=
  if d.gate.isSome then [d.run] else []

/-- An action below the process was or will be handed the context, and the throttled runs on the
path to it are these. -/
inductive Proc.Hands : Proc → List Nat → Context → Prop where
  | leaf {env : Env} {guards : List Guard} {body : Body} :
      Hands (.leaf env guards body) [] env.context
  | body {env : Env} {guards : List Guard} {handle : Option Nat} {inner : Proc}
      {k : Option Failure → Body} : Hands (.within env guards handle inner k) [] env.context
  | within {env : Env} {guards : List Guard} {inner : Proc} {k : Option Failure → Body}
      {above : List Nat} {c : Context} (h : Hands inner above c) :
      Hands (.within env guards none inner k) above c
  | linear {run : Nat} {env : Env} {index : Nat} {name : String} {current : Proc}
      {rest : List Action} : Hands (.linear run env index name current rest) [] env.context
  | current {run : Nat} {env : Env} {index : Nat} {name : String} {current : Proc}
      {rest : List Action} {above : List Nat} {c : Context} (h : Hands current above c) :
      Hands (.linear run env index name current rest) above c
  | concurrent {d : Dispatch} {children : List Child} :
      Hands (.concurrent d children) d.scopes d.env.context
  | child {d : Dispatch} {children : List Child} {task : Nat} {name : String} {p : Proc}
      {above : List Nat} {c : Context} (mem : .running task name p ∈ children)
      (h : Hands p above c) : Hands (.concurrent d children) (d.scopes ++ above) c

/-- When the task at the path `index :: path` below the process goes on in the store `s`, a leaf
whose context is `c` comes to a point in the store `t`, and the throttled runs on the path to it are
these. -/
inductive Proc.SeesAt (c : Context) (t s : Store) : Proc → Nat → List Nat → List Nat → Prop where
  | within {env : Env} {guards : List Guard} {inner : Proc} {k : Option Failure → Body}
      {index : Nat} {path above : List Nat} (h : SeesAt c t s inner index path above) :
      SeesAt c t s (.within env guards none inner k) index path above
  | linear {run : Nat} {env : Env} {i : Nat} {name : String} {current : Proc} {rest : List Action}
      {index : Nat} {path above : List Nat} (h : SeesAt c t s current index path above) :
      SeesAt c t s (.linear run env i name current rest) index path above
  | spawned {d : Dispatch} {children : List Child} {task : Nat} {a : Action} {index : Nat}
      (place : children[index]? = some (.spawned task a))
      (sees : a.Sees c t d.env (s.mark d.run (.started index a))) :
      SeesAt c t s (.concurrent d children) index [] d.scopes
  | running {d : Dispatch} {children : List Child} {task : Nat} {name : String} {p : Proc}
      {index : Nat} (place : children[index]? = some (.running task name p)) (sees : p.Sees c t s) :
      SeesAt c t s (.concurrent d children) index [] d.scopes
  | deeper {d : Dispatch} {children : List Child} {task : Nat} {name : String} {p : Proc}
      {index i : Nat} {path above : List Nat}
      (place : children[index]? = some (.running task name p)) (h : SeesAt c t s p i path above) :
      SeesAt c t s (.concurrent d children) index (i :: path) (d.scopes ++ above)

/-- In the world as it is, or in the course of a turn of the root or of one of its tasks, the store
is `t` and an action has the context `c`, and the throttled runs on the path to it are these. -/
inductive World.Sees (w : World) : List Nat → Context → Store → Prop where
  | between {p : Proc} {above : List Nat} {c : Context} (root : w.root = .running p)
      (h : p.Hands above c) : Sees w above c w.store
  | first {env : Env} {a : Action} {c : Context} {t : Store} (root : w.root = .unstarted env a)
      (h : a.Sees c t env w.store) : Sees w [] c t
  | root {p : Proc} {c : Context} {t : Store} (root : w.root = .running p)
      (h : p.Sees c t w.store) : Sees w [] c t
  | task {p : Proc} {index : Nat} {path above : List Nat} {c : Context} {t : Store}
      (root : w.root = .running p) (h : p.SeesAt c t w.store index path above) : Sees w above c t

section

variable {k : Caller} {o o' : Nat → Origin} {s t : Store} {c c₀ : Context} {p : Proc}
  {above : List Nat}

/-- The context of the children of a concurrent run is cancelled if that of the run is, and that of
a throttled run also if it was told to skip the remainder. -/
lemma Dispatch.PassesOn.isCancelled_iff {d : Dispatch} (h : d.PassesOn o c)
    (order : t.InOrder k o) :
    t.isCancelled d.env.context = true ↔
      t.isCancelled c = true ∨ ∃ r ∈ d.scopes, t.Skipped r := by
  unfold Dispatch.PassesOn at h
  unfold Dispatch.scopes
  split_ifs at h ⊢
  · obtain ⟨n, hn, henv⟩ := h
    rw [henv]
    simp only [Store.isCancelled, Contexts.isCancelled, Contexts.isTokenCancelled, Token.path,
      List.any_cons, Bool.or_eq_true, List.contains_iff_mem, order.scope_mem hn, List.mem_singleton,
      exists_eq_left]
    tauto
  · rw [h.1]
    simp

/-- What a context below a process says when nothing goes on. -/
lemma Proc.Hands.isCancelled_iff (hands : p.Hands above c) (under : p.Under k o s.runs c₀)
    (order : s.InOrder k o) : s.isCancelled c = true ↔
      s.isCancelled c₀ = true ∨ ∃ r ∈ above, s.Skipped r := by
  induction hands generalizing c₀ with
  | leaf | body | linear =>
      cases under
      simp
  | within _ ih =>
      cases under with
      | within _ enters inner => rw [ih inner, enters.follows.isCancelled_eq order]
  | current _ ih =>
      cases under with
      | linear _ _ _ current => exact ih current
  | concurrent => exact (Proc.under_concurrent.mp under).1.isCancelled_iff order
  | child mem _ ih =>
      obtain ⟨passes, -, -, stands⟩ := Proc.under_concurrent.mp under
      rw [ih (stands _ mem).2, passes.isCancelled_iff order, or_assoc]
      simp only [List.mem_append, or_and_right, exists_or]

/-- What the context of a leaf says in the course of a turn, when that of its task is known. -/
lemma Along.isCancelled_iff {d : Dispatch} (along : Along k o s d.env.context c t)
    (passes : d.PassesOn o c₀) (bound : d.run < s.runs) :
    ∃ o', s.Grows k o o' t ∧ (t.isCancelled c = true ↔
      t.isCancelled c₀ = true ∨ ∃ r ∈ d.scopes, t.Skipped r) := by
  obtain ⟨o', hgrows, hfollows⟩ := along
  refine ⟨o', hgrows, ?_⟩
  rw [hfollows.isCancelled_eq hgrows.order]
  exact (passes.mono bound hgrows.keeps hgrows.fresh).isCancelled_iff hgrows.order

/-- What the context of a leaf says in the course of a turn of a task below a process. -/
theorem Proc.SeesAt.isCancelled_iff {index : Nat} {path : List Nat}
    (sees : p.SeesAt c t s index path above) (under : p.Under k o s.runs c₀) (order : s.InOrder k o)
    (fair : c₀.Fair k o) : ∃ o', s.Grows k o o' t ∧ (t.isCancelled c = true ↔
      t.isCancelled c₀ = true ∨ ∃ r ∈ above, t.Skipped r) := by
  induction sees generalizing c₀ with
  | within _ ih =>
      cases under with
      | within _ enters inner =>
          obtain ⟨o', hgrows, hiff⟩ := ih inner (enters.fair fair)
          refine ⟨o', hgrows, ?_⟩
          rw [hiff, (enters.follows.keeps hgrows.keeps).isCancelled_eq hgrows.order]
  | linear _ ih =>
      cases under with
      | linear _ _ _ current => exact ih current fair
  | @spawned d children task a index place sees =>
      obtain ⟨passes, bound, -, stands⟩ := Proc.under_concurrent.mp under
      have hstarted := Grows.mark order bound (.started index a) (.inl fun i => by simp)
      exact Along.isCancelled_iff (.of_grows hstarted (Action.sees_along hstarted.order
        (passes.fair fair) a (stands _ (List.mem_of_getElem? place)).2 sees)) passes bound
  | running place sees =>
      obtain ⟨passes, bound, -, stands⟩ := Proc.under_concurrent.mp under
      exact Along.isCancelled_iff (Proc.sees_along (stands _ (List.mem_of_getElem? place)).2 order
        (passes.fair fair) sees) passes bound
  | deeper place _ ih =>
      obtain ⟨passes, bound, -, stands⟩ := Proc.under_concurrent.mp under
      obtain ⟨o', hgrows, hiff⟩ := ih (stands _ (List.mem_of_getElem? place)).2 (passes.fair fair)
      refine ⟨o', hgrows, ?_⟩
      rw [hiff, (passes.mono bound hgrows.keeps hgrows.fresh).isCancelled_iff hgrows.order,
        or_assoc]
      simp only [List.mem_append, or_and_right, exists_or]

end

/-! ## The caller -/

/-- The caller of an action: everything in the ledger of contexts was made before, the caller's own
context is held as long as the action runs, and what is cancelled from outside was there before. -/
structure World.Hosts (w : World) (c : Context) : Prop where
  path_lt : ∀ n ∈ c.token.path, n < w.store.contexts.supply
  kept : ∀ n ∈ c.timers, ∃ h ∈ w.store.contexts.held, n ∈ h.2.timers
  held_lt : ∀ h ∈ w.store.contexts.held, h.1 < w.store.contexts.supply
  running_lt : ∀ t ∈ w.store.contexts.timers, t.token.number < w.store.contexts.supply
  cancelled_lt : ∀ n ∈ w.store.contexts.cancelled, n < w.store.contexts.supply
  agenda_lt : ∀ x ∈ w.agenda, ∀ c', x.deed = .cancel c' → c'.token.number < w.store.contexts.supply

/-- What is known at the start is the caller's. -/
def Origin.atFirst (supply n : Nat) : Origin :=
  if n < supply then .caller else .unused

namespace World

/-- The root was given the context of the caller, and stands under it. -/
def Stands (k : Caller) (o : Nat → Origin) (w : World) : Prop :=
  match w.root with
  | .unstarted env a => env.context = k.context ∧ a.Gentle
  | .running p => p.Under k o w.store.runs k.context
  | _ => True

/-- Everything that was handed a context stands under it, and whatever was cancelled was cancelled
by somebody who may. -/
structure InOrder (k : Caller) (o : Nat → Origin) (w : World) : Prop where
  store : w.store.InOrder k o
  stands : w.Stands k o
  alone : w.orphans = []
  agenda : ∀ x ∈ w.agenda, ∀ c, x.deed = .cancel c → c.token.number < k.supply

variable {w w₀ v : World} {k : Caller} {o o' : Nat → Origin} {env : Env} {a : Action}

lemma Hosts.inOrder (h : w.Hosts env.context) (opens : w.Opens env a) (gentle : a.Gentle) :
    w.InOrder ⟨env.context, w.store.contexts.supply⟩
      (Origin.atFirst w.store.contexts.supply) := by
  have hold : ∀ n < w.store.contexts.supply,
      Origin.atFirst w.store.contexts.supply n = .caller := fun n hn => if_pos hn
  have hscope : ∀ n r, Origin.atFirst w.store.contexts.supply n ≠ .scope r := by
    intro n r
    unfold Origin.atFirst
    split_ifs <;> simp
  refine ⟨⟨opens.tidy, ⟨le_refl _, fun n hn => if_neg (by omega), hold, ?_, ?_, ?_⟩, ?_, ?_, ?_,
    ?_⟩, ?_, opens.orphans, h.agenda_lt⟩
  · exact fun t ht => .inl (hold _ (h.running_lt t ht))
  · intro p hp hle
    have hle : w.store.contexts.supply ≤ p.1 := hle
    have := h.held_lt p hp
    omega
  · intro n hn
    obtain ⟨p, hp, hmem⟩ := h.kept n hn
    exact ⟨p, hp, h.held_lt p hp, hmem⟩
  · exact fun n r hn => absurd hn (hscope n r)
  · exact fun n m r hn => absurd hn (hscope n r)
  · exact fun n hn => .inl (hold n (h.cancelled_lt n hn))
  · exact fun n r hn => absurd hn (hscope n r)
  · unfold Stands
    rw [opens.root]
    exact ⟨rfl, gentle⟩

/-! ## Turns and steps -/

/-- The root's own code or one of its tasks goes on. -/
theorem InOrder.takeTask (h : w.InOrder k o) {t : Turn} (task : t.isTask = true) :
    ∃ o', (w.take t).InOrder k o' ∧ w.store.Grows k o o' (w.take t).store := by
  have hstands := h.stands
  have hstay : ∃ o', w.InOrder k o' ∧ w.store.Grows k o o' w.store := ⟨o, h, .refl h.store⟩
  -- The code of the root has gone on.
  have hroot : ∀ out : Store × Progress, Moved k o w.store k.context out →
      ∃ o', ({ w with store := out.1, root := .ofProgress out.2 } : World).InOrder k o' ∧
        w.store.Grows k o o' out.1 := by
    intro out moved
    obtain ⟨s, p | e⟩ := out
    · obtain ⟨o', hgrows, hunder⟩ := moved
      exact ⟨o', ⟨hgrows.order, hunder, h.alone, h.agenda⟩, hgrows⟩
    · obtain ⟨o', hgrows⟩ := moved
      exact ⟨o', ⟨hgrows.order, trivial, h.alone, h.agenda⟩, hgrows⟩
  cases t with
  | root =>
      rw [World.take, World.pollRoot]
      unfold Stands at hstands
      cases hr : w.root with
      | unstarted env a =>
          rw [hr] at hstands
          obtain ⟨henv, hgentle⟩ := hstands
          refine hroot _ ?_
          rw [← henv]
          exact Action.start_moved h.store (by rw [henv]; exact k.fair o) a hgentle
      | running p =>
          rw [hr] at hstands
          exact hroot _ (Proc.resume_moved hstands h.store (k.fair o))
      | ended | dropped => exact hstay
  | task index path =>
      rw [World.take]
      unfold Stands at hstands
      cases hr : w.root with
      | running p =>
          rw [hr] at hstands
          obtain ⟨o', hgrows, hunder⟩ := Proc.resumeAt_moved hstands h.store (k.fair o) index path
          exact ⟨o', ⟨hgrows.order, hunder, h.alone, h.agenda⟩, hgrows⟩
      | unstarted | ended | dropped => exact hstay
  | orphan place => simpa only [World.take, h.alone, List.getElem?_nil] using hstay
  | orphanTask place index path => simpa only [World.take, h.alone, List.getElem?_nil] using hstay
  | timer | appointment => cases task

/-- Nothing that concerns runs happens from outside, and of the tokens only the caller's are
cancelled and those of timers. -/
lemma InOrder.outside (h : w.InOrder k o) {s : Store} (store : s.InOrder k o)
    (runs : s.runs = w.store.runs) {agenda : List Appointment} (sub : agenda.Sublist w.agenda) :
    ({ w with store := s, agenda } : World).InOrder k o := by
  refine ⟨store, ?_, h.alone, fun x hx => h.agenda x (sub.subset hx)⟩
  have hstands := h.stands
  unfold Stands at hstands ⊢
  dsimp only
  rw [runs]
  exact hstands

/-- A timer runs to its end, or something happens that was set for its time. -/
lemma InOrder.takeOther (h : w.InOrder k o) {t : Turn} (other : t.isTask = false)
    (ready : w.isReady t = true) : (w.take t).InOrder k o := by
  have hcancel : ∀ n (x : Contexts), x.clock = w.store.contexts.clock → x.Known k o →
      (x.cancelled = w.store.contexts.cancelled ∨ x.cancelled = n :: w.store.contexts.cancelled) →
      (o n = .caller ∨ o n = .timed) → (w.store.withContexts x).InOrder k o := by
    intro n x hclock hknown hmore hn
    refine h.store.ledger (sameRuns_withContexts _ hclock) hknown (.refl o) (fun _ _ hn => hn) ?_
    rcases hmore with hmore | hmore
    · exact ⟨[], hmore, by simp⟩
    · exact ⟨[n], hmore, by simpa using hn⟩
  cases t with
  | timer t =>
      simp only [World.isReady, Bool.and_eq_true, List.contains_iff_mem] at ready
      refine h.outside (hcancel t.token.number _ (Contexts.clock_fire _ t) ?_ ?_
        (h.store.known.timers t ready.1)) rfl (List.Sublist.refl _)
      · unfold Contexts.fire
        dsimp only
        split_ifs <;> exact { h.store.known with
          timers := fun u hu => h.store.known.timers u (List.mem_of_mem_filter hu) }
      · unfold Contexts.fire
        dsimp only
        split_ifs
        · exact .inl rfl
        · exact .inr rfl
  | appointment place =>
      rw [World.take]
      cases hplace : w.agenda[place]? with
      | none => exact h
      | some x =>
          refine h.outside ?_ (sameRuns_suffer _ x.deed).runs (List.eraseIdx_sublist _ _)
          cases hdeed : x.deed with
          | cancel c =>
              have hlt := h.agenda x (List.mem_of_getElem? hplace) c hdeed
              exact hcancel c.token.number (w.store.contexts.cancel c.token) rfl
                { h.store.known with } (.inr rfl) (.inl (h.store.known.caller _ hlt))
          | settle cell how =>
              exact (Grows.aside h.store (sameRuns_settle _ cell how)
                (contexts_settle _ cell how)).order
          | disown cell => exact (Grows.aside h.store (sameRuns_disown _ cell) rfl).order
  | root | task | orphan | orphanTask => cases other

lemma InOrder.advance (h : w.InOrder k o) (time : Nat) : (w.advance time).InOrder k o :=
  h.outside (s := (w.advance time).store) { h.store with
    tidy := ⟨h.store.tidy.fresh, h.store.tidy.isOpen⟩
    known := { h.store.known with } } rfl (List.Sublist.refl _)

/-- Everything stays in order, whatever the order of the turns and whenever time goes on. -/
theorem InOrder.drifts {acts : List Act} (h : w₀.InOrder k o) (drifts : Drifts w₀ acts w) :
    ∃ o', w.InOrder k o' := by
  induction drifts with
  | refl => exact ⟨o, h⟩
  | turn _ t ready ih =>
      obtain ⟨o', ih⟩ := ih
      by_cases ht : t.isTask = true
      · obtain ⟨o'', h', -⟩ := ih.takeTask ht
        exact ⟨o'', h'⟩
      · exact ⟨o', ih.takeOther (by simpa using ht) ready⟩
  | pass _ _ ih =>
      obtain ⟨o', ih⟩ := ih
      exact ⟨o', ih.advance _⟩

end World

/-! ## What the contexts say -/

section

variable {k : Caller} {o o' : Nat → Origin} {s s' : Store} {c : Context} {p : Proc} {d : Dispatch}
  {children : List Child}

/-- Code cancels nothing that was there before. -/
lemma Store.Grows.isCancelled_eq (h : s.Grows k o o' s') (old : ∀ n ∈ c.token.path, n < k.supply) :
    s'.isCancelled c = s.isCancelled c := by
  have htoken : s'.contexts.isTokenCancelled c.token = s.contexts.isTokenCancelled c.token := by
    rw [Contexts.isTokenCancelled, Contexts.isTokenCancelled, Bool.eq_iff_iff, List.any_eq_true,
      List.any_eq_true]
    refine exists_congr fun n => and_congr_right fun hn => ?_
    rw [List.contains_iff_mem, List.contains_iff_mem]
    exact h.quiet n (old n hn)
  have hclock : s'.contexts.clock = s.contexts.clock := h.clock
  rw [Store.isCancelled, Store.isCancelled, Contexts.isCancelled, Contexts.isCancelled,
    Contexts.isPast, Contexts.isPast, hclock, htoken]

/-- The contexts of all concurrent runs below a process came down from somewhere. -/
lemma Proc.Under.passes {runs : Nat} (under : p.Under k o runs c) (hn : (d, children) ∈ p.nodes) :
    ∃ c', d.PassesOn o c' := by
  induction under with
  | leaf => cases hn
  | within _ _ _ ih => exact ih hn
  | linear _ _ _ _ ih => exact ih hn
  | concurrent passes _ _ _ _ _ ih =>
      rcases List.mem_cons.mp hn with heq | hn
      · cases heq
        exact ⟨_, passes⟩
      · obtain ⟨child, hchild, hn⟩ := mem_nodesAmong.mp hn
        match child, hn with
        | .running task name p, hn => exact ih task name p hchild hn

/-- A run has a gate if and only if it is throttled. -/
lemma Dispatch.Accounts.gate_isSome_iff {env : Env} {runner : Action} {slots : Option Nat}
    {cs : List Action} (h : d.Accounts s env runner slots cs children)
    (dispatch : runner.dispatch? = some (slots, cs)) :
    d.gate.isSome = true ↔ ∃ limit cs, .begun (.throttled limit cs) ∈ s.marks d.run := by
  have hgate : d.gate.isSome = slots.isSome := by
    rw [← h.free, Option.isSome_map]
  have hbegun := Chronicle.begun_mem h.chronicle
  rw [hgate]
  constructor
  · intro hslots
    match runner, dispatch, hbegun with
    | .throttled limit cs, _, hbegun => exact ⟨limit, cs, (hbegun _).mpr rfl⟩
    | .async cs, rfl, _ => cases hslots
  · rintro ⟨limit, cs', hmem⟩
    have hrunner := (hbegun _).mp hmem
    dsimp only at hrunner
    subst hrunner
    cases dispatch
    rfl

end

namespace World

variable {w : World} {k : Caller} {o : Nat → Origin}

lemma InOrder.under (h : w.InOrder k o) {p : Proc} (hp : w.root = .running p) :
    p.Under k o w.store.runs k.context := by
  have hstands := h.stands
  unfold Stands at hstands
  rw [hp] at hstands
  exact hstands

/-- What a context says that somebody has, between two turns or in the course of one. -/
theorem InOrder.isCancelled_iff (h : w.InOrder k o) {above : List Nat} {c : Context} {s : Store}
    (sees : w.Sees above c s) : s.isCancelled c = true ↔
      s.isCancelled k.context = true ∨ ∃ r ∈ above, s.Skipped r := by
  -- In the course of the root's own code no throttled run is on the path.
  have hroot : Along k o w.store k.context c s → (s.isCancelled c = true ↔
      s.isCancelled k.context = true ∨ ∃ r ∈ ([] : List Nat), s.Skipped r) := by
    rintro ⟨o', hgrows, hfollows⟩
    rw [hfollows.isCancelled_eq hgrows.order]
    simp
  cases sees with
  | between hp hands => exact hands.isCancelled_iff (h.under hp) h.store
  | @first env a _ _ hp sees =>
      have hstands := h.stands
      unfold Stands at hstands
      rw [hp] at hstands
      obtain ⟨henv, hgentle⟩ := hstands
      have halong := Action.sees_along h.store (by rw [henv]; exact k.fair o) a hgentle sees
      rw [henv] at halong
      exact hroot halong
  | root hp sees => exact hroot (Proc.sees_along (h.under hp) h.store (k.fair o) sees)
  | task hp sees =>
      obtain ⟨-, -, hiff⟩ := sees.isCancelled_iff (h.under hp) h.store (k.fair o)
      exact hiff

/-- A throttled run that was told to skip the remainder has a scope that is cancelled. -/
lemma InOrder.scope_isCancelled (h : w.InOrder k o) {d : Dispatch} {children : List Child}
    (hn : (d, children) ∈ w.nodes) (gate : d.gate.isSome = true) (skipped : w.store.Skipped d.run) :
    w.store.isCancelled d.env.context = true := by
  obtain ⟨p, hp, hn⟩ : ∃ p, w.root = .running p ∧ (d, children) ∈ p.nodes := by
    rw [World.nodes, h.alone, List.flatMap_nil, List.append_nil] at hn
    match hp : w.root, hn with
    | .running p, hn => exact ⟨p, rfl, hn⟩
  obtain ⟨c, passes⟩ := (h.under hp).passes hn
  refine (passes.isCancelled_iff h.store).mpr (.inr ⟨d.run, ?_, skipped⟩)
  rw [Dispatch.scopes, if_pos gate]
  exact List.mem_cons_self

end World

/-! ## Scenarios -/

/-- The first run of a scenario, on the caller's context, before it is polled. -/
def Scenario.start (sc : Scenario) : World :=
  { sc.opening.2 with root := .unstarted sc.opening.1 sc.action }

lemma Scenario.start_opens (sc : Scenario) : sc.start.Opens sc.opening.1 sc.action :=
  ⟨rfl, rfl, fun _ _ => rfl, rfl⟩

/-- The caller of a scenario keeps its context, and cancels nothing else. -/
theorem Scenario.start_hosts (sc : Scenario) : sc.start.Hosts sc.opening.1.context := by
  have hagenda : ∀ x ∈ sc.start.agenda, ∀ c, x.deed = .cancel c → c = sc.opening.1.context := by
    intro x hx c hc
    obtain ⟨⟨⟨time, happening⟩, number⟩, -, rfl⟩ := List.mem_map.mp hx
    cases happening <;> cases hc
    rfl
  have hlt : ∀ n ∈ sc.opening.1.context.token.path, n < sc.start.store.contexts.supply := by
    obtain ⟨_, _, _, timeout, cancelled, _⟩ := sc
    cases timeout <;> cases cancelled <;> simp [start, opening, Contexts.newToken, Contexts.hold,
      Contexts.withDeadline, Contexts.childToken, Contexts.ofToken, Contexts.cancel, Token.path]
  refine ⟨hlt, ?_, ?_, ?_, ?_, fun x hx c hc => ?_⟩
  case refine_5 =>
    rw [hagenda x hx c hc]
    exact hlt _ List.mem_cons_self
  all_goals
    obtain ⟨_, _, _, timeout, cancelled, _⟩ := sc
    cases timeout <;> cases cancelled <;> simp [start, opening, Contexts.newToken, Contexts.hold,
      Contexts.withDeadline, Contexts.childToken, Contexts.ofToken, Contexts.cancel]

/-- **Who sees a cancellation.**  Take any world that turns lead to from a caller's call of an
action none of whose leaves cancels a context, whatever the order of the turns, whenever time goes
on, and whatever is cancelled from outside.

* At every point, also in the middle of a turn, the context of an action is cancelled if and only if
  the caller's is, or one of the throttled runs on the path to it has taken notice that a child of
  its own has asked to skip the remainder.
* Of the concurrent runs those have a gate that are throttled; once such a run has taken notice of a
  request, the context that all its later children start with is cancelled.
* No turn of a task cancels anything that was there before the call, and a context that was handed
  out is cancelled by it only as said. -/
theorem World.cancellation_seen {w₀ w : World} {env : Env} {a : Action} (opens : w₀.Opens env a)
    (gentle : a.Gentle) (hosts : w₀.Hosts env.context) {acts : List Act}
    (drifts : Drifts w₀ acts w) :
    (∀ above c s, w.Sees above c s → (s.isCancelled c = true ↔
      s.isCancelled env.context = true ∨ ∃ r ∈ above, s.Skipped r)) ∧
    (∀ d children, (d, children) ∈ w.nodes →
      (d.gate.isSome = true ↔ ∃ limit cs, .begun (.throttled limit cs) ∈ w.store.marks d.run) ∧
      (d.gate.isSome = true → w.store.Skipped d.run →
        w.store.isCancelled d.env.context = true)) ∧
    ∀ t : Turn, t.isTask = true →
      (∀ c : Context, (∀ n ∈ c.token.path, n < w₀.store.contexts.supply) →
        (w.take t).store.isCancelled c = w.store.isCancelled c) ∧
      ∀ p above c, w.root = .running p → p.Hands above c →
        ((w.take t).store.isCancelled c = true ↔
          w.store.isCancelled env.context = true ∨ ∃ r ∈ above, (w.take t).store.Skipped r) := by
  obtain ⟨o, horder⟩ := (hosts.inOrder opens gentle).drifts drifts
  refine ⟨fun above c s sees => horder.isCancelled_iff sees, fun d children hn => ?_,
    fun t ht => ?_⟩
  · obtain ⟨env', runner, slots, cs, hd, hacc⟩ := (drifts.leads.accounted opens).accounts hn
    exact ⟨hacc.gate_isSome_iff hd, horder.scope_isCancelled hn⟩
  · obtain ⟨o', horder', hgrows⟩ := horder.takeTask ht
    refine ⟨fun c old => hgrows.isCancelled_eq old, fun p above c hp hands => ?_⟩
    rw [← hgrows.isCancelled_eq hosts.path_lt]
    exact hands.isCancelled_iff ((horder.under hp).grows hgrows) horder'.store

/-- A leaf that asks to skip the remainder. -/
def Action.skipping (name : String) : Action :=
  .leaf .function name (.fail .skipRemainder)

/-- The first of two children, of which one can run at a time, asks to skip the remainder. -/
def Scenario.skipFirst : Scenario where
  action := .throttled .one [.skipping "first", .yielding "second"]
  timeout := some 10

/-- The second child is admitted to a context that is cancelled, and the caller's is not.  Time goes
on while the first one is ready. -/
theorem World.cancellation_seen_skipFirst :
    let w := (((Scenario.skipFirst.start.take .root).advance 3).take (.task 0 [])).take .root
    let scope : Context := ⟨⟨3, [1, 0]⟩, some 10, [1]⟩
    w.Sees [0] scope w.store ∧ w.store.isCancelled scope = true ∧
      w.store.isCancelled Scenario.skipFirst.opening.1.context = false := by
  intro w scope
  have hdrifts : Drifts Scenario.skipFirst.start _ w :=
    .turn (.turn (.pass (.turn .refl .root rfl) (Nat.zero_le 3)) (.task 0 []) rfl) .root rfl
  have hsees : w.Sees [0] scope w.store := .between rfl .concurrent
  have hskipped : w.store.Skipped 0 := ⟨0, List.mem_of_getElem? (i := 6) rfl⟩
  refine ⟨hsees, ?_, rfl⟩
  exact ((cancellation_seen Scenario.skipFirst.start_opens ⟨trivial, trivial, trivial⟩
    Scenario.skipFirst.start_hosts hdrifts).1 _ _ _ hsees).mpr
    (.inr ⟨0, List.mem_cons_self, hskipped⟩)

end Workflow
