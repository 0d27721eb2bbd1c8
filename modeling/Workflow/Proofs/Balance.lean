import Workflow.Proofs.Tally

/-!
# No update is lost and none is made twice

However the tasks of a run are scheduled, the updates that its leaves make of a value are made once
each.

* **Code.**  One law for each function leads to whatever a task does in a turn
  (`Action.start_makes`, `Proc.resume_makes`, `Proc.resumeAt_makes`).  Of tasks side by side one
  goes on at a time, and its updates commute with all that the others have left.
* **Runs.**  In every reachable world the value and what is left to be made come to the same
  (`World.Owes`).  So **`World.updates_once`**: a run that has ended has succeeded, and has left
  what all updates of all leaves make of the value, which is the same for all compositions of the
  same leaves.
-/

namespace Workflow

open Store

/-! ## From the beginning of an action -/

section

variable {ok : Doing → Prop} {n : Nat} {t : Spot} {w : Ending} {v : t.kind.Carrier}

lemma startAsync_makes {s : Store} {env : Env} {cs : List Action} {fss : List (List t.Update)}
    (h : s.Holds n t v)
    (makes : List.Forall₂ (Action.Makes ok t (env.has n) w.below) cs fss)
    (commute : fss.Pairwise Commuting)
    (run : Nat) : Made ok n t w fss.flatten v (startAsync run env cs s) := by
  unfold startAsync
  rw [if_neg (by simp [h.isOpen])]
  obtain ⟨items, hchildren, rfl, hall, hholds⟩ :=
    Dispatch.spawnAll_makes (d := ⟨run, env, none, [], 0, none⟩) 0 cs h makes
  dsimp only
  rw [hchildren]
  have hmakes : Dispatch.Makes ok n t w ⟨run, env, none, [], 0, none⟩ items [] :=
    ⟨.nil, by rwa [List.append_nil], fun _ => rfl, Nat.zero_le _, by simp,
      fun x hx => (hall x hx).1⟩
  have hadvance := Dispatch.advance_makes hholds hmakes fun x hx => (hall x hx).2
  rwa [List.append_nil] at hadvance

lemma startThrottled_makes {s : Store} {env : Env} {cs : List Action}
    {fss : List (List t.Update)} {limit : Limit} (h : s.Holds n t v)
    (slots : limit.value ≤ maxSlots ∨ w = .any) (fits : w.Fits fss.flatten)
    (makes : List.Forall₂ (Action.Makes ok t (env.has n) w.below) cs fss)
    (commute : fss.Pairwise Commuting)
    (run : Nat) : Made ok n t w fss.flatten v (startThrottled run env limit cs s) := by
  unfold startThrottled
  split_ifs with hlimit
  · have hany : w = .any := slots.resolve_left (Nat.not_le.mpr hlimit)
    have hnil : fss.flatten = [] := fits.resolve_left (by rw [hany]; decide)
    rw [hnil, hany]
    exact .ended (h.of_eq rfl rfl) trivial
  · set scope := (s.contexts.child env.context).1
    have hmakes : Dispatch.Makes ok n t w
        ⟨run, { env with context := scope }, some limit.value, cs, 0, none⟩ [] fss :=
      ⟨makes, commute, fun _ => rfl, Nat.zero_le _, by simp, by simp⟩
    have hholds : (({ s with contexts := (s.contexts.child env.context).2 } : Store).mark run
        (.derived scope)).Holds n t v := h.of_eq rfl rfl
    exact Dispatch.advance_makes hholds hmakes (by simp)

mutual

/-- An action is run from its beginning. -/
theorem Action.start_makes {w : Ending} {env : Env} {s : Store}
    {v : t.kind.Carrier} {fs : List t.Update} (h : s.Holds n t v)
    (fits : w.Fits fs) :
    (a : Action) → a.Makes ok t (env.has n) w fs → Only ok (a.acts env s) →
      Made ok n t w fs v (a.start env s)
  | .leaf .contextFunction _ body, makes, only => by
      rw [Action.acts, only_cons] at only
      rw [Action.start]
      have hother : ({ env with state := s.states.length } : Env).has n = false := by
        simp [Env.has, h.lt.ne']
      have hbody : body.Makes ok t (({ env with state := s.states.length } : Env).has n) w fs := by
        rwa [hother]
      exact Body.resume_makes (h.newState .empty) fits [] body hbody only.2
  | .leaf .function _ body, makes, only | .leaf .readyMade _ body, makes, only => by
      have hbody : Only ok (body.acts env [] s) := by
        rw [Action.acts] at only
        · exact (only_cons.mp only).2
        · simp
      rw [Action.start]
      · exact Body.resume_makes h fits [] body makes hbody
      · simp
  | .linear children, makes, only => by
      obtain ⟨fss, hall, rfl⟩ := makes
      rw [Action.acts] at only
      rw [Action.start]
      exact startRest_makes (h.newRun (.linear children) (.linearStart children.length)) fits s.runs
        0 children hall only
  | .async children, makes, _ => by
      obtain ⟨fss, hall, commute, rfl⟩ := makes
      rw [Action.start_async]
      exact startAsync_makes (h.newRun (.async children) (.asyncDispatch children.length))
        (makesAll_iff.mp hall) commute s.runs
  | .throttled limit children, makes, _ => by
      obtain ⟨slots, fss, hall, commute, rfl⟩ := makes
      rw [Action.start_throttled]
      exact startThrottled_makes (h.newRun (.throttled limit children)
        (.throttledDispatch limit.value children.length)) slots fits (makesAll_iff.mp hall) commute
        s.runs
  | .named _ inner, makes, only | .boxed inner, makes, only => by
      rw [Action.acts] at only
      rw [Action.start]
      exact Action.start_makes h fits inner makes only

/-- A body goes on. -/
theorem Body.resume_makes {w : Ending} {env : Env} {s : Store}
    {v : t.kind.Carrier} {fs : List t.Update} (h : s.Holds n t v)
    (fits : w.Fits fs) (guards : List Guard) :
    (b : Body) → b.Makes ok t (env.has n) w fs → Only ok (b.acts env guards s) →
      Made ok n t w fs v (b.resume env guards s)
  | .finish e, makes, only => by
      rw [Body.acts, only_cons] at only
      obtain ⟨rfl, hadmits⟩ := makes only.1
      rw [Body.resume]
      exact .ended (h.endGuards guards) hadmits
  | .ask (.state op) next, makes, only => by
      have granted : s.perform? env (.state op) =
          some (((s.stateOf env.state).perform op).1, s.accessed env.state op) := rfl
      rw [Body.acts_ask granted, only_cons] at only
      obtain ⟨hok, only⟩ := only
      rw [Body.resume_state]
      rcases makes with ⟨hspares, hnext⟩ | ⟨hmine, g, f, gs, hop, hg, rfl, hnext⟩
      · have hholds := h.accessed fun hm => hspares (beq_iff_eq.mpr hm)
        exact Body.resume_makes hholds fits guards _ (hnext _ ⟨_, _, _, granted⟩ hok) only
      · obtain ⟨r, hr⟩ := hg v
        have henv : env.state = n := beq_iff_eq.mp hmine
        have hreply : ((s.stateOf env.state).perform op).1 = .updated (some (.returned r)) := by
          rw [hop, henv]
          exact (h.updated hr).1
        have hholds : (s.accessed env.state op).Holds n t (f v) := by
          rw [hop, henv]
          exact (h.updated hr).2
        rw [hreply] at hok only ⊢
        refine .of_spends (.head f gs) ?_
        exact Body.resume_makes hholds (fits.of_subset (List.subset_cons_self f gs)) guards _
          (hnext v r hr hok) only
  | .ask .clock next, makes, only | .ask .deadline next, makes, only
  | .ask .isCancelled next, makes, only | .ask .cancel next, makes, only
  | .ask (.log _) next, makes, only | .ask (.record _) next, makes, only
  | .ask (.settle _ _) next, makes, only | .ask (.sleepUntil _) next, makes, only
  | .ask .untilCancelled next, makes, only | .ask (.sleepUnlessCancelled _) next, makes, only
  | .ask (.await _) next, makes, only =>
      Body.ask_makes (by simp) h (.leaf makes) fun reply _ granted hs' => by
        rw [Body.acts_ask granted, only_cons] at only
        exact Body.resume_makes hs' fits guards (next reply)
          (makes reply ⟨_, _, _, granted⟩ only.1) only.2
  | .giveWay next, makes, _ => by
      rw [Body.resume]
      exact ⟨[], fs, .refl fs, h, .leaf makes⟩
  | .guard g next, makes, only => by
      rw [Body.acts, only_cons] at only
      rw [Body.resume]
      exact Body.resume_makes (h.raiseGuard g) fits (guards ++ [g]) next makes only.2
  | .run inner under next, makes, only => by
      rw [Body.acts_run, only_cons, only_append] at only
      obtain ⟨w', fs, gs, rfl, hinner, fits', panics, hrest⟩ := makes
      obtain ⟨henter, hstate⟩ := h.enter env under
      rw [Body.resume_run]
      have hhas : (s.enter env under).1.has n = env.has n := by rw [Env.has, hstate, Env.has]
      refine Body.after_makes fits (Action.start_makes henter fits' inner (by rwa [hhas]) only.2.1)
        fits' panics hrest only.2.2 ?_
      intro f s' v' hs' hnext honly
      exact Body.resume_makes hs' (fits.of_subset (List.subset_append_right _ _)) guards _
        hnext honly

/-- A linear run goes on with the next child. -/
theorem startRest_makes {w : Ending} {env : Env} {s : Store}
    {v : t.kind.Carrier} {fss : List (List t.Update)} (h : s.Holds n t v)
    (fits : w.Fits fss.flatten) (run index : Nat) :
    (rest : List Action) → makesAll ok t (env.has n) w rest fss →
      Only ok (restActs run env index s rest) →
      Made ok n t w fss.flatten v (startRest run env index s rest)
  | [], makes, _ => by
      have hnil : fss = [] := makes
      subst hnil
      rw [startRest]
      exact .ended (h.of_eq rfl rfl) (Ending.admits_ofResult (f := none) fun _ => rfl)
  | a :: rest, makes, only => by
      obtain ⟨fs, gss, rfl, ha, hrest⟩ := makes
      rw [restActs_cons, only_append] at only
      rw [startRest_cons, List.flatten_cons]
      refine afterChild_makes fits (Action.start_makes (h.mark run (.started index a))
        (fits.of_subset (List.subset_append_left _ _)) a ha only.1) (makesAll_iff.mp hrest) only.2
        ?_
      intro s' v' hs' honly
      exact startRest_makes hs' (fits.of_subset (List.subset_append_right _ _)) run
        (index + 1) rest hrest honly

end

end

/-! ## Going on -/

section

variable {ok : Doing → Prop} {n : Nat} {t : Spot} {mine : Bool} {w : Ending} {fs gs : List t.Update}
  {fss : List (List t.Update)} {v : t.kind.Carrier} {s : Store} {p : Proc} {d : Dispatch}
  {items : List (Child × List t.Update)} {child child' : Child} {i : Nat}

/-- A task's own code goes on. -/
theorem Proc.resume_makes (h : s.Holds n t v) (makes : p.Makes ok n t w fs) (fits : w.Fits fs)
    (only : Only ok (p.acts s)) : Made ok n t w fs v (p.resume s) := by
  induction makes with
  | leaf rest => exact Body.resume_makes h fits _ _ rest only
  | within _ fits' panics rest ih =>
      rw [Proc.acts, only_append] at only
      rw [Proc.resume_within]
      refine Body.after_makes fits (ih fits' only.1) fits' panics rest only.2 ?_
      intro f s' v' hs' hnext honly
      exact Body.resume_makes hs' (fits.of_subset (List.subset_append_right _ _)) _ _ hnext honly
  | linear _ after ih =>
      rw [Proc.acts, only_append] at only
      rw [Proc.resume_linear]
      refine afterChild_makes fits (ih (fits.of_subset (List.subset_append_left _ _)) only.1) after
        only.2 ?_
      intro s' v' hs' honly
      exact startRest_makes hs' (fits.of_subset (List.subset_append_right _ _)) _ _ _
        (makesAll_iff.mpr after) honly
  | concurrent dispatch below =>
      exact Dispatch.advance_makes h dispatch (dispatch.all below)

/-- A task that has gone on has made some of the updates `fs`, and has to make the others. -/
def Child.HasMade (ok : Doing → Prop) (n : Nat) (t : Spot) (w : Ending) (fs : List t.Update)
    (v : t.kind.Carrier) (d : Dispatch) (out : Store × Dispatch × Child) : Prop :=
  ∃ es gs, Spends fs es gs ∧ out.1.Holds n t (applyAll es v) ∧
    out.2.2.Makes ok n t (d.env.has n) w gs ∧ out.2.1.env = d.env ∧
    ∀ w items fss, d.Makes ok n t w items fss → out.2.1.Makes ok n t w items fss

/-- The code of a child has stopped or ended, and the run above it takes notice of that. -/
lemma Child.after_makes {out : Store × Progress} (made : Made ok n t w fs v out)
    (index task : Nat) (name : String) :
    HasMade ok n t w fs v d (Child.after d index task name out) := by
  obtain ⟨s', p | e⟩ := out
  · obtain ⟨es, gs, hspends, hholds, hp⟩ := made
    exact ⟨es, gs, hspends, hholds, hp, rfl, fun _ _ _ hd => hd⟩
  · obtain ⟨es, hspends, hholds, hadmits⟩ := made
    obtain ⟨hended, henv, hdispatch⟩ := d.childEnded_makes hholds index name e
    exact ⟨es, [], hspends, hended.of_eq rfl rfl, ⟨rfl, hadmits⟩, henv, hdispatch⟩

/-- A task goes on that is a child of the run or stands below one.  What is known about tasks
further down is taken from `down`. -/
lemma Child.resumeAt_makes (h : s.Holds n t v) (makes : child.Makes ok n t (d.env.has n) w fs)
    (fits : w.Fits fs) (index : Nat) (path : List Nat)
    (only : Only ok (child.actsAt s d index path))
    (down : ∀ task name p i path, child = .running task name p → Only ok (p.actsAt s i path) →
      ∃ es gs, Spends fs es gs ∧ (p.resumeAt s i path).1.Holds n t (applyAll es v) ∧
        (p.resumeAt s i path).2.Makes ok n t w gs) :
    HasMade ok n t w fs v d (child.resumeAt s d index path) := by
  have hstay : HasMade ok n t w fs v d (s, d, child) :=
    ⟨[], fs, .refl fs, h, makes, rfl, fun _ _ _ hd => hd⟩
  cases child with
  | spawned task a =>
      cases path with
      | nil =>
          rw [Child.actsAt, only_append] at only
          rw [Child.resumeAt_spawned]
          have hmark := h.mark d.run (.started index a)
          exact Child.after_makes (Action.start_makes hmark fits a makes only.1) index task a.name
      | cons i path => rw [Child.resumeAt] <;> first | exact hstay | simp
  | running task name p =>
      cases path with
      | nil =>
          rw [Child.actsAt, only_append] at only
          rw [Child.resumeAt_running]
          exact Child.after_makes (Proc.resume_makes h makes fits only.1) index task name
      | cons i path =>
          rw [Child.actsAt] at only
          obtain ⟨es, gs, hspends, hholds, hp⟩ := down task name p i path rfl only
          rw [Child.resumeAt]
          exact ⟨es, gs, hspends, hholds, hp, rfl, fun _ _ _ hd => hd⟩
  | ended | lost => rw [Child.resumeAt] <;> first | exact hstay | simp

/-- A child that has ended does not go on. -/
lemma Child.isLive_resumeAt (child : Child) (s : Store) (d : Dispatch) (index : Nat)
    (path : List Nat) (ended : child.isLive = false) :
    (child.resumeAt s d index path).2.2.isLive = false := by
  cases child with
  | spawned | running => cases ended
  | ended | lost => rw [Child.resumeAt] <;> simp [isLive, task?]

/-- A child goes on, and of the updates that it had to make those in `gs` are left. -/
lemma Dispatch.Makes.set (h : d.Makes ok n t w items fss) (place : items[i]? = some (child, fs))
    (commute : (((items.map (·.2)) ++ fss).set i gs).Pairwise Commuting)
    (idle : child'.MakesIdle ok t (d.env.has n) w.below gs)
    (ended : child.isLive = false → child'.isLive = false) :
    d.Makes ok n t w (items.set i (child', gs)) fss where
  queue := h.queue
  commute := by
    have hi : i < (items.map (·.2)).length := by
      rw [List.length_map]
      exact (List.getElem?_eq_some_iff.mp place).1
    rwa [List.map_set, ← List.set_append_left _ _ hi]
  failure := h.failure
  collected_le := by simpa using h.collected_le
  collected x hx := by
    rw [List.take_set] at hx
    by_cases hi : i < d.collected
    · have hmem : (child, fs) ∈ items.take d.collected :=
        List.mem_of_getElem? (i := i) (by rw [List.getElem?_take_of_lt hi, place])
      rcases List.mem_or_eq_of_mem_set hx with hx | rfl
      · exact h.collected x hx
      · exact ended (h.collected _ hmem)
    · rw [List.set_eq_of_length_le (by simp; omega)] at hx
      exact h.collected x hx
  idle x hx := by
    rcases List.mem_or_eq_of_mem_set hx with hx | rfl
    · exact h.idle x hx
    · exact idle

lemma Child.Makes.makesIdle (h : child.Makes ok n t mine w fs) :
    child.MakesIdle ok t mine w fs := by
  cases child with
  | running => trivial
  | spawned | ended | lost => exact h

/-- **A task goes on.** -/
theorem Proc.resumeAt_makes (h : s.Holds n t v) (makes : p.Makes ok n t w fs) (fits : w.Fits fs)
    (index : Nat) (path : List Nat) (only : Only ok (p.actsAt s index path)) :
    ∃ es gs, Spends fs es gs ∧ (p.resumeAt s index path).1.Holds n t (applyAll es v) ∧
      (p.resumeAt s index path).2.Makes ok n t w gs := by
  induction makes generalizing index path with
  | leaf rest =>
      rw [Proc.resumeAt]
      exact ⟨[], _, .refl _, h, .leaf rest⟩
  | within _ fits' panics rest ih =>
      rw [Proc.actsAt] at only
      rw [Proc.resumeAt]
      obtain ⟨es, gs, hspends, hholds, hp⟩ := ih fits' index path only
      exact ⟨es, _, hspends.append _, hholds, .within hp (fits'.of_subset hspends.left) panics rest⟩
  | linear _ after ih =>
      rw [Proc.actsAt] at only
      rw [Proc.resumeAt]
      obtain ⟨es, gs, hspends, hholds, hp⟩ :=
        ih (fits.of_subset (List.subset_append_left _ _)) index path only
      exact ⟨es, _, hspends.append _, hholds, .linear hp after⟩
  | @concurrent w d items fss dispatch below ih =>
      have hall := dispatch.all below
      rw [Proc.actsAt, actsAmong_eq, Nat.zero_add, List.getElem?_map] at only
      rw [Proc.resumeAt, resumeAmong_eq, Nat.zero_add, List.getElem?_map]
      cases hplace : items[index]? with
      | none => exact ⟨[], _, .refl _, h, .concurrent dispatch below⟩
      | some x =>
          obtain ⟨child, fs⟩ := x
          rw [hplace] at only
          have hmem := List.mem_of_getElem? hplace
          have hlists : (items.map (·.2) ++ fss)[index]? = some fs := by
            have hlt := (List.getElem?_eq_some_iff.mp hplace).1
            rw [List.getElem?_append_left (by simpa using hlt), List.getElem?_map, hplace]
            rfl
          have hfits : w.below.Fits fs := fits.below (List.mem_of_getElem? hlists)
          obtain ⟨es, gs, hspends, hholds, hchild, henv, hdispatch⟩ :=
            Child.resumeAt_makes h (hall _ hmem) hfits index path only
              fun task name p i path hc => ih task name p fs (hc ▸ hmem) hfits i path
          have hlive := Child.isLive_resumeAt child s d index path
          dsimp only [Option.map_some]
          generalize child.resumeAt s d index path = out at hholds hchild henv hdispatch hlive ⊢
          obtain ⟨s', d', child'⟩ := out
          dsimp only at hholds hchild henv hdispatch hlive ⊢
          obtain ⟨hspent, hcommute⟩ := hspends.set hlists dispatch.commute
          refine ⟨es, _, hspent, hholds, Proc.makes_concurrent.mpr
            ⟨items.set index (child', gs), fss, by rw [List.map_set], ?_, ?_, fun x hx => ?_⟩⟩
          · rw [List.map_set, List.set_append_left _ _ (by
              simpa using (List.getElem?_eq_some_iff.mp hplace).1)]
          · refine (hdispatch _ _ _ dispatch).set hplace hcommute ?_ hlive
            rw [henv]
            exact hchild.makesIdle
          · rw [henv]
            rcases List.mem_or_eq_of_mem_set hx with hx | rfl
            · exact hall x hx
            · exact hchild

end

/-! ## Runs -/

/-- What a run has still to make. -/
def Root.Makes (ok : Doing → Prop) (n : Nat) (t : Spot) : Root → List t.Update → Prop
  | .unstarted env a, fs => env.state = n ∧ a.Makes ok t true .success fs
  | .running p, fs => p.Makes ok n t .success fs
  | .ended e, fs => e = .done ∧ fs = []
  | .dropped, _ => False

namespace World

variable {ok : Doing → Prop} {n : Nat} {t : Spot} {x : t.kind.Carrier} {w w' : World}

/-- What is left of the updates will make the value the value `x`. -/
structure Owes (ok : Doing → Prop) (n : Nat) (t : Spot) (x : t.kind.Carrier) (w : World) : Prop
    where
  alone : w.orphans = []
  rest : ∃ v fs, w.store.Holds n t v ∧ w.root.Makes ok n t fs ∧ applyAll fs v = x

lemma Owes.of_made {fs : List t.Update} {v : t.kind.Carrier} (alone : w.orphans = [])
    {out : Store × Progress} (made : Made ok n t .success fs v out) :
    Owes ok n t (applyAll fs v) { w with store := out.1, root := .ofProgress out.2 } := by
  refine ⟨alone, ?_⟩
  obtain ⟨s, p | e⟩ := out
  · obtain ⟨es, gs, hspends, hholds, hp⟩ := made
    exact ⟨_, gs, hholds, hp, (hspends.eq v).symm⟩
  · obtain ⟨es, hspends, hholds, hadmits⟩ := made
    exact ⟨_, [], hholds, ⟨hadmits, rfl⟩, (hspends.eq v).symm⟩

/-- The root's own code or one of its tasks goes on. -/
lemma Owes.takeTask (h : w.Owes ok n t x) {turn : Turn} (task : turn.isTask = true)
    (only : Only ok (w.acts turn)) : (w.take turn).Owes ok n t x := by
  have hstay := h
  obtain ⟨halone, v, fs, hholds, hroot, rfl⟩ := h
  cases turn with
  | root =>
      rw [take, pollRoot]
      cases hr : w.root with
      | unstarted env a =>
          rw [hr] at hroot
          obtain ⟨rfl, hmakes⟩ := hroot
          rw [acts, hr] at only
          exact .of_made halone
            (Action.start_makes hholds (.inl rfl) a (by simpa [Env.has]) only)
      | running p =>
          rw [hr] at hroot
          rw [acts, hr] at only
          exact .of_made halone (Proc.resume_makes hholds hroot (.inl rfl) only)
      | ended | dropped => exact hstay
  | task index path =>
      rw [take]
      cases hr : w.root with
      | running p =>
          rw [hr] at hroot
          rw [acts, hr] at only
          obtain ⟨es, gs, hspends, hholds', hp⟩ :=
            Proc.resumeAt_makes hholds hroot (.inl rfl) index path only
          exact ⟨halone, _, gs, hholds', hp, (hspends.eq v).symm⟩
      | unstarted | ended | dropped => exact hstay
  | orphan place => simpa only [take, halone, List.getElem?_nil] using hstay
  | orphanTask place index path => simpa only [take, halone, List.getElem?_nil] using hstay
  | timer | appointment => cases task

lemma Owes.turn (h : w.Owes ok n t x) (turn : Turn) (ready : w.isReady turn = true)
    (only : Only ok (w.acts turn)) : (w.take turn).Owes ok n t x := by
  by_cases task : turn.isTask = true
  · exact h.takeTask task only
  · have hbefalls : w.Befalls (w.take turn) := .of_turn (Bool.eq_false_iff.mpr task) ready
    have hbeside := hbefalls.beside
    obtain ⟨halone, v, fs, hholds, hroot, heq⟩ := h
    exact ⟨hbeside.orphans.trans halone, v, fs, hholds.of_eq hbeside.states hbeside.isOpen,
      hbefalls.root_eq ▸ hroot, heq⟩

lemma Owes.advance (h : w.Owes ok n t x) (time : Nat) : (w.advance time).Owes ok n t x := by
  obtain ⟨halone, v, fs, hholds, hroot, heq⟩ := h
  exact ⟨halone, v, fs, hholds.of_eq rfl rfl, hroot, heq⟩

/-- The value and what is left to be made always come to the same. -/
theorem Owes.drifts {acts : List Act} (h : w.Owes ok n t x) (drifts : Drifts w acts w')
    (only : Only ok acts) : w'.Owes ok n t x := by
  induction drifts with
  | refl => exact h
  | turn _ turn ready ih =>
      rw [only_append] at only
      exact (ih only.1).turn turn ready only.2
  | pass _ _ ih => exact (ih only).advance _

/-- **No update is lost or doubled in any composition.**  Take any composition of runners over
leaves, and a run in which nothing is done but what is `ok`: in which no leaf fails, say.  As long
as that is so, each leaf is to succeed and, whatever else it does and waits for, to change the value
at a key by updates only, and those of different leaves commute.  In whatever order the tasks go on
and whenever time does, if the run has ended it has succeeded, and every leaf has made its updates
once for each path to it in the composition: the value is what all of them together make of the one
that it was at first.  Their order in the composition, what runners they are grouped into and the
limits of these are no matter. -/
theorem updates_once {leaves : List Action} {fss : List (List t.Update)}
    (calls : List.Forall₂ (Action.Makes ok t true .success) leaves fss)
    (commute : fss.Pairwise Commuting) {a : Action} (same : a.leaves.Perm leaves)
    (runnable : a.Runnable) {w₀ : World} {env : Env} (opens : w₀.Opens env a)
    (holds : (w₀.store.stateOf env.state).map.find? t.key = some ⟨t.kind, x⟩)
    {acts : List Act} (drifts : Drifts w₀ acts w) (only : ∀ act ∈ acts, ok act.doing) {e : Exit}
    (ended : w.root = .ended e) :
    e = .done ∧ (w.store.stateOf env.state).map.find? t.key =
      some ⟨t.kind, applyAll fss.flatten x⟩ := by
  obtain ⟨gss, hcalls, hperm⟩ := List.perm_comp_forall₂ same calls
  have hsymm : ∀ {fs gs : List t.Update}, Commuting fs gs → Commuting gs fs := fun h => h.symm
  have hcommute : gss.Pairwise Commuting := hperm.symm.pairwise commute hsymm
  have howes : w₀.Owes ok env.state t (applyAll gss.flatten x) :=
    ⟨opens.orphans, x, gss.flatten, ⟨opens.tidy.isOpen, holds⟩,
      opens.root ▸ ⟨rfl, Action.makes_leaves hcommute a runnable hcalls⟩, rfl⟩
  obtain ⟨-, v, fs, hholds, hroot, heq⟩ := howes.drifts drifts only
  rw [ended] at hroot
  obtain ⟨rfl, rfl⟩ := hroot
  rw [← applyAll_perm hperm hcommute, ← heq]
  exact ⟨rfl, hholds.value⟩

end World

/-! Leaves that count, beside one that would fail if it were cancelled. -/

/-- Whether it is anything but an end without success. -/
def Doing.isFine : Doing → Bool
  | .finish .done => true
  | .finish _ => false
  | _ => true

/-- A leaf that adds to a number, lets others run, and adds to it once more. -/
def Action.adding (name : String) (k : UInt64) : Action :=
  .leaf .function name <|
    .ask (.state (.update "count" .word64 fun v => (v + k, .returned .unit))) fun _ =>
      .giveWay <|
        .ask (.state (.update "count" .word64 fun v => (v + k, .returned .unit))) fun _ => .succeed

lemma Action.adding_makes (ok : Doing → Prop) (name : String) (k : UInt64) :
    (adding name k).Makes ok ⟨"count", .word64⟩ true .success [(· + k), (· + k)] := by
  have hadd : ∀ v : UInt64, ∃ r, (v + k, Attempt.returned Reading.unit) = (v + k, .returned r) :=
    fun _ => ⟨.unit, rfl⟩
  exact .inr ⟨rfl, _, _, _, rfl, hadd, rfl, fun _ _ _ _ =>
    .inr ⟨rfl, _, _, [], rfl, hadd, rfl, fun _ _ _ _ _ => ⟨rfl, rfl⟩⟩⟩

/-- A leaf that sleeps succeeds as long as no leaf fails. -/
lemma Action.sleeping_makes (t : Spot) (ms : Nat) :
    (sleeping ms).Makes (·.isFine = true) t true .success [] := by
  rintro now - - (_ | _) - -
  · exact fun fine => by cases fine
  · exact fun _ => ⟨rfl, rfl⟩

lemma commuting_add (j k : UInt64) : Commuting [(· + j), (· + j)] [(· + k), (· + k)] := by
  intro f hf g hg v
  simp only [List.mem_cons, List.not_mem_nil, or_false, or_self] at hf hg
  subst hf hg
  show v + k + j = v + j + k
  rw [UInt64.add_assoc, UInt64.add_comm k, UInt64.add_assoc]

/-- Four leaves in two runners; one of those that count stands at two places. -/
def Action.ledger : Action :=
  .async [.adding "one" 1, .throttled .one [.adding "two" 2, .adding "one" 1], .sleeping 5]

lemma Action.runnable_ledger : Action.ledger.Runnable := by
  have leaf : ∀ name k, (Action.adding name k).Runnable := fun name k => .leaf rfl
  have sleeping : (Action.sleeping 5).Runnable := .leaf rfl
  have inner : (Action.throttled .one [.adding "two" 2, .adding "one" 1]).Runnable := by
    refine .runner rfl ?_ (by simp [leaf])
    rintro _ ⟨⟩
    decide
  exact .runner rfl (by rintro _ ⟨⟩) (by simp [leaf, inner, sleeping])

/-- A world in which they begin to count at ten. -/
def World.ledger : World where
  root := .unstarted ⟨default, 0⟩ .ledger
  store := { states := [.ofList [("count", ⟨.word64, 10⟩)]] }

/-- All of them count, whoever goes on first, while time passes for the one that sleeps. -/
theorem World.updates_once_ledger :
    let w := ((((((((((((((ledger.take .root).take (.task 1 [])).take (.task 0 [])).take
      (.task 2 [])).take (.task 1 [0])).take (.task 0 [])).advance 5).take (.task 1 [0])).take
      (.task 1 [])).take (.task 1 [1])).take (.task 2 [])).take (.task 1 [1])).take
      (.task 1 [])).take .root)
    w.root = .ended .done ∧ (w.store.stateOf 0).map.find? "count" = some ⟨.word64, 18⟩ := by
  intro w
  obtain ⟨acts, hdrifts, honly⟩ : ∃ acts, Drifts ledger acts w ∧
      (acts.all fun act => act.doing.isFine) = true := by
    refine ⟨_, .turn (.turn (.turn (.turn (.turn (.turn (.turn (.pass (.turn (.turn (.turn (.turn
      (.turn (.turn .refl .root ?_) (.task 1 []) ?_) (.task 0 []) ?_) (.task 2 []) ?_)
      (.task 1 [0]) ?_) (.task 0 []) ?_) ?_) (.task 1 [0]) ?_) (.task 1 []) ?_) (.task 1 [1]) ?_)
      (.task 2 []) ?_) (.task 1 [1]) ?_) (.task 1 []) ?_) .root ?_, ?_⟩
    all_goals decide +kernel
  have hopens : ledger.Opens ⟨default, 0⟩ .ledger := ⟨rfl, rfl, fun _ _ => rfl, rfl⟩
  have hcalls : List.Forall₂ (Action.Makes (·.isFine = true) ⟨"count", .word64⟩ true .success)
      [.adding "one" 1, .adding "two" 2, .adding "one" 1, .sleeping 5]
      [[(· + 1), (· + 1)], [(· + 2), (· + 2)], [(· + 1), (· + 1)], []] :=
    .cons (Action.adding_makes _ "one" 1) (.cons (Action.adding_makes _ "two" 2)
      (.cons (Action.adding_makes _ "one" 1) (.cons (Action.sleeping_makes _ 5) .nil)))
  have hleaves : Action.ledger.leaves =
      [.adding "one" 1, .adding "two" 2, .adding "one" 1, .sleeping 5] := rfl
  have hcommute : [[(· + 1), (· + 1)], [(· + 2), (· + 2)], [(· + 1), (· + 1)], []].Pairwise
      (Commuting (α := UInt64)) := by
    have hnil : ∀ fs : List (UInt64 → UInt64), Commuting fs [] := fun _ _ _ _ hg => by cases hg
    simp [commuting_add, hnil]
  have hended : w.root = .ended .done := by
    unfold w
    cbv
  have hholds : (ledger.store.stateOf 0).map.find? "count" = some ⟨.word64, 10⟩ := by cbv
  obtain ⟨-, hvalue⟩ := updates_once hcalls hcommute (.of_eq hleaves) Action.runnable_ledger hopens
    hholds hdrifts (List.all_eq_true.mp honly) hended
  exact ⟨hended, hvalue⟩

end Workflow
