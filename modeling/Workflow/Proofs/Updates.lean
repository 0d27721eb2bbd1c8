import Workflow.Proofs.Acts
import Workflow.Proofs.ErrorPath
import Mathlib

/-!
# Which updates an action makes

An action may be known to make certain updates of one value, and no other change to it, whatever its
effects are answered with, or as long as nothing is done but what is `ok : Doing → Prop`.

* **Functions in a row.**  `applyAll` applies functions to a value one after another.  Where those
  of one list commute with those of the others, the order of the lists is no matter
  (`applyAll_perm`).  `Spends fs es fs'`: once `es` was applied, what is left of `fs` is `fs'`.
* **Bodies and actions.**  `Body.Makes` and `Action.Makes` say which updates of the value at a
  `Spot` are made and in which order.  They ask for nothing after a reply that is never given
  (`Effect.MayReply`) or is not `ok`, nor of an end that is not.  Between children that run side by
  side the order is left open, so there the updates have to commute.  An `Ending` says how the
  action may end: what a body runs may fail, and below it a child may even panic, as long as neither
  touches the value.
* **Compositions.**  A composition of leaves makes the updates of its leaves
  (`Action.makes_leaves`).
-/

namespace Workflow

/-! ## Functions in a row -/

section

variable {α : Type} {fs gs hs es ds : List (α → α)} {f : α → α} {x : α}

/-- What becomes of a value when functions are applied to it one after another. -/
def applyAll (fs : List (α → α)) (x : α) : α :=
  fs.foldl (fun x f => f x) x

@[simp]
lemma applyAll_nil : applyAll [] x = x := rfl

@[simp]
lemma applyAll_cons : applyAll (f :: fs) x = applyAll fs (f x) := rfl

@[simp]
lemma applyAll_append : applyAll (fs ++ gs) x = applyAll gs (applyAll fs x) := by
  simp [applyAll]

/-- Each function of one list commutes with each of the other. -/
def Commuting (fs gs : List (α → α)) : Prop :=
  ∀ f ∈ fs, ∀ g ∈ gs, Function.Commute f g

lemma Commuting.symm (h : Commuting fs gs) : Commuting gs fs :=
  fun g hg f hf => (h f hf g hg).symm

lemma Commuting.mono (h : Commuting fs gs) (hfs : es ⊆ fs) (hgs : ds ⊆ gs) : Commuting es ds :=
  fun e he d hd => h e (hfs he) d (hgs hd)

lemma applyAll_of_commute (h : ∀ g ∈ gs, Function.Commute f g) :
    applyAll gs (f x) = f (applyAll gs x) := by
  induction gs generalizing x with
  | nil => rfl
  | cons g gs ih =>
      have hg : g (f x) = f (g x) := (h g List.mem_cons_self x).symm
      simp only [applyAll_cons, hg]
      exact ih fun g hg => h g (List.mem_cons_of_mem _ hg)

lemma Commuting.applyAll (h : Commuting fs gs) :
    applyAll gs (applyAll fs x) = applyAll fs (applyAll gs x) := by
  induction fs generalizing x with
  | nil => rfl
  | cons f fs ih =>
      have hf := applyAll_of_commute (x := x) (h f List.mem_cons_self)
      rw [applyAll_cons, applyAll_cons, ← hf]
      exact ih fun f hf => h f (List.mem_cons_of_mem _ hf)

lemma Commuting.flatten {fss : List (List (α → α))} (h : ∀ fs ∈ fss, Commuting gs fs) :
    Commuting gs fss.flatten := by
  intro g hg f hf
  obtain ⟨fs, hfs, hmem⟩ := List.mem_flatten.mp hf
  exact h fs hfs g hg f hmem

/-- The order of lists whose functions commute is no matter. -/
lemma applyAll_perm {fss gss : List (List (α → α))} (perm : fss.Perm gss)
    (commute : fss.Pairwise Commuting) : applyAll fss.flatten x = applyAll gss.flatten x := by
  induction perm generalizing x with
  | nil => rfl
  | cons fs _ ih =>
      simp only [List.flatten_cons, applyAll_append]
      exact ih commute.of_cons
  | swap fs gs fss =>
      have hcomm : Commuting gs fs := (List.pairwise_cons.mp commute).1 fs List.mem_cons_self
      simp only [List.flatten_cons, applyAll_append, hcomm.applyAll]
  | trans perm _ ih ih' =>
      have hsymm : ∀ {fs gs : List (α → α)}, Commuting fs gs → Commuting gs fs := fun h => h.symm
      exact (ih commute).trans (ih' (perm.pairwise commute hsymm))

/-- When the functions `es` were applied, the functions `fs'` are left of `fs`. -/
structure Spends (fs es fs' : List (α → α)) : Prop where
  spent : es ⊆ fs
  left : fs' ⊆ fs
  eq : ∀ x, applyAll fs x = applyAll fs' (applyAll es x)

namespace Spends

lemma refl (fs : List (α → α)) : Spends fs [] fs :=
  ⟨List.nil_subset _, List.Subset.refl _, fun _ => rfl⟩

lemma head (f : α → α) (fs : List (α → α)) : Spends (f :: fs) [f] fs :=
  ⟨by simp, List.subset_cons_self _ _, fun _ => rfl⟩

lemma trans (h : Spends fs es gs) (h' : Spends gs ds hs) : Spends fs (es ++ ds) hs where
  spent := List.append_subset.mpr ⟨h.spent, List.Subset.trans h'.spent h.left⟩
  left := List.Subset.trans h'.left h.left
  eq x := by rw [h.eq, h'.eq, applyAll_append]

/-- Others come after them. -/
lemma append (h : Spends fs es gs) (hs : List (α → α)) : Spends (fs ++ hs) es (gs ++ hs) where
  spent := List.subset_append_of_subset_left _ h.spent
  left := List.append_subset.mpr
    ⟨List.subset_append_of_subset_left _ h.left, List.subset_append_right _ _⟩
  eq x := by rw [applyAll_append, applyAll_append, h.eq]

/-- Others come before them, with which they commute. -/
lemma prepend (h : Spends fs es gs) (commute : Commuting hs fs) :
    Spends (hs ++ fs) es (hs ++ gs) where
  spent := List.subset_append_of_subset_right _ h.spent
  left := List.append_subset.mpr
    ⟨List.subset_append_left _ _, List.subset_append_of_subset_right _ h.left⟩
  eq x := by
    have hcomm : Commuting hs es := commute.mono (List.Subset.refl _) h.spent
    rw [applyAll_append, applyAll_append, h.eq, hcomm.applyAll]

/-- Of nothing nothing is spent. -/
lemma eq_nil (h : Spends [] es gs) : es = [] ∧ gs = [] :=
  ⟨List.subset_nil.mp h.spent, List.subset_nil.mp h.left⟩

/-- One of several lists is spent, which commute with each other. -/
lemma set {fss : List (List (α → α))} {i : Nat} (h : Spends fs es gs) (place : fss[i]? = some fs)
    (commute : fss.Pairwise Commuting) :
    Spends fss.flatten es (fss.set i gs).flatten ∧ (fss.set i gs).Pairwise Commuting := by
  induction fss generalizing i with
  | nil => simp at place
  | cons ds fss ih =>
      obtain ⟨hhead, htail⟩ := List.pairwise_cons.mp commute
      cases i with
      | zero =>
          have hds : ds = fs := by simpa using place
          subst hds
          refine ⟨h.append _, List.pairwise_cons.mpr ⟨fun ds hds => ?_, htail⟩⟩
          exact (hhead ds hds).mono h.left (List.Subset.refl _)
      | succ i =>
          have hplace : fss[i]? = some fs := by simpa using place
          obtain ⟨hspends, hcommute⟩ := ih hplace htail
          refine ⟨hspends.prepend (.flatten hhead), List.pairwise_cons.mpr ⟨fun hs hhs => ?_,
            hcommute⟩⟩
          rcases List.mem_or_eq_of_mem_set hhs with hmem | rfl
          · exact hhead hs hmem
          · exact (hhead fs (List.mem_of_getElem? hplace)).mono (List.Subset.refl _) h.left

end Spends

end

/-! ## Bodies and actions -/

/-- A key of a run state with the kind of the value there. -/
structure Spot where
  key : String
  kind : Kind

/-- A change of the value at a spot. -/
abbrev Spot.Update (t : Spot) : Type :=
  t.kind.Carrier → t.kind.Carrier

/-- Whether an access to a state cannot change the value at a key. -/
def StateOp.Spares (key : String) : StateOp → Prop
  | .insert other _ => other ≠ key
  | .remove other => other ≠ key
  | .update other _ _ => other ≠ key
  | .getOrInsert other _ _ => other ≠ key
  | _ => True

/-- How something may end. -/
inductive Ending where
  | success
  /-- It returns, be it with a failure. -/
  | returned
  | any
deriving DecidableEq

namespace Ending

/-- Whether it may end like that. -/
def Admits : Ending → Exit → Prop
  | success, e => e = .done
  | returned, e => ∀ payload, e ≠ .panicked payload
  | any, _ => True

/-- How the children may end of a run that has them side by side: their panics are failures of the
run. -/
def below : Ending → Ending
  | success => success
  | _ => any

/-- What need not succeed makes no updates. -/
def Fits {t : Spot} (w : Ending) (fs : List t.Update) : Prop :=
  w = success ∨ fs = []

end Ending

/-- Whether an effect may be answered like that: somewhere it is. -/
def Effect.MayReply (e : Effect) (reply : e.Reply) : Prop :=
  ∃ (s : Store) (env : Env) (s' : Store), s.perform? env e = some (reply, s')

/-- Nothing is done but what is `ok`. -/
def Only (ok : Doing → Prop) (acts : List Act) : Prop :=
  ∀ act ∈ acts, ok act.doing

@[simp]
lemma only_nil {ok : Doing → Prop} : Only ok [] :=
  List.forall_mem_nil _

@[simp]
lemma only_cons {ok : Doing → Prop} {act : Act} {acts : List Act} :
    Only ok (act :: acts) ↔ ok act.doing ∧ Only ok acts :=
  List.forall_mem_cons

@[simp]
lemma only_append {ok : Doing → Prop} {acts acts' : List Act} :
    Only ok (acts ++ acts') ↔ Only ok acts ∧ Only ok acts' :=
  List.forall_mem_append

mutual

/-- As long as nothing is done but what is `ok`, the action makes the updates `fs` of the value at a
spot, and no other change to it, and ends in the given way.  The value is not one that the action
has access to when it is not `mine`. -/
def Action.Makes (ok : Doing → Prop) (t : Spot) : Bool → Ending → Action → List t.Update → Prop
  | _, w, .leaf .contextFunction _ body, fs => body.Makes ok t false w fs
  | mine, w, .leaf _ _ body, fs => body.Makes ok t mine w fs
  | mine, w, .linear cs, fs => ∃ fss, makesAll ok t mine w cs fss ∧ fs = fss.flatten
  | mine, w, .async cs, fs =>
      ∃ fss, makesAll ok t mine w.below cs fss ∧ fss.Pairwise Commuting ∧ fs = fss.flatten
  | mine, w, .throttled limit cs, fs =>
      (limit.value ≤ maxSlots ∨ w = .any) ∧
        ∃ fss, makesAll ok t mine w.below cs fss ∧ fss.Pairwise Commuting ∧ fs = fss.flatten
  | mine, w, .named _ inner, fs => inner.Makes ok t mine w fs
  | mine, w, .boxed inner, fs => inner.Makes ok t mine w fs

/-- Each of the actions makes updates. -/
def makesAll (ok : Doing → Prop) (t : Spot) :
    Bool → Ending → List Action → List (List t.Update) → Prop
  | _, _, [], fss => fss = []
  | mine, w, a :: rest, fss =>
      ∃ fs gss, fss = fs :: gss ∧ a.Makes ok t mine w fs ∧ makesAll ok t mine w rest gss

/-- The body makes the updates `fs` from here on. -/
def Body.Makes (ok : Doing → Prop) (t : Spot) : Bool → Ending → Body → List t.Update → Prop
  | _, w, .finish e, fs => ok (.finish e) → fs = [] ∧ w.Admits e
  | mine, w, .ask (.state op) next, fs =>
      ((mine = true → op.Spares t.key) ∧ ∀ reply : StateReply,
          Effect.MayReply (.state op) reply → ok (.ask (.state op) reply) →
            (next reply).Makes ok t mine w fs) ∨
        mine = true ∧ ∃ (g : t.kind.Carrier → t.kind.Carrier × Attempt Reading)
          (f : t.Update) (gs : List t.Update),
          op = .update t.key t.kind g ∧ (∀ v, ∃ r, g v = (f v, .returned r)) ∧ fs = f :: gs ∧
            ∀ v r, g v = (f v, .returned r) →
              ok (.ask (.state op) (.updated (some (.returned r)))) →
                (next (.updated (some (.returned r)))).Makes ok t mine w gs
  | mine, w, .ask e next, fs =>
      ∀ reply, e.MayReply reply → ok (.ask e reply) → (next reply).Makes ok t mine w fs
  | mine, w, .giveWay next, fs => next.Makes ok t mine w fs
  | mine, w, .guard _ next, fs => next.Makes ok t mine w fs
  | mine, w, .run inner _ next, fs =>
      ∃ w' gs hs, fs = gs ++ hs ∧ inner.Makes ok t mine w' gs ∧ w'.Fits gs ∧
        (w' = .any → w = .any) ∧ ∀ f, w'.Admits (.ofResult f) → (next f).Makes ok t mine w hs

end

lemma makesAll_iff {ok : Doing → Prop} {t : Spot} {mine : Bool} {w : Ending} {cs : List Action}
    {fss : List (List t.Update)} :
    makesAll ok t mine w cs fss ↔ List.Forall₂ (Action.Makes ok t mine w) cs fss := by
  induction cs generalizing fss with
  | nil => simp [makesAll]
  | cons a rest ih =>
      simp only [makesAll, ih, List.forall₂_cons_left_iff]
      constructor
      · rintro ⟨fs, gss, rfl, hfs, hgss⟩
        exact ⟨fs, gss, hfs, hgss, rfl⟩
      · rintro ⟨fs, gss, hfs, hgss, rfl⟩
        exact ⟨fs, gss, rfl, hfs, hgss⟩

/-! ## Compositions -/

mutual

/-- The leaves of a composition, one for each path of positions from the root to a leaf, in the
order of the paths. -/
def Action.leaves : Action → List Action
  | .leaf kind name body => [.leaf kind name body]
  | .linear cs => leavesAmong cs
  | .async cs => leavesAmong cs
  | .throttled _ cs => leavesAmong cs
  | .named _ inner => inner.leaves
  | .boxed inner => inner.leaves

/-- The leaves of children. -/
def leavesAmong : List Action → List Action
  | [] => []
  | a :: rest => a.leaves ++ leavesAmong rest

end

lemma forall₂_append_left {α β : Type} {R : α → β → Prop} {as bs : List α} {cs : List β}
    (h : List.Forall₂ R (as ++ bs) cs) :
    ∃ ds es, cs = ds ++ es ∧ List.Forall₂ R as ds ∧ List.Forall₂ R bs es := by
  induction as generalizing cs with
  | nil => exact ⟨[], cs, rfl, .nil, h⟩
  | cons a as ih =>
      obtain ⟨c, cs, hac, hrest, rfl⟩ := List.forall₂_cons_left_iff.mp h
      obtain ⟨ds, es, rfl, has, hbs⟩ := ih hrest
      exact ⟨c :: ds, es, rfl, .cons hac has, hbs⟩

lemma Action.Runnable.named {name : String} {a : Action} (h : (Action.named name a).Runnable) :
    a.Runnable := by
  cases h with
  | leaf bare => exact .leaf bare
  | runner bare limit children => exact .runner bare limit children

lemma Action.Runnable.boxed {a : Action} (h : (Action.boxed a).Runnable) : a.Runnable := by
  cases h with
  | leaf bare => exact .leaf bare
  | runner bare limit children => exact .runner bare limit children

section

variable {ok : Doing → Prop} {t : Spot} {fss : List (List t.Update)}

mutual

/-- **A composition of leaves makes the updates of its leaves.** -/
theorem Action.makes_leaves {fss : List (List t.Update)} (commute : fss.Pairwise Commuting) :
    (a : Action) → a.Runnable → List.Forall₂ (Action.Makes ok t true .success) a.leaves fss →
      a.Makes ok t true .success fss.flatten
  | .leaf kind name body, _, makes => by
      rw [Action.leaves, List.forall₂_cons_left_iff] at makes
      obtain ⟨fs, gss, hfs, hgss, rfl⟩ := makes
      rw [List.forall₂_nil_left_iff] at hgss
      simpa [hgss] using hfs
  | .linear cs, runnable, makes => by
      obtain ⟨gss, hgss, -, heq⟩ := makesAll_leaves commute cs (runnable.cases rfl rfl).2 makes
      exact ⟨gss, hgss, heq⟩
  | .async cs, runnable, makes => by
      exact makesAll_leaves commute cs (runnable.cases rfl rfl).2 makes
  | .throttled limit cs, runnable, makes => by
      obtain ⟨hlimit, hcs⟩ := runnable.cases rfl rfl
      exact ⟨.inl (hlimit limit rfl), makesAll_leaves commute cs hcs makes⟩
  | .named _ inner, runnable, makes => Action.makes_leaves commute inner runnable.named makes
  | .boxed inner, runnable, makes => Action.makes_leaves commute inner runnable.boxed makes

/-- The updates of all leaves, by the children that the leaves stand below. -/
theorem makesAll_leaves {fss : List (List t.Update)} (commute : fss.Pairwise Commuting) :
    (cs : List Action) → (∀ a ∈ cs, a.Runnable) →
      List.Forall₂ (Action.Makes ok t true .success) (leavesAmong cs) fss →
      ∃ gss, makesAll ok t true .success cs gss ∧ gss.Pairwise Commuting ∧ fss.flatten = gss.flatten
  | [], _, makes => by
      rw [leavesAmong, List.forall₂_nil_left_iff] at makes
      exact ⟨[], rfl, .nil, by rw [makes]⟩
  | a :: rest, runnable, makes => by
      obtain ⟨ds, es, rfl, hds, hes⟩ := forall₂_append_left makes
      obtain ⟨hcommute, hcommute', hacross⟩ := List.pairwise_append.mp commute
      obtain ⟨ha, hrest⟩ := List.forall_mem_cons.mp runnable
      obtain ⟨gss, hgss, hpairwise, heq⟩ := makesAll_leaves hcommute' rest hrest hes
      refine ⟨ds.flatten :: gss, ⟨_, _, rfl, Action.makes_leaves hcommute a ha hds, hgss⟩,
        List.pairwise_cons.mpr ⟨fun gs hgs => ?_, hpairwise⟩, by simp [heq]⟩
      have hall : Commuting ds.flatten es.flatten :=
        .flatten fun e he => (Commuting.flatten fun d hd => (hacross d hd e he).symm).symm
      refine hall.mono (List.Subset.refl _) fun f hf => ?_
      rw [heq]
      exact List.mem_flatten_of_mem hgs hf

end

end

end Workflow
