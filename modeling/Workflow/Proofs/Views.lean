import Mathlib.Data.List.Basic
import Workflow.Failure

/-!
# The views of a failure agree

Every failure is a bare one, which is no wrapper, under the names that runners have added on its way
up (`Failure.exists_inActions`).  Each view reads the names from the outside in, and this file says
what each of them makes of the names and of what is under them.

**Sources.**  `Cause.follow?` is the error that is met when the sources are followed for so many
steps.  Every step takes off one name, and with it the heading of the text, until the bare failure
is reached.  What an observer is told of the sources is what is met on that way
(`Failure.sources_getElem?`).

**The barrier.**  An error from outside is a bare failure.  What is in it, be it a failure again,
shows in no view but the message and the next source.
-/

namespace Workflow

namespace Failure

/-! ## Names and what is under them -/

/-- The failure under names, the first of which is the outermost. -/
def inActions (f : Failure) (names : List String) : Failure :=
  names.foldr (fun name f => f.inAction name) f

/-- Whether a failure is no wrapper. -/
def IsBare (f : Failure) : Prop :=
  ∀ name source, f ≠ .failed name source

/-- What the text of a failure begins with when it stands under a name. -/
def heading (name : String) : String :=
  "action " ++ name ++ " failed: "

/-- The name that a bare failure has of its own. -/
def ownName : Failure → List String
  | panicked name _ => [name]
  | _ => []

variable {f g : Failure} {names : List String}

lemma inActions_cons (f : Failure) (name : String) (names : List String) :
    f.inActions (name :: names) = (f.inActions names).inAction name := rfl

/-- A failure is a bare one under names. -/
theorem exists_inActions :
    ∀ f : Failure, ∃ (names : List String) (g : Failure), f = g.inActions names ∧ g.IsBare
  | .failed name source => by
      obtain ⟨names, g, hsource, bare⟩ := exists_inActions source
      exact ⟨name :: names, g, by rw [inActions_cons, ← hsource]; rfl, bare⟩
  | .skipRemainder | .cancelled => ⟨[], _, rfl, by simp [IsBare]⟩
  | .panicked name text => ⟨[], .panicked name text, rfl, by simp [IsBare]⟩
  | .plain text => ⟨[], .plain text, rfl, by simp [IsBare]⟩
  | .other cause => ⟨[], .other cause, rfl, by simp [IsBare]⟩

/-! ## The views -/

lemma root_inActions (bare : g.IsBare) (names : List String) : (g.inActions names).root = g := by
  induction names with
  | nil =>
      cases g with
      | failed name source => exact absurd rfl (bare name source)
      | _ => rfl
  | cons name names ih => exact ih

lemma message_inActions (g : Failure) (names : List String) :
    (g.inActions names).message = String.join (names.map heading) ++ g.message := by
  induction names with
  | nil => simp [inActions]
  | cons name names ih =>
      rw [inActions_cons, inAction, message, ih, List.map_cons, String.join_cons, heading]
      simp only [String.append_assoc]

lemma chain_inActions (bare : g.IsBare) (names : List String) :
    (g.inActions names).chain = names ++ g.ownName := by
  induction names with
  | nil =>
      cases g with
      | failed name source => exact absurd rfl (bare name source)
      | _ => rfl
  | cons name names ih =>
      rw [inActions_cons, inAction, chain, ih, List.cons_append]

lemma action_eq_head? (f : Failure) : f.action = f.chain.head? := by
  cases f <;> rfl

lemma isSkipRemainder_inActions (g : Failure) (names : List String) :
    (g.inActions names).isSkipRemainder = true ↔ names = [] ∧ g = .skipRemainder := by
  cases names with
  | nil => cases g <;> simp [inActions, isSkipRemainder]
  | cons name names => simp [inActions_cons, inAction, isSkipRemainder]

end Failure

/-! ## Sources -/

/-- The error that is met when the sources are followed for so many steps. -/
def Cause.follow? (c : Cause) : Nat → Option Cause
  | 0 => some c
  | k + 1 => c.source?.bind fun c' => c'.follow? k

namespace Failure

variable {g : Failure}

/-- Every step takes off one name. -/
lemma follow?_inActions (g : Failure) :
    ∀ (names : List String) (i : Nat), i ≤ names.length →
      (Cause.failure (g.inActions names)).follow? i = some (.failure (g.inActions (names.drop i)))
  | names, 0, _ => by rw [List.drop_zero, Cause.follow?]
  | [], i + 1, h => absurd h (by simp)
  | name :: names, i + 1, h => by
      rw [List.drop_succ_cons, ← follow?_inActions g names i (by simpa using h)]
      rfl

/-- Behind an error from outside comes what it holds. -/
lemma follow?_other (cause : Cause) (names : List String) :
    (Cause.failure ((Failure.other cause).inActions names)).follow? (names.length + 1)
      = some cause := by
  induction names with
  | nil => rfl
  | cons name names ih => exact ih

end Failure

lemma Cause.follow?_report (text : String) (causes : List String) (i : Nat) :
    ((Cause.report text causes).follow? (i + 1)).map Cause.message = causes[i]? := by
  induction causes generalizing text i with
  | nil => rfl
  | cons c causes ih =>
      cases i with
      | zero => rfl
      | succ i => exact ih c i

mutual

/-- **What is told of the sources.**  The texts are those of the errors that are met one after
another. -/
theorem Failure.sources_getElem? : ∀ (f : Failure) (i : Nat),
    f.sources[i]? = ((Cause.failure f).follow? (i + 1)).map Cause.message
  | .failed _ source, 0 | .other cause, 0 => rfl
  | .failed _ source, i + 1 => Failure.sources_getElem? source i
  | .other cause, i + 1 => Cause.sources_getElem? cause i
  | .skipRemainder, _ | .panicked _ _, _ | .cancelled, _ | .plain _, _ => by
      simp [Failure.sources, Cause.follow?, Cause.source?, Failure.source?]

/-- The same of an error from outside. -/
theorem Cause.sources_getElem? : ∀ (c : Cause) (i : Nat),
    c.sources[i]? = (c.follow? (i + 1)).map Cause.message
  | .report text causes, i => (Cause.follow?_report text causes i).symm
  | .failure inner, i => Failure.sources_getElem? inner i

end

namespace Failure

/-- **All views of a failure agree.**  Every failure is a bare failure `g` under names.  The bare one
is its root, and is what the sources lead to after just as many steps as there are names; on the way
every step takes off one name, and the first heading of the text with it, which is the headings of
all names and then the text of the root.  The chain is the names, and then the name that the root
has if it tells of a panic; the action is the first of the chain; one more name goes in front of the
chain and leaves the root as it is; and only the bare request to skip the remainder counts as one.

If the root is an error from outside, be it a failure itself, the views end there: what it holds is
the next source, and has the same text. -/
theorem views_agree (f : Failure) : ∃ (names : List String) (g : Failure),
    f = g.inActions names ∧ g.IsBare ∧
    f.root = g ∧
    (∀ i ≤ names.length,
      (Cause.failure f).follow? i = some (.failure (g.inActions (names.drop i))) ∧
      (g.inActions (names.drop i)).message
        = String.join ((names.drop i).map heading) ++ f.root.message) ∧
    f.chain = names ++ f.root.ownName ∧
    f.action = f.chain.head? ∧
    (∀ name, (f.inAction name).chain = name :: f.chain ∧ (f.inAction name).root = f.root) ∧
    (f.isSkipRemainder = true ↔ names = [] ∧ f.root = .skipRemainder) ∧
    ∀ cause, f.root = .other cause →
      f.chain = names ∧ f.action = names.head? ∧ f.isSkipRemainder = false ∧
      (Cause.failure f).follow? (names.length + 1) = some cause ∧
      cause.message = f.root.message := by
  obtain ⟨names, g, rfl, bare⟩ := exists_inActions f
  have hroot := root_inActions bare names
  have hchain := chain_inActions bare names
  refine ⟨names, g, rfl, bare, hroot, fun i hi => ⟨follow?_inActions g names i hi, ?_⟩, ?_,
    action_eq_head? _, fun name => ⟨rfl, rfl⟩, ?_, ?_⟩
  · rw [hroot, message_inActions]
  · rw [hroot, hchain]
  · rw [hroot, isSkipRemainder_inActions]
  · intro cause hother
    rw [hroot] at hother
    subst hother
    have hnames : ((Failure.other cause).inActions names).chain = names :=
      hchain.trans (List.append_nil names)
    refine ⟨hnames, by rw [action_eq_head?, hnames], ?_, follow?_other cause names, ?_⟩
    · rw [Bool.eq_false_iff, Ne, isSkipRemainder_inActions]
      simp
    · rw [hroot, message]

/-- A failure that comes back from outside hides the names under it, which its text still shows. -/
example :
    let f := (Failure.other (.failure (.failed "inner" .skipRemainder))).inAction "outer"
    f.chain = ["outer"] ∧ f.isSkipRemainder = false ∧
      f.sources = ["action inner failed: skip remainder", "action inner failed: skip remainder",
        "skip remainder"] := by
  decide

end Failure

end Workflow
