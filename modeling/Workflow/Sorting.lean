/-!
# Sorting

A stable sort by insertion.  It recurses on the list alone, so a closed list can be sorted inside a
proof.  Nothing is lost or added (`perm_sortBy`), and under an order in which any two items can be
compared the result ascends (`pairwise_sortBy`).
-/

namespace Workflow

variable {α : Type}

/-- Puts an item in front of the first one that it does not come after. -/
def insertBy (le : α → α → Bool) (a : α) : List α → List α
  | [] => [a]
  | b :: bs => if le a b then a :: b :: bs else b :: insertBy le a bs

/-- The items in order; those that come after each other both ways keep the order they had. -/
def sortBy (le : α → α → Bool) (items : List α) : List α :=
  items.foldr (insertBy le) []

/-- Whether a text comes no later than another, by their bytes. -/
def textLE (a b : String) : Bool :=
  !decide (b < a)

theorem perm_insertBy (le : α → α → Bool) (a : α) (items : List α) :
    (insertBy le a items).Perm (a :: items) := by
  induction items with
  | nil => exact .refl _
  | cons b bs ih =>
      simp only [insertBy]
      split
      · exact .refl _
      · exact (ih.cons b).trans (.swap a b bs)

theorem perm_sortBy (le : α → α → Bool) (items : List α) : (sortBy le items).Perm items := by
  induction items with
  | nil => exact .refl _
  | cons a as ih => exact (perm_insertBy le a _).trans (ih.cons a)

theorem pairwise_insertBy {le : α → α → Bool} (total : ∀ a b, le a b = true ∨ le b a = true)
    (trans : ∀ {a b c}, le a b = true → le b c = true → le a c = true) (a : α) {items : List α}
    (h : items.Pairwise (le · · = true)) : (insertBy le a items).Pairwise (le · · = true) := by
  induction items with
  | nil => exact List.pairwise_singleton _ a
  | cons b bs ih =>
      obtain ⟨hb, hbs⟩ := List.pairwise_cons.mp h
      simp only [insertBy]
      split
      · next hab =>
        refine List.pairwise_cons.mpr ⟨fun c hc => ?_, h⟩
        rcases List.mem_cons.mp hc with rfl | hc
        · exact hab
        · exact trans hab (hb c hc)
      · next hab =>
        refine List.pairwise_cons.mpr ⟨fun c hc => ?_, ih hbs⟩
        rcases List.mem_cons.mp ((perm_insertBy le a bs).mem_iff.mp hc) with rfl | hc
        · exact (total c b).resolve_left hab
        · exact hb c hc

theorem pairwise_sortBy {le : α → α → Bool} (total : ∀ a b, le a b = true ∨ le b a = true)
    (trans : ∀ {a b c}, le a b = true → le b c = true → le a c = true) (items : List α) :
    (sortBy le items).Pairwise (le · · = true) := by
  induction items with
  | nil => exact .nil
  | cons a as ih => exact pairwise_insertBy total trans a ih

end Workflow
