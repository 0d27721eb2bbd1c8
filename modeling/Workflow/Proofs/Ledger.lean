import Mathlib.Data.Nat.Basic
import Workflow.Context

/-!
# What the operations do to a ledger

One law for each question that can be asked of a ledger (`isTokenCancelled_iff`, `isCancelled_iff`,
`isKept_iff`), and for each operation what becomes of the parts of the ledger: letting go of a
handle (`mem_held_release`, `mem_cancelled_release`) and a timer's turn (`mem_timers_fire`,
`mem_cancelled_fire`).  The proofs about contexts go through these.
-/

namespace Workflow

lemma Token.mem_path {t : Token} {n : Nat} : n ∈ t.path ↔ n = t.number ∨ n ∈ t.ancestors :=
  List.mem_cons

namespace Contexts

variable {s : Contexts} {c : Context} {t : Token} {handle n : Nat}

/-! ## Questions -/

lemma isTokenCancelled_iff : s.isTokenCancelled t = true ↔ ∃ n ∈ t.path, n ∈ s.cancelled := by
  simp [isTokenCancelled]

lemma isPast_iff {deadline : Option Nat} :
    s.isPast deadline = true ↔ ∃ d, deadline = some d ∧ d ≤ s.clock := by
  simp [isPast, Option.any_eq_true]

lemma isCancelled_iff : s.isCancelled c = true ↔
    (∃ n ∈ c.token.path, n ∈ s.cancelled) ∨ ∃ d, c.deadline = some d ∧ d ≤ s.clock := by
  rw [isCancelled, Bool.or_eq_true, isTokenCancelled_iff, isPast_iff]

/-- What is cancelled stays so, as long as no cancellation is taken back. -/
lemma isTokenCancelled_mono {s' : Contexts} (grown : ∀ n ∈ s.cancelled, n ∈ s'.cancelled)
    (h : s.isTokenCancelled t = true) : s'.isTokenCancelled t = true := by
  obtain ⟨n, hn, hmem⟩ := isTokenCancelled_iff.mp h
  exact isTokenCancelled_iff.mpr ⟨n, hn, grown n hmem⟩

lemma isTokenCancelled_eq_false_of_grown {s' : Contexts}
    (grown : ∀ n ∈ s.cancelled, n ∈ s'.cancelled) (h : s'.isTokenCancelled t = false) :
    s.isTokenCancelled t = false := by
  refine Bool.eq_false_iff.mpr fun hcancelled => ?_
  rw [isTokenCancelled_mono grown hcancelled] at h
  cases h

lemma isCancelled_mono {s' : Contexts} (clock_le : s.clock ≤ s'.clock)
    (grown : ∀ n ∈ s.cancelled, n ∈ s'.cancelled) (h : s.isCancelled c = true) :
    s'.isCancelled c = true := by
  rcases isCancelled_iff.mp h with ⟨n, hn, hmem⟩ | ⟨d, hd, hle⟩
  · exact isCancelled_iff.mpr (.inl ⟨n, hn, grown n hmem⟩)
  · exact isCancelled_iff.mpr (.inr ⟨d, hd, Nat.le_trans hle clock_le⟩)

lemma isKept_iff : s.isKept n = true ↔ ∃ p ∈ s.held, n ∈ p.2.timers := by
  simp [isKept]

lemma mem_held_of_find? (hc : s.find? handle = some c) : (handle, c) ∈ s.held := by
  obtain ⟨p, hp, rfl⟩ := Option.map_eq_some_iff.mp hc
  have hhandle := List.find?_some hp
  rw [show handle = p.1 from (eq_of_beq hhandle).symm]
  exact List.mem_of_find?_eq_some hp

/-! ## Letting go -/

@[simp] lemma clock_release (s : Contexts) (handle : Nat) :
    (s.release handle).clock = s.clock := by
  unfold release
  split <;> rfl

@[simp] lemma supply_release (s : Contexts) (handle : Nat) :
    (s.release handle).supply = s.supply := by
  unfold release
  split <;> rfl

@[simp] lemma timers_release (s : Contexts) (handle : Nat) :
    (s.release handle).timers = s.timers := by
  unfold release
  split <;> rfl

lemma held_release (s : Contexts) (handle : Nat) :
    (s.release handle).held = s.held.filter fun p => p.1 != handle := by
  unfold release
  split
  · rfl
  · next hnone =>
      rw [find?, Option.map_eq_none_iff, List.find?_eq_none] at hnone
      exact (List.filter_eq_self.mpr fun p hp => by simpa using hnone p hp).symm

lemma mem_held_release {p : Nat × Context} :
    p ∈ (s.release handle).held ↔ p ∈ s.held ∧ p.1 ≠ handle := by
  rw [held_release, List.mem_filter, bne_iff_ne]

/-- The other handles are still held. -/
lemma find?_release_of_ne {other : Nat} (ne : other ≠ handle) :
    (s.release handle).find? other = s.find? other := by
  rw [find?, find?, held_release, List.find?_filter]
  congr 2
  funext p
  by_cases hp : p.1 = other <;> simp [hp, ne]

/-- Whoever lets go of a handle cancels the tokens whose timers nobody else keeps. -/
lemma mem_cancelled_release : n ∈ (s.release handle).cancelled ↔ n ∈ s.cancelled ∨
    ∃ c, s.find? handle = some c ∧ n ∈ c.timers ∧ (s.release handle).isKept n = false := by
  have hkept : (s.release handle).isKept n
      = (s.held.filter fun p => p.1 != handle).any fun p => p.2.timers.contains n := by
    rw [isKept, held_release]
  rw [hkept]
  unfold release
  split
  · next c hc =>
      simp only [hc, Option.some.injEq, exists_eq_left', List.mem_append, List.mem_reverse,
        List.mem_filter, Bool.not_eq_true', isKept]
      exact or_comm
  · next hnone => simp [hnone]

/-! ## A timer's turn -/

@[simp] lemma clock_fire (s : Contexts) (t : Timer) : (s.fire t).clock = s.clock := by
  unfold fire
  dsimp only
  split <;> rfl

@[simp] lemma supply_fire (s : Contexts) (t : Timer) : (s.fire t).supply = s.supply := by
  unfold fire
  dsimp only
  split <;> rfl

@[simp] lemma held_fire (s : Contexts) (t : Timer) : (s.fire t).held = s.held := by
  unfold fire
  dsimp only
  split <;> rfl

lemma timers_fire (s : Contexts) (t : Timer) :
    (s.fire t).timers = s.timers.filter fun u => u != t := by
  unfold fire
  dsimp only
  split <;> rfl

lemma mem_timers_fire {t u : Timer} : u ∈ (s.fire t).timers ↔ u ∈ s.timers ∧ u ≠ t := by
  rw [timers_fire, List.mem_filter, bne_iff_ne]

/-- A timer cancels its token, unless that is cancelled already. -/
lemma mem_cancelled_fire {t : Timer} : n ∈ (s.fire t).cancelled ↔
    n ∈ s.cancelled ∨ (n = t.token.number ∧ s.isTokenCancelled t.token = false) := by
  have hasked : ({ s with timers := s.timers.filter fun u => u != t } : Contexts).isTokenCancelled
      t.token = s.isTokenCancelled t.token := rfl
  rw [fire, hasked]
  split
  · next h => simp [h]
  · next h => simp [h, cancel, or_comm]

/-- A timer that has run leaves a cancelled token behind. -/
lemma isTokenCancelled_fire (s : Contexts) (t : Timer) :
    (s.fire t).isTokenCancelled t.token = true := by
  rw [isTokenCancelled_iff]
  cases h : s.isTokenCancelled t.token with
  | false =>
      exact ⟨t.token.number, Token.mem_path.mpr (.inl rfl), mem_cancelled_fire.mpr (.inr ⟨rfl, h⟩)⟩
  | true =>
      obtain ⟨n, hn, hcancelled⟩ := isTokenCancelled_iff.mp h
      exact ⟨n, hn, mem_cancelled_fire.mpr (.inl hcancelled)⟩

end Contexts

end Workflow
