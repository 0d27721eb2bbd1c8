import Mathlib.Data.List.Basic
import Workflow.World
import Workflow.Proofs.Ledger

/-!
# One more token

A program that makes one token more than another gives other numbers to all that it makes later.
This file says what a ledger becomes when the number `k` goes to a token that the ledger knows
nothing of.

* `past k` is what becomes of a number: those from `k` on move up by one.
* `Token.shift`, `Context.shift` and `Timer.shift` are what becomes of what code has made.  The
  token `k` stands between all that was there before it and all that came after it, so it is on the
  path of a token just above those with smaller numbers.
* `Contexts.shift` is what becomes of the ledger.  Each operation on the ledger is the same before
  and after the shift (`Contexts.child_shift`, `Contexts.release_shift`, `Contexts.fire_shift` and
  so on), and a question has the same answer (`Contexts.isCancelled_shift`).

**The token itself.**  When everything in a ledger has smaller numbers, the shifted ledger is what a
derivation makes of it, and the shifted context is the one derived
(`Contexts.IsBelow.child_eq_shift`).
-/

namespace Workflow

/-! ## Numbers -/

/-- What becomes of a number when the number `k` goes to something else. -/
def past (k n : Nat) : Nat :=
  if n < k then n else n + 1

section

variable {k n m : Nat}

lemma past_of_lt (h : n < k) : past k n = n := if_pos h

lemma past_of_le (h : k ≤ n) : past k n = n + 1 := if_neg (Nat.not_lt.mpr h)

lemma past_injective (k : Nat) : Function.Injective (past k) := by
  intro n m h
  unfold past at h
  split_ifs at h <;> omega

@[simp]
lemma past_inj : past k n = past k m ↔ n = m := (past_injective k).eq_iff

lemma past_ne (k n : Nat) : past k n ≠ k := by
  unfold past
  split_ifs <;> omega

lemma map_eq_self {α : Type} {f : α → α} {l : List α} (h : ∀ a ∈ l, f a = a) : l.map f = l :=
  (List.map_congr_left h).trans (List.map_id' l)

lemma map_past_of_lt {l : List Nat} (h : ∀ n ∈ l, n < k) : l.map (past k) = l :=
  map_eq_self fun n hn => past_of_lt (h n hn)

@[simp]
lemma contains_map_past (l : List Nat) : (l.map (past k)).contains (past k n) = l.contains n := by
  rw [Bool.eq_iff_iff]
  simp

@[simp]
lemma contains_map_past_self (l : List Nat) : (l.map (past k)).contains k = false := by
  simp [past_ne]

/-! ## Tokens and contexts -/

/-- What becomes of the numbers on the path of a token. -/
def shiftPath (k : Nat) : List Nat → List Nat
  -- A path leads from a token to those that it follows, which are older and have smaller numbers.
  | [] => [k]
  | n :: path => if n < k then k :: (n :: path).map (past k) else past k n :: shiftPath k path

lemma any_map_past (l path : List Nat) :
    (path.map (past k)).any (l.map (past k)).contains = path.any l.contains := by
  rw [List.any_map]
  congr 1
  funext n
  exact contains_map_past l

lemma any_shiftPath (l path : List Nat) :
    (shiftPath k path).any (l.map (past k)).contains = path.any l.contains := by
  induction path with
  | nil => simp [shiftPath, past_ne]
  | cons n path ih =>
      rw [shiftPath]
      split_ifs
      · rw [List.any_cons, contains_map_past_self, any_map_past, Bool.false_or]
      · rw [List.any_cons, List.any_cons, contains_map_past, ih]

/-- The shift can be undone: the token `k` is taken off again. -/
lemma filter_shiftPath (path : List Nat) :
    (shiftPath k path).filter (· != k) = path.map (past k) := by
  have hpast : ∀ l : List Nat, (l.map (past k)).filter (· != k) = l.map (past k) := by
    intro l
    simp [List.filter_eq_self, past_ne]
  induction path with
  | nil => simp [shiftPath]
  | cons n path ih =>
      rw [shiftPath]
      split_ifs
      · simpa using hpast (n :: path)
      · simp [past_ne, ih]

lemma shiftPath_injective (k : Nat) : Function.Injective (shiftPath k) := by
  intro l l' h
  have hfilter := congrArg (List.filter (· != k)) h
  rw [filter_shiftPath, filter_shiftPath] at hfilter
  exact (List.map_injective_iff.mpr (past_injective k)) hfilter

/-- What becomes of a token that code follows. -/
def Token.shift (k : Nat) (t : Token) : Token :=
  if t.number < k then ⟨k, t.path.map (past k)⟩
  else ⟨past k t.number, shiftPath k t.ancestors⟩

lemma Token.path_shift (k : Nat) (t : Token) : (t.shift k).path = shiftPath k t.path := by
  rw [Token.path, Token.path, shiftPath, shift]
  split_ifs <;> rfl

lemma Token.number_shift_eq (k : Nat) (t : Token) : (t.shift k).number = k ↔ t.number < k := by
  rw [shift]
  split_ifs with h
  · simp [h]
  · simp [past_ne, h]

lemma Token.number_shift {t : Token} (h : k ≤ t.number) : (t.shift k).number = past k t.number := by
  rw [shift, if_neg (Nat.not_lt.mpr h)]

lemma Token.shift_injective (k : Nat) : Function.Injective (Token.shift k) := by
  intro t u h
  have hpath := congrArg Token.path h
  rw [path_shift, path_shift] at hpath
  have heq := shiftPath_injective k hpath
  obtain ⟨number, ancestors⟩ := t
  obtain ⟨number', ancestors'⟩ := u
  obtain ⟨rfl, rfl⟩ := List.cons.inj heq
  rfl

/-- What becomes of a context that code is given. -/
def Context.shift (k : Nat) (c : Context) : Context where
  token := c.token.shift k
  deadline := c.deadline
  timers := c.timers.map (past k)

/-- What becomes of a timer: those that were there before the token `k` do not follow it. -/
def Timer.shift (k : Nat) (t : Timer) : Timer where
  token :=
    if t.token.number < k then ⟨t.token.number, t.token.ancestors.map (past k)⟩
    else t.token.shift k
  deadline := t.deadline

lemma Timer.number_shift (k : Nat) (t : Timer) :
    (t.shift k).token.number = past k t.token.number := by
  rw [shift]
  dsimp only
  split_ifs with h
  · exact (past_of_lt h).symm
  · exact Token.number_shift (Nat.not_lt.mp h)

lemma Timer.shift_injective (k : Nat) : Function.Injective (Timer.shift k) := by
  intro t u h
  have hnumber : t.token.number = u.token.number := by
    have := congrArg (fun t : Timer => t.token.number) h
    simpa only [number_shift, past_inj] using this
  obtain ⟨⟨number, ancestors⟩, deadline⟩ := t
  obtain ⟨⟨number', ancestors'⟩, deadline'⟩ := u
  simp only [shift, Timer.mk.injEq] at h hnumber ⊢
  subst hnumber
  refine ⟨?_, h.2⟩
  split_ifs at h
  · have hmap := (Token.mk.inj h.1).2
    rw [List.map_injective_iff.mpr (past_injective k) hmap]
  · exact Token.shift_injective k h.1

lemma Timer.shift_of_lt {t : Timer} (h : ∀ n ∈ t.token.path, n < k) : t.shift k = t := by
  obtain ⟨⟨number, ancestors⟩, deadline⟩ := t
  have hnumber : number < k := h number List.mem_cons_self
  have hmap : ancestors.map (past k) = ancestors :=
    map_past_of_lt fun n hn => h n (List.mem_cons_of_mem _ hn)
  rw [shift, if_pos hnumber, hmap]

end

/-! ## Ledgers -/

/-- What becomes of a held context: those that were there before the token `k` do not follow it. -/
def shiftHeld (k : Nat) (h : Nat × Context) : Nat × Context :=
  (past k h.1, if h.1 < k then { h.2 with timers := h.2.timers.map (past k) } else h.2.shift k)

namespace Contexts

/-- What becomes of a ledger when the number `k` goes to a token that it knows nothing of. -/
def shift (k : Nat) (x : Contexts) : Contexts where
  clock := x.clock
  supply := x.supply + 1
  cancelled := x.cancelled.map (past k)
  timers := x.timers.map (Timer.shift k)
  held := x.held.map (shiftHeld k)

variable {k : Nat} {x : Contexts} {c : Context}

/-! ### What can be asked -/

@[simp]
lemma isTokenCancelled_shift (k : Nat) (x : Contexts) (t : Token) :
    (x.shift k).isTokenCancelled (t.shift k) = x.isTokenCancelled t := by
  rw [isTokenCancelled, isTokenCancelled, Token.path_shift]
  exact any_shiftPath _ _

lemma isTokenCancelled_shift_timer (k : Nat) (x : Contexts) (t : Timer) :
    (x.shift k).isTokenCancelled (t.shift k).token = x.isTokenCancelled t.token := by
  rw [Timer.shift]
  dsimp only
  split_ifs with h
  · have hpath : (⟨t.token.number, t.token.ancestors.map (past k)⟩ : Token).path =
        t.token.path.map (past k) := by
      rw [Token.path, Token.path, List.map_cons, past_of_lt h]
    rw [isTokenCancelled, isTokenCancelled, hpath]
    exact any_map_past _ _
  · exact isTokenCancelled_shift k x t.token

@[simp]
lemma isCancelled_shift (k : Nat) (x : Contexts) (c : Context) :
    (x.shift k).isCancelled (c.shift k) = x.isCancelled c := by
  rw [isCancelled, isCancelled]
  exact congrArg₂ _ (isTokenCancelled_shift k x c.token) rfl

lemma isDue_shift (k : Nat) (x : Contexts) (t : Timer) :
    (x.shift k).isDue (t.shift k) = x.isDue t := by
  rw [isDue, isDue, isTokenCancelled_shift_timer]
  rfl

lemma timers_shiftHeld (k : Nat) (h : Nat × Context) :
    (shiftHeld k h).2.timers = h.2.timers.map (past k) := by
  rw [shiftHeld]
  dsimp only
  split_ifs <;> rfl

lemma isKept_shift (k : Nat) (x : Contexts) (number : Nat) :
    (x.shift k).isKept (past k number) = x.isKept number := by
  rw [isKept, isKept, shift, List.any_map]
  congr 1
  funext h
  rw [Function.comp_apply, timers_shiftHeld, contains_map_past]

lemma find?_shift (k : Nat) (x : Contexts) (handle : Nat) :
    ((x.shift k).find? (past k handle)).map (·.timers) =
      (x.find? handle).map fun c => c.timers.map (past k) := by
  have hhandle : ((fun h : Nat × Context => h.1 == past k handle) ∘ shiftHeld k) =
      fun h => h.1 == handle := by
    funext h
    rw [Bool.eq_iff_iff]
    simp [shiftHeld]
  rw [find?, find?, shift, List.find?_map, hhandle]
  cases x.held.find? fun h => h.1 == handle with
  | none => rfl
  | some h => exact congrArg some (timers_shiftHeld k h)

/-! ### What can be done -/

lemma cancel_shift {t : Token} (h : k ≤ t.number) :
    (x.shift k).cancel (t.shift k) = (x.cancel t).shift k := by
  rw [cancel, cancel, Token.number_shift h]
  rfl

/-- What was there before the token `k` has kept its number. -/
lemma cancel_shift_of_lt {t : Token} (h : t.number < k) :
    (x.shift k).cancel t = (x.cancel t).shift k := by
  simp [cancel, shift, past_of_lt h]

lemma child_shift (le : k ≤ x.supply) (c : Context) :
    (x.shift k).child (c.shift k) = ((x.child c).1.shift k, (x.child c).2.shift k) := by
  have htoken : (⟨x.supply, c.token.path⟩ : Token).shift k =
      ⟨x.supply + 1, (c.token.shift k).path⟩ := by
    rw [Token.shift, if_neg (Nat.not_lt.mpr le), past_of_le le, Token.path_shift]
  simp only [child, childToken, Context.shift, htoken]
  rfl

lemma hold_shift (le : k ≤ x.supply) (c : Context) :
    (x.shift k).hold (c.shift k) = (past k (x.hold c).1, (x.hold c).2.shift k) := by
  have hheld : shiftHeld k (x.supply, c) = (x.supply + 1, c.shift k) := by
    rw [shiftHeld, past_of_le le, if_neg (Nat.not_lt.mpr le)]
  simp only [hold, past_of_le le, shift, List.map_cons, hheld]

lemma withDeadline_shift (le : k ≤ x.supply) (c : Context) (deadline : Nat) :
    (x.shift k).withDeadline (c.shift k) deadline =
      ((x.withDeadline c deadline).1.shift k, (x.withDeadline c deadline).2.shift k) := by
  have htoken : (⟨x.supply, c.token.path⟩ : Token).shift k =
      ⟨x.supply + 1, (c.token.shift k).path⟩ := by
    rw [Token.shift, if_neg (Nat.not_lt.mpr le), past_of_le le, Token.path_shift]
  simp only [withDeadline, childToken, Context.shift, Timer.shift, htoken, shift, List.map_append,
    List.map_cons, List.map_nil, if_neg (Nat.not_lt.mpr le), past_of_le le]

lemma release_shift (k : Nat) (x : Contexts) (handle : Nat) :
    (x.shift k).release (past k handle) = (x.release handle).shift k := by
  have hfind := find?_shift k x handle
  rw [release, release]
  cases hc : x.find? handle with
  | none =>
      rw [hc] at hfind
      rw [Option.map_eq_none_iff.mp hfind]
  | some c =>
      rw [hc] at hfind
      obtain ⟨c', hc', htimers⟩ := Option.map_eq_some_iff.mp hfind
      rw [hc']
      have hheld : (x.held.map (shiftHeld k)).filter (fun h => h.1 != past k handle) =
          (x.held.filter fun h => h.1 != handle).map (shiftHeld k) := by
        rw [List.filter_map]
        congr 2
        funext h
        rw [Bool.eq_iff_iff]
        simp [shiftHeld]
      have hrest : ({ x.shift k with
          held := (x.shift k).held.filter fun h => h.1 != past k handle } : Contexts) =
          ({ x with held := x.held.filter fun h => h.1 != handle } : Contexts).shift k := by
        simp only [shift, hheld]
      dsimp only at htimers ⊢
      rw [hrest, htimers, List.filter_map]
      simp only [Function.comp_def, isKept_shift]
      simp [shift, hheld]

lemma fire_shift (k : Nat) (x : Contexts) (t : Timer) :
    (x.shift k).fire (t.shift k) = (x.fire t).shift k := by
  have htimers : (x.timers.map (Timer.shift k)).filter (fun u => u != t.shift k) =
      (x.timers.filter fun u => u != t).map (Timer.shift k) := by
    rw [List.filter_map]
    congr 2
    funext u
    rw [Bool.eq_iff_iff]
    simp [(Timer.shift_injective k).eq_iff]
  have hrest : ({ x.shift k with
      timers := (x.shift k).timers.filter fun u => u != t.shift k } : Contexts) =
      ({ x with timers := x.timers.filter fun u => u != t } : Contexts).shift k := by
    simp only [shift, htimers]
  rw [fire, fire, hrest, isTokenCancelled_shift_timer]
  split_ifs
  · rfl
  · rw [cancel, cancel, Timer.number_shift]
    rfl

/-! ### The token itself -/

/-- Everything in the ledger has a number below `k`. -/
structure IsBelow (k : Nat) (x : Contexts) : Prop where
  held_lt : ∀ h ∈ x.held, h.1 < k ∧ ∀ n ∈ h.2.timers, n < k
  timers_lt : ∀ t ∈ x.timers, ∀ n ∈ t.token.path, n < k
  cancelled_lt : ∀ n ∈ x.cancelled, n < k

lemma IsBelow.shift_eq (h : x.IsBelow k) : x.shift k = { x with supply := x.supply + 1 } := by
  have hcancelled : x.cancelled.map (past k) = x.cancelled := map_past_of_lt h.cancelled_lt
  have htimers : x.timers.map (Timer.shift k) = x.timers :=
    map_eq_self fun t ht => Timer.shift_of_lt (h.timers_lt t ht)
  have hheld : x.held.map (shiftHeld k) = x.held := by
    refine map_eq_self fun p hp => ?_
    obtain ⟨hlt, hkept⟩ := h.held_lt p hp
    rw [shiftHeld, past_of_lt hlt, if_pos hlt, map_past_of_lt hkept]
  rw [shift, hcancelled, htimers, hheld]

/-- The derivation of a context is what gives the number away. -/
lemma IsBelow.child_eq_shift (h : x.IsBelow x.supply)
    (context : ∀ n ∈ c.token.path ++ c.timers, n < x.supply) :
    x.child c = (c.shift x.supply, x.shift x.supply) := by
  have hpath : ∀ n ∈ c.token.path, n < x.supply := fun n hn =>
    context n (List.mem_append_left _ hn)
  have htoken : c.token.shift x.supply = ⟨x.supply, c.token.path⟩ := by
    rw [Token.shift, if_pos (hpath _ List.mem_cons_self), map_past_of_lt hpath]
  have htimers : c.timers.map (past x.supply) = c.timers :=
    map_past_of_lt fun n hn => context n (List.mem_append_right _ hn)
  rw [h.shift_eq, Context.shift, htoken, htimers]
  rfl

end Contexts

end Workflow
