import Mathlib.Data.Nat.Basic
import Mathlib.Order.Basic
import Workflow.Usage

/-!
# What comes from what

The record of what has happened to a ledger of contexts says what was derived from what.

**The record grows.**  What is put on record is about new numbers (`Fresh`), so what it says of old
ones stays as it was (`Follows.append_iff`, `Dated.append_iff`); and what it says of a new context
is what it says of the one it came from, with a deadline more if one was given (`Dated.new_iff`).

**Order.**  A record is `Orderly` when its tokens carry the numbers of those they follow, and tokens
and handles were given out once.  Then a context's token follows the tokens of all contexts that it
came from (`Orderly.follows_of_derived`), and those of siblings do not follow one another
(`Orderly.not_follows_of_siblings`).
-/

namespace Workflow

open Relation

/-! ## Paths of old numbers -/

/-- Paths that start among old numbers stay there, if nothing is added to what leads from them. -/
lemma reflTransGen_congr {α : Type} {R R' : α → α → Prop} (old : α → Prop)
    (same : ∀ x, old x → ∀ y, R' x y ↔ R x y) (closed : ∀ x y, old x → R x y → old y) {x y : α}
    (hx : old x) : ReflTransGen R' x y ↔ ReflTransGen R x y := by
  constructor
  · intro h
    induction h using ReflTransGen.head_induction_on with
    | refl => exact .refl
    | head hxz _ ih =>
        have hxz := (same _ hx _).mp hxz
        exact .head hxz (ih (closed _ _ hx hxz))
  · intro h
    induction h using ReflTransGen.head_induction_on with
    | refl => exact .refl
    | head hxz _ ih => exact .head ((same _ hx _).mpr hxz) (ih (closed _ _ hx hxz))

/-- A path from where only one way leads on. -/
lemma reflTransGen_head_iff {α : Type} {R : α → α → Prop} {x : α} {next : Option α}
    (only : ∀ y, R x y ↔ next = some y) {y : α} :
    ReflTransGen R x y ↔ y = x ∨ ∃ z, next = some z ∧ ReflTransGen R z y := by
  rw [ReflTransGen.cases_head_iff]
  exact or_congr eq_comm (exists_congr fun z => and_congr (only z) Iff.rfl)

namespace Descent

lemma source?_of_parent? {d : Descent} {p : Nat} (h : d.parent? = some p) : d.source? = some p := by
  cases d <;> simp_all [parent?, source?]

/-- A context that comes from another without having been derived from it is a clone. -/
lemma eq_clone {d : Descent} {p : Nat} (shared : d.parent? = none) (h : d.source? = some p) :
    d = .clone p := by
  cases d <;> simp_all [parent?, source?]

end Descent

/-! ## Old and new numbers -/

/-- The record tells of numbers below `k` only. -/
structure Below (k : Nat) (log : List Occurrence) : Prop where
  token : ∀ t of, .token t of ∈ log → t.number < k ∧ ∀ m, of = some m → m < k
  context : ∀ h n d, .context h n d ∈ log → h < k ∧ n < k ∧ ∀ p, d.source? = some p → p < k

/-- What is put on record is about tokens and contexts that were made since the number `k` came
next. -/
structure Fresh (k : Nat) (new : List Occurrence) : Prop where
  token : ∀ t of, .token t of ∈ new → k ≤ t.number
  context : ∀ h n d, .context h n d ∈ new → k ≤ h

variable {log new : List Occurrence} {k : Nat}

lemma Fresh.cancelled (k n : Nat) : Fresh k [.cancelled n] := by
  constructor <;> simp

lemma Fresh.token_singleton {t : Token} (h : k ≤ t.number) (of : Option Nat) :
    Fresh k [.token t of] := by
  constructor <;> simp_all

lemma Fresh.context_singleton {h : Nat} (hh : k ≤ h) (n : Nat) (d : Descent) :
    Fresh k [.context h n d] := by
  constructor <;> simp_all

lemma Below.mono (below : Below k log) {k' : Nat} (le : k ≤ k') : Below k' log where
  token t of h := by
    obtain ⟨hn, hof⟩ := below.token t of h
    exact ⟨by omega, fun m hm => (hof m hm).trans_le le⟩
  context h n d hd := by
    obtain ⟨hh, hn, hs⟩ := below.context h n d hd
    exact ⟨by omega, by omega, fun p hp => (hs p hp).trans_le le⟩

/-- A token carries the numbers of those that it follows, as far as that is a matter of how it is
made: none, or those of the token that it is derived from. -/
def Ancestry (log : List Occurrence) (t : Token) (of : Option Nat) : Prop :=
  (of = none ∧ t.ancestors = []) ∨
    ∃ p, Recorded log p ∧ of = some p.number ∧ t.ancestors = p.path

lemma Ancestry.lt {t : Token} {of : Option Nat} (h : Ancestry log t of) (below : Below k log)
    (m : Nat) (hm : of = some m) : m < k := by
  rcases h with ⟨rfl, -⟩ | ⟨p, ⟨of', hp⟩, rfl, -⟩
  · cases hm
  · cases hm
    exact (below.token p of' hp).1

lemma Below.append_token (below : Below k log) {t : Token} {of : Option Nat} (number : t.number = k)
    (known : ∀ m, of = some m → m < k) : Below (k + 1) (log ++ [.token t of]) where
  token u of' h := by
    rcases List.mem_append.mp h with h | h
    · exact (below.mono k.le_succ).token u of' h
    · simp only [List.mem_singleton, Occurrence.token.injEq] at h
      obtain ⟨rfl, rfl⟩ := h
      exact ⟨by omega, fun m hm => (known m hm).trans k.lt_succ_self⟩
  context h n d hd := by
    refine (below.mono k.le_succ).context h n d ?_
    simpa using hd

lemma Below.append_context (below : Below k log) {h n : Nat} {d : Descent} (hk : h = k) (hn : n < k)
    (known : ∀ p, d.source? = some p → p < k) : Below (k + 1) (log ++ [.context h n d]) where
  token u of ht := by
    refine (below.mono k.le_succ).token u of ?_
    simpa using ht
  context h' n' d' hd := by
    rcases List.mem_append.mp hd with hd | hd
    · exact (below.mono k.le_succ).context h' n' d' hd
    · simp only [List.mem_singleton, Occurrence.context.injEq] at hd
      obtain ⟨rfl, rfl, rfl⟩ := hd
      exact ⟨by omega, by omega, fun p hp => (known p hp).trans k.lt_succ_self⟩

/-- Contexts that come from others are never newer than those that come from them. -/
lemma Derived.lt (below : Below k log) {h h' : Nat} (hd : Derived log h h') (hh : h < k) :
    h' < k := by
  induction hd with
  | refl => exact hh
  | tail _ hstep _ =>
      obtain ⟨n, d, hmem, hsource⟩ := hstep
      exact (below.context _ n d hmem).2.2 _ hsource

section

variable (below : Below k log) (fresh : Fresh k new)

include below fresh

lemma Follows.append_iff {n m : Nat} (hn : n < k) :
    Follows (log ++ new) n m ↔ Follows log n m := by
  refine reflTransGen_congr (· < k) (fun x hx y => ?_) ?_ hn
  · refine exists_congr fun t => and_congr_left fun ht => ?_
    rw [List.mem_append, or_iff_left]
    intro hnew
    have := fresh.token t _ hnew
    omega
  · rintro x y - ⟨t, ht, -⟩
    exact (below.token t _ ht).2 y rfl

lemma Derived.append_iff {h h' : Nat} (hh : h < k) :
    Derived (log ++ new) h h' ↔ Derived log h h' := by
  refine reflTransGen_congr (· < k) (fun x hx y => ?_) ?_ hh
  · refine exists_congr fun n => exists_congr fun d => and_congr_left fun _ => ?_
    rw [List.mem_append, or_iff_left]
    intro hnew
    have := fresh.context x n d hnew
    omega
  · rintro x y - ⟨n, d, hd, hy⟩
    exact (below.context x n d hd).2.2 y hy

lemma Dated.append_iff {h n d : Nat} (hh : h < k) :
    Dated (log ++ new) h n d ↔ Dated log h n d := by
  refine exists_congr fun h' => exists_congr fun of => ?_
  rw [Derived.append_iff below fresh hh]
  refine and_congr_right fun hd => ?_
  rw [List.mem_append, or_iff_left]
  intro hnew
  have := fresh.context h' n _ hnew
  have := hd.lt below hh
  omega

lemma Given.append_iff {h d : Nat} (hh : h < k) : Given (log ++ new) h d ↔ Given log h d :=
  exists_congr fun _ => Dated.append_iff below fresh hh

end

/-! ## A new token and a new context -/

lemma tokenParent_append_token {t : Token} {of : Option Nat} {x y : Nat} :
    TokenParent (log ++ [.token t of]) x y ↔ TokenParent log x y ∨ x = t.number ∧ of = some y := by
  constructor
  · rintro ⟨u, hu, rfl⟩
    rcases List.mem_append.mp hu with hu | hu
    · exact .inl ⟨u, hu, rfl⟩
    · simp only [List.mem_singleton, Occurrence.token.injEq] at hu
      exact .inr ⟨hu.1 ▸ rfl, hu.2.symm⟩
  · rintro (⟨u, hu, rfl⟩ | ⟨rfl, rfl⟩)
    · exact ⟨u, List.mem_append_left _ hu, rfl⟩
    · exact ⟨t, by simp, rfl⟩

lemma Below.lt_of_tokenParent (below : Below k log) {x y : Nat} (h : TokenParent log x y) :
    x < k := by
  obtain ⟨t, ht, rfl⟩ := h
  exact (below.token t _ ht).1

/-- A new token follows what its parent follows. -/
lemma Follows.new_iff (below : Below k log) {t : Token} {of : Option Nat} (hk : t.number = k)
    {m : Nat} (known : ∀ p, of = some p → p < k) :
    Follows (log ++ [.token t of]) t.number m ↔
      m = t.number ∨ ∃ p, of = some p ∧ Follows log p m := by
  have honly : ∀ y, TokenParent (log ++ [.token t of]) t.number y ↔ of = some y := by
    intro y
    have hold : ¬ TokenParent log t.number y := fun h => by
      have := below.lt_of_tokenParent h
      omega
    simp [tokenParent_append_token, hold]
  rw [Follows, reflTransGen_head_iff honly]
  refine or_congr_right (exists_congr fun p => and_congr_right fun hp => ?_)
  exact Follows.append_iff below (.token_singleton hk.ge of) (known p hp)

/-- A new context has the deadlines of the one it came from, and its own. -/
lemma Dated.new_iff (below : Below k log) {h n : Nat} {d : Descent} (hk : h = k)
    (known : ∀ p, d.source? = some p → p < k) (fresh : Fresh k [.context h n d]) {m x : Nat} :
    Dated (log ++ [.context h n d]) h m x ↔
      (m = n ∧ ∃ of, d = .timed of x) ∨ ∃ p, d.source? = some p ∧ Dated log p m x := by
  have honly : ∀ y, ContextSource (log ++ [.context h n d]) h y ↔ d.source? = some y := by
    intro y
    constructor
    · rintro ⟨n', d', hd', hy⟩
      rcases List.mem_append.mp hd' with hd' | hd'
      · have := (below.context h n' d' hd').1
        omega
      · simp only [List.mem_singleton, Occurrence.context.injEq, true_and] at hd'
        rw [← hd'.2]; exact hy
    · intro hy
      exact ⟨n, d, by simp, hy⟩
  constructor
  · rintro ⟨h', of, hd, hmem⟩
    rcases (reflTransGen_head_iff honly).mp hd with rfl | ⟨p, hp, hd⟩
    · rcases List.mem_append.mp hmem with hmem | hmem
      · have := (below.context _ _ _ hmem).1
        omega
      · simp only [List.mem_singleton, Occurrence.context.injEq, true_and] at hmem
        exact .inl ⟨hmem.1, of, hmem.2.symm⟩
    · exact .inr ⟨p, hp, (Dated.append_iff below fresh (known p hp)).mp ⟨h', of, hd, hmem⟩⟩
  · rintro (⟨rfl, of, rfl⟩ | ⟨p, hp, hdated⟩)
    · exact ⟨h, of, .refl, by simp⟩
    · obtain ⟨h', of, hd, hmem⟩ := (Dated.append_iff below fresh (known p hp)).mpr hdated
      exact ⟨h', of, .head ((honly p).mpr hp) hd, hmem⟩

/-! ## Orderly records -/

/-- What holds of every record that a program can leave. -/
structure Orderly (log : List Occurrence) : Prop where
  /-- A token carries the numbers of those it follows. -/
  path : ∀ t, Recorded log t → ∀ m, Follows log t.number m ↔ m ∈ t.path
  older : ∀ n m, TokenParent log n m → m < n
  /-- A token is derived from one other at most. -/
  one : ∀ n m m', TokenParent log n m → TokenParent log n m' → m = m'
  /-- A handle is given out once. -/
  once : ∀ h n d n' d', .context h n d ∈ log → .context h n' d' ∈ log → n = n' ∧ d = d'
  /-- A token is made for one context at most. -/
  own : ∀ h n d h' d', .context h n d ∈ log → .context h' n d' ∈ log → d.parent?.isSome = true →
    d'.parent?.isSome = true → h = h'
  clone : ∀ h n p, .context h n (.clone p) ∈ log → ∃ e, .context p n e ∈ log
  parent : ∀ h n d p, .context h n d ∈ log → d.parent? = some p →
    ∃ m e, .context p m e ∈ log ∧ TokenParent log n m

lemma recorded_append_token {t u : Token} {of : Option Nat} :
    Recorded (log ++ [.token t of]) u ↔ Recorded log u ∨ u = t := by
  simp [Recorded, exists_or]

lemma recorded_append_context {h n : Nat} {d : Descent} {u : Token} :
    Recorded (log ++ [.context h n d]) u ↔ Recorded log u := by
  simp [Recorded]

lemma tokenParent_append_context {h n : Nat} {d : Descent} {x y : Nat} :
    TokenParent (log ++ [.context h n d]) x y ↔ TokenParent log x y := by
  simp [TokenParent]

/-- What a token follows is a matter of tokens alone. -/
lemma Follows.congr (log : List Occurrence) {log' : List Occurrence}
    (same : ∀ t of, .token t of ∈ log' ↔ .token t of ∈ log) {x y : Nat} :
    Follows log' x y ↔ Follows log x y := by
  refine reflTransGen_congr (fun _ => True) (fun x _ y => ?_) (fun _ _ _ _ => trivial) trivial
  exact exists_congr fun t => and_congr_left fun _ => same t y

namespace Orderly

lemma nil : Orderly [] := by
  constructor <;> simp [Recorded, TokenParent]

/-- A token is put on record, by itself or as one that follows another. -/
lemma token (o : Orderly log) (below : Below k log) {t : Token} {of : Option Nat}
    (hk : t.number = k) (ancestry : Ancestry log t of) : Orderly (log ++ [.token t of]) where
  path u hu m := by
    rcases recorded_append_token.mp hu with ⟨of', hu⟩ | rfl
    · rw [Follows.append_iff below (.token_singleton hk.ge of) (below.token u of' hu).1]
      exact o.path u ⟨of', hu⟩ m
    · rw [Follows.new_iff below hk (ancestry.lt below), Token.path, List.mem_cons]
      refine or_congr_right ?_
      rcases ancestry with ⟨rfl, hnone⟩ | ⟨p, hp, rfl, hpath⟩
      · simp [hnone]
      · simp [hpath, o.path p hp]
  older n m h := by
    rcases tokenParent_append_token.mp h with h | ⟨hn, hm⟩
    · exact o.older n m h
    · have := ancestry.lt below m hm
      omega
  one n m m' h h' := by
    rcases tokenParent_append_token.mp h with h | ⟨hn, hm⟩ <;>
      rcases tokenParent_append_token.mp h' with h' | ⟨hn', hm'⟩
    · exact o.one n m m' h h'
    · have := below.lt_of_tokenParent h
      omega
    · have := below.lt_of_tokenParent h'
      omega
    · exact Option.some.inj (hm.symm.trans hm')
  once h n d n' d' hd hd' := by
    simp only [List.mem_append, List.mem_singleton, reduceCtorEq, or_false] at hd hd'
    exact o.once h n d n' d' hd hd'
  own h n d h' d' hd hd' := by
    simp only [List.mem_append, List.mem_singleton, reduceCtorEq, or_false] at hd hd'
    exact o.own h n d h' d' hd hd'
  clone h n p hd := by
    simp only [List.mem_append, List.mem_singleton, reduceCtorEq, or_false] at hd ⊢
    exact o.clone h n p hd
  parent h n d p hd hp := by
    simp only [List.mem_append, List.mem_singleton, reduceCtorEq, or_false] at hd ⊢
    obtain ⟨m, e, he, u, hu, hn⟩ := o.parent h n d p hd hp
    exact ⟨m, e, he, u, List.mem_append_left _ hu, hn⟩

/-- A context is put on record, whose token is new if it was made for the context. -/
lemma context (o : Orderly log) (below : Below k log) {h n : Nat} {d : Descent} (hk : h = k)
    (own : d.parent?.isSome = true → ∀ h' d', .context h' n d' ∉ log)
    (clone : ∀ p, d = .clone p → ∃ e, .context p n e ∈ log)
    (parent : ∀ p, d.parent? = some p → ∃ m e, .context p m e ∈ log ∧ TokenParent log n m) :
    Orderly (log ++ [.context h n d]) where
  path u hu m := by
    rw [Follows.congr log (by simp)]
    exact o.path u (recorded_append_context.mp hu) m
  older x y hxy := o.older x y (tokenParent_append_context.mp hxy)
  one x y z hxy hxz :=
    o.one x y z (tokenParent_append_context.mp hxy) (tokenParent_append_context.mp hxz)
  once h₁ n₁ d₁ n₂ d₂ h₁mem h₂mem := by
    simp only [List.mem_append, List.mem_singleton, Occurrence.context.injEq] at h₁mem h₂mem
    rcases h₁mem with h₁mem | ⟨rfl, rfl, rfl⟩ <;> rcases h₂mem with h₂mem | ⟨heq, rfl, rfl⟩
    · exact o.once _ _ _ _ _ h₁mem h₂mem
    · have := (below.context _ _ _ h₁mem).1
      omega
    · have := (below.context _ _ _ h₂mem).1
      omega
    · exact ⟨rfl, rfl⟩
  own h₁ n₁ d₁ h₂ d₂ h₁mem h₂mem hd₁ hd₂ := by
    simp only [List.mem_append, List.mem_singleton, Occurrence.context.injEq] at h₁mem h₂mem
    rcases h₁mem with h₁mem | ⟨rfl, rfl, rfl⟩ <;> rcases h₂mem with h₂mem | ⟨rfl, heq, rfl⟩
    · exact o.own _ _ _ _ _ h₁mem h₂mem hd₁ hd₂
    · exact absurd (heq ▸ h₁mem) (own hd₂ _ _)
    · exact absurd h₂mem (own hd₁ _ _)
    · rfl
  clone h₁ n₁ p hmem := by
    simp only [List.mem_append, List.mem_singleton, Occurrence.context.injEq] at hmem ⊢
    rcases hmem with hmem | ⟨rfl, rfl, hd⟩
    · exact (o.clone _ _ _ hmem).imp fun e he => .inl he
    · exact (clone p hd.symm).imp fun e he => .inl he
  parent h₁ n₁ d₁ p hmem hp := by
    simp only [List.mem_append, List.mem_singleton, Occurrence.context.injEq,
      tokenParent_append_context] at hmem ⊢
    rcases hmem with hmem | ⟨rfl, rfl, rfl⟩
    · obtain ⟨m, e, he, hm⟩ := o.parent _ _ _ _ hmem hp
      exact ⟨m, e, .inl he, hm⟩
    · obtain ⟨m, e, he, hm⟩ := parent p hp
      exact ⟨m, e, .inl he, hm⟩

/-- A token is put on record with the context that it was made for. -/
lemma derived (o : Orderly log) (below : Below k log) {t : Token} {of : Option Nat} {d : Descent}
    (number : t.number = k) (ancestry : Ancestry log t of) (plain : ∀ p, d ≠ .clone p)
    (parent : ∀ p, d.source? = some p → ∃ m e, .context p m e ∈ log ∧ of = some m) :
    Below (k + 2) (log ++ [.token t of, .context (k + 1) t.number d]) ∧
      Orderly (log ++ [.token t of, .context (k + 1) t.number d]) := by
  have hbelow := below.append_token number (ancestry.lt below)
  have hold : ∀ h' d', .context h' t.number d' ∉ log := by
    intro h' d' hmem
    have := (below.context _ _ _ hmem).2.1
    omega
  have hparent : ∀ p, d.source? = some p → p < k + 1 ∧
      ∃ m e, .context p m e ∈ log ++ [.token t of] ∧
        TokenParent (log ++ [.token t of]) t.number m := by
    intro p hp
    obtain ⟨m, e, he, hof⟩ := parent p hp
    have := (below.context _ _ _ he).1
    exact ⟨by omega, m, e, List.mem_append_left _ he,
      tokenParent_append_token.mpr (.inr ⟨rfl, hof⟩)⟩
  rw [List.append_cons]
  exact ⟨hbelow.append_context rfl (Nat.lt_succ_of_le number.le) fun p hp => (hparent p hp).1,
    (o.token below number ancestry).context hbelow rfl (fun _ => by simpa using hold)
      (fun p hp => absurd hp (plain p)) fun p hp => (hparent p (Descent.source?_of_parent? hp)).2⟩

/-- That somebody cancels a token makes no difference to what comes from what. -/
lemma cancelled (o : Orderly log) (n : Nat) : Orderly (log ++ [.cancelled n]) where
  path u hu m := by
    rw [Follows.congr log (by simp)]
    exact o.path u (by simpa [Recorded] using hu) m
  older x y hxy := o.older x y (by simpa [TokenParent] using hxy)
  one := by simpa [TokenParent] using o.one
  once := by simpa using o.once
  own := by simpa using o.own
  clone := by simpa using o.clone
  parent := by simpa [TokenParent] using o.parent

/-! ### Consequences -/

/-- A token follows older ones only. -/
lemma le_of_follows (o : Orderly log) {n m : Nat} (h : Follows log n m) : m ≤ n := by
  induction h with
  | refl => exact le_rfl
  | tail _ hstep ih => exact (o.older _ _ hstep).le.trans ih

/-- A token that follows another is not followed by it. -/
lemma follows_antisymm (o : Orderly log) {n m : Nat} (h : Follows log n m) (h' : Follows log m n) :
    n = m :=
  le_antisymm (o.le_of_follows h') (o.le_of_follows h)

/-- A context's token follows the tokens of all contexts that it came from. -/
lemma follows_of_derived (o : Orderly log) {h h' : Nat} (hd : Derived log h h') {n m : Nat}
    {d e : Descent} (hn : .context h n d ∈ log) (hm : .context h' m e ∈ log) : Follows log n m := by
  -- Along the derivation from its newer end: a clone shares its token, all others follow one.
  induction hd using ReflTransGen.head_induction_on generalizing n d with
  | refl => exact (o.once _ _ _ _ _ hn hm).1 ▸ .refl
  | @head h p hsource _ ih =>
      obtain ⟨n', d', hn', hp⟩ := hsource
      obtain ⟨rfl, rfl⟩ := o.once _ _ _ _ _ hn hn'
      cases d with
      | clone p' =>
          cases hp
          obtain ⟨e', he'⟩ := o.clone _ _ _ hn
          exact ih he'
      | child p' =>
          obtain ⟨m', e', he', hm'⟩ := o.parent _ _ _ _ hn hp
          exact .head hm' (ih he')
      | timed p' x =>
          obtain ⟨m', e', he', hm'⟩ := o.parent _ _ _ _ hn hp
          exact .head hm' (ih he')
      | new => cases hp
      | wrapped => cases hp

/-- The tokens of siblings do not follow one another. -/
lemma not_follows_of_siblings (o : Orderly log) {h h' : Nat} (hs : Siblings log h h') {n n' : Nat}
    {d d' : Descent} (hn : .context h n d ∈ log) (hn' : .context h' n' d' ∈ log) :
    ¬ Follows log n' n := by
  obtain ⟨hne, q, ⟨n₁, d₁, p, e, h₁, hp, hq⟩, n₂, d₂, p', e', h₂, hp', hq'⟩ := hs
  obtain ⟨rfl, rfl⟩ := o.once _ _ _ _ _ hn h₁
  obtain ⟨rfl, rfl⟩ := o.once _ _ _ _ _ hn' h₂
  obtain ⟨m, f, hm, hparent⟩ := o.parent _ _ _ _ hn hp
  obtain ⟨m', f', hm', hparent'⟩ := o.parent _ _ _ _ hn' hp'
  obtain ⟨rfl, -⟩ := o.once _ _ _ _ _ hm hq
  obtain ⟨rfl, -⟩ := o.once _ _ _ _ _ hm' hq'
  -- Otherwise the path would pass the token they were both derived from, which is older.
  rintro hfollows
  have hlt := o.older _ _ hparent
  rcases ReflTransGen.cases_head hfollows with rfl | ⟨q, hq, hfollows⟩
  · exact hne (o.own _ _ _ _ _ hn hn' (by simp [hp]) (by simp [hp']))
  · rw [o.one _ _ _ hq hparent'] at hfollows
    have := o.le_of_follows hfollows
    omega

end Orderly

end Workflow
