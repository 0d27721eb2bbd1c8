import Mathlib.Data.List.DropRight
import Mathlib.Data.List.Induction
import Mathlib.Data.List.TakeWhile
import Workflow.Settings

/-!
# What the variable may say

The text of the variable is read by one grammar.  `Digits` are the texts of one or more digits with
the numbers that they name, `Numeral` has those with at most one plus in front, and `Strips` says
what is left of a text when the blanks at both ends are taken away.

**Reading.**  The readers accept the grammar and nothing else (`natural?_eq_some_iff`,
`signedNatural?_eq_some_iff`), and what they read is what is left of the text
(`strips_iff`).

**Main statements.**  `Settings.variable_grammar`: a number of 64 bits is accepted unless it is
zero, zero is refused as a limit, and everything else is refused as a text.
`Settings.environment_fallback`: the settings of the environment are the fallback when the variable
is not set, and also when its bytes are not text.
-/

namespace Workflow

namespace Text

/-! ## The grammar -/

/-- One or more digits of ASCII, and the number that they name. -/
inductive Digits : List Char → Nat → Prop where
  | one {d : Nat} (small : d < 10) : Digits [Nat.digitChar d] d
  | snoc {cs : List Char} {n d : Nat} (h : Digits cs n) (small : d < 10) :
      Digits (cs ++ [Nat.digitChar d]) (10 * n + d)

/-- Digits that may have a single plus in front, and the number that they name. -/
inductive Numeral : List Char → Nat → Prop where
  | plain {cs : List Char} {n : Nat} (h : Digits cs n) : Numeral cs n
  | plus {cs : List Char} {n : Nat} (h : Digits cs n) : Numeral ('+' :: cs) n

/-- The text `inner` is what is left of `cs` without the blanks at both ends. -/
structure Strips (cs inner : List Char) : Prop where
  around : ∃ before after, cs = before ++ inner ++ after ∧
    (∀ c ∈ before, isBlank c = true) ∧ ∀ c ∈ after, isBlank c = true
  head : ∀ c ∈ inner.head?, isBlank c = false
  last : ∀ c ∈ inner.getLast?, isBlank c = false

/-! ## Numerals -/

lemma toNat_digitChar {d : Nat} (small : d < 10) :
    (Nat.digitChar d).toNat - '0'.toNat = d := by
  have h : ∀ d < 10, (Nat.digitChar d).toNat - '0'.toNat = d := by decide
  exact h d small

/-- Every digit of ASCII is the digit of a number. -/
lemma exists_digitChar {c : Char} (h : c.isDigit = true) : ∃ d < 10, c = Nat.digitChar d := by
  have hbounds : 48 ≤ c.toNat ∧ c.toNat ≤ 57 := by
    simp only [Char.isDigit, Bool.and_eq_true, decide_eq_true_eq] at h
    exact ⟨h.1, h.2⟩
  have hchar : ∀ d < 10, Nat.digitChar d = Char.ofNat (48 + d) := by decide
  refine ⟨c.toNat - 48, by omega, ?_⟩
  rw [hchar _ (by omega), Nat.add_sub_cancel' hbounds.1, Char.ofNat_toNat]

lemma natural?_singleton (c : Char) :
    natural? [c] = if c.isDigit then some (c.toNat - '0'.toNat) else none := by
  simp [natural?, Nat.ofDigitChars]

/-- A digit more makes ten times the number and the digit. -/
lemma natural?_snoc {cs : List Char} (h : cs ≠ []) (c : Char) :
    natural? (cs ++ [c]) =
      (natural? cs).bind fun n =>
        if c.isDigit then some (10 * n + (c.toNat - '0'.toNat)) else none := by
  simp only [natural?, List.all_append, List.all_cons, List.all_nil, Bool.and_true,
    Nat.ofDigitChars_append]
  by_cases hall : cs.all Char.isDigit = true <;> by_cases hc : c.isDigit = true <;>
    simp [h, hall, hc, Nat.ofDigitChars]

/-- The reader of numbers accepts digits, and nothing else. -/
lemma natural?_eq_some_iff {cs : List Char} {n : Nat} : natural? cs = some n ↔ Digits cs n := by
  constructor
  · intro h
    induction cs using List.reverseRecOn generalizing n with
    | nil => simp [natural?] at h
    | append_singleton cs c ih =>
        by_cases hcs : cs = []
        · subst hcs
          rw [List.nil_append, natural?_singleton] at h
          split_ifs at h with hc
          obtain ⟨d, small, rfl⟩ := exists_digitChar hc
          rw [toNat_digitChar small] at h
          cases h
          exact .one small
        · rw [natural?_snoc hcs] at h
          obtain ⟨m, hm, h⟩ := Option.bind_eq_some_iff.mp h
          split_ifs at h with hc
          obtain ⟨d, small, rfl⟩ := exists_digitChar hc
          rw [toNat_digitChar small] at h
          cases h
          exact .snoc (ih hm) small
  · intro h
    have hdigit : ∀ {d}, d < 10 → (Nat.digitChar d).isDigit = true := fun small => by
      rw [Nat.isDigit_digitChar]
      exact decide_eq_true small
    induction h with
    | one small => rw [natural?_singleton, if_pos (hdigit small), toNat_digitChar small]
    | snoc h small ih =>
        have hne : ∀ {cs n}, Digits cs n → cs ≠ [] := fun h => by cases h <;> simp
        rw [natural?_snoc (hne h), ih, Option.bind_some, if_pos (hdigit small),
          toNat_digitChar small]

/-- No digits begin with a plus. -/
lemma not_digits_plus (cs : List Char) (n : Nat) : ¬ Digits ('+' :: cs) n := by
  rw [← natural?_eq_some_iff]
  simp [natural?]

/-- The reader of numbers with a sign accepts numerals, and nothing else. -/
lemma signedNatural?_eq_some_iff {cs : List Char} {n : Nat} :
    signedNatural? cs = some n ↔ Numeral cs n := by
  unfold signedNatural?
  split
  · next cs =>
      rw [natural?_eq_some_iff]
      constructor
      · exact .plus
      · intro h
        cases h with
        | plain h => exact absurd h (not_digits_plus cs n)
        | plus h => exact h
  · next hplus =>
      rw [natural?_eq_some_iff]
      constructor
      · exact .plain
      · intro h
        cases h with
        | plain h => exact h
        | plus h => exact absurd rfl (hplus _)

/-! ## Blanks -/

lemma trimmed_eq (cs : List Char) : trimmed cs = (cs.dropWhile isBlank).rdropWhile isBlank := rfl

/-- Blanks at the end of a text make no difference. -/
lemma rdropWhile_append {cs after : List Char} (blank : ∀ c ∈ after, isBlank c = true) :
    (cs ++ after).rdropWhile isBlank = cs.rdropWhile isBlank := by
  rw [List.rdropWhile, List.rdropWhile, List.reverse_append, List.dropWhile_append_of_pos]
  exact fun c hc => blank c (List.mem_reverse.mp hc)

/-- Nothing but blanks at the ends is taken away. -/
lemma strips_trimmed (cs : List Char) : Strips cs (trimmed cs) := by
  set rest := cs.dropWhile isBlank with hrest
  have hsplit : trimmed cs ++ rest.rtakeWhile isBlank = rest :=
    List.rdropWhile_append_rtakeWhile
  refine ⟨⟨cs.takeWhile isBlank, rest.rtakeWhile isBlank, ?_, fun c => List.mem_takeWhile_imp,
    fun c => List.mem_rtakeWhile_imp⟩, fun c hc => ?_, fun c hc => ?_⟩
  · rw [List.append_assoc, hsplit, List.takeWhile_append_dropWhile]
  · have hhead : rest.head? = some c := by
      rw [← hsplit, List.head?_append, Option.mem_def.mp hc]
      rfl
    have hnot := List.head?_dropWhile_not isBlank cs
    rwa [← hrest, hhead] at hnot
  · obtain ⟨hne, rfl⟩ := List.mem_getLast?_eq_getLast hc
    exact Bool.eq_false_iff.mpr (List.rdropWhile_last_not isBlank rest hne)

/-- What is left of a text without the blanks at its ends is one text. -/
lemma strips_iff {cs inner : List Char} : Strips cs inner ↔ inner = trimmed cs := by
  constructor
  · rintro ⟨⟨before, after, rfl, hbefore, hafter⟩, hhead, hlast⟩
    rw [trimmed_eq, List.append_assoc, List.dropWhile_append_of_pos hbefore]
    cases inner with
    | nil => 
        have hnone : (([] : List Char) ++ after).dropWhile isBlank = [] :=
          List.dropWhile_eq_nil_iff.mpr (by simpa using hafter)
        rw [hnone]
        rfl
    | cons c cs =>
        have hc : isBlank c = false := hhead c rfl
        rw [List.cons_append, List.dropWhile_cons_of_neg (by simp [hc]), ← List.cons_append,
          rdropWhile_append hafter]
        refine (List.rdropWhile_eq_self_iff.mpr fun hne => ?_).symm
        rw [hlast _ (List.getLast?_eq_getLast_of_ne_nil hne)]
        simp
  · rintro rfl
    exact strips_trimmed cs

/-- A numeral names one number. -/
lemma Numeral.unique {cs : List Char} {m n : Nat} (hm : Numeral cs m) (hn : Numeral cs n) :
    m = n := by
  rw [← signedNatural?_eq_some_iff] at hm hn
  exact Option.some.inj (hm.symm.trans hn)

/-- No numeral begins or ends with a blank. -/
lemma strips_decimal {before after : List Char} (hbefore : ∀ c ∈ before, isBlank c = true)
    (hafter : ∀ c ∈ after, isBlank c = true) (n : Nat) :
    Strips (before ++ (decimal n).toList ++ after) (decimal n).toList := by
  have hdigit : ∀ c ∈ (decimal n).toList, isBlank c = false := by
    intro c hc
    have hc : c ∈ Nat.toDigits 10 n := by simpa [decimal] using hc
    obtain ⟨d, small, rfl⟩ := exists_digitChar
      (Nat.isDigit_of_mem_toDigits (by decide) (by decide) hc)
    have hall : ∀ d < 10, isBlank (Nat.digitChar d) = false := by decide
    exact hall d small
  exact ⟨⟨before, after, rfl, hbefore, hafter⟩, fun c hc => hdigit c (List.mem_of_mem_head? hc),
    fun c hc => hdigit c (List.mem_of_mem_getLast? hc)⟩

end Text

open Text

namespace Settings

/-! ## The variable -/

/-- The text of the variable names a positive number of 64 bits, or zero, or no number of 64
bits. -/
lemma ofVariable_cases (fallback : Settings) {raw : String} {text : List Char}
    (stripped : Strips raw.toList text) :
    (∃ s, ofVariable fallback (some raw) = .ok s ∧ Numeral text s.maxConcurrency ∧
      0 < s.maxConcurrency) ∨
    (ofVariable fallback (some raw) = .error (.invalidConcurrency 0) ∧ Numeral text 0) ∨
    ofVariable fallback (some raw) = .error (.invalidText variableName raw) ∧
      ∀ n, Numeral text n → wordBound ≤ n := by
  rw [strips_iff] at stripped
  simp only [ofVariable, ← stripped]
  cases hread : signedNatural? text with
  | none =>
      refine .inr (.inr ⟨rfl, fun n hn => ?_⟩)
      rw [← signedNatural?_eq_some_iff, hread] at hn
      cases hn
  | some n =>
      have hn : Numeral text n := signedNatural?_eq_some_iff.mp hread
      by_cases hlt : n < wordBound
      · rw [Option.bind_some, ofNat?, dif_pos hlt]
        rcases Nat.eq_zero_or_pos n with rfl | hpos
        · exact .inr (.inl ⟨rfl, hn⟩)
        · refine .inl ⟨⟨n, hlt⟩, ?_, hn, hpos⟩
          simp only [validate, Limit.ofNat, dif_pos hpos]
          rfl
      · rw [Option.bind_some, ofNat?, dif_neg hlt]
        refine .inr (.inr ⟨rfl, fun m hm => ?_⟩)
        rw [← hn.unique hm]
        exact Nat.le_of_not_lt hlt

section

variable (fallback : Settings) {raw : String} {text : List Char}

/-- A text is accepted exactly if it is a numeral of a positive number of 64 bits. -/
lemma ofVariable_eq_ok_iff (stripped : Strips raw.toList text) (n : Nat) :
    (∃ s, ofVariable fallback (some raw) = .ok s ∧ s.maxConcurrency = n) ↔
      Numeral text n ∧ 1 ≤ n ∧ n < wordBound := by
  rcases ofVariable_cases fallback stripped with
    ⟨s, heq, hs, hpos⟩ | ⟨heq, hzero⟩ | ⟨heq, hnone⟩ <;> rw [heq]
  · constructor
    · rintro ⟨_, ⟨⟩, rfl⟩
      exact ⟨hs, hpos, s.lt⟩
    · rintro ⟨hn, -⟩
      exact ⟨s, rfl, hs.unique hn⟩
  · refine ⟨by simp, ?_⟩
    rintro ⟨hn, hpos, -⟩
    have := hn.unique hzero
    omega
  · exact ⟨by simp, fun ⟨hn, _, hlt⟩ => absurd hlt (Nat.not_lt.mpr (hnone n hn))⟩

/-- Only numerals of zero are refused as a limit. -/
lemma ofVariable_eq_invalidConcurrency_iff (stripped : Strips raw.toList text) (n : Nat) :
    ofVariable fallback (some raw) = .error (.invalidConcurrency n) ↔ n = 0 ∧ Numeral text 0 := by
  rcases ofVariable_cases fallback stripped with
    ⟨s, heq, hs, hpos⟩ | ⟨heq, hzero⟩ | ⟨heq, hnone⟩ <;> rw [heq]
  · refine ⟨by simp, ?_⟩
    rintro ⟨-, hn⟩
    have := hn.unique hs
    omega
  · constructor
    · rintro ⟨⟩
      exact ⟨rfl, hzero⟩
    · rintro ⟨rfl, -⟩
      rfl
  · exact ⟨by simp, fun ⟨_, hn⟩ => absurd (hnone 0 hn) (by decide)⟩

/-- A text that is no numeral of a number of 64 bits is refused as it stands. -/
lemma ofVariable_eq_invalidText_iff (stripped : Strips raw.toList text) (var value : String) :
    ofVariable fallback (some raw) = .error (.invalidText var value) ↔
      var = variableName ∧ value = raw ∧ ¬ ∃ n, Numeral text n ∧ n < wordBound := by
  rcases ofVariable_cases fallback stripped with
    ⟨s, heq, hs, hpos⟩ | ⟨heq, hzero⟩ | ⟨heq, hnone⟩ <;> rw [heq]
  · exact ⟨by simp, fun ⟨_, _, hn⟩ => absurd ⟨_, hs, s.lt⟩ hn⟩
  · exact ⟨by simp, fun ⟨_, _, hn⟩ => absurd ⟨0, hzero, by decide⟩ hn⟩
  · constructor
    · rintro ⟨⟩
      exact ⟨rfl, rfl, fun ⟨n, hn, hlt⟩ => absurd hlt (Nat.not_lt.mpr (hnone n hn))⟩
    · rintro ⟨rfl, rfl, -⟩
      rfl

end

/-- **The grammar of the variable.**  Take what is left of a text without the blanks at both ends.
The text is accepted with the number `n` exactly if that is a numeral of `n`, and `n` is positive
and fits in 64 bits.  Zero is refused as a limit, exactly if that is a numeral of zero.  In all
other cases the text is refused as it stands, under the name of the variable.  In particular every
positive number of 64 bits is read back from its shortest numeral with any blanks around it. -/
theorem variable_grammar (fallback : Settings) :
    (∀ raw : String, ∃ text, Strips raw.toList text ∧
      (∀ text', Strips raw.toList text' → text' = text) ∧
      (∀ n, (∃ s, ofVariable fallback (some raw) = .ok s ∧ s.maxConcurrency = n) ↔
        Numeral text n ∧ 1 ≤ n ∧ n < wordBound) ∧
      (∀ n, ofVariable fallback (some raw) = .error (.invalidConcurrency n) ↔
        n = 0 ∧ Numeral text 0) ∧
      ∀ var value, ofVariable fallback (some raw) = .error (.invalidText var value) ↔
        var = variableName ∧ value = raw ∧ ¬ ∃ n, Numeral text n ∧ n < wordBound) ∧
    ∀ n before after, 1 ≤ n → n < wordBound → (∀ c ∈ before, isBlank c = true) →
      (∀ c ∈ after, isBlank c = true) → ∃ s,
        ofVariable fallback (some (String.ofList (before ++ (decimal n).toList ++ after))) = .ok s ∧
          s.maxConcurrency = n := by
  refine ⟨fun raw => ?_, fun n before after pos lt hbefore hafter => ?_⟩
  · have stripped : Strips raw.toList (trimmed raw.toList) := strips_trimmed _
    exact ⟨_, stripped, fun _ => strips_iff.mp, ofVariable_eq_ok_iff fallback stripped,
      ofVariable_eq_invalidConcurrency_iff fallback stripped,
      ofVariable_eq_invalidText_iff fallback stripped⟩
  · have hnumeral : Numeral (decimal n).toList n :=
      .plain (natural?_eq_some_iff.mp (natural?_decimal n))
    set padded := String.ofList (before ++ (decimal n).toList ++ after) with hpadded
    have hstrips : Strips padded.toList (decimal n).toList := by
      rw [hpadded, String.toList_ofList]
      exact strips_decimal hbefore hafter n
    exact (ofVariable_eq_ok_iff fallback hstrips n).mpr ⟨hnumeral, pos, lt⟩

/-- The greatest number of 64 bits is read back with an ideographic space in front of it and a
no-break space behind. -/
theorem variable_grammar_padded : ∃ s : Settings,
    ofVariable (standard none) (some (String.ofList
      (['\u3000'] ++ (decimal (UInt64.size - 1)).toList ++ ['\u00a0']))) = .ok s ∧
      s.maxConcurrency = UInt64.size - 1 :=
  (variable_grammar (standard none)).2 _ _ _ (by decide) (by decide)
    (List.forall_mem_singleton.mpr rfl) (List.forall_mem_singleton.mpr rfl)

/-! ## The environment -/

/-- The bytes of a text are read by the grammar of the variable. -/
lemma ofEnvironment_toUTF8 (fallback : Settings) (raw : String) :
    ofEnvironment fallback (some raw.toUTF8) = ofVariable fallback (some raw) := by
  have hread : String.fromUTF8? raw.toUTF8 = some raw := dif_pos raw.isValidUTF8
  rw [ofEnvironment, Option.bind_some, hread]

/-- A text that is set is not passed over: not every fallback is taken. -/
lemma exists_ofVariable_ne (raw : String) :
    ∃ fallback, ofVariable fallback (some raw) ≠ .ok fallback := by
  let zero : Settings := ⟨0, by decide⟩
  let one : Settings := ⟨1, by decide⟩
  by_contra hall
  push Not at hall
  have hsame : ofVariable zero (some raw) = ofVariable one (some raw) := rfl
  rw [hall, hall] at hsame
  simp [zero, one] at hsame

/-- **When the fallback is taken.**  The settings of the environment are the fallback, whatever that
is, exactly if the variable is not set or its bytes are not text.  Bytes that are text are read by
the grammar of the variable: they are accepted with the positive number of 64 bits that they name,
or refused. -/
theorem environment_fallback (bytes : Option ByteArray) :
    ((∀ fallback, ofEnvironment fallback bytes = .ok fallback) ↔
      bytes = none ∨ ∃ b ∈ bytes, ¬ b.IsValidUTF8) ∧
    ∀ raw : String, bytes = some raw.toUTF8 → ∀ fallback text, Strips raw.toList text →
      (∃ s, ofEnvironment fallback bytes = .ok s ∧ Numeral text s.maxConcurrency ∧
        1 ≤ s.maxConcurrency) ∨
      (ofEnvironment fallback bytes = .error (.invalidConcurrency 0) ∧ Numeral text 0) ∨
      ofEnvironment fallback bytes = .error (.invalidText variableName raw) ∧
        ¬ ∃ n, Numeral text n ∧ n < wordBound := by
  refine ⟨⟨fun hall => ?_, ?_⟩, ?_⟩
  · by_contra hset
    push Not at hset
    obtain ⟨b, rfl⟩ := Option.ne_none_iff_exists'.mp hset.1
    obtain ⟨raw, rfl⟩ : ∃ raw : String, b = raw.toUTF8 := ⟨⟨b, hset.2 b rfl⟩, rfl⟩
    obtain ⟨fallback, hne⟩ := exists_ofVariable_ne raw
    rw [← ofEnvironment_toUTF8] at hne
    exact hne (hall fallback)
  · rintro (rfl | ⟨b, rfl, hb⟩) fallback
    · rfl
    · have hread : String.fromUTF8? b = none := dif_neg hb
      rw [ofEnvironment, Option.bind_some, hread]
      rfl
  · rintro raw rfl fallback text stripped
    rw [ofEnvironment_toUTF8]
    rcases ofVariable_cases fallback stripped with
      ⟨s, heq, hs, hpos⟩ | ⟨heq, hzero⟩ | ⟨heq, hnone⟩
    · exact .inl ⟨s, heq, hs, hpos⟩
    · exact .inr (.inl ⟨heq, hzero⟩)
    · exact .inr (.inr ⟨heq, fun ⟨n, hn, hlt⟩ => absurd hlt (Nat.not_lt.mpr (hnone n hn))⟩)

/-- A word that is no number is refused as it stands. -/
theorem environment_fallback_word : ofEnvironment (standard none) (some "lots".toUTF8)
    = .error (.invalidText variableName "lots") := by
  have hstrips : Strips "lots".toList "lots".toList := strips_iff.mpr (by decide)
  have hnumeral : ∀ n, ¬ Numeral "lots".toList n := by
    intro n
    have hread : signedNatural? "lots".toList = none := by decide
    rw [← signedNatural?_eq_some_iff, hread]
    simp
  rcases (environment_fallback (some "lots".toUTF8)).2 "lots" rfl (standard none) _ hstrips with
    ⟨s, -, hs, -⟩ | ⟨-, hzero⟩ | ⟨herror, -⟩
  · exact absurd hs (hnumeral _)
  · exact absurd hzero (hnumeral _)
  · exact herror

/-- A variable that is set to the byte 255, which is no text, is passed over. -/
theorem environment_passed_over :
    ¬ ByteArray.IsValidUTF8 ⟨#[255]⟩ ∧
      ¬ ∃ e, ofEnvironment (standard none) (some ⟨#[255]⟩) = .error e := by
  have hbytes : ¬ ByteArray.IsValidUTF8 ⟨#[255]⟩ := by decide
  have hread : String.fromUTF8? ⟨#[255]⟩ = none := dif_neg hbytes
  refine ⟨hbytes, ?_⟩
  rintro ⟨e, he⟩
  rw [ofEnvironment, Option.bind_some, hread] at he
  cases he

end Settings

end Workflow
