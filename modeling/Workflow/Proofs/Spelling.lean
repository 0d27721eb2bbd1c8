import Mathlib.Data.List.Basic
import Mathlib.Tactic.IntervalCases
import Workflow.Json.Reader

/-!
# How JSON text is spelled

The texts that a JSON value has: every value can be written in many ways, with any blanks between
its tokens and with any of the escapes in its strings.  `Json.Spells` is the grammar, by the parts
of a text: values, the items of an array and the members of an object.

**Strings.**  A string is spelled unit by unit (`SpellsUnits`); the units of a text are its
characters, one of which may be a pair of surrogates (`UnitsOf`).

**The reader takes every spelling.**  `Json.readValue_of_spells` follows the grammar, and
**`Json.read?_of_document`** is about whole documents.  The steps that the reader is given are
enough, since every second one consumes a character.
-/

namespace Workflow.Json

/-! ## Blanks -/

/-- Whether a text may stand between two tokens. -/
def IsGap (cs : List Char) : Prop :=
  ∀ c ∈ cs, isGap c = true

instance (cs : List Char) : Decidable (IsGap cs) :=
  decidable_of_iff (cs.all isGap = true) List.all_eq_true

/-- Whether what follows a value cannot belong to it: nothing, a blank, or what closes the value or
parts it from the next. -/
def Follows (cs : List Char) : Prop :=
  ∀ c ∈ cs.head?, isGap c = true ∨ c = ',' ∨ c = ']' ∨ c = '\x7d'

/-! ## Numbers -/

/-- One or more digits. -/
def IsDigits (cs : List Char) : Prop :=
  cs ≠ [] ∧ ∀ c ∈ cs, c.isDigit = true

/-- The whole part of a number: a zero alone, or digits of which the first is no zero. -/
inductive IsWhole : List Char → Prop where
  | zero : IsWhole ['0']
  | digits {cs : List Char} (digits : IsDigits cs) (first : cs.head? ≠ some '0') : IsWhole cs

/-- The fraction of a number, if there is one. -/
inductive IsFraction : List Char → Prop where
  | none : IsFraction []
  | digits {cs : List Char} (digits : IsDigits cs) : IsFraction ('.' :: cs)

/-- The exponent of a number, if there is one. -/
inductive IsExponent : List Char → Prop where
  | none : IsExponent []
  | digits {e : Char} {sign cs : List Char} (mark : e = 'e' ∨ e = 'E')
      (signed : sign = [] ∨ sign = ['+'] ∨ sign = ['-']) (digits : IsDigits cs) :
      IsExponent (e :: (sign ++ cs))

/-- The literal of a number. -/
inductive IsNumber : List Char → Prop where
  | mk {sign whole fraction exponent : List Char} (signed : sign = [] ∨ sign = ['-'])
      (isWhole : IsWhole whole) (isFraction : IsFraction fraction)
      (isExponent : IsExponent exponent) :
      IsNumber (sign ++ (whole ++ (fraction ++ exponent)))

/-! ## Strings -/

/-- The characters that a short escape stands for. -/
def shortEscapes : List (Char × Char) :=
  [('"', '"'), ('\\', '\\'), ('/', '/'), ('b', '\x08'), ('f', '\x0c'), ('n', '\n'), ('r', '\r'),
    ('t', '\t')]

/-- A hexadecimal digit of either case. -/
def IsHexDigit (c : Char) (n : Nat) : Prop :=
  n < 16 ∧ (c = Nat.digitChar n ∨ c = (Nat.digitChar n).toUpper)

/-- Whether a character may stand for itself in a string. -/
def isPlain (c : Char) : Bool :=
  0x20 ≤ c.toNat && c != '"' && c != '\\'

/-- The units that the characters between two quotes spell. -/
inductive SpellsUnits : List Nat → List Char → Prop where
  | nil : SpellsUnits [] []
  | plain {c : Char} {us : List Nat} {cs : List Char} (plain : isPlain c = true)
      (rest : SpellsUnits us cs) : SpellsUnits (c.toNat :: us) (c :: cs)
  | short {e c : Char} {us : List Nat} {cs : List Char} (escape : (e, c) ∈ shortEscapes)
      (rest : SpellsUnits us cs) : SpellsUnits (c.toNat :: us) ('\\' :: e :: cs)
  | hex {c₁ c₂ c₃ c₄ : Char} {n₁ n₂ n₃ n₄ : Nat} {us : List Nat} {cs : List Char}
      (first : IsHexDigit c₁ n₁) (second : IsHexDigit c₂ n₂) (third : IsHexDigit c₃ n₃)
      (fourth : IsHexDigit c₄ n₄) (rest : SpellsUnits us cs) :
      SpellsUnits ((((n₁ * 16 + n₂) * 16 + n₃) * 16 + n₄) :: us)
        ('\\' :: 'u' :: c₁ :: c₂ :: c₃ :: c₄ :: cs)

/-- The units of a text: its characters, or a pair of surrogates for one that is beyond the basic
plane. -/
inductive UnitsOf : List Char → List Nat → Prop where
  | nil : UnitsOf [] []
  | one {c : Char} {cs : List Char} {us : List Nat} (rest : UnitsOf cs us) :
      UnitsOf (c :: cs) (c.toNat :: us)
  | pair {c : Char} {cs : List Char} {us : List Nat} (beyond : 0x10000 ≤ c.toNat)
      (rest : UnitsOf cs us) :
      UnitsOf (c :: cs) ((0xd800 + (c.toNat - 0x10000) / 0x400) ::
        (0xdc00 + (c.toNat - 0x10000) % 0x400) :: us)

/-- The units that name a member.  In the outermost object they are those of a text; further in
lone surrogates are allowed. -/
def NamedBy (outermost : Bool) (name : String) (us : List Nat) : Prop :=
  if outermost then UnitsOf name.toList us else name = looseText us

/-! ## Values -/

/-- A part of a text. -/
inductive Part where
  | value (j : Json)
  /-- The items of an array, at least one. -/
  | items (js : List Json)
  /-- The members of an object, the outermost or another one, at least one. -/
  | members (outermost : Bool) (ms : List (String × Json))

/-- **The grammar.**  The text spells the part. -/
inductive Spells : Part → List Char → Prop where
  | null : Spells (.value null) ['n', 'u', 'l', 'l']
  | isTrue : Spells (.value (bool true)) ['t', 'r', 'u', 'e']
  | isFalse : Spells (.value (bool false)) ['f', 'a', 'l', 's', 'e']
  | number {cs : List Char} (literal : IsNumber cs) : Spells (.value (number (String.ofList cs))) cs
  | string {us : List Nat} {cs : List Char} (units : SpellsUnits us cs) :
      Spells (.value (string (looseText us))) ('"' :: (cs ++ ['"']))
  | emptyArray {gap : List Char} (blank : IsGap gap) :
      Spells (.value (array [])) ('[' :: (gap ++ [']']))
  | array {js : List Json} {cs : List Char} (items : Spells (.items js) cs) :
      Spells (.value (array js)) ('[' :: (cs ++ [']']))
  | emptyObject {gap : List Char} (blank : IsGap gap) :
      Spells (.value (object [])) ('\x7b' :: (gap ++ ['\x7d']))
  | object {ms : List (String × Json)} {cs : List Char} (members : Spells (.members false ms) cs) :
      Spells (.value (object ms)) ('\x7b' :: (cs ++ ['\x7d']))
  | item {j : Json} {gap cs gap' : List Char} (before : IsGap gap) (value : Spells (.value j) cs)
      (after : IsGap gap') : Spells (.items [j]) (gap ++ (cs ++ gap'))
  | nextItem {j : Json} {js : List Json} {gap cs gap' rest : List Char} (before : IsGap gap)
      (value : Spells (.value j) cs) (after : IsGap gap') (items : Spells (.items js) rest) :
      Spells (.items (j :: js)) (gap ++ (cs ++ (gap' ++ ',' :: rest)))
  | member {outermost : Bool} {name : String} {j : Json} {us : List Nat}
      {gap₁ cs gap₂ gap₃ cs' gap₄ : List Char} (before : IsGap gap₁) (units : SpellsUnits us cs)
      (named : NamedBy outermost name us) (middle : IsGap gap₂) (middle' : IsGap gap₃)
      (value : Spells (.value j) cs') (after : IsGap gap₄) :
      Spells (.members outermost [(name, j)])
        (gap₁ ++ '"' :: (cs ++ '"' :: (gap₂ ++ ':' :: (gap₃ ++ (cs' ++ gap₄)))))
  | nextMember {outermost : Bool} {name : String} {j : Json} {us : List Nat}
      {ms : List (String × Json)} {gap₁ cs gap₂ gap₃ cs' gap₄ rest : List Char}
      (before : IsGap gap₁) (units : SpellsUnits us cs) (named : NamedBy outermost name us)
      (middle : IsGap gap₂) (middle' : IsGap gap₃) (value : Spells (.value j) cs')
      (after : IsGap gap₄) (members : Spells (.members outermost ms) rest) :
      Spells (.members outermost ((name, j) :: ms))
        (gap₁ ++ '"' :: (cs ++ '"' :: (gap₂ ++ ':' :: (gap₃ ++ (cs' ++ (gap₄ ++ ',' :: rest))))))

/-- The text is a document whose value is the object of the given members. -/
def Document (ms : List (String × Json)) (text : List Char) : Prop :=
  ∃ before body after, IsGap before ∧ Spells (.members true ms) body ∧ IsGap after ∧
    text = before ++ '\x7b' :: (body ++ '\x7d' :: after)

/-! ## Texts that need no escape -/

/-- Characters that need no escape spell themselves. -/
lemma spellsUnits_plain {cs : List Char} (h : cs.all isPlain = true) :
    SpellsUnits (cs.map Char.toNat) cs := by
  induction cs with
  | nil => exact .nil
  | cons c cs ih =>
      rw [List.all_cons, Bool.and_eq_true] at h
      exact .plain h.1 (ih h.2)

lemma unitsOf_map (cs : List Char) : UnitsOf cs (cs.map Char.toNat) := by
  induction cs with
  | nil => exact .nil
  | cons c cs ih => exact .one ih

/-! ## Passing over blanks -/

lemma skipGap_append {gap : List Char} (h : IsGap gap) (cs : List Char) :
    skipGap (gap ++ cs) = skipGap cs := by
  induction gap with
  | nil => rfl
  | cons c gap ih =>
      rw [IsGap, List.forall_mem_cons] at h
      rw [List.cons_append, skipGap, List.dropWhile_cons_of_pos h.1]
      exact ih h.2

lemma skipGap_cons {c : Char} (h : isGap c = false) (cs : List Char) :
    skipGap (c :: cs) = c :: cs :=
  List.dropWhile_cons_of_neg (by simp [h])

lemma skipGap_skipGap (cs : List Char) : skipGap (skipGap cs) = skipGap cs := by
  induction cs with
  | nil => rfl
  | cons c cs ih =>
      cases hc : isGap c with
      | true => rwa [show skipGap (c :: cs) = skipGap cs from List.dropWhile_cons_of_pos hc]
      | false => rw [skipGap_cons hc, skipGap_cons hc]

lemma readValue_skipGap (o : Bool) (n : Nat) (cs : List Char) :
    readValue o n (skipGap cs) = readValue o n cs := by
  cases n with
  | zero => simp [readValue]
  | succ n => rw [readValue, readValue, skipGap_skipGap]

lemma readItems_skipGap (n : Nat) (cs : List Char) :
    readItems n (skipGap cs) = readItems n cs := by
  cases n with
  | zero => simp [readItems]
  | succ n => rw [readItems, readItems, readValue_skipGap]

lemma readMembers_skipGap (o : Bool) (n : Nat) (cs : List Char) :
    readMembers o n (skipGap cs) = readMembers o n cs := by
  cases n with
  | zero => simp [readMembers]
  | succ n => rw [readMembers, readMembers, skipGap_skipGap]

/-! ## Reading strings -/

lemma hexValue?_eq {c : Char} {n : Nat} (h : IsHexDigit c n) : hexValue? c = some n := by
  obtain ⟨hlt, h⟩ := h
  interval_cases n <;> rcases h with rfl | rfl <;> decide

lemma shortEscape?_eq {e c : Char} (h : (e, c) ∈ shortEscapes) :
    shortEscape? e = some c ∧ e ≠ 'u' := by
  simp only [shortEscapes, List.mem_cons, Prod.mk.injEq, List.not_mem_nil, or_false] at h
  rcases h with ⟨rfl, rfl⟩ | ⟨rfl, rfl⟩ | ⟨rfl, rfl⟩ | ⟨rfl, rfl⟩ | ⟨rfl, rfl⟩ | ⟨rfl, rfl⟩ |
    ⟨rfl, rfl⟩ | ⟨rfl, rfl⟩ <;> decide

/-- The units of a string are read as they are spelled, up to the closing quote. -/
lemma readUnits_of_spells {us : List Nat} {cs : List Char} (h : SpellsUnits us cs)
    (rest : List Char) : readUnits (cs ++ '"' :: rest) = some (us, rest) := by
  induction h with
  | nil => simp [readUnits]
  | @plain c us cs plain _ ih =>
      simp only [isPlain, Bool.and_eq_true, decide_eq_true_eq, bne_iff_ne] at plain
      rw [List.cons_append, readUnits, if_neg (Nat.not_lt.mpr plain.1.1), ih]
      · rfl
      all_goals simp_all
  | short escape _ ih =>
      obtain ⟨hescape, hne⟩ := shortEscape?_eq escape
      rw [List.cons_append, List.cons_append, readUnits, hescape, ih]
      · rfl
      · simp [hne]
  | hex first second third fourth _ ih =>
      simp only [List.cons_append]
      rw [readUnits, hexUnit?, hexValue?_eq first, hexValue?_eq second, hexValue?_eq third,
        hexValue?_eq fourth, ih]
      rfl

lemma isScalar_toNat (c : Char) : isScalar c.toNat = true := by
  have hvalid := c.valid
  simp only [UInt32.isValidChar, Nat.isValidChar] at hvalid
  have hval : c.toNat = c.val.toNat := rfl
  simp only [isScalar, Bool.or_eq_true, Bool.and_eq_true, decide_eq_true_eq]
  omega

/-- A pair of surrogates is joined to the number whose halves they hold. -/
lemma joinSurrogates_pair {high low : Nat} (hhigh : high < 0x400) (hlow : low < 0x400)
    (us : List Nat) :
    joinSurrogates ((0xd800 + high) :: (0xdc00 + low) :: us) =
      (0x10000 + high * 0x400 + low) :: joinSurrogates us := by
  rw [joinSurrogates, if_pos (by omega), Nat.add_sub_cancel_left, Nat.add_sub_cancel_left]

/-- Surrogates that belong together are joined, and characters stay as they are. -/
lemma joinSurrogates_of_units {cs : List Char} {us : List Nat} (h : UnitsOf cs us) :
    joinSurrogates us = cs.map Char.toNat := by
  induction h with
  | nil => rfl
  | @one c cs us _ ih =>
      have hno : ¬ (0xd800 ≤ c.toNat ∧ c.toNat < 0xdc00) := by
        have hscalar := isScalar_toNat c
        simp only [isScalar, Bool.or_eq_true, Bool.and_eq_true, decide_eq_true_eq] at hscalar
        omega
      cases us with
      | nil => rw [List.map_cons, ← ih]; rfl
      | cons u us =>
          rw [joinSurrogates, if_neg (fun h => hno ⟨h.1, h.2.1⟩), ih, List.map_cons]
  | @pair c cs us beyond _ ih =>
      have hlt : c.toNat - 0x10000 < 0x400 * 0x400 := by
        have hscalar := isScalar_toNat c
        simp only [isScalar, Bool.or_eq_true, Bool.and_eq_true, decide_eq_true_eq] at hscalar
        omega
      rw [joinSurrogates_pair (Nat.div_lt_of_lt_mul hlt) (Nat.mod_lt _ (by decide)), ih,
        List.map_cons, Nat.add_assoc, Nat.div_add_mod', Nat.add_sub_cancel' beyond]

/-- A text that is spelled as the name of a member is read as that name. -/
lemma nameText?_of_named {outermost : Bool} {name : String} {us : List Nat}
    (h : NamedBy outermost name us) : nameText? outermost us = some name := by
  unfold NamedBy at h
  cases outermost with
  | false => exact congrArg some h.symm
  | true =>
      have hjoin := joinSurrogates_of_units h
      have hback : (Char.ofNat ∘ Char.toNat) = id := funext Char.ofNat_toNat
      simp [nameText?, strictText?, hjoin, isScalar_toNat, hback]

/-! ## Reading numbers -/

/-- Whether what follows cannot belong to a run of digits. -/
def EndsDigits (cs : List Char) : Prop :=
  ∀ c ∈ cs.head?, c.isDigit = false

lemma readDigits_append {ds rest : List Char} (hds : IsDigits ds) (hrest : EndsDigits rest) :
    readDigits (ds ++ rest) = some (ds, rest) := by
  have hstop : rest.takeWhile Char.isDigit = [] ∧ rest.dropWhile Char.isDigit = rest := by
    cases rest with
    | nil => exact ⟨rfl, rfl⟩
    | cons c rest =>
        have hc : c.isDigit = false := hrest c rfl
        exact ⟨List.takeWhile_cons_of_neg (by simp [hc]), List.dropWhile_cons_of_neg (by simp [hc])⟩
  simp [readDigits, List.takeWhile_append_of_pos hds.2, List.dropWhile_append_of_pos hds.2,
    hstop, hds.1]

/-- The whole part of a number starts with a digit. -/
lemma IsWhole.exists_cons {ds : List Char} (h : IsWhole ds) :
    ∃ d ds', ds = d :: ds' ∧ d.isDigit = true := by
  cases h with
  | zero => exact ⟨'0', [], rfl, by decide⟩
  | digits digits _ =>
      obtain ⟨d, ds', rfl⟩ := List.exists_cons_of_ne_nil digits.1
      exact ⟨d, ds', rfl, digits.2 d List.mem_cons_self⟩

lemma readWhole_append {ds rest : List Char} (hds : IsWhole ds) (hrest : EndsDigits rest) :
    readWhole (ds ++ rest) = some (ds, rest) := by
  cases hds with
  | zero => rfl
  | digits digits first =>
      have hread := readDigits_append digits hrest
      obtain ⟨d, ds, rfl⟩ := List.exists_cons_of_ne_nil digits.1
      rw [List.cons_append, readWhole]
      · exact hread
      · intro _ h
        exact first (congrArg some (List.cons.inj h).1)

lemma readFraction_append {fs rest : List Char} (hfs : IsFraction fs) (hrest : EndsDigits rest)
    (hpoint : rest.head? ≠ some '.') : readFraction (fs ++ rest) = some (fs, rest) := by
  cases hfs with
  | none =>
      rw [List.nil_append, readFraction]
      rintro _ rfl
      exact hpoint rfl
  | digits digits => rw [List.cons_append, readFraction, readDigits_append digits hrest]; rfl

lemma readExponent_append {es rest : List Char} (hes : IsExponent es) (hrest : EndsDigits rest)
    (hmark : rest.head? ≠ some 'e' ∧ rest.head? ≠ some 'E') :
    readExponent (es ++ rest) = some (es, rest) := by
  cases hes with
  | none =>
      cases rest with
      | nil => rfl
      | cons c rest =>
          have hc : c ≠ 'e' ∧ c ≠ 'E' := by simpa using hmark
          simp [readExponent, hc]
  | @digits e sign cs mark signed digits =>
      have hread := readDigits_append digits hrest
      have he : (decide (e = 'e') || decide (e = 'E')) = true := by simpa using mark
      rcases signed with rfl | rfl | rfl
      · obtain ⟨c, cs, rfl⟩ := List.exists_cons_of_ne_nil digits.1
        have hc : c.isDigit = true := digits.2 c List.mem_cons_self
        have hsign : c ≠ '+' ∧ c ≠ '-' := by
          constructor <;> rintro rfl <;> exact absurd hc (by decide)
        rw [List.cons_append] at hread
        rw [List.nil_append, List.cons_append, readExponent, if_pos he, List.cons_append, hread]
        · rfl
        · simp [hsign]
        · simp [hsign]
      · simp [readExponent, he, hread]
      · simp [readExponent, he, hread]

/-- What may follow a value cannot go on with a number. -/
lemma Follows.ends {rest : List Char} (h : Follows rest) :
    EndsDigits rest ∧ rest.head? ≠ some '.' ∧ rest.head? ≠ some 'e' ∧ rest.head? ≠ some 'E' := by
  have hone : ∀ c ∈ rest.head?, c.isDigit = false ∧ c ≠ '.' ∧ c ≠ 'e' ∧ c ≠ 'E' := by
    intro c hc
    have := h c hc
    simp only [isGap, Bool.or_eq_true, decide_eq_true_eq] at this
    rcases this with (((rfl | rfl) | rfl) | rfl) | rfl | rfl | rfl <;> decide
  exact ⟨fun c hc => (hone c hc).1, fun hc => (hone _ hc).2.1 rfl, fun hc => (hone _ hc).2.2.1 rfl,
    fun hc => (hone _ hc).2.2.2 rfl⟩

/-- A number is read to its end. -/
lemma readNumber_append {cs rest : List Char} (hcs : IsNumber cs) (hrest : Follows rest) :
    readNumber (cs ++ rest) = some (cs, rest) := by
  obtain ⟨hdigits, hpoint, hmark⟩ := hrest.ends
  cases hcs with
  | @mk sign whole fraction exponent signed isWhole isFraction isExponent =>
      have hexponent := readExponent_append isExponent hdigits hmark
      have hfraction : readFraction (fraction ++ (exponent ++ rest)) =
          some (fraction, exponent ++ rest) := by
        refine readFraction_append isFraction ?_ ?_
        · cases isExponent with
          | none => exact hdigits
          | digits mark _ _ =>
              rintro c ⟨⟩
              rcases mark with rfl | rfl <;> decide
        · cases isExponent with
          | none => exact hpoint
          | digits mark _ _ => rcases mark with rfl | rfl <;> simp
      have hwhole : readWhole (whole ++ (fraction ++ (exponent ++ rest))) =
          some (whole, fraction ++ (exponent ++ rest)) := by
        refine readWhole_append isWhole ?_
        cases isFraction with
        | digits _ =>
            rintro c ⟨⟩
            decide
        | none =>
            cases isExponent with
            | none => exact hdigits
            | digits mark _ _ =>
                rintro c ⟨⟩
                rcases mark with rfl | rfl <;> decide
      have hmagnitude : readMagnitude (whole ++ (fraction ++ exponent) ++ rest) =
          some (whole ++ (fraction ++ exponent), rest) := by
        simp [readMagnitude, hwhole, hfraction, hexponent]
      rcases signed with rfl | rfl
      · rw [List.nil_append, readNumber]
        · exact hmagnitude
        · rintro cs' hcs'
          obtain ⟨d, ds', rfl, hd⟩ := isWhole.exists_cons
          obtain rfl := (List.cons.inj hcs').1
          exact absurd hd (by decide)
      · rw [List.singleton_append, List.cons_append, readNumber, hmagnitude]
        rfl

/-- A number starts with its sign or with a digit. -/
lemma IsNumber.exists_cons {cs : List Char} (h : IsNumber cs) :
    ∃ c cs', cs = c :: cs' ∧ (c = '-' ∨ c.isDigit = true) := by
  cases h with
  | mk signed isWhole =>
      obtain ⟨d, ds', rfl, hd⟩ := isWhole.exists_cons
      rcases signed with rfl | rfl
      · exact ⟨d, _, rfl, .inr hd⟩
      · exact ⟨'-', _, rfl, .inl rfl⟩

/-! ## Reading values -/

lemma readValue_gap (o : Bool) (n : Nat) {gap : List Char} (h : IsGap gap) (cs : List Char) :
    readValue o n (gap ++ cs) = readValue o n cs := by
  rw [← readValue_skipGap, skipGap_append h, readValue_skipGap]

/-- A value starts with what is no blank and closes no array. -/
lemma Spells.exists_cons {j : Json} {cs : List Char} (h : Spells (.value j) cs) :
    ∃ c cs', cs = c :: cs' ∧ isGap c = false ∧ c ≠ ']' := by
  cases h with
  | number literal =>
      obtain ⟨c, cs', rfl, hc⟩ := literal.exists_cons
      refine ⟨c, cs', rfl, ?_, ?_⟩
      · rw [Bool.eq_false_iff]
        intro hgap
        simp only [isGap, Bool.or_eq_true, decide_eq_true_eq] at hgap
        rcases hgap with ((rfl | rfl) | rfl) | rfl <;> exact absurd hc (by decide)
      · rintro rfl
        exact absurd hc (by decide)
  | _ => exact ⟨_, _, rfl, by decide, by decide⟩

/-- The items of an array start, behind blanks, with what does not close it. -/
lemma Spells.items_head {js : List Json} {cs : List Char} (h : Spells (.items js) cs)
    (rest : List Char) : (skipGap (cs ++ rest)).head? ≠ some ']' := by
  cases h with
  | item before value after =>
      obtain ⟨c, cs', rfl, hgap, hc⟩ := value.exists_cons
      simp [skipGap_append before, skipGap_cons hgap, hc]
  | nextItem before value after items =>
      obtain ⟨c, cs', rfl, hgap, hc⟩ := value.exists_cons
      simp [skipGap_append before, skipGap_cons hgap, hc]

/-- The members of an object start, behind blanks, with a quote. -/
lemma Spells.members_head {outermost : Bool} {ms : List (String × Json)} {cs : List Char}
    (h : Spells (.members outermost ms) cs) (rest : List Char) :
    (skipGap (cs ++ rest)).head? = some '"' := by
  have hquote : ∀ cs, skipGap ('"' :: cs) = '"' :: cs := skipGap_cons (by decide)
  cases h with
  | member before => simp [skipGap_append before, hquote]
  | nextMember before => simp [skipGap_append before, hquote]

/-- A number is read as a value. -/
lemma readValue_number {cs rest : List Char} (hcs : IsNumber cs) (hrest : Follows rest) (n : Nat) :
    readValue false (n + 1) (cs ++ rest) = some (number (String.ofList cs), rest) := by
  have hread := readNumber_append hcs hrest
  obtain ⟨c, cs', rfl, hgap, -⟩ := (Spells.number hcs).exists_cons
  obtain ⟨c, cs', ⟨⟩, hc⟩ := hcs.exists_cons
  have hne : c ≠ 'n' ∧ c ≠ 't' ∧ c ≠ 'f' ∧ c ≠ '"' ∧ c ≠ '[' ∧ c ≠ '\x7b' := by
    refine ⟨?_, ?_, ?_, ?_, ?_, ?_⟩ <;> rintro rfl <;> exact absurd hc (by decide)
  rw [readValue, List.cons_append, skipGap_cons hgap]
  rw [List.cons_append] at hread
  split
  case h_7 => rw [hread]; rfl
  all_goals simp_all

/-- That the reader takes a text for the part that it spells, given enough steps and what may stand
behind it. -/
def Reads : Part → List Char → Prop
  | .value j, cs => ∀ n rest, 2 * cs.length ≤ n → Follows rest →
      readValue false n (cs ++ rest) = some (j, rest)
  | .items js, cs => ∀ n rest, 2 * cs.length + 1 ≤ n →
      readItems n (cs ++ ']' :: rest) = some (js, rest)
  | .members outermost ms, cs => ∀ n rest, 2 * cs.length + 1 ≤ n →
      readMembers outermost n (cs ++ '\x7d' :: rest) = some (ms, rest)

lemma skipGap_close {gap : List Char} (h : IsGap gap) {c : Char} (hc : isGap c = false)
    (rest : List Char) : skipGap (gap ++ c :: rest) = c :: rest := by
  rw [skipGap_append h, skipGap_cons hc]

lemma follows_gap {gap rest : List Char} (h : IsGap gap) (hrest : Follows rest) :
    Follows (gap ++ rest) := by
  cases gap with
  | nil => exact hrest
  | cons c gap =>
      rintro c ⟨⟩
      exact .inl (h c List.mem_cons_self)

/-- An object is read once its members are, at whatever depth it stands. -/
lemma readValue_object {outermost : Bool} {ms : List (String × Json)} {cs rest : List Char}
    {n : Nat} (hcs : Spells (.members outermost ms) cs)
    (hread : readMembers outermost n (cs ++ '\x7d' :: rest) = some (ms, rest)) :
    readValue outermost (n + 1) ('\x7b' :: (cs ++ '\x7d' :: rest)) = some (object ms, rest) := by
  have hhead := hcs.members_head ('\x7d' :: rest)
  rw [← readMembers_skipGap] at hread
  simp only [readValue, skipGap_cons (show isGap '\x7b' = false by decide)]
  split
  case h_1 h => simp [h] at hhead
  case h_2 => rw [hread]; rfl

/-- **The reader takes every spelling.** -/
theorem reads_of_spells {p : Part} {cs : List Char} (h : Spells p cs) : Reads p cs := by
  have hcomma : isGap ',' = false := by decide
  have hbracket : isGap ']' = false := by decide
  have hbrace : isGap '\x7d' = false := by decide
  have hquote : isGap '"' = false := by decide
  have hcolon : isGap ':' = false := by decide
  induction h with
  | null =>
      rintro (_ | n) rest hn -
      · simp at hn
      · simp [readValue, skipGap_cons (show isGap 'n' = false by decide)]
  | isTrue =>
      rintro (_ | n) rest hn -
      · simp at hn
      · simp [readValue, skipGap_cons (show isGap 't' = false by decide)]
  | isFalse =>
      rintro (_ | n) rest hn -
      · simp at hn
      · simp [readValue, skipGap_cons (show isGap 'f' = false by decide)]
  | number literal =>
      rintro (_ | n) rest hn hrest
      · obtain ⟨c, cs', rfl, -⟩ := literal.exists_cons
        simp at hn
      · exact readValue_number literal hrest n
  | @string us cs units =>
      rintro (_ | n) rest hn -
      · simp at hn
      · have hunits := readUnits_of_spells units rest
        simp [readValue, skipGap_cons hquote, hunits]
  | emptyArray blank =>
      rintro (_ | n) rest hn -
      · simp at hn
      · simp [readValue, skipGap_cons (show isGap '[' = false by decide),
          skipGap_close blank hbracket]
  | @array js cs items ih =>
      rintro (_ | n) rest hn -
      · simp at hn
      · have hread := ih n rest (by simp at hn; omega)
        have hhead := items.items_head (']' :: rest)
        rw [← readItems_skipGap] at hread
        simp only [readValue, List.cons_append, List.append_assoc, List.nil_append,
          skipGap_cons (show isGap '[' = false by decide)]
        split
        case h_1 h => simp [h] at hhead
        case h_2 => rw [hread]; rfl
  | emptyObject blank =>
      rintro (_ | n) rest hn -
      · simp at hn
      · simp [readValue, skipGap_cons (show isGap '\x7b' = false by decide),
          skipGap_close blank hbrace]
  | @object ms cs members ih =>
      rintro (_ | n) rest hn -
      · simp at hn
      · have hread := ih n rest (by simp at hn; omega)
        simpa using readValue_object members hread
  | @item j gap cs gap' before value after ih =>
      rintro (_ | n) rest hn
      · simp at hn
      · have hread := ih n (gap' ++ ']' :: rest) (by simp at hn; omega)
          (follows_gap after (by simp [Follows]))
        simp [readItems, readValue_gap _ _ before, hread, skipGap_close after hbracket]
  | @nextItem j js gap cs gap' more before value after items ih ih' =>
      rintro (_ | n) rest hn
      · simp at hn
      · have hread := ih n (gap' ++ ',' :: (more ++ ']' :: rest)) (by simp at hn; omega)
          (follows_gap after (by simp [Follows]))
        have hmore := ih' n rest (by simp at hn; omega)
        simp [readItems, readValue_gap _ _ before, hread, skipGap_close after hcomma, hmore]
  | @member outermost name j us gap₁ cs gap₂ gap₃ cs' gap₄ before units named middle middle' value
      after ih =>
      rintro (_ | n) rest hn
      · simp at hn
      · have hread := ih n (gap₄ ++ '\x7d' :: rest) (by simp at hn; omega)
          (follows_gap after (by simp [Follows]))
        have hunits := readUnits_of_spells units
          (gap₂ ++ ':' :: (gap₃ ++ (cs' ++ (gap₄ ++ '\x7d' :: rest))))
        simp [readMembers, skipGap_close before hquote, hunits, nameText?_of_named named,
          skipGap_close middle hcolon, readValue_gap _ _ middle', hread, skipGap_close after hbrace]
  | @nextMember outermost name j us ms gap₁ cs gap₂ gap₃ cs' gap₄ more before units named middle
      middle' value after members ih ih' =>
      rintro (_ | n) rest hn
      · simp at hn
      · have hread := ih n (gap₄ ++ ',' :: (more ++ '\x7d' :: rest)) (by simp at hn; omega)
          (follows_gap after (by simp [Follows]))
        have hmore := ih' n rest (by simp at hn; omega)
        have hunits := readUnits_of_spells units
          (gap₂ ++ ':' :: (gap₃ ++ (cs' ++ (gap₄ ++ ',' :: (more ++ '\x7d' :: rest)))))
        simp [readMembers, skipGap_close before hquote, hunits, nameText?_of_named named,
          skipGap_close middle hcolon, readValue_gap _ _ middle', hread, skipGap_close after hcomma,
          hmore]

/-- **A document is read as the object whose members it spells.** -/
theorem read?_of_document {ms : List (String × Json)} {text : List Char} (h : Document ms text) :
    read? text = some (object ms) := by
  obtain ⟨before, body, after, hbefore, hbody, hafter, rfl⟩ := h
  have hread := reads_of_spells hbody
    (2 * (before ++ '\x7b' :: (body ++ '\x7d' :: after)).length + 1) after (by simp; omega)
  have hobject := readValue_object hbody hread
  have hend : skipGap after = [] := by
    simpa [skipGap] using skipGap_append hafter []
  simp only [read?, readValue_gap _ _ hbefore]
  rw [show 2 * (before ++ '\x7b' :: (body ++ '\x7d' :: after)).length + 2 =
    2 * (before ++ '\x7b' :: (body ++ '\x7d' :: after)).length + 1 + 1 from rfl, hobject]
  simp [hend]

end Workflow.Json
