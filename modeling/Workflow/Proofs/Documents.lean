import Mathlib.Tactic.IntervalCases
import Workflow.Proofs.Spelling
import Workflow.Proofs.Gate
import Workflow.Proofs.Variable

/-!
# Settings that go through a document

**Round trip.**  Settings that are written as a document are read back as they were, and so they are
from every document that has members of other names besides, before or behind the setting, whatever
their values, and any blanks (`Settings.ofDocument?_of_document`).

**Attempts.**  A throttled runner of `n` slots can be made from the number, from settings, from
settings that went through a document, and from the numeral of `n` in the variable
(`Action.Attempt`).  `Settings.limits_agree` says that all of these give the same.
-/

namespace Workflow

open Text

/-! ## Numerals in a document -/

namespace Text

/-- The shortest numeral of a positive number does not start with a zero. -/
lemma head?_toDigits {n : Nat} (pos : 0 < n) : (Nat.toDigits 10 n).head? ≠ some '0' := by
  induction n using Nat.strong_induction_on with
  | _ n ih =>
      rcases Nat.lt_or_ge n 10 with hlt | hge
      · rw [Nat.toDigits_of_lt_base hlt]
        interval_cases n <;> decide
      · have hfirst := ih (n / 10) (Nat.div_lt_self pos (by decide)) (Nat.div_pos hge (by decide))
        rw [Nat.toDigits_of_base_le (by decide) hge,
          List.head?_append_of_ne_nil _ Nat.toDigits_ne_nil]
        exact hfirst

/-- The shortest numeral of a number is one that a document may hold. -/
lemma isNumber_decimal (n : Nat) : Json.IsNumber (decimal n).toList := by
  have hwhole : Json.IsWhole (decimal n).toList := by
    rw [decimal, String.toList_ofList]
    rcases Nat.eq_zero_or_pos n with rfl | pos
    · exact .zero
    · exact .digits ⟨Nat.toDigits_ne_nil,
        fun _ hc => Nat.isDigit_of_mem_toDigits (by decide) (by decide) hc⟩ (head?_toDigits pos)
  simpa using Json.IsNumber.mk (.inl rfl) hwhole .none .none

end Text

namespace Settings

/-! ## Documents with other members -/

/-- None of the members is the setting. -/
def Foreign (members : List (String × Json)) : Prop :=
  ∀ m ∈ members, m.1 ≠ memberName

lemma Foreign.filter {members : List (String × Json)} (h : Foreign members) :
    (members.filter fun m => m.1 == memberName) = [] :=
  List.filter_eq_nil_iff.mpr fun m hm => by simpa using h m hm

/-- Among members of other names the setting is found. -/
lemma ofJson?_object (fallback : Settings) {before after : List (String × Json)}
    (hbefore : Foreign before) (hafter : Foreign after) (j : Json) :
    ofJson? fallback (.object (before ++ (memberName, j) :: after)) = ofCount? j := by
  have hfilter : ((before ++ (memberName, j) :: after).filter fun m => m.1 == memberName) =
      [(memberName, j)] := by
    rw [List.filter_append, List.filter_cons, hbefore.filter, hafter.filter]
    simp
  simp only [ofJson?, hfilter, List.map_cons, List.map_nil]

/-- The number of slots is read back. -/
lemma ofCount?_ofNat (s : Settings) : ofCount? (.ofNat s.maxConcurrency) = some s := by
  rw [ofCount?, Json.ofNat, Json.natural?, natural?_decimal, Option.bind_some, ofNat?,
    dif_pos s.lt]

/-- **Settings are read from every document of theirs**, whatever else it holds. -/
theorem ofDocument?_of_document (fallback s : Settings) {before after : List (String × Json)}
    (hbefore : Foreign before) (hafter : Foreign after) {text : List Char}
    (h : Json.Document (before ++ (memberName, .ofNat s.maxConcurrency) :: after) text) :
    ofDocument? fallback (String.ofList text) = some s := by
  rw [ofDocument?, String.toList_ofList, Json.read?_of_document h, Option.bind_some,
    ofJson?_object fallback hbefore hafter, ofCount?_ofNat]

/-- What settings are written as is a document of theirs. -/
lemma document_spells (s : Settings) :
    Json.Document [(memberName, .ofNat s.maxConcurrency)] s.document.toList := by
  have hplain : memberName.toList.all Json.isPlain = true := by decide
  have hnumber : Json.Spells (.value (.ofNat s.maxConcurrency)) (decimal s.maxConcurrency).toList :=
    by simpa [Json.ofNat] using Json.Spells.number (isNumber_decimal s.maxConcurrency)
  have hblank : Json.IsGap [] := by decide
  refine ⟨[], _, [], hblank, .member hblank (Json.spellsUnits_plain hplain)
    (Json.unitsOf_map _) hblank hblank hnumber hblank, hblank, ?_⟩
  have hname : Json.renderString memberName = '"' :: (memberName.toList ++ ['"']) := by decide
  simp [document, toJson, Json.render, Json.renderChars, Json.renderMembers, hname, Json.ofNat]

end Settings

/-! ## Making a throttled runner -/

/-- What is made is what one of the ways gives to make a throttled runner of `n` slots over the
children: from the number, from settings, from settings that are read from a document of theirs, or
from the settings that the numeral of `n` in the variable names. -/
inductive Action.Attempt (fallback : Settings) (n : Nat) (children : List Action) :
    Except LimitError Action → Prop where
  | number (h : n < wordBound) : Attempt fallback n children (throttledOf n h children)
  | settings {s : Settings} (counts : s.maxConcurrency = n) :
      Attempt fallback n children (throttledBy s children)
  | document {before after : List (String × Json)} {text : List Char} {s : Settings}
      (foreign : Settings.Foreign before) (foreign' : Settings.Foreign after)
      (spelled : Json.Document (before ++ (Settings.memberName, .ofNat n) :: after) text)
      (read : Settings.ofDocument? fallback (String.ofList text) = some s) :
      Attempt fallback n children (throttledBy s children)
  | environment : Attempt fallback n children
      ((Settings.ofVariable fallback (some (decimal n))).bind (throttledBy · children))

namespace Settings

/-- The numeral of a number names the settings of so many slots, unless it is refused as they are. -/
lemma ofVariable_decimal (fallback s : Settings) :
    ofVariable fallback (some (decimal s.maxConcurrency)) = s.validate.map fun _ => s := by
  have hnumeral : Numeral (decimal s.maxConcurrency).toList s.maxConcurrency :=
    .plain (natural?_eq_some_iff.mp (natural?_decimal _))
  have stripped : Strips (decimal s.maxConcurrency).toList (decimal s.maxConcurrency).toList := by
    have hnone : ∀ c ∈ ([] : List Char), isBlank c = true := by simp
    simpa using strips_decimal hnone hnone s.maxConcurrency
  rw [ofVariable, ← strips_iff.mp stripped, signedNatural?_eq_some_iff.mpr hnumeral,
    Option.bind_some, ofNat?, dif_pos s.lt]

end Settings

namespace Action

variable {fallback s : Settings} {children : List Action} {made : Except LimitError Action}

/-- Every attempt gives what the settings of so many slots give. -/
lemma Attempt.eq (h : Attempt fallback s.maxConcurrency children made) :
    made = throttledBy s children := by
  cases h with
  | number => rfl
  | @settings s' counts =>
      obtain rfl : s' = s := by
        cases s
        cases s'
        cases counts
        rfl
      rfl
  | document foreign foreign' spelled read =>
      rw [Settings.ofDocument?_of_document fallback s foreign foreign' spelled] at read
      cases read
      rfl
  | environment =>
      rw [Settings.ofVariable_decimal, throttledBy]
      cases h : s.validate with
      | error e => rfl
      | ok limit => rw [Except.map, Except.bind, throttledBy, h]

/-- Settings make a runner of their limit, or are refused when they name no slot. -/
lemma throttledBy_eq (s : Settings) (children : List Action) :
    throttledBy s children = if pos : 0 < s.maxConcurrency
      then .ok (.throttled ⟨s.maxConcurrency, pos, s.lt⟩ children)
      else .error (.invalidConcurrency s.maxConcurrency) := by
  unfold throttledBy Settings.validate Limit.ofNat
  split <;> rfl

end Action

/-- **All ways to give a limit agree.**  Settings of any number of slots are read back as they were
from the document they are written as, and from every document that has the setting among members of
other names.  Whichever way a throttled runner of so many slots is made, there is one outcome: the
runner with this limit over the children in their order when the number is positive, and the refusal
of zero when it is zero.  So no way yields a runner without slots. -/
theorem Settings.limits_agree (fallback s : Settings) (children : List Action) :
    ofDocument? fallback s.document = some s ∧
    (∀ before after text, Foreign before → Foreign after →
      Json.Document (before ++ (memberName, .ofNat s.maxConcurrency) :: after) text →
      ofDocument? fallback (String.ofList text) = some s) ∧
    (1 ≤ s.maxConcurrency → ∃ limit : Limit, limit.value = s.maxConcurrency ∧
      ∀ made, Action.Attempt fallback s.maxConcurrency children made →
        made = .ok (.throttled limit children)) ∧
    (s.maxConcurrency = 0 → ∀ made, Action.Attempt fallback s.maxConcurrency children made →
      made = .error (.invalidConcurrency 0)) ∧
    ∀ a, Action.Attempt fallback s.maxConcurrency children (.ok a) →
      ∃ limit : Limit, a = .throttled limit children ∧ 1 ≤ limit.value := by
  have hnone : Foreign [] := by simp [Foreign]
  refine ⟨?_, fun before after text hbefore hafter =>
    ofDocument?_of_document fallback s hbefore hafter, fun pos => ?_, fun zero made h => ?_,
    fun a h => ?_⟩
  · simpa using ofDocument?_of_document fallback s hnone hnone (document_spells s)
  · refine ⟨⟨s.maxConcurrency, pos, s.lt⟩, rfl, fun made h => ?_⟩
    rw [h.eq, Action.throttledBy_eq]
    exact dif_pos pos
  · rw [h.eq, Action.throttledBy_eq, dif_neg (by omega), zero]
  · have hmade := h.eq
    rw [Action.throttledBy_eq] at hmade
    split at hmade
    · cases hmade
      exact ⟨_, rfl, ‹_›⟩
    · cases hmade

/-- A document with blanks in it and a member besides, which is an array, is read as the settings of
seven slots, and the runner that is made with them has seven. -/
theorem Settings.limits_agree_padded :
    let text := " \x7b\"other\" : [ null ],\"max_concurrency\":7 \x7d".toList
    ∃ s : Settings, s.maxConcurrency = 7 ∧
      ofDocument? (standard none) (String.ofList text) = some s ∧
      ∃ limit : Limit, limit.value = 7 ∧
        Action.throttledBy s [] = .ok (.throttled limit []) := by
  intro text
  have hblank : Json.IsGap [' '] := by decide
  have hnone : Json.IsGap [] := by decide
  have hother : "other".toList.all Json.isPlain = true := by decide
  have hname : memberName.toList.all Json.isPlain = true := by decide
  have hseven : Json.Spells (.value (.ofNat 7)) ['7'] := .number (isNumber_decimal 7)
  have hlist : Json.Spells (.value (.array [.null])) "[ null ]".toList :=
    .array (.item hblank .null hblank)
  have spelled : Json.Document ([("other", .array [.null])] ++ (memberName, .ofNat 7) :: []) text :=
    ⟨[' '], _, [], hblank,
      .nextMember hnone (Json.spellsUnits_plain hother) (Json.unitsOf_map _) hblank hblank hlist hnone
        (.member hnone (Json.spellsUnits_plain hname) (Json.unitsOf_map _) hnone hnone hseven hblank),
      hnone, by decide⟩
  have hforeign : Foreign [("other", .array [.null])] := by simp [Foreign, memberName]
  obtain ⟨-, hread, hmade, -, -⟩ := limits_agree (standard none) ⟨7, by decide⟩ []
  obtain ⟨limit, hvalue, hsame⟩ := hmade (by decide)
  have hread := hread _ _ text hforeign (by simp [Foreign]) spelled
  exact ⟨_, rfl, hread, limit, hvalue,
    hsame _ (.document hforeign (by simp [Foreign]) spelled hread)⟩

end Workflow
