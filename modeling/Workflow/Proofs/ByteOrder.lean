import Workflow.Sorting
import Mathlib

/-!
# The order of texts is the order of their bytes

Keys and logs are shown ascending by `textLE`, which compares texts character by character.  What a
reader sees are bytes: the UTF-8 encoding of a character takes one to four of them.  The two orders
are one.

* **One character.**  Of two encodings the one of the smaller character is smaller within their
  common length, whatever comes after either (`encode_lt_encode`).
* **Texts.**  So a text is smaller than another exactly when its bytes are (`bytes_lt_iff`), and
  `textLE` is the order of the bytes (`textLE_iff`).
* **Sorted texts.**  A list of texts sorted by `textLE` is the one ascending list of its members
  (`sortBy_eq_sort`).
-/

namespace Workflow

/-- The bytes of a text, as numbers. -/
def bytes (s : String) : List Nat :=
  s.toUTF8.data.toList.map UInt8.toNat

/-- Whether a text comes no later than another, by their bytes. -/
def AscendsByBytes (a b : String) : Prop :=
  bytes a ≤ bytes b

/-! ## One character -/

/-- The bytes of a character. -/
def encode (c : Char) : List Nat :=
  (String.utf8EncodeChar c).map UInt8.toNat

lemma toNat_byte (n : Nat) (h : n < 256) : (UInt8.ofNat n).toNat = n := by
  simp [Nat.mod_eq_of_lt h]

/-- The leading digit of a code point, as far as an encoding has room for it, is all of what the
digits after it leave. -/
lemma lead_digit (n : Nat) :
    (n ≤ 2047 → n / 64 % 32 = n / 64) ∧ (n ≤ 65535 → n / 4096 % 16 = n / 4096) ∧
      (n < 1114112 → n / 262144 % 8 = n / 262144) := by
  omega

/-- Each digit after the leading one is the rest of a division by 64. -/
lemma next_digit (n : Nat) : n / 64 / 64 = n / 4096 ∧ n / 4096 / 64 = n / 262144 := by
  omega

/-- The bytes of the smaller character are smaller, whatever follows. -/
lemma encode_lt_encode {c d : Char} (h : c < d) (xs ys : List Nat) :
    encode c ++ xs < encode d ++ ys := by
  have hcd : c.val.toNat < d.val.toNat := h
  have hd : d.val.toNat < 1114112 := by
    have := d.valid
    simp only [UInt32.isValidChar, Nat.isValidChar] at this
    omega
  have leadc := lead_digit c.val.toNat
  have leadd := lead_digit d.val.toNat
  have nextc := next_digit c.val.toNat
  have nextd := next_digit d.val.toNat
  simp only [encode, String.utf8EncodeChar]
  split_ifs <;>
    simp (disch := omega) only [List.map_cons, List.map_nil, List.cons_append, List.nil_append,
      List.cons_lt_cons_iff, toNat_byte] <;>
    omega

/-! ## Texts -/

/-- The bytes of a text are those of its characters. -/
lemma bytes_eq (s : String) : bytes s = s.toList.flatMap encode := by
  have hs : s.toByteArray = (s.toList.flatMap String.utf8EncodeChar).toByteArray := by
    conv => lhs; rw [← String.ofList_toList (s := s), String.toByteArray_ofList]
    rfl
  simp only [bytes, String.toUTF8_eq_toByteArray, hs, List.toList_data_toByteArray,
    List.map_flatMap]
  rfl

lemma exists_encode_eq_cons (c : Char) : ∃ n ns, encode c = n :: ns := by
  simp only [encode, String.utf8EncodeChar]
  split_ifs <;> exact ⟨_, _, rfl⟩

/-- The bytes of the smaller characters are smaller. -/
lemma flatMap_encode_lt {cs ds : List Char} (h : cs < ds) :
    cs.flatMap encode < ds.flatMap encode := by
  induction h with
  | @nil c ds =>
      obtain ⟨n, ns, hc⟩ := exists_encode_eq_cons c
      simp [hc]
  | cons _ ih =>
      simp only [List.flatMap_cons]
      exact List.append_left_lt ih
  | rel h =>
      simp only [List.flatMap_cons]
      exact encode_lt_encode h _ _

/-- The bytes of the smaller text are smaller. -/
lemma strictMono_bytes : StrictMono bytes := by
  intro a b h
  simp only [bytes_eq]
  exact flatMap_encode_lt (String.lt_iff_toList_lt.mp h)

/-- A text is smaller than another exactly when its bytes are. -/
lemma bytes_lt_iff {a b : String} : bytes a < bytes b ↔ a < b :=
  strictMono_bytes.lt_iff_lt

/-- The order in which texts are shown is the order of their bytes. -/
theorem textLE_iff {a b : String} : textLE a b = true ↔ AscendsByBytes a b := by
  simp only [textLE, AscendsByBytes, Bool.not_eq_true', decide_eq_false_iff_not, ← bytes_lt_iff,
    not_lt]

/-! ## Sorted texts -/

instance : DecidableRel AscendsByBytes := fun _ _ => inferInstanceAs (Decidable (_ ≤ _))

instance : IsTrans String AscendsByBytes where
  trans _ _ _ := le_trans (α := List Nat)

instance : Std.Antisymm AscendsByBytes where
  antisymm _ _ hab hba := strictMono_bytes.injective (le_antisymm hab hba)

instance : Std.Total AscendsByBytes where
  total a b := le_total (bytes a) (bytes b)

/-- Texts without repetition, sorted, are the one list of them that ascends by the bytes. -/
theorem sortBy_eq_sort {items : List String} (h : items.Nodup) :
    sortBy textLE items = items.toFinset.sort AscendsByBytes := by
  have hperm := perm_sortBy textLE items
  have hsorted : (sortBy textLE items).Pairwise AscendsByBytes := by
    refine (pairwise_sortBy (fun a b => ?_) (fun {a b c} hab hbc => ?_) items).imp textLE_iff.mp
    · simpa only [textLE_iff] using total_of AscendsByBytes a b
    · simp only [textLE_iff] at hab hbc ⊢
      exact trans_of AscendsByBytes hab hbc
  rw [← List.toFinset_eq_of_perm _ _ hperm]
  exact ((List.toFinset_sort AscendsByBytes (hperm.nodup_iff.mpr h)).mpr hsorted).symm

example : sortBy textLE ["b", "a", "ab", "\u00e9"] = ["a", "ab", "b", "\u00e9"] := by decide +kernel

end Workflow
