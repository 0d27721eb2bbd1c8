/-!
# Decimal numerals and the blanks around them

The texts that name a natural number: digits of ASCII, at least one, as many leading zeros as the
writer likes.  A numeral that may carry a sign accepts a single plus in front and nothing else.  The
shortest numeral of a number names that number: `natural?_decimal`.

Blanks are the characters with the property `White_Space`.  The set is larger than the blanks of
ASCII: it has the no-break space, the line and paragraph separators and the ideographic space, but
not the zero width space.
-/

namespace Workflow.Text

/-- The number that a text names, when it is one or more digits. -/
def natural? (cs : List Char) : Option Nat :=
  if !cs.isEmpty && cs.all Char.isDigit then some (Nat.ofDigitChars 10 cs 0) else none

/-- The number that a text names, when it is a natural numeral after at most one plus. -/
def signedNatural? : List Char → Option Nat
  | '+' :: cs => natural? cs
  | cs => natural? cs

/-- A number as its shortest numeral. -/
def decimal (n : Nat) : String :=
  String.ofList (Nat.toDigits 10 n)

/-- The shortest numeral of a number names it. -/
theorem natural?_decimal (n : Nat) : natural? (decimal n).toList = some n := by
  have all : (Nat.toDigits 10 n).all Char.isDigit = true :=
    List.all_eq_true.mpr fun _ h => Nat.isDigit_of_mem_toDigits (by decide) (by decide) h
  have value : Nat.ofDigitChars 10 (Nat.toDigits 10 n) 0 = n :=
    Nat.ofDigitChars_toDigits (by decide) (by decide)
  simp [natural?, decimal, all, value, Nat.toDigits_ne_nil]

/-- An integer as its shortest numeral, a minus in front of a negative one. -/
def decimalInt : Int → String
  | .ofNat n => decimal n
  | .negSucc n => "-" ++ decimal (n + 1)

example : signedNatural? "+0042".toList = some 42 := by decide

example : [natural? [], natural? "+1".toList, signedNatural? "++1".toList,
    signedNatural? "-0".toList, signedNatural? "٣".toList] = [none, none, none, none, none] := by
  decide

/-! ## Blanks -/

/-- Whether a character has the property `White_Space`. -/
def isBlank (c : Char) : Bool :=
  let n := c.toNat
  (0x9 ≤ n && n ≤ 0xd) || n == 0x20 || n == 0x85 || n == 0xa0 || n == 0x1680 ||
    (0x2000 ≤ n && n ≤ 0x200a) || n == 0x2028 || n == 0x2029 || n == 0x202f || n == 0x205f ||
    n == 0x3000

/-- The characters of a text without the blanks at both ends; blanks inside it stay. -/
def trimmed (cs : List Char) : List Char :=
  ((cs.dropWhile isBlank).reverse.dropWhile isBlank).reverse

example : trimmed "\u3000 4 2\u00a0".toList = ['4', ' ', '2'] := by decide

end Workflow.Text
