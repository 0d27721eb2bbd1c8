import Workflow.Json.Basic

/-!
# Reading JSON text

`Json.read?` accepts one document with blanks around it and nothing else.  The grammar is strict: no
comments, no trailing commas, no leading zeros, no raw control characters in strings.

Strings may spell a character as a surrogate pair.  A surrogate that has no partner names no
character.  In the name of a member of the outermost object it makes the document unreadable;
everywhere else it is read as the replacement character.

The functions that nest recurse on a number of steps, which `read?` takes from the length of the
text: between two steps at least every second one consumes a character.
-/

namespace Workflow.Json

/-- Whether a character may stand between tokens. -/
def isGap (c : Char) : Bool :=
  c = ' ' || c = '\n' || c = '\t' || c = '\r'

/-- A text without the blanks in front of its first token. -/
def skipGap (cs : List Char) : List Char :=
  cs.dropWhile isGap

/-! ## Strings -/

/-- The value of a hexadecimal digit of either case. -/
def hexValue? (c : Char) : Option Nat :=
  if c.isDigit then some (c.toNat - '0'.toNat)
  else if 'a' ≤ c ∧ c ≤ 'f' then some (c.toNat - 'a'.toNat + 10)
  else if 'A' ≤ c ∧ c ≤ 'F' then some (c.toNat - 'A'.toNat + 10)
  else none

/-- The unit that four hexadecimal digits name. -/
def hexUnit? (a b c d : Char) : Option Nat := do
  let a ← hexValue? a
  let b ← hexValue? b
  let c ← hexValue? c
  let d ← hexValue? d
  return ((a * 16 + b) * 16 + c) * 16 + d

/-- The character that a short escape stands for. -/
def shortEscape? : Char → Option Char
  | '"' => some '"'
  | '\\' => some '\\'
  | '/' => some '/'
  | 'b' => some '\x08'
  | 'f' => some '\x0c'
  | 'n' => some '\n'
  | 'r' => some '\r'
  | 't' => some '\t'
  | _ => none

/-- The units of a string whose opening quote is already read, and what follows its closing quote.
A unit is the code point of a character, or what a `\u` escape names. -/
def readUnits : List Char → Option (List Nat × List Char)
  | [] => none
  | '"' :: rest => some ([], rest)
  | '\\' :: 'u' :: a :: b :: c :: d :: rest => do
      let u ← hexUnit? a b c d
      let (us, rest) ← readUnits rest
      return (u :: us, rest)
  | '\\' :: e :: rest => do
      let c ← shortEscape? e
      let (us, rest) ← readUnits rest
      return (c.toNat :: us, rest)
  | c :: rest =>
      if c.toNat < 0x20 then none
      else do
        let (us, rest) ← readUnits rest
        return (c.toNat :: us, rest)

/-- Joins each leading surrogate with a trailing one right behind it. -/
def joinSurrogates : List Nat → List Nat
  | [] => []
  | [u] => [u]
  | u :: v :: rest =>
      if 0xd800 ≤ u ∧ u < 0xdc00 ∧ 0xdc00 ≤ v ∧ v < 0xe000 then
        (0x10000 + (u - 0xd800) * 0x400 + (v - 0xdc00)) :: joinSurrogates rest
      else u :: joinSurrogates (v :: rest)

/-- Whether a code point is that of a character. -/
def isScalar (u : Nat) : Bool :=
  u < 0xd800 || (0xe000 ≤ u && u < 0x110000)

/-- The text of a string, the replacement character in place of what names no character. -/
def looseText (us : List Nat) : String :=
  String.ofList <| (joinSurrogates us).map fun u => if isScalar u then Char.ofNat u else '\ufffd'

/-- The text of a string whose units all name characters. -/
def strictText? (us : List Nat) : Option String :=
  let ps := joinSurrogates us
  if ps.all isScalar then some (String.ofList (ps.map Char.ofNat)) else none

/-- The text of a member's name in an object that is, or is not, the outermost one. -/
def nameText? (outermost : Bool) (us : List Nat) : Option String :=
  if outermost then strictText? us else some (looseText us)

/-! ## Numbers -/

/-- The digits in front of a text, at least one of them. -/
def readDigits (cs : List Char) : Option (List Char × List Char) :=
  let digits := cs.takeWhile Char.isDigit
  if digits.isEmpty then none else some (digits, cs.dropWhile Char.isDigit)

/-- The whole part of a number: a zero alone, or digits that do not start with one. -/
def readWhole : List Char → Option (List Char × List Char)
  | '0' :: rest => some (['0'], rest)
  | cs => readDigits cs

/-- The fraction of a number, if it has one. -/
def readFraction : List Char → Option (List Char × List Char)
  | '.' :: rest => (readDigits rest).map fun (ds, rest) => ('.' :: ds, rest)
  | cs => some ([], cs)

/-- The exponent of a number, if it has one. -/
def readExponent : List Char → Option (List Char × List Char)
  | c :: rest =>
      if c = 'e' || c = 'E' then
        match rest with
        | '+' :: rest => (readDigits rest).map fun (ds, rest) => (c :: '+' :: ds, rest)
        | '-' :: rest => (readDigits rest).map fun (ds, rest) => (c :: '-' :: ds, rest)
        | rest => (readDigits rest).map fun (ds, rest) => (c :: ds, rest)
      else some ([], c :: rest)
  | [] => some ([], [])

/-- A number without its sign. -/
def readMagnitude (cs : List Char) : Option (List Char × List Char) := do
  let (whole, cs) ← readWhole cs
  let (fraction, cs) ← readFraction cs
  let (exponent, cs) ← readExponent cs
  return (whole ++ fraction ++ exponent, cs)

/-- A number, as its literal. -/
def readNumber : List Char → Option (List Char × List Char)
  | '-' :: rest => (readMagnitude rest).map fun (ds, rest) => ('-' :: ds, rest)
  | cs => readMagnitude cs

/-! ## Values -/

mutual

/-- A value at the front of a text, blanks before it skipped. -/
def readValue (outermost : Bool) : Nat → List Char → Option (Json × List Char)
  | 0, _ => none
  | n + 1, cs =>
      match skipGap cs with
      | 'n' :: 'u' :: 'l' :: 'l' :: rest => some (null, rest)
      | 't' :: 'r' :: 'u' :: 'e' :: rest => some (bool true, rest)
      | 'f' :: 'a' :: 'l' :: 's' :: 'e' :: rest => some (bool false, rest)
      | '"' :: rest => (readUnits rest).map fun (us, rest) => (string (looseText us), rest)
      | '[' :: rest =>
          match skipGap rest with
          | ']' :: rest => some (array [], rest)
          | rest => (readItems n rest).map fun (js, rest) => (array js, rest)
      | '\x7b' :: rest =>
          match skipGap rest with
          | '\x7d' :: rest => some (object [], rest)
          | rest => (readMembers outermost n rest).map fun (ms, rest) => (object ms, rest)
      | cs => (readNumber cs).map fun (ds, rest) => (number (String.ofList ds), rest)

/-- The items of an array up to its closing bracket, at least one. -/
def readItems : Nat → List Char → Option (List Json × List Char)
  | 0, _ => none
  | n + 1, cs => do
      let (j, rest) ← readValue false n cs
      match skipGap rest with
      | ',' :: rest =>
          let (js, rest) ← readItems n rest
          return (j :: js, rest)
      | ']' :: rest => return ([j], rest)
      | _ => none

/-- The members of an object up to its closing brace, at least one. -/
def readMembers (outermost : Bool) : Nat → List Char → Option (List (String × Json) × List Char)
  | 0, _ => none
  | n + 1, cs =>
      match skipGap cs with
      | '"' :: rest => do
          let (us, rest) ← readUnits rest
          let name ← nameText? outermost us
          match skipGap rest with
          | ':' :: rest =>
              let (j, rest) ← readValue false n rest
              match skipGap rest with
              | ',' :: rest =>
                  let (ms, rest) ← readMembers outermost n rest
                  return ((name, j) :: ms, rest)
              | '\x7d' :: rest => return ([(name, j)], rest)
              | _ => none
          | _ => none
      | _ => none

end

/-- The value of a document. -/
def read? (cs : List Char) : Option Json := do
  let (j, rest) ← readValue true (2 * cs.length + 2) cs
  if (skipGap rest).isEmpty then some j else none

end Workflow.Json
