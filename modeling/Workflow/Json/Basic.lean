import Workflow.Text.Numeral

/-!
# JSON values and their compact text

A document as a tree.  Numbers keep their literal, so no digit of a large number is lost; members of
an object keep their order and may repeat a name.

`Json.render` writes a value without any blank.  In strings the quote, the backslash and the
controls are escaped, the latter by their short form where there is one; all other characters stand
for themselves.
-/

namespace Workflow

open Text

/-- A JSON value. -/
inductive Json where
  | null
  | bool (b : Bool)
  | number (literal : String)
  | string (s : String)
  | array (items : List Json)
  | object (members : List (String × Json))

namespace Json

instance : Inhabited Json := ⟨null⟩

/-- A natural number. -/
def ofNat (n : Nat) : Json :=
  number (decimal n)

/-- An integer. -/
def ofInt (i : Int) : Json :=
  number (decimalInt i)

/-- The natural number that a literal of digits alone names; a sign, a fraction or an exponent
makes it another kind of number. -/
def natural? : Json → Option Nat
  | number literal => Text.natural? literal.toList
  | _ => none

/-! ## Compact text -/

/-- One of the sixteen lowercase hexadecimal digits. -/
def hexDigit (n : Nat) : Char :=
  Nat.digitChar (n % 16)

/-- How one character of a string is written. -/
def escape (c : Char) : List Char :=
  if c = '"' then ['\\', '"']
  else if c = '\\' then ['\\', '\\']
  else if c = '\x08' then ['\\', 'b']
  else if c = '\x0c' then ['\\', 'f']
  else if c = '\n' then ['\\', 'n']
  else if c = '\r' then ['\\', 'r']
  else if c = '\t' then ['\\', 't']
  else if c.toNat < 0x20 then
    ['\\', 'u', '0', '0', hexDigit (c.toNat / 16), hexDigit c.toNat]
  else [c]

/-- A string literal. -/
def renderString (s : String) : List Char :=
  '"' :: s.toList.flatMap escape ++ ['"']

mutual

/-- The characters of a value. -/
def renderChars : Json → List Char
  | null => "null".toList
  | bool b => (if b then "true" else "false").toList
  | number literal => literal.toList
  | string s => renderString s
  | array items => '[' :: renderItems items ++ [']']
  | object members => '\x7b' :: renderMembers members ++ ['\x7d']

/-- The items of an array, separated by commas. -/
def renderItems : List Json → List Char
  | [] => []
  | [j] => renderChars j
  | j :: js => renderChars j ++ ',' :: renderItems js

/-- The members of an object, separated by commas. -/
def renderMembers : List (String × Json) → List Char
  | [] => []
  | [(name, j)] => renderString name ++ ':' :: renderChars j
  | (name, j) :: ms => renderString name ++ ':' :: renderChars j ++ ',' :: renderMembers ms

end

/-- A value as compact text. -/
def render (j : Json) : String :=
  String.ofList (renderChars j)

end Json

end Workflow
