import Workflow.Text.Graphic
import Workflow.Text.Extending

/-!
# Quoted text

Descriptions of values show text between double quotes.  What could be mistaken for the end of the
text, or could not be seen, is escaped, so a quoted text names exactly one text:

* the quote and the backslash after a backslash, the usual four controls as `\0 \t \r \n`;
* every character that is not graphic, or that extends the one before it, by its code point in
  lowercase hexadecimal, as in `\u{301}`;
* all others, the apostrophe among them, stand for themselves.

Lists of texts are shown between brackets.
-/

namespace Workflow.Text

/-- The code point of a character in lowercase hexadecimal, without leading zeros. -/
def hexadecimal (c : Char) : List Char :=
  Nat.toDigits 16 c.toNat

/-- How one character of a quoted text is written. -/
def escape (c : Char) : List Char :=
  if c = '"' then ['\\', '"']
  else if c = '\\' then ['\\', '\\']
  else if c = '\x00' then ['\\', '0']
  else if c = '\t' then ['\\', 't']
  else if c = '\r' then ['\\', 'r']
  else if c = '\n' then ['\\', 'n']
  else if isExtending c || !isGraphic c then
    ['\\', 'u', '\x7b'] ++ hexadecimal c ++ ['\x7d']
  else [c]

/-- A text between quotes, its characters escaped. -/
def quoted (s : String) : String :=
  String.ofList ('"' :: s.toList.flatMap escape ++ ['"'])

/-- Words between brackets, separated by commas. -/
def bracketed (items : List String) : String :=
  "[" ++ ", ".intercalate items ++ "]"

/-- A list of texts, each quoted. -/
def quotedList (texts : List String) : String :=
  bracketed (texts.map quoted)

/-! ## The escapes at work -/

example : quoted "a\"b\\c\n'" = "\"a\\\"b\\\\c\\n'\"" := by decide +kernel

example : quoted "e\u0301\u200b" = "\"e\\u\x7b301\x7d\\u\x7b200b\x7d\"" := by decide +kernel

example : quoted "\uff9e\u3164" = "\"\uff9e\\u\x7b3164\x7d\"" := by decide +kernel

example : quotedList ["a", ""] = "[\"a\", \"\"]" := by decide +kernel

end Workflow.Text
