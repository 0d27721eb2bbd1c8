import Workflow.Text.Quoted
import Workflow.Json.Reader

/-!
# Limits and settings of a throttled runner

How many children of a throttled runner may be running at once.  A `Limit` is a positive number of
64 bits: a limit of zero would admit nobody, and the type does not hold it.

The one setting of such a runner is that number.  It can be given as a number, as the text of an
environment variable, or as a JSON document; a source that leaves it out falls back on the standard
settings, one slot for each processor.

* `Settings.ofVariable` reads the text of the variable, blanks around it allowed, and refuses what
  names no positive number of 64 bits;
* `Settings.ofEnvironment` takes the bytes that the environment holds, and treats bytes that are not
  text as if the variable were not set;
* `Settings.ofDocument?` reads an object whose other members do not matter, or an array with the
  setting alone.
-/

namespace Workflow

open Text

/-- Numbers below this bound fit in 64 bits. -/
def wordBound : Nat := UInt64.size

/-- A positive number of 64 bits. -/
structure Limit where
  value : Nat
  pos : 0 < value
  lt : value < wordBound
deriving DecidableEq

/-- Why a limit was refused. -/
inductive LimitError where
  /-- The number is no limit. -/
  | invalidConcurrency (limit : Nat)
  /-- The variable `var` holds a text that names no number of 64 bits. -/
  | invalidText (var value : String)
deriving DecidableEq

namespace LimitError

/-- The text of a refusal. -/
def message : LimitError → String
  | invalidConcurrency limit =>
      "invalid concurrency limit " ++ decimal limit ++ ": must be at least 1"
  | invalidText var value => "invalid value " ++ quoted value ++ " for " ++ var

end LimitError

/-- The limit of `n`, refused when it is zero. -/
def Limit.ofNat (n : Nat) (h : n < wordBound) : Except LimitError Limit :=
  if pos : 0 < n then .ok ⟨n, pos, h⟩ else .error (.invalidConcurrency n)

/-! ## Settings -/

/-- The settings of a throttled runner. -/
structure Settings where
  maxConcurrency : Nat
  lt : maxConcurrency < wordBound

namespace Settings

/-- Settings are the same when they name the same number. -/
instance : DecidableEq Settings := fun s t =>
  decidable_of_decidable_of_iff (p := s.maxConcurrency = t.maxConcurrency)
    ⟨fun h => by cases s; cases t; cases h; rfl, fun h => h ▸ rfl⟩

/-- The variable that holds the setting. -/
def variableName : String := "CONFLUX_MAX_CONCURRENCY"

/-- The name of the setting in a document. -/
def memberName : String := "max_concurrency"

/-- One slot for each processor, or one if their number is not known. -/
def standard (processors : Option Limit) : Settings :=
  match processors with
  | some n => ⟨n.value, n.lt⟩
  | none => ⟨1, by decide⟩

/-- The setting as a limit, refused when it is zero. -/
def validate (s : Settings) : Except LimitError Limit :=
  Limit.ofNat s.maxConcurrency s.lt

/-- The settings of `n` slots, when `n` fits. -/
def ofNat? (n : Nat) : Option Settings :=
  if h : n < wordBound then some ⟨n, h⟩ else none

/-! ## From a variable -/

/-- The settings that the text of the variable names, checked; the fallback when it is not set. -/
def ofVariable (fallback : Settings) : Option String → Except LimitError Settings
  | none => .ok fallback
  | some raw =>
      match (signedNatural? (trimmed raw.toList)).bind ofNat? with
      | none => .error (.invalidText variableName raw)
      | some s => s.validate.map fun _ => s

/-- The settings that the environment names.  Bytes that are not UTF-8 count as not set. -/
def ofEnvironment (fallback : Settings) (bytes : Option ByteArray) : Except LimitError Settings :=
  ofVariable fallback (bytes.bind String.fromUTF8?)

/-! ## From a document -/

/-- The settings whose slots a JSON value counts. -/
def ofCount? (j : Json) : Option Settings :=
  j.natural?.bind ofNat?

/-- The settings that a JSON value describes.  An object may leave the setting out but not repeat
it, and its other members do not matter; an array holds the setting alone, or nothing. -/
def ofJson? (fallback : Settings) : Json → Option Settings
  | .object members =>
      match (members.filter fun m => m.1 == memberName).map (·.2) with
      | [] => some fallback
      | [j] => ofCount? j
      | _ => none
  | .array [] => some fallback
  | .array [j] => ofCount? j
  | _ => none

/-- The settings that a JSON document describes. -/
def ofDocument? (fallback : Settings) (text : String) : Option Settings :=
  (Json.read? text.toList).bind (ofJson? fallback)

/-- The settings as a JSON value. -/
def toJson (s : Settings) : Json :=
  .object [(memberName, .ofNat s.maxConcurrency)]

/-- The settings as a compact document. -/
def document (s : Settings) : String :=
  s.toJson.render

/-- The settings shown with the names of their parts. -/
def describe (s : Settings) : String :=
  "ThrottleConfig \x7b max_concurrency: " ++ decimal s.maxConcurrency ++ " \x7d"

end Settings

end Workflow
