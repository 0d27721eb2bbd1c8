import Workflow.SharedMap
import Workflow.Json.Basic

/-!
# Run state

The values that the actions of one run share.  A `Kind` names the type a value is stored as; two
kinds may have values of the same shape and are told apart all the same.  A `RunState` is a
`SharedMap` over the kinds, and a `StateOp` one access to it.

An `Edit` is one of the changes that can be made to a value in place; it comes with a `Reading`,
what it tells about the new value.
-/

namespace Workflow

open Text

/-! ## Kinds and values -/

/-- The type that a value is stored as. -/
inductive Kind where
  | unit
  | bool
  | word8
  | word32
  | word64
  | int64
  /-- A text that can grow. -/
  | text
  /-- A text fixed in advance. -/
  | label
  | bytes
  | texts
  /-- A list of texts behind a handle of its own. -/
  | shared
deriving DecidableEq

namespace Kind

/-- The values of a kind. -/
abbrev Carrier : Kind → Type
  | unit => Unit
  | bool => Bool
  | word8 => UInt8
  | word32 => UInt32
  | word64 => UInt64
  | int64 => Int64
  | text => String
  | label => String
  | bytes => List UInt8
  | texts => List String
  | shared => List String

/-- The short name of a kind. -/
def tag : Kind → String
  | unit => "unit"
  | bool => "bool"
  | word8 => "u8"
  | word32 => "u32"
  | word64 => "u64"
  | int64 => "i64"
  | text => "str"
  | label => "sstr"
  | bytes => "bytes"
  | texts => "strs"
  | shared => "shared"

/-- All kinds. -/
def all : List Kind :=
  [unit, bool, word8, word32, word64, int64, text, label, bytes, texts, shared]

/-- The kind of a short name. -/
def ofTag? (s : String) : Option Kind :=
  all.find? fun k => k.tag == s

end Kind

/-- A value with its kind. -/
abbrev Value := Sigma Kind.Carrier

/-- The values that the actions of one run share. -/
abbrev RunState := SharedMap Kind Kind.Carrier

/-- An integer as a text, which keeps every digit. -/
def numeralJson (i : Int) : Json :=
  .string (decimalInt i)

/-- The content of a value, without its kind. -/
def Kind.contentJson : (k : Kind) → k.Carrier → Json
  | .unit, _ => .string "unit"
  | .bool, b => .bool b
  | .word8, n => numeralJson n.toNat
  | .word32, n => numeralJson n.toNat
  | .word64, n => numeralJson n.toNat
  | .int64, n => numeralJson n.toInt
  | .text, s => .string s
  | .label, s => .string s
  | .bytes, bs => .array (bs.map fun b => .ofNat b.toNat)
  | .texts, ss => .array (ss.map .string)
  | .shared, ss => .array (ss.map .string)

/-- A value under the short name of its kind. -/
def Value.toJson (v : Value) : Json :=
  .object [("t", .string v.1.tag), ("v", v.1.contentJson v.2)]

/-! ## Edits -/

/-- What an edit tells about the value it leaves. -/
inductive Reading where
  | unit
  | flag (b : Bool)
  | integer (i : Int)
  | size (n : Nat)

/-- A reading as a JSON value: integers as texts, sizes as numbers. -/
def Reading.toJson : Reading → Json
  | unit => .string "unit"
  | flag b => .bool b
  | integer i => numeralJson i
  | size n => .ofNat n

/-- A change of a value in place. -/
inductive Edit (k : Kind) where
  | set (v : k.Carrier)
  | add (v : k.Carrier)
  | multiply (v : k.Carrier)
  | append (v : k.Carrier)
  | negate
  | measure

/-- What an edit makes of a value.  Numbers wrap around at the ends of their range; texts are
measured in bytes and lists in items.  An edit that the kind has no meaning for is none. -/
def Edit.run? : (k : Kind) → Edit k → Option (k.Carrier → k.Carrier × Reading)
  | .unit, _ => some fun _ => ((), .unit)
  | .bool, .set v => some fun _ => (v, .flag v)
  | .bool, .negate => some fun b => (!b, .flag !b)
  | .word8, .set v => some fun _ => (v, .integer v.toNat)
  | .word8, .add v => some fun n => (n + v, .integer (n + v).toNat)
  | .word8, .multiply v => some fun n => (n * v, .integer (n * v).toNat)
  | .word32, .set v => some fun _ => (v, .integer v.toNat)
  | .word32, .add v => some fun n => (n + v, .integer (n + v).toNat)
  | .word32, .multiply v => some fun n => (n * v, .integer (n * v).toNat)
  | .word64, .set v => some fun _ => (v, .integer v.toNat)
  | .word64, .add v => some fun n => (n + v, .integer (n + v).toNat)
  | .word64, .multiply v => some fun n => (n * v, .integer (n * v).toNat)
  | .int64, .set v => some fun _ => (v, .integer v.toInt)
  | .int64, .add v => some fun n => (n + v, .integer (n + v).toInt)
  | .int64, .multiply v => some fun n => (n * v, .integer (n * v).toInt)
  | .text, .set v => some fun _ => (v, .size v.utf8ByteSize)
  | .text, .append v => some fun s => (s ++ v, .size (s ++ v).utf8ByteSize)
  | .text, .measure => some fun s => (s, .size s.utf8ByteSize)
  | .label, .set v => some fun _ => (v, .size v.utf8ByteSize)
  | .label, .measure => some fun s => (s, .size s.utf8ByteSize)
  | .bytes, .set v => some fun _ => (v, .size v.length)
  | .bytes, .append v => some fun bs => (bs ++ v, .size (bs ++ v).length)
  | .bytes, .measure => some fun bs => (bs, .size bs.length)
  | .texts, .set v => some fun _ => (v, .size v.length)
  | .texts, .append v => some fun ss => (ss ++ v, .size (ss ++ v).length)
  | .texts, .measure => some fun ss => (ss, .size ss.length)
  | .shared, .set v => some fun _ => (v, .size v.length)
  | .shared, .append v => some fun ss => (ss ++ v, .size (ss ++ v).length)
  | .shared, .measure => some fun ss => (ss, .size ss.length)
  | _, _ => none

/-- Where in a piece of code a panic strikes. -/
inductive Strike where
  | before
  | after
deriving DecidableEq

/-- A change that ends, or that panics before or after its work is done. -/
def attempted {α ρ : Type} (panic : Option (Strike × String)) (f : α → α × ρ) :
    α → α × Attempt ρ := fun a =>
  match panic with
  | none => ((f a).1, .returned (f a).2)
  | some (.before, text) => (a, .panicked text)
  | some (.after, text) => ((f a).1, .panicked text)

/-! ## Operations -/

/-- One access to a run state. -/
abbrev StateOp := MapOp Kind Kind.Carrier Reading

/-- What an access answers. -/
abbrev StateReply := MapReply Kind Kind.Carrier Reading

/-! ## Answers as JSON -/

/-- How an attempt ended, as a JSON value: the result, or the text of the panic. -/
def Attempt.toJson {α : Type} (result : α → Json) : Attempt α → Json
  | returned a => result a
  | panicked text => .object [("panic", .string text)]

/-- An answer as a JSON value.  Keys are sorted, since a map lists them in no particular order. -/
def StateReply.toJson : StateReply → Json
  | .flag b => .bool b
  | .count n => .ofNat n
  | .value none => .null
  | .value (some v) => Value.toJson v
  | .keys ks => .array ((sortBy textLE ks).map .string)
  | .text s => .string s
  | .updated none => .null
  | .updated (some r) => r.toJson Reading.toJson
  | .obtained made v =>
      .object [("called", .bool made),
        ("value", match v with
          | none => .null
          | some r => r.toJson Value.toJson)]

end Workflow
