/-
# Reading values of a harvest

A value is read by its key as a string, a number or a list. A scalar is read as a list of one; a
list is read only as a whole, so that one item of another kind refuses it.

Key definitions: `Harvest.require`, `Harvest.getString`, `Harvest.getInteger`, `Harvest.getFloat`,
`ItemReading`, `Harvest.getList`, `TextReading`, `Harvest.getListWith`.
-/
import Gleaner.Harvest.Basic

namespace Gleaner

open Gleaner.Number Gleaner.Text

universe u

/-- How the items of a list are read as values of a type. -/
structure ItemReading (α : Type u) where
  wanted : Wanted
  read? : Datum → Option α

namespace ItemReading

/-- Texts and data, as strings. -/
def strings : ItemReading String :=
  ⟨.string, Datum.characters?⟩

/-- Integers. -/
def integers : ItemReading Int :=
  ⟨.integer, fun
    | .integer n => some n
    | _ => none⟩

/-- Doubles. -/
def floats : ItemReading Float :=
  ⟨.float, fun
    | .float x => some x
    | _ => none⟩

/-- Truth values. -/
def booleans : ItemReading Bool :=
  ⟨.boolean, fun
    | .boolean b => some b
    | _ => none⟩

/-- Data of any kind, but for the mark that nothing was found. -/
def data : ItemReading Datum :=
  ⟨.found, fun d => if d.isFound then some d else none⟩

end ItemReading

/-- How texts are read as values of a type, or refused for a reason. -/
structure TextReading (α : Type u) where
  type : String
  read : String → Except String α

namespace TextReading

/-- Natural numbers of 32 bits, under the name of a type. -/
def natural32 (type : String) : TextReading Int :=
  ⟨type, fun text => (readUInt32 text).mapError IntegerFault.message⟩

/-- Integers of 64 bits, under the name of a type. -/
def integer64 (type : String) : TextReading Int :=
  ⟨type, fun text => (readInt64 text).mapError IntegerFault.message⟩

/-- Doubles, under the name of a type. -/
def double (type : String) : TextReading Float :=
  ⟨type, fun text => (readFloat text).mapError FloatFault.message⟩

/-- Truth values, under the name of a type. -/
def truth (type : String) : TextReading Bool :=
  ⟨type, fun text =>
    match readBool text with
    | some b => .ok b
    | none => .error "provided string was not `true` or `false`"⟩

/-- The number of bytes that a text takes up, under the name of a type. -/
def byteCount (type : String) : TextReading Nat :=
  ⟨type, fun text => .ok text.utf8ByteSize⟩

/-- Texts of at least one character, under the name of a type. -/
def nonempty (type : String) : TextReading String :=
  ⟨type, fun text => if text.isEmpty then .error "empty" else .ok text⟩

end TextReading

/-- The integer of 64 bits that a double holds before the point. -/
def wholePart? (x : Float) : Option Int :=
  (truncated? x).filter fitsInt64

/-- The integer of 64 bits that a text writes between blanks, or that the double it writes holds
before the point. -/
def integerOfText? (text : String) : Option Int :=
  match readInt64 (trimmed text) with
  | .ok n => some n
  | .error _ =>
    match readFloat (trimmed text) with
    | .ok x => wholePart? x
    | .error _ => none

/-- The items of a datum: those of a list, or a scalar on its own. -/
def Datum.items? : Datum → Option (List Datum)
  | .notFound => none
  | .list items => some items
  | single => some [single]

namespace Harvest

/-- The datum at a key. -/
def require (harvest : Harvest) (key : String) : Except Failure Datum :=
  match harvest.values.get? key with
  | some d => .ok d
  | none => .error (.missingKey key)

/-- A value, or the failure that a datum is not of the kind that is wanted. -/
def orWrongKind {α : Type u} (key : String) (wanted : Wanted) (d : Datum) :
    Option α → Except Failure α
  | some a => .ok a
  | none => .error (.wrongKind key wanted d.kind)

/-- The selector of a key matched something. -/
def isFound (harvest : Harvest) (key : String) : Except Failure Bool :=
  (harvest.require key).map Datum.isFound

/-- The datum at a key is of a kind. -/
def isKind (harvest : Harvest) (key : String) (kind : Datum.Kind) : Except Failure Bool :=
  (harvest.require key).map fun d => d.kind == kind

/-- The datum at a key as a reader sees it. -/
def getString (harvest : Harvest) (key : String) : Except Failure String := do
  let d ← harvest.require key
  orWrongKind key .string d (if d.isFound then some d.display else none)

/-- The datum at a key as an integer of 64 bits. -/
def getInteger (harvest : Harvest) (key : String) : Except Failure Int := do
  let d ← harvest.require key
  orWrongKind key .integer d <|
    match d with
    | .integer n => some n
    | .float x => wholePart? x
    | .text s | .data s => integerOfText? s
    | _ => none

/-- The datum at a key as a double. -/
def getFloat (harvest : Harvest) (key : String) : Except Failure Float := do
  let d ← harvest.require key
  orWrongKind key .float d <|
    match d with
    | .float x => some x
    | .integer n => some (floatOfInt n)
    | .text s | .data s => (readFloat (trimmed s)).toOption
    | _ => none

/-- The items at a key. -/
def items (harvest : Harvest) (key : String) : Except Failure (List Datum) := do
  let d ← harvest.require key
  orWrongKind key .list d d.items?

/-- The items of a list, all read in one way. -/
def readItems {α : Type u} (key : String) (reading : ItemReading α) :
    List Datum → Except Failure (List α)
  | [] => .ok []
  | d :: rest =>
    match reading.read? d with
    | some a => (readItems key reading rest).map (a :: ·)
    | none => .error (.wrongKind key reading.wanted d.kind)

/-- The datum at a key as a list of values of a type. -/
def getList {α : Type u} (harvest : Harvest) (key : String) (reading : ItemReading α) :
    Except Failure (List α) :=
  (harvest.items key).bind (readItems key reading)

/-- The texts of a list, all read in one way. -/
def readTexts {α : Type u} (key : String) (reading : TextReading α) :
    List Datum → Except Failure (List α)
  | [] => .ok []
  | d :: rest =>
    match d.characters? with
    | none => .error (.wrongKind key .string d.kind)
    | some text =>
      match reading.read text with
      | .ok a => (readTexts key reading rest).map (a :: ·)
      | .error reason => .error (.unreadableText key reading.type text reason)

/-- The datum at a key as a list of texts, each read as a value of a type. -/
def getListWith {α : Type u} (harvest : Harvest) (key : String) (reading : TextReading α) :
    Except Failure (List α) :=
  (harvest.items key).bind (readTexts key reading)

end Harvest
end Gleaner
