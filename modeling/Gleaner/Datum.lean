/-
# Extracted values

A datum is what one key of a selection yields: a scalar, a list, a JSON object, or the mark that
nothing was found, which is not the null of JSON.

Key definitions: `Datum`, `Datum.Kind`, `Datum.ofMatches`, `Datum.ofJson`, `Datum.toJson`,
`Datum.display`.
-/
import Gleaner.Json.Write

namespace Gleaner

open Gleaner.Number

/-- One extracted value. -/
inductive Datum where
  /-- The selector matched nothing. -/
  | notFound
  | null
  | boolean (value : Bool)
  | integer (value : Int)
  | float (value : Float)
  /-- The text of an element, the value of an attribute, or a JSON string. -/
  | text (value : String)
  /-- The content of an element whose content is no markup, such as a script. -/
  | data (value : String)
  | list (items : List Datum)
  | object (fields : List (String × Json))

/-- What a datum is, without its content. -/
inductive Datum.Kind where
  | notFound
  | null
  | boolean
  | integer
  | float
  | text
  | data
  | list
  | object
  deriving DecidableEq, Repr

namespace Datum

instance : Inhabited Datum := ⟨.notFound⟩

/-- The name of a kind. -/
def Kind.name : Kind → String
  | .notFound => "not-found"
  | .null => "null"
  | .boolean => "bool"
  | .integer => "int"
  | .float => "float"
  | .text => "text"
  | .data => "data"
  | .list => "list"
  | .object => "object"

/-- The kind of a datum. -/
def kind : Datum → Kind
  | .notFound => .notFound
  | .null => .null
  | .boolean _ => .boolean
  | .integer _ => .integer
  | .float _ => .float
  | .text _ => .text
  | .data _ => .data
  | .list _ => .list
  | .object _ => .object

/-- The selector matched something. -/
def isFound (d : Datum) : Bool :=
  d.kind != .notFound

/-- The characters of a text or of data. -/
def characters? : Datum → Option String
  | .text s | .data s => some s
  | _ => none

/-- The datum of a row of matches: none is not found, one stands for itself, more are a list. -/
def ofMatches : List Datum → Datum
  | [] => .notFound
  | [single] => single
  | items => .list items

mutual

/-- The datum of a JSON value; an integer beyond 64 bits with a sign becomes a double. -/
def ofJson : Json → Datum
  | .null => .null
  | .boolean b => .boolean b
  | .number (.integer n) => if fitsInt64 n then .integer n else .float (floatOfInt n)
  | .number (.float x) => .float x
  | .string s => .text s
  | .array items => .list (ofJsonItems items)
  | .object fields => .object fields

/-- The data of the items of an array. -/
def ofJsonItems : List Json → List Datum
  | [] => []
  | item :: rest => ofJson item :: ofJsonItems rest

end

mutual

/-- A datum as a JSON value; what is not found, and a double that is no number, is null. -/
def toJson : Datum → Json
  | .notFound | .null => .null
  | .boolean b => .boolean b
  | .integer n => .number (.integer n)
  | .float x => if isFiniteFloat x then .number (.float x) else .null
  | .text s | .data s => .string s
  | .list items => .array (toJsonItems items)
  | .object fields => .object fields

/-- The items of a list as JSON values. -/
def toJsonItems : List Datum → List Json
  | [] => []
  | item :: rest => toJson item :: toJsonItems rest

end

mutual

/-- A datum as shown to a reader: texts stand for themselves, a list has brackets, an object is
JSON text. -/
def displayChars : Datum → List Char
  | .notFound => "<not found>".toList
  | .null => "null".toList
  | .boolean b => if b then "true".toList else "false".toList
  | .integer n => (toString n).toList
  | .float x => (plainLayout.write x).toList
  | .text s | .data s => s.toList
  | .list items => '[' :: List.intercalate [',', ' '] (displayItems items) ++ [']']
  | .object fields => Json.writeChars (.object fields)

/-- The items of a list, each as shown to a reader. -/
def displayItems : List Datum → List (List Char)
  | [] => []
  | item :: rest => displayChars item :: displayItems rest

end

/-- A datum as shown to a reader. -/
def display (d : Datum) : String :=
  String.ofList d.displayChars

theorem ofJsonItems_eq_map (items : List Json) : ofJsonItems items = items.map ofJson := by
  induction items with
  | nil => rfl
  | cons item rest ih => simp [ofJsonItems, ih]

theorem toJsonItems_eq_map (items : List Datum) : toJsonItems items = items.map toJson := by
  induction items with
  | nil => rfl
  | cons item rest ih => simp [toJsonItems, ih]

/-- A row of matches that has one is found, unless its one match is the mark itself. -/
theorem isFound_ofMatches {items : List Datum} (h : ∀ d ∈ items, d.isFound = true) :
    (ofMatches items).isFound = true ↔ items ≠ [] := by
  match items with
  | [] => simp [ofMatches, isFound, kind]
  | [d] => simpa [ofMatches] using h d (by simp)
  | _ :: _ :: _ => simp [ofMatches, isFound, kind]

/-- Matches make up the mark that nothing was found when there are none, or only the mark itself. -/
theorem ofMatches_eq_notFound_iff {items : List Datum} :
    ofMatches items = .notFound ↔ items = [] ∨ items = [.notFound] := by
  match items with
  | [] => simp [ofMatches]
  | [d] => simp [ofMatches]
  | _ :: _ :: _ => simp [ofMatches]

end Datum
end Gleaner
