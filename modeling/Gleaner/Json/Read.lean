/-
# Reading JSON text

A text is read in two steps. The first takes it apart by the grammar alone and keeps repeated keys,
numerals and escapes as they are written. The second gives it a value: a later field replaces an
earlier one of the same key, numerals too large for a double and halves of surrogate pairs have no
value, and arrays and objects lie at most 127 deep in one another.

Key definitions: `Written`, `readWritten?`, `Written.value?`, `Json.read?`.
-/
import Gleaner.Json.Numeral
import Gleaner.Json.Quoted

namespace Gleaner.Json

open Gleaner.Text

/-- A JSON text taken apart. -/
inductive Written where
  | null
  | boolean (value : Bool)
  | numeral (numeral : Numeral)
  | string (pieces : List Piece)
  | array (items : List Written)
  | object (fields : List (List Piece × Written))

/-- The blanks of JSON text. -/
def isSpace (c : Char) : Bool :=
  c == ' ' || c == '\n' || c == '\t' || c == '\r'

/-- One of the three words, or a numeral. -/
def readAtom? (text : List Char) : Option (Written × List Char) :=
  match stripStart? "null".toList text, stripStart? "true".toList text,
      stripStart? "false".toList text with
  | some rest, _, _ => some (.null, rest)
  | _, some rest, _ => some (.boolean true, rest)
  | _, _, some rest => some (.boolean false, rest)
  | none, none, none => (readNumeral? text).map fun (n, rest) => (.numeral n, rest)

mutual

/-- The value at the front of a text, after blanks. -/
def readWritten? (text : List Char) : Option (Written × Remainder text) := do
  let (c, ⟨rest, h⟩) ← next? isSpace text
  if c = '"' then
    let (pieces, ⟨left, h'⟩) ← readPieces? rest
    pure (.string pieces, ⟨left, by omega⟩)
  else if c = '[' then
    match next? isSpace rest with
    | some (']', ⟨left, h'⟩) => pure (.array [], ⟨left, by omega⟩)
    | _ =>
      let (items, ⟨left, h'⟩) ← readItems? rest
      pure (.array items, ⟨left, by omega⟩)
  else if c = '\x7b' then
    match next? isSpace rest with
    | some ('\x7d', ⟨left, h'⟩) => pure (.object [], ⟨left, by omega⟩)
    | _ =>
      let (fields, ⟨left, h'⟩) ← readFields? rest
      pure (.object fields, ⟨left, by omega⟩)
  else
    let (atom, left) ← readAtom? (c :: rest)
    if h' : left.length < text.length then pure (atom, ⟨left, h'⟩) else none
termination_by (text.length, 0)

/-- The items of an array up to its closing bracket, of which there is at least one. -/
def readItems? (text : List Char) : Option (List Written × Remainder text) := do
  let (item, ⟨rest, h⟩) ← readWritten? text
  let (c, ⟨rest, h'⟩) ← next? isSpace rest
  if c = ',' then
    let (items, ⟨left, h''⟩) ← readItems? rest
    pure (item :: items, ⟨left, by omega⟩)
  else if c = ']' then pure ([item], ⟨rest, by omega⟩)
  else none
termination_by (text.length, 1)

/-- The fields of an object up to its closing brace, of which there is at least one. -/
def readFields? (text : List Char) : Option (List (List Piece × Written) × Remainder text) := do
  let (quote, ⟨rest, h⟩) ← next? isSpace text
  if quote = '"' then
    let (key, ⟨rest, h₁⟩) ← readPieces? rest
    let (colon, ⟨rest, h₂⟩) ← next? isSpace rest
    if colon = ':' then
      let (value, ⟨rest, h₃⟩) ← readWritten? rest
      let (c, ⟨rest, h₄⟩) ← next? isSpace rest
      if c = ',' then
        let (fields, ⟨left, h₅⟩) ← readFields? rest
        pure ((key, value) :: fields, ⟨left, by omega⟩)
      else if c = '\x7d' then pure ([(key, value)], ⟨rest, by omega⟩)
      else none
    else none
  else none
termination_by (text.length, 1)

end

/-- A whole text taken apart: one value with blanks around it. -/
def writtenOf? (text : String) : Option Written := do
  let (written, ⟨rest, _⟩) ← readWritten? text.toList
  if rest.all isSpace then pure written else none

/-- The text of a string, unless half a surrogate pair stands alone in it. -/
def textOf? (pieces : List Piece) : Option String :=
  (joinPieces? pieces).map String.ofList

mutual

/-- The value of what is written, where arrays and objects lie at most `depth` deep in one
another. -/
def Written.value? (depth : Nat) : Written → Option Json
  | .null => some .null
  | .boolean b => some (.boolean b)
  | .numeral n => n.value?.map .number
  | .string pieces => (textOf? pieces).map .string
  | .array items => if depth = 0 then none else (itemValues? (depth - 1) items).map .array
  | .object fields =>
    if depth = 0 then none
    else (fieldValues? (depth - 1) fields).map fun entries =>
      .object (KeyMap.ofList entries).entries

/-- The values of the items of an array. -/
def itemValues? (depth : Nat) : List Written → Option (List Json)
  | [] => some []
  | item :: rest => do
    let value ← item.value? depth
    let values ← itemValues? depth rest
    pure (value :: values)

/-- The keys and values of the fields of an object, in the order in which they are written. -/
def fieldValues? (depth : Nat) : List (List Piece × Written) → Option (List (String × Json))
  | [] => some []
  | (key, field) :: rest => do
    let key ← textOf? key
    let value ← field.value? depth
    let values ← fieldValues? depth rest
    pure ((key, value) :: values)

end

/-- How deep arrays and objects may lie in one another. -/
def greatestDepth : Nat := 127

/-- The value of a JSON text. -/
def read? (text : String) : Option Json := do
  let written ← writtenOf? text
  written.value? greatestDepth

/-- The number that a whole text without blanks writes. -/
def readNumeric? (text : List Char) : Option Numeric :=
  match readNumeral? text with
  | some (n, []) => n.value?
  | _ => none

end Gleaner.Json
