/-
# JSON text without blanks

A value is written on one line without blanks. Characters beyond ASCII stand for themselves, and
control characters are escaped, so the text holds none. A double has the fewest digits that read
back; a number that is not finite is written as `null`.

Key definitions: `Json.floatLayout`, `Json.escapeChar`, `Json.writeString`, `Json.write`.
-/
import Gleaner.Json.Basic
import Gleaner.Number.Layout

namespace Gleaner.Json

open Gleaner.Number

/-- Numbers from 0.00001 up to 10^16 are written without an exponent mark, whole ones with a point
and a zero; a positive exponent follows a plus sign. Of two equally near texts the one with an even
last digit is written. -/
def floatLayout : Layout where
  positional := some (-5, 15)
  pointZero := true
  plusSign := true
  tie := .toEven

/-- The form of a character inside a JSON string. -/
def escapeChar (c : Char) : List Char :=
  if c = '"' ∨ c = '\\' then ['\\', c]
  else if c = '\n' then ['\\', 'n']
  else if c = '\r' then ['\\', 'r']
  else if c = '\t' then ['\\', 't']
  else if c = '\x08' then ['\\', 'b']
  else if c = '\x0c' then ['\\', 'f']
  else if c.toNat < 32 then
    ['\\', 'u', '0', '0', Nat.digitChar (c.toNat / 16), Nat.digitChar (c.toNat % 16)]
  else [c]

/-- A text as a JSON string. -/
def writeString (text : String) : List Char :=
  '"' :: text.toList.flatMap escapeChar ++ ['"']

/-- A number; one that is not finite is written as `null`. -/
def writeNumeric : Numeric → List Char
  | .integer n => (toString n).toList
  | .float x => if isFiniteFloat x then (floatLayout.write x).toList else "null".toList

/-- Written values with commas between them. -/
def joinWritten (written : List (List Char)) : List Char :=
  List.intercalate [','] written

mutual

/-- A value as JSON text. -/
def writeChars : Json → List Char
  | .null => "null".toList
  | .boolean b => if b then "true".toList else "false".toList
  | .number n => writeNumeric n
  | .string s => writeString s
  | .array items => '[' :: joinWritten (writeItems items) ++ [']']
  | .object fields => '\x7b' :: joinWritten (writeFields fields) ++ ['\x7d']

/-- The items of an array, each as JSON text. -/
def writeItems : List Json → List (List Char)
  | [] => []
  | item :: rest => writeChars item :: writeItems rest

/-- The fields of an object, each as JSON text. -/
def writeFields : List (String × Json) → List (List Char)
  | [] => []
  | (key, value) :: rest => (writeString key ++ ':' :: writeChars value) :: writeFields rest

end

/-- A value as JSON text. -/
def write (value : Json) : String :=
  String.ofList (writeChars value)

end Gleaner.Json
