/-
# Data that are handed to the writing of JSON

What is handed over is wider than JSON: a part of it may refuse, and the keys of a map may be
anything. A key that is no text is put between quotation marks if it is a truth or a number, and
else it refuses the whole; so does a key that is no finite number.

Key definitions: `Serial`, `Serial.Fault`, `Serial.write?`, `Json.toSerial`.
-/
import Gleaner.Json.Write

namespace Gleaner

open Gleaner.Json Gleaner.Number

/-- Data on their way to JSON text. -/
inductive Serial where
  | null
  | boolean (value : Bool)
  | number (value : Json.Numeric)
  | string (text : String)
  | sequence (items : List Serial)
  | map (entries : List (Serial × Serial))
  /-- A part that does not let itself be written, for a reason in its own words. -/
  | refusing (reason : String)

namespace Serial

/-- Why data are not written. -/
inductive Fault where
  | keyNotText
  | keyNotFinite
  | refused (reason : String)
  deriving DecidableEq, Repr

/-- The wording of a fault. -/
def Fault.message : Fault → String
  | .keyNotText => "key must be a string"
  | .keyNotFinite => "float key must be finite (got NaN or +/-inf)"
  | .refused reason => reason

/-- The characters of a truth. -/
def truthChars (b : Bool) : List Char :=
  if b then "true".toList else "false".toList

/-- The key of an entry, as JSON text. -/
def writeKey? : Serial → Except Fault (List Char)
  | .string s => .ok (writeString s)
  | .boolean b => .ok ('"' :: truthChars b ++ ['"'])
  | .number (.integer n) => .ok ('"' :: writeNumeric (.integer n) ++ ['"'])
  | .number (.float x) =>
    if isFiniteFloat x then .ok ('"' :: writeNumeric (.float x) ++ ['"']) else .error .keyNotFinite
  | .refusing reason => .error (.refused reason)
  | .null | .sequence _ | .map _ => .error .keyNotText

mutual

/-- Data as JSON text, unless a part refuses or a key cannot be written. -/
def writeChars? : Serial → Except Fault (List Char)
  | .null => .ok "null".toList
  | .boolean b => .ok (truthChars b)
  | .number n => .ok (writeNumeric n)
  | .string s => .ok (writeString s)
  | .sequence items => do
    let written ← writeItems? items
    pure ('[' :: joinWritten written ++ [']'])
  | .map entries => do
    let written ← writeEntries? entries
    pure ('\x7b' :: joinWritten written ++ ['\x7d'])
  | .refusing reason => .error (.refused reason)

/-- The items of a sequence, each as JSON text. -/
def writeItems? : List Serial → Except Fault (List (List Char))
  | [] => .ok []
  | item :: rest => do
    let first ← writeChars? item
    let others ← writeItems? rest
    pure (first :: others)

/-- The entries of a map, each as JSON text. -/
def writeEntries? : List (Serial × Serial) → Except Fault (List (List Char))
  | [] => .ok []
  | (key, value) :: rest => do
    let name ← writeKey? key
    let written ← writeChars? value
    let others ← writeEntries? rest
    pure ((name ++ ':' :: written) :: others)

end

/-- Data as JSON text, unless a part refuses or a key cannot be written. -/
def write? (data : Serial) : Except Fault String :=
  data.writeChars?.map String.ofList

end Serial

mutual

/-- A JSON value is handed over with texts as the keys of its objects. -/
def Json.toSerial : Json → Serial
  | .null => .null
  | .boolean b => .boolean b
  | .number n => .number n
  | .string s => .string s
  | .array items => .sequence (serialItems items)
  | .object fields => .map (serialFields fields)

/-- The items of an array, each as it is handed over. -/
def serialItems : List Json → List Serial
  | [] => []
  | item :: rest => item.toSerial :: serialItems rest

/-- The fields of an object, each as it is handed over. -/
def serialFields : List (String × Json) → List (Serial × Serial)
  | [] => []
  | (key, value) :: rest => (.string key, value.toSerial) :: serialFields rest

end

end Gleaner
