/-
# Requests

A request is a selection with options, as JSON text. A record may be written as an object, where
unknown fields are passed over and no known field stands twice, or as an array of its fields in
order. A field that is left out has its default, if it has one.

Key definitions: `Record`, `recordOf?`, `Selection.ofWritten?`, `Options.ofWritten?`, `Request`,
`Request.read?`, `Request.toJson`.
-/
import Gleaner.Harvest.Policy
import Gleaner.Json.Read
import Gleaner.Json.Write

namespace Gleaner

open Gleaner.Json

/-- The fields of an object with their keys as texts, if every key is one. -/
def namedFields? : List (List Piece × Written) → Option (List (String × Written))
  | [] => some []
  | (key, field) :: rest => do
    let name ← textOf? key
    let named ← namedFields? rest
    pure ((name, field) :: named)

/-- The field of a name, or none; nothing if the name stands twice. -/
def soleField? (name : String) (fields : List (String × Written)) : Option (Option Written) :=
  match fields.filter fun field => field.1 == name with
  | [] => some none
  | [field] => some (some field.2)
  | _ => none

/-- The two fields of a record that are written, each if it is there. -/
def recordOf? (first second : String) : Written → Option (Option Written × Option Written)
  | .object fields => do
    let named ← namedFields? fields
    let a ← soleField? first named
    let b ← soleField? second named
    pure (a, b)
  | .array [] => some (none, none)
  | .array [a] => some (some a, none)
  | .array [a, b] => some (some a, some b)
  | _ => none

/-- The text that a string writes. -/
def stringOf? : Written → Option String
  | .string pieces => textOf? pieces
  | _ => none

/-- The keys of an object and the texts that its fields write. -/
def textFields? : List (List Piece × Written) → Option (List (String × String))
  | [] => some []
  | (key, field) :: rest => do
    let name ← textOf? key
    let text ← stringOf? field
    let others ← textFields? rest
    pure ((name, text) :: others)

/-- The selection that an object of strings writes; of two fields with one key the later stays. -/
def Selection.ofWritten? : Written → Option Selection
  | .object fields => (textFields? fields).map KeyMap.ofList
  | _ => none

/-- The selection that a JSON text writes. -/
def Selection.read? (text : String) : Option Selection :=
  (writtenOf? text).bind Selection.ofWritten?

/-- A selection as a JSON value. -/
def Selection.toJson (selection : Selection) : Json :=
  .object (selection.entries.map fun e => (e.1, .string e.2))

/-- The policy that a string writes, or an object whose one field of that name is null. -/
def Policy.ofWritten? : Written → Option Policy
  | .string pieces => (textOf? pieces).bind Policy.ofName?
  | .object [(key, .null)] => (textOf? key).bind Policy.ofName?
  | _ => none

/-- The number of workers that is written, where null is none. -/
def workersOf? : Written → Option (Option Nat)
  | .null => some none
  | .numeral n =>
    match n.value? with
    | some (.integer (.ofNat k)) => some (some k)
    | _ => none
  | _ => none

/-- The options that are written. -/
def Options.ofWritten? (written : Written) : Option Options := do
  let (fallback, workers) ← recordOf? "fallback" "workers" written
  let fallback ← match fallback with
    | some w => Policy.ofWritten? w
    | none => some .wholeBatch
  let workers ← match workers with
    | some w => workersOf? w
    | none => some none
  pure ⟨fallback, workers⟩

/-- Options as a JSON value. -/
def Options.toJson (options : Options) : Json :=
  .object [
    ("fallback", .string options.fallback.name),
    ("workers", match options.workers with
      | some n => .number (.integer n)
      | none => .null)]

/-- A selection and how it is worked on. -/
structure Request where
  selection : Selection
  options : Options
  deriving DecidableEq

namespace Request

/-- The request that is written; options that are left out are the default ones. -/
def ofWritten? (written : Written) : Option Request := do
  let (selection, options) ← recordOf? "selection" "options" written
  let selection ← selection.bind Selection.ofWritten?
  let options ← match options with
    | some w => Options.ofWritten? w
    | none => some {}
  pure ⟨selection, options⟩

/-- The request that a JSON text writes. -/
def read? (text : String) : Option Request :=
  (writtenOf? text).bind ofWritten?

/-- A request as a JSON value. -/
def toJson (request : Request) : Json :=
  .object [("selection", request.selection.toJson), ("options", request.options.toJson)]

/-- A request as JSON text. -/
def write (request : Request) : String :=
  Json.write request.toJson

end Request
end Gleaner
