/-
# Reading and using JSON paths

A path is read without the blanks around it, and a dollar sign, with a point where one is needed, is
put in front of a path that has none. What it selects is shown as data.

Key definitions: `JsonPath`, `rootedText`, `JsonPath.read`, `JsonPath.select?`,
`JsonPath.evaluate?`.
-/
import Gleaner.Datum
import Gleaner.JsonPath.Grammar
import Gleaner.JsonPath.Selecting

namespace Gleaner

open Gleaner.JsonPath Gleaner.Text

/-- A JSON path. -/
structure JsonPath where
  /-- The path as it is written. -/
  text : String
  segments : List JsonPath.Segment

namespace JsonPath

/-- The text of a path from its dollar sign on. -/
def rootedText (text : List Char) : List Char :=
  let text := trim text
  match text with
  | '$' :: _ => text
  | '[' :: _ | '.' :: _ => '$' :: text
  | _ => '$' :: '.' :: text

/-- The segments of a text that has a dollar sign in front. -/
def readRooted (text : List Char) : Except Stop (List Segment) := do
  let rest ← expect '$' text
  readSegments rest.val

/-- The path that a text writes. -/
def read (text : String) : Except Fault JsonPath :=
  let rooted := rootedText text.toList
  match readRooted rooted with
  | .ok segments => .ok ⟨text, segments⟩
  | .error stop => .error (stop.fault rooted)

/-- The values that a path selects from a value, in the order in which they are met; none at all if
the walk of a slice breaks off. -/
def select? (path : JsonPath) (root : Json) : Option (List Json) :=
  selectAll? path.segments [root]

/-- A path of one segment selects what the segment selects. -/
theorem select?_single (text : String) (segment : Segment) (root : Json) :
    select? ⟨text, [segment]⟩ root = segment.select? root := by
  rw [select?, selectAll?, gatherEach?_singleton]
  exact Option.bind_fun_some _

/-- The values that a path selects, as data. -/
def evaluate? (path : JsonPath) (root : Json) : Option (List Datum) :=
  (path.select? root).map fun selected => selected.map Datum.ofJson

end JsonPath
end Gleaner
