/-
# JSON paths

A path is a row of segments. A segment selects among the children of each value, or of each value
and all that lies below it, by name, by position, by a slice of positions, or by a condition that
the child meets.

Key definitions: `Key`, `Condition`, `Item`, `Choice`, `Segment`.
-/
import Gleaner.Comparison
import Gleaner.Json.Basic

namespace Gleaner.JsonPath

/-- One step of the path inside a condition. -/
inductive Key where
  | name (name : String)
  | index (index : Int)
  deriving DecidableEq, Repr

/-- A condition on a value. The paths in it start at the value. -/
inductive Condition where
  /-- Something lies at the path. -/
  | present (path : List Key)
  /-- What lies at the path stands to a literal as given. -/
  | compare (path : List Key) (comparison : Comparison) (literal : Json)
  | not (condition : Condition)
  | and (left right : Condition)
  | or (left right : Condition)

/-- A single choice of children. -/
inductive Item where
  | name (name : String)
  | wildcard
  /-- The child at a position; a negative one counts from the end. -/
  | index (index : Int)
  /-- Every `step`-th child from a position on, up to another. -/
  | slice (start stop : Option Int) (step : Int)
  deriving DecidableEq, Repr

/-- What a segment selects among the children of a value. -/
inductive Choice where
  | item (item : Item)
  /-- What each item selects, one after another. -/
  | union (items : List Item)
  /-- The children that meet a condition. -/
  | filter (condition : Condition)

/-- A segment of a path. -/
inductive Segment where
  /-- Among the children of each value. -/
  | child (choice : Choice)
  /-- Among the children of each value and of all that lies below it. -/
  | descendant (choice : Choice)

end Gleaner.JsonPath
