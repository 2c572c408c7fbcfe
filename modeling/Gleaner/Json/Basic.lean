/-
# JSON values

Values as they are queried and shown. An object's fields are in ascending order of their keys, each
key once; a number is an integer of 64 bits or a double.

Key definitions: `Json`, `Json.Numeric`, `Json.field?`, `Json.children`.
-/
import Gleaner.Number.Binary64
import Gleaner.KeyMap

namespace Gleaner

/-- A JSON number. An integer lies between the least integer of 64 bits with a sign and the greatest
one without. -/
inductive Json.Numeric where
  | integer (value : Int)
  | float (value : Float)

/-- A JSON value. -/
inductive Json where
  | null
  | boolean (value : Bool)
  | number (value : Json.Numeric)
  | string (text : String)
  | array (items : List Json)
  | object (fields : List (String × Json))

namespace Json

instance : Inhabited Json := ⟨.null⟩

/-- The double nearest to a number. -/
def Numeric.toFloat : Numeric → Float
  | .integer n => Number.floatOfInt n
  | .float x => x

/-- The value of an object's field. -/
def field? (key : String) : Json → Option Json
  | .object fields => fields.lookup key
  | _ => none

/-- The items of an array, or the values of an object's fields in the order of their keys. -/
def children : Json → List Json
  | .array items => items
  | .object fields => fields.map (·.2)
  | _ => []

end Json
end Gleaner
