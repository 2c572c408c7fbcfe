/-
# JSON paths as they are written

A path is put down in one way: a dollar sign, and each segment between brackets, behind two points
if it goes below. Names and strings stand between single quotation marks, with a backslash in front
of each quotation mark and each backslash in them. A condition has parentheses around a part only
where the part would be read apart from it: `!` binds tightest, then `&&`, then `||`, and both group
to the left.

Key definitions: `writtenText`, `Condition.written`, `Choice.written`, `Segment.written`,
`writtenPath`, `Condition.Legible`, `Segment.Legible`.
-/
import Gleaner.JsonPath.Syntax
import Gleaner.Proofs.Number.Decimal

namespace Gleaner.JsonPath

open Gleaner.Number

/-! ### Strings, integers and literals -/

/-- A character between quotation marks. -/
def escaped (c : Char) : List Char :=
  if c = '\'' ∨ c = '\\' then ['\\', c] else [c]

/-- A text between quotation marks. -/
def writtenText (text : String) : List Char :=
  '\'' :: (text.toList.flatMap escaped ++ ['\''])

/-- An integer in decimal digits. -/
def writtenInteger (n : Int) : List Char :=
  (toString n).toList

/-- A literal of a condition; arrays, objects and doubles are none. -/
def writtenLiteral : Json → List Char
  | .string text => writtenText text
  | .boolean true => "true".toList
  | .boolean false => "false".toList
  | .null => "null".toList
  | .number (.integer n) => writtenInteger n
  | _ => []

/-- A literal can be written. -/
def LegibleLiteral : Json → Prop
  | .string _ | .boolean _ | .null => True
  | .number (.integer n) => IsInt64 n
  | _ => False

/-- The sign of a comparison. -/
def writtenSign : Comparison → List Char
  | .equal => ['=', '=']
  | .notEqual => ['!', '=']
  | .less => ['<']
  | .atMost => ['<', '=']
  | .greater => ['>']
  | .atLeast => ['>', '=']

/-! ### Conditions -/

/-- A key of a path inside a condition. -/
def Key.written : Key → List Char
  | .name text => writtenText text
  | .index n => writtenInteger n

/-- The keys of a path inside a condition, each between brackets. -/
def writtenKeys (path : List Key) : List Char :=
  path.flatMap fun key => '[' :: (key.written ++ [']'])

/-- A key can be written. -/
def Key.Legible : Key → Prop
  | .name _ => True
  | .index n => IsInt64 n

/-- How tight the outermost sign of a condition binds: `||` at level 0, `&&` at level 1, and all
else at level 2. -/
def Condition.binding : Condition → Nat
  | .or _ _ => 0
  | .and _ _ => 1
  | .not _ | .present _ | .compare .. => 2

/-- A text in parentheses, if they are needed. -/
def enclosed (needed : Bool) (text : List Char) : List Char :=
  if needed then '(' :: (text ++ [')']) else text

/-- A condition as it is written. A part that binds less tight than its place asks for stands in
parentheses; to the right of a sign it has to bind tighter than the sign. -/
def Condition.written : Condition → List Char
  | .present path => '@' :: writtenKeys path
  | .compare path comparison literal =>
    '@' :: (writtenKeys path ++ (writtenSign comparison ++ writtenLiteral literal))
  | .not condition => '!' :: enclosed (decide (condition.binding < 2)) condition.written
  | .and left right =>
    enclosed (decide (left.binding < 1)) left.written ++
      ('&' :: '&' :: enclosed (decide (right.binding < 2)) right.written)
  | .or left right =>
    left.written ++ ('|' :: '|' :: enclosed (decide (right.binding < 1)) right.written)

/-- A condition where one is asked for that binds at least as tight as a level. -/
def Condition.writtenAt (level : Nat) (condition : Condition) : List Char :=
  enclosed (decide (condition.binding < level)) condition.written

/-- A condition can be written. -/
def Condition.Legible : Condition → Prop
  | .present path => ∀ key ∈ path, key.Legible
  | .compare path _ literal => (∀ key ∈ path, key.Legible) ∧ LegibleLiteral literal
  | .not condition => condition.Legible
  | .and left right | .or left right => left.Legible ∧ right.Legible

/-! ### Segments -/

/-- A bound of a slice, which may be missing. -/
def writtenBound (bound : Option Int) : List Char :=
  (bound.map writtenInteger).getD []

/-- The step of a slice behind its colon. Where `brief`, a step of one is left out. -/
def writtenStep (brief : Bool) (step : Int) : List Char :=
  if brief && step == 1 then [] else ':' :: writtenInteger step

/-- An item of a segment. -/
def Item.written (brief : Bool) : Item → List Char
  | .name text => writtenText text
  | .wildcard => ['*']
  | .index n => writtenInteger n
  | .slice start stop step =>
    writtenBound start ++ (':' :: (writtenBound stop ++ writtenStep brief step))

/-- What stands between the brackets of a segment: an item, items with commas between them, or a
condition in parentheses behind a question mark. -/
def Choice.written (brief : Bool) : Choice → List Char
  | .item single => single.written brief
  | .union items => List.intercalate [','] (items.map (Item.written brief))
  | .filter condition => '?' :: '(' :: (condition.written ++ [')'])

/-- A segment as it is written. -/
def Segment.written (brief : Bool) : Segment → List Char
  | .child choice => '[' :: (choice.written brief ++ [']'])
  | .descendant choice => '.' :: '.' :: '[' :: (choice.written brief ++ [']'])

/-- A path as it is written. -/
def writtenPath (brief : Bool) (segments : List Segment) : List Char :=
  '$' :: segments.flatMap (Segment.written brief)

/-- An item can be written. -/
def Item.Legible : Item → Prop
  | .name _ | .wildcard => True
  | .index n => IsInt64 n
  | .slice start stop step =>
    (∀ n ∈ start, IsInt64 n) ∧ (∀ n ∈ stop, IsInt64 n) ∧ IsInt64 step ∧ step ≠ 0

/-- What a segment selects can be written. A union has at least two items, and does not begin with a
star, which would stand alone. -/
def Choice.Legible : Choice → Prop
  | .item single => single.Legible
  | .union items => 2 ≤ items.length ∧ items.head? ≠ some .wildcard ∧ ∀ item ∈ items, item.Legible
  | .filter condition => condition.Legible

/-- A segment can be written. -/
def Segment.Legible : Segment → Prop
  | .child choice | .descendant choice => choice.Legible

end Gleaner.JsonPath
