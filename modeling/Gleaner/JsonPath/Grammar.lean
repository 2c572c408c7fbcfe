/-
# Reading JSON paths

In a condition `!` binds tightest, then `&&`, then `||`, and both group to the left. Every reader
returns what it leaves, which is no longer than what it was given, so reading ends.

Key definitions: `readItem`, `readCondition`, `readBrackets`, `readSegments`.
-/
import Gleaner.JsonPath.Leaves

namespace Gleaner.JsonPath

open Gleaner.Text

/-! ### Items -/

/-- The step of a slice, after its stop. -/
def readStep (text : List Char) : Continued Int text :=
  match nextSign? text with
  | some (':', rest) => do
    let (step, left) ← readInteger rest.val
    let step := step.getD 1
    if step = 0 then stopAt left.val .zeroStep else pure (step, rest.toRest.andThen left)
  | _ => pure (1, skipBlanks text)

/-- An index or a slice. -/
def readPositions (text : List Char) : Continued Item text := do
  let (start, rest) ← readInteger text
  match nextSign? rest.val with
  | some (':', more) => do
    let (stop, afterStop) ← readInteger more.val
    let (step, left) ← readStep afterStop.val
    pure (.slice start stop step,
      rest.andThen (more.toRest.andThen (afterStop.andThen left)))
  | _ =>
    let left := skipBlanks rest.val
    match start with
    | some index => pure (.index index, rest.andThen left)
    | none => stopAt left.val .missingItem

/-- One item between brackets. -/
def readItem (text : List Char) : Continued Item text :=
  match nextSign? text with
  | none => stopAt [] .missingItem
  | some (c, rest) =>
    if isMark c then do
      let (chars, left) ← readQuoted c rest.val
      pure (.name (String.ofList chars), rest.toRest.andThen left.toRest)
    else if c = '*' then pure (.wildcard, rest.toRest)
    else readPositions text

/-- The items after the first, each after a comma. -/
def readMoreItems (text : List Char) : Continued (List Item) text :=
  match nextSign? text with
  | some (',', rest) => do
    let (item, more) ← readItem rest.val
    have := (rest.andThen more).property
    let (items, left) ← readMoreItems more.val
    pure (item :: items, rest.toRest.andThen (more.andThen left))
  | _ => pure ([], skipBlanks text)
termination_by text.length

/-! ### Conditions -/

/-- A key between brackets. -/
def readKey (text : List Char) : Continued Key text :=
  match nextSign? text with
  | none => stopAt [] .missingIndex
  | some (c, rest) =>
    if isMark c then do
      let (chars, left) ← readQuoted c rest.val
      pure (.name (String.ofList chars), rest.toRest.andThen left.toRest)
    else do
      let (index, left) ← readInteger text
      match index with
      | some index => pure (.index index, left)
      | none => stopAt left.val .missingIndex

/-- The keys of a path inside a condition. -/
def readKeys (text : List Char) : Continued (List Key) text :=
  match text with
  | '.' :: rest => do
    let (name, more) ← readName rest
    have := more.property
    let (keys, left) ← readKeys more.val
    pure (.name name :: keys, ((more.andThen left).toRest.behind '.').toRest)
  | '[' :: rest => do
    let (key, inner) ← readKey rest
    let more ← expect ']' inner.val
    have := (inner.andTake more).property
    let (keys, left) ← readKeys more.val
    pure (key :: keys, ((inner.andThen (more.toRest.andThen left)).behind '[').toRest)
  | rest => pure ([], .all rest)
termination_by text.length

/-- What follows the sign that connects conditions at a level of binding, if it comes next. -/
def connective? (level : Nat) (text : List Char) : Option (Remainder text) :=
  match level, text with
  | 0, '|' :: '|' :: rest => some (((Rest.all rest).behind '|').toRest.behind '|')
  | 1, '&' :: '&' :: rest => some (((Rest.all rest).behind '&').toRest.behind '&')
  | _, _ => none

/-- Two conditions connected at a level of binding. -/
def connect (level : Nat) (left right : Condition) : Condition :=
  if level = 0 then .or left right else .and left right

/-- A condition on what lies at a path, after the sign of the value. -/
def readComparedPath (text : List Char) : Continued Condition text := do
  let (path, rest) ← readKeys text
  let start := rest.andThen (skipBlanks rest.val)
  match readComparison? start.val with
  | some (comparison, more) => do
    let (literal, left) ← readLiteral more.val
    pure (.compare path comparison literal, start.andThen (more.andThen left))
  | none => pure (.present path, start)

mutual

/-- A condition whose connectives bind at least as tight as the level. -/
def readCondition (level : Nat) (text : List Char) : Parsed Condition text :=
  if level < 2 then do
    let (first, rest) ← readCondition (level + 1) text
    have := rest.property
    let (condition, left) ← readConnected level first rest.val
    pure (condition, rest.andThen left)
  else readTerm text
termination_by (text.length, 2 + (2 - level))

/-- A condition that goes on from its first part with connectives of one level. -/
def readConnected (level : Nat) (first : Condition) (text : List Char) :
    Continued Condition text :=
  let start := skipBlanks text
  match connective? level start.val with
  | none => pure (first, start)
  | some rest => do
    have := (start.andTake rest).property
    let (second, more) ← readCondition (level + 1) rest.val
    have := more.property
    let (condition, left) ← readConnected level (connect level first second) more.val
    pure (condition, start.andThen (rest.toRest.andThen (more.toRest.andThen left)))
termination_by (text.length, 0)

/-- A condition in parentheses, a denied one, or one on what lies at a path. -/
def readTerm (text : List Char) : Parsed Condition text :=
  match nextSign? text with
  | none => stopAt [] .missingTerm
  | some (c, rest) =>
    have := rest.property
    if c = '(' then do
      let (condition, inner) ← readCondition 0 rest.val
      let left ← expect ')' inner.val
      pure (condition, rest.andThen (inner.toRest.andThen left.toRest))
    else if c = '!' && rest.val.head? != some '=' then do
      let (condition, left) ← readTerm rest.val
      pure (.not condition, rest.andThen left.toRest)
    else if c = '@' then do
      let (condition, left) ← readComparedPath rest.val
      pure (condition, rest.andThen left)
    else stopAt (skipBlanks text).val .missingTerm
termination_by (text.length, 1)

end

/-! ### Segments -/

/-- The choice of a row of items. -/
def Choice.ofItems (first : Item) : List Item → Choice
  | [] => .item first
  | others => .union (first :: others)

/-- A condition between parentheses. -/
def readFilter (text : List Char) : Continued Choice text := do
  let opened ← expect '(' text
  let (condition, inner) ← readCondition 0 opened.val
  let left ← expect ')' inner.val
  pure (.filter condition, opened.toRest.andThen (inner.toRest.andThen left.toRest))

/-- A row of items. -/
def readItems (text : List Char) : Continued Choice text := do
  let (first, more) ← readItem text
  let (others, left) ← readMoreItems more.val
  pure (.ofItems first others, more.andThen left)

/-- What stands between brackets, after the opening one. A star that comes first stands alone. -/
def readChoice (text : List Char) : Continued Choice text :=
  match nextSign? text with
  | some ('*', rest) => pure (.item .wildcard, rest.toRest)
  | some ('?', rest) => do
    let (choice, left) ← readFilter rest.val
    pure (choice, rest.toRest.andThen left)
  | _ => readItems text

/-- What stands between brackets, and the closing one. -/
def readBrackets (text : List Char) : Parsed Choice text := do
  let (choice, inner) ← readChoice text
  let left ← expect ']' inner.val
  pure (choice, inner.andTake left)

/-- A star or a name, after a point. -/
def readMember (text : List Char) : Parsed Choice text :=
  match text with
  | '*' :: rest => pure (.item .wildcard, (Rest.all rest).behind '*')
  | text => (readName text).map fun (name, left) => (.item (.name name), left)

/-- What follows two points: brackets, a star or a name. -/
def readBelow (text : List Char) : Parsed Choice text :=
  match text with
  | '[' :: rest => (readBrackets rest).map fun (choice, left) => (choice, left.toRest.behind '[')
  | text => readMember text

/-- The segment that begins with a character. -/
def readSegment (c : Char) (rest : List Char) : Continued Segment rest :=
  if c = '[' then
    (readBrackets rest).map fun (choice, left) => (.child choice, left.toRest)
  else if c = '.' then
    match rest with
    | '.' :: more =>
      (readBelow more).map fun (choice, left) =>
        (.descendant choice, (left.toRest.behind '.').toRest)
    | rest => (readMember rest).map fun (choice, left) => (.child choice, left.toRest)
  else stopAt (c :: rest) (.unexpected c)

/-- The segments that a whole text writes, with blanks between them. -/
def readSegments (text : List Char) : Except Stop (List Segment) :=
  match nextSign? text with
  | none => .ok []
  | some (c, rest) => do
    let (segment, more) ← readSegment c rest.val
    have := (rest.andThen more).property
    let segments ← readSegments more.val
    pure (segment :: segments)
termination_by text.length

end Gleaner.JsonPath
