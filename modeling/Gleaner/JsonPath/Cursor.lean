/-
# Reading JSON paths with a cursor

A path is read as it is otherwise, but by a walk of one cursor over all its characters. The cursor is
moved by one character, by two or by the length of a word, and nothing in the definitions keeps it
inside the text or lets a walk end with the calls that it may make.

Key definitions: `walkItem`, `walkCondition`, `walkBrackets`, `walkSegments`, `walkPath`.
-/
import Gleaner.JsonPath.Grammar
import Gleaner.Walk

namespace Gleaner.JsonPath

open Gleaner.Text Gleaner.Number Gleaner.Walk

variable (text : List Char)

/-! ### Signs, names, strings and integers -/

/-- A word stands at the cursor. -/
def startsWith (word : List Char) : Walk Reason Bool :=
  return word.isPrefixOf (← ahead text)

def walkBlanks : Walk Reason Unit :=
  passWhile isBlank text

/-- A sign that has to come next, after blanks. -/
def walkSign (sign : Char) : Walk Reason Unit := do
  walkBlanks text
  if (← peek text) = some sign then move 1 else halt (.expected sign)

/-- A name without quotation marks, which may be empty. -/
def walkNameChars : Walk Reason (List Char) := do
  let start ← here
  passWhile isMemberChar text
  slice text start

/-- A name without quotation marks, of at least one character. -/
def walkName : Walk Reason String := do
  let chars ← walkNameChars text
  if chars.isEmpty then halt .missingMember else return String.ofList chars

/-- The characters of a string up to its closing quotation mark. -/
def walkUntil (mark : Char) : Walk Reason (List Char) :=
  loop text fun again => do
    match ← peek text with
    | none => halt .unterminatedString
    | some c =>
      if c = '\\' then
        move 1
        match ← peek text with
        | none => halt .unterminatedString
        | some escaped =>
          move 1
          return escaped :: (← again)
      else if c = mark then
        move 1
        return []
      else
        move 1
        return c :: (← again)

/-- A string with its quotation marks; the character at the cursor is the first of them. It is asked
for only where there is one. -/
def walkQuoted : Walk Reason String := do
  match ← peek text with
  | none => outside
  | some mark =>
    move 1
    return String.ofList (← walkUntil text mark)

/-- A minus sign, if one stands here. -/
def walkMinus : Walk Reason Unit := do
  if (← peek text) = some '-' then move 1 else return ()

/-- A sign and digits, which may all be missing. -/
def walkDigits : Walk Reason (List Char) := do
  let start ← here
  walkMinus text
  passWhile isDigit text
  slice text start

/-- An integer of 64 bits, if one comes next. -/
def walkInteger : Walk Reason (Option Int) := do
  walkBlanks text
  let chars ← walkDigits text
  if chars.isEmpty then return none
  else
    match readInt64 (String.ofList chars) with
    | .ok n => return some n
    | .error _ => halt (.invalidInteger (String.ofList chars))

/-! ### Items -/

/-- The step of a slice, after its stop. -/
def walkStep : Walk Reason Int := do
  walkBlanks text
  if (← peek text) = some ':' then
    move 1
    let step := (← walkInteger text).getD 1
    if step = 0 then halt .zeroStep else return step
  else return 1

/-- An index or a slice. -/
def walkPositions : Walk Reason Item := do
  let start ← walkInteger text
  walkBlanks text
  if (← peek text) = some ':' then
    move 1
    let stop ← walkInteger text
    return .slice start stop (← walkStep text)
  else
    match start with
    | some index => return .index index
    | none => halt .missingItem

/-- One item between brackets. -/
def walkItem : Walk Reason Item := do
  walkBlanks text
  let sign ← peek text
  if sign.any isMark then return .name (← walkQuoted text)
  else if sign = some '*' then
    move 1
    return .wildcard
  else walkPositions text

/-- The items after the first, each after a comma. -/
def walkMoreItems : Walk Reason (List Item) :=
  loop text fun again => do
    walkBlanks text
    if (← peek text) = some ',' then
      move 1
      let item ← walkItem text
      return item :: (← again)
    else return []

/-! ### Conditions -/

/-- A key between brackets. -/
def walkKey : Walk Reason Key := do
  walkBlanks text
  if (← peek text).any isMark then return .name (← walkQuoted text)
  else
    match ← walkInteger text with
    | some index => return .index index
    | none => halt .missingIndex

/-- The keys of a path inside a condition. -/
def walkKeys : Walk Reason (List Key) :=
  loop text fun again => do
    let sign ← peek text
    if sign = some '.' then
      move 1
      let name ← walkName text
      return .name name :: (← again)
    else if sign = some '[' then
      move 1
      let key ← walkKey text
      walkSign text ']'
      return key :: (← again)
    else return []

/-- The signs of comparisons, the longer ones first. -/
def comparisonSigns : List (List Char × Comparison) :=
  [(['=', '='], .equal), (['!', '='], .notEqual), (['<', '='], .atMost), (['>', '='], .atLeast),
    (['<'], .less), (['>'], .greater)]

/-- The sign of a comparison, if one comes next. -/
def walkComparison : Walk Reason (Option Comparison) := do
  walkBlanks text
  let rest ← ahead text
  match comparisonSigns.find? fun sign => sign.1.isPrefixOf rest with
  | some (sign, comparison) =>
    move sign.length
    return some comparison
  | none => return none

/-- The values that are written as words. -/
def literalWords : List (List Char × Json) :=
  [("true".toList, .boolean true), ("false".toList, .boolean false), ("null".toList, .null)]

/-- A number, of characters that may belong to one. -/
def walkNumber : Walk Reason Json := do
  let start ← here
  passWhile isNumberChar text
  match Json.readNumeric? (← slice text start) with
  | some n => return .number n
  | none => halt .missingLiteral

/-- A literal at the cursor: a string, a truth, null or a number. -/
def walkLiteralHere : Walk Reason Json := do
  if (← peek text).any isMark then return .string (← walkQuoted text)
  let rest ← ahead text
  match literalWords.find? fun word => word.1.isPrefixOf rest with
  | some (word, value) =>
    move word.length
    return value
  | none => walkNumber text

/-- A literal, after blanks. -/
def walkLiteral : Walk Reason Json := do
  walkBlanks text
  walkLiteralHere text

/-- A condition on what lies at a path, after the sign of the value. -/
def walkComparedPath : Walk Reason Condition := do
  let path ← walkKeys text
  match ← walkComparison text with
  | some comparison => return .compare path comparison (← walkLiteral text)
  | none => return .present path

/-- The word that connects conditions at a level of binding. -/
def connectiveWord (level : Nat) : List Char :=
  if level = 0 then ['|', '|'] else ['&', '&']

mutual

/-- A condition whose connectives bind at least as tight as the level, where only so many calls may
lie in one another. -/
def walkCondition : (calls level : Nat) → Walk Reason Condition
  | 0, _ => unfinished
  | calls + 1, level => do
    if level < 2 then
      let first ← walkCondition calls (level + 1)
      walkConnected calls level first
    else walkTerm calls

/-- A condition that goes on from its first part with connectives of one level. -/
def walkConnected : (calls level : Nat) → (first : Condition) → Walk Reason Condition
  | 0, _, _ => unfinished
  | calls + 1, level, first => do
    walkBlanks text
    if ← startsWith text (connectiveWord level) then
      move 2
      let second ← walkCondition calls (level + 1)
      walkConnected calls level (connect level first second)
    else return first

/-- A condition in parentheses, a denied one, or one on what lies at a path. -/
def walkTerm : (calls : Nat) → Walk Reason Condition
  | 0 => unfinished
  | calls + 1 => do
    walkBlanks text
    let sign ← peek text
    let unequal ← startsWith text ['!', '=']
    if sign = some '(' then
      move 1
      let condition ← walkCondition calls 0
      walkSign text ')'
      return condition
    else if sign = some '!' && !unequal then
      move 1
      return .not (← walkTerm calls)
    else if sign = some '@' then
      move 1
      walkComparedPath text
    else halt .missingTerm

end

/-- How many calls may lie in one another in a condition: from one character to the next it takes
three to come down to a term, and one for the term. -/
def callsFor : Nat :=
  4 * (text.length + 1)

/-! ### Segments -/

/-- A condition between parentheses. -/
def walkFilter : Walk Reason Choice := do
  walkSign text '('
  let condition ← walkCondition text (callsFor text) 0
  walkSign text ')'
  return .filter condition

/-- A row of items. -/
def walkItems : Walk Reason Choice := do
  let first ← walkItem text
  return .ofItems first (← walkMoreItems text)

/-- What stands between brackets. A star that comes first stands alone. -/
def walkChoice : Walk Reason Choice := do
  walkBlanks text
  let sign ← peek text
  if sign = some '*' then
    move 1
    return .item .wildcard
  else if sign = some '?' then
    move 1
    walkFilter text
  else walkItems text

/-- What stands between brackets, with both of them. -/
def walkBrackets : Walk Reason Choice := do
  walkSign text '['
  let choice ← walkChoice text
  walkSign text ']'
  return choice

/-- A star or a name, after a point. -/
def walkMember : Walk Reason Choice := do
  if (← peek text) = some '*' then
    move 1
    return .item .wildcard
  else return .item (.name (← walkName text))

/-- What follows two points: brackets, a star or a name. -/
def walkBelow : Walk Reason Choice := do
  if (← peek text) = some '[' then walkBrackets text else walkMember text

/-- The segment that begins with a character, which stands at the cursor. -/
def walkSegment (c : Char) : Walk Reason Segment := do
  if c = '.' then
    if ← startsWith text ['.', '.'] then
      move 2
      return .descendant (← walkBelow text)
    else
      move 1
      return .child (← walkMember text)
  else if c = '[' then return .child (← walkBrackets text)
  else halt (.unexpected c)

/-- The segments of a path, with blanks between them. -/
def walkSegments : Walk Reason (List Segment) :=
  loop text fun again => do
    walkBlanks text
    match ← peek text with
    | none => return []
    | some c =>
      let segment ← walkSegment text c
      return segment :: (← again)

/-- The segments of a path that has a dollar sign in front. -/
def walkPath : Walk Reason (List Segment) := do
  walkBlanks text
  walkSign text '$'
  walkSegments text

end Gleaner.JsonPath
