/-
# Names, integers and literals of JSON paths

The smallest pieces of a path. Blanks in front of integers, literals and expected signs are passed
over; a string lies between two quotation marks of one kind, and a backslash takes the character
after it as it is.

Key definitions: `expect`, `readName`, `readQuoted`, `readInteger`, `readComparison?`,
`readLiteral`.
-/
import Gleaner.Json.Read
import Gleaner.JsonPath.Fault
import Gleaner.JsonPath.Syntax
import Gleaner.Number.Read
import Gleaner.Text.Blank
import Gleaner.Text.Letter

namespace Gleaner.JsonPath

open Gleaner.Text Gleaner.Number

/-- A reading that takes at least one character. -/
abbrev Parsed (α : Type) (text : List Char) : Type :=
  Except Stop (α × Remainder text)

/-- A reading that may take nothing. -/
abbrev Continued (α : Type) (text : List Char) : Type :=
  Except Stop (α × Rest text)

/-- The stop of a reading in front of a text. -/
def stopAt {α : Type} (text : List Char) (reason : Reason) : Except Stop α :=
  .error ⟨reason, text.length⟩

/-- A text from its first character that is no blank. -/
def skipBlanks (text : List Char) : Rest text :=
  skipWhile isBlank text

/-- The first character that is no blank, and what follows it. -/
def nextSign? (text : List Char) : Option (Char × Remainder text) :=
  next? isBlank text

/-- What follows a sign that has to come next, after blanks. -/
def expect (sign : Char) (text : List Char) : Except Stop (Remainder text) :=
  match nextSign? text with
  | some (c, rest) =>
    if c = sign then .ok rest else stopAt (skipBlanks text).val (.expected sign)
  | none => stopAt [] (.expected sign)

/-- A character of a name without quotation marks. -/
def isMemberChar (c : Char) : Bool :=
  isAlphanumeric c || c == '_' || c == '-' || c == '$' || c == '@' || c == ':'

/-- A name without quotation marks, of at least one character. -/
def readName (text : List Char) : Parsed String text :=
  match text with
  | [] => stopAt [] .missingMember
  | c :: rest =>
    if isMemberChar c then
      .ok (String.ofList (c :: rest.takeWhile isMemberChar), (skipWhile isMemberChar rest).behind c)
    else stopAt (c :: rest) .missingMember

/-- The characters of a string up to its closing quotation mark. -/
def readQuoted (mark : Char) : (text : List Char) → Parsed (List Char) text
  | [] => stopAt [] .unterminatedString
  | c :: rest =>
    if c = '\\' then
      match rest with
      | [] => stopAt [] .unterminatedString
      | escaped :: more => do
        let (chars, left) ← readQuoted mark more
        pure (escaped :: chars, (left.toRest.behind escaped).toRest.behind c)
    else if c = mark then pure ([], (Rest.all rest).behind c)
    else do
      let (chars, left) ← readQuoted mark rest
      pure (c :: chars, left.toRest.behind c)

/-- A quotation mark. -/
def isMark (c : Char) : Bool :=
  c == '\'' || c == '"'

/-- A sign and digits, with what follows them. -/
def splitInteger (text : List Char) : List Char × Rest text :=
  match text with
  | '-' :: rest => ('-' :: rest.takeWhile isDigit, ((skipWhile isDigit rest).behind '-').toRest)
  | rest => (rest.takeWhile isDigit, skipWhile isDigit rest)

/-- An integer of 64 bits, if one comes next. -/
def readInteger (text : List Char) : Continued (Option Int) text :=
  let start := skipBlanks text
  let (chars, rest) := splitInteger start.val
  if chars.isEmpty then pure (none, start.andThen rest)
  else
    match readInt64 (String.ofList chars) with
    | .ok n => pure (some n, start.andThen rest)
    | .error _ => stopAt rest.val (.invalidInteger (String.ofList chars))

/-- The sign of a comparison in front of a text, if there is one. -/
def readComparison? (text : List Char) : Option (Comparison × Rest text) :=
  match text with
  | '=' :: '=' :: rest => some (.equal, (((Rest.all rest).behind '=').toRest.behind '=').toRest)
  | '!' :: '=' :: rest => some (.notEqual, (((Rest.all rest).behind '=').toRest.behind '!').toRest)
  | '<' :: '=' :: rest => some (.atMost, (((Rest.all rest).behind '=').toRest.behind '<').toRest)
  | '>' :: '=' :: rest => some (.atLeast, (((Rest.all rest).behind '=').toRest.behind '>').toRest)
  | '<' :: rest => some (.less, ((Rest.all rest).behind '<').toRest)
  | '>' :: rest => some (.greater, ((Rest.all rest).behind '>').toRest)
  | _ => none

/-- What follows a word in front of a text, if it stands there. -/
def afterWord? : List Char → (text : List Char) → Option (Rest text)
  | [], text => some (.all text)
  | _ :: _, [] => none
  | w :: word, c :: text =>
    if w = c then (afterWord? word text).map fun rest => (rest.behind c).toRest else none

/-- A value that is written as a word. -/
def readWord? (text : List Char) : Option (Json × Rest text) :=
  match afterWord? "true".toList text with
  | some rest => some (.boolean true, rest)
  | none =>
    match afterWord? "false".toList text with
    | some rest => some (.boolean false, rest)
    | none => (afterWord? "null".toList text).map fun rest => (.null, rest)

/-- A character of a number. -/
def isNumberChar (c : Char) : Bool :=
  isDigit c || c == '-' || c == '+' || c == '.' || c == 'e' || c == 'E'

/-- A number in front of a text. -/
def readNumber (text : List Char) : Continued Json text :=
  let left := skipWhile isNumberChar text
  match Json.readNumeric? (text.takeWhile isNumberChar) with
  | some n => .ok (.number n, left)
  | none => stopAt left.val .missingLiteral

/-- A literal in front of a text: a string, a truth, null or a number. -/
def readLiteralHere (text : List Char) : Continued Json text :=
  match text with
  | [] => stopAt [] .missingLiteral
  | c :: rest =>
    if isMark c then
      (readQuoted c rest).map fun (chars, left) =>
        (.string (String.ofList chars), (left.toRest.behind c).toRest)
    else
      match readWord? (c :: rest) with
      | some found => .ok found
      | none => readNumber (c :: rest)

/-- A literal, after blanks. -/
def readLiteral (text : List Char) : Continued Json text :=
  let start := skipBlanks text
  (readLiteralHere start.val).map fun (json, left) => (json, start.andThen left)

end Gleaner.JsonPath
