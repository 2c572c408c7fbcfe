/-
# Tokens of path queries

A path query is read into signs, names, literals and numbers; blanks separate them. A name may have
a colon inside, in front of a letter, and does not end in a point or a hyphen. A number is a row of
digits and points; one that writes no number is the double that is none.

Key definitions: `Token`, `Token.display`, `Reason`, `Reason.message`, `tokenize`.
-/
import Gleaner.Number.Layout
import Gleaner.Number.Read
import Gleaner.Text.Letter
import Gleaner.Text.Quoted
import Gleaner.Text.Remainder

namespace Gleaner.Query

open Gleaner.Text Gleaner.Number

/-- A piece of a path query. -/
inductive Token where
  | slash
  | doubleSlash
  | openBracket
  | closeBracket
  | openParen
  | closeParen
  | at
  | comma
  | dot
  | doubleDot
  | star
  | pipe
  | doubleColon
  | equal
  | notEqual
  | less
  | atMost
  | greater
  | atLeast
  | name (text : String)
  | literal (text : String)
  | number (value : Float)

/-- A token as it is shown in messages. -/
def Token.display : Token → String
  | .slash => "Slash"
  | .doubleSlash => "DoubleSlash"
  | .openBracket => "LBracket"
  | .closeBracket => "RBracket"
  | .openParen => "LParen"
  | .closeParen => "RParen"
  | .at => "At"
  | .comma => "Comma"
  | .dot => "Dot"
  | .doubleDot => "DotDot"
  | .star => "Star"
  | .pipe => "Pipe"
  | .doubleColon => "ColonColon"
  | .equal => "Eq"
  | .notEqual => "Neq"
  | .less => "Lt"
  | .atMost => "Le"
  | .greater => "Gt"
  | .atLeast => "Ge"
  | .name text => "Name(" ++ quoted text ++ ")"
  | .literal text => "Literal(" ++ quoted text ++ ")"
  | .number value => "Number(" ++ preciseLayout.write value ++ ")"

/-- Why a path query cannot be read or evaluated. -/
inductive Reason where
  | unterminatedLiteral
  | unexpectedCharacter (c : Char)
  | unexpected (token : Token)
  | expected (token : Token)
  | unsupportedFunction (name : String)
  /-- A function is called with fewer or more arguments than it takes. -/
  | wrongArity (name : String) (least most given : Nat)
  /-- An operand of a union is no path to elements. -/
  | unionOfValues
  /-- A path begins with something else than a step, or with nothing. -/
  | noStep (found : Option Token)
  /-- A step that reads values stands before another step. -/
  | valueStepNotLast
  | missingStep
  | unsupportedAxis (name : String)
  | missingAttributeName
  | predicateOnAttribute
  | predicateOnText
  | unsupportedNodeTest (name : String)
  | missingNodeTest
  | selectsNoElements
  /-- The last step of the query reads values. -/
  | endsInValues
  | countOfValue
  | nameOfValue
  /-- A reason in the words of a reading of one's own. -/
  | stated (text : String)

/-- The wording of a reason. -/
def Reason.message : Reason → String
  | .unterminatedLiteral => "unterminated string literal"
  | .unexpectedCharacter c => s!"unexpected character `{c}`"
  | .unexpected token => s!"unexpected {token.display}"
  | .expected token => s!"expected {token.display}"
  | .unsupportedFunction name => s!"unsupported function `{name}()`"
  | .wrongArity name least most given =>
    s!"`{name}()` takes {least}..={most} arguments, got {given}"
  | .unionOfValues => "union operands must select elements"
  | .noStep none => "expected a location step, found end of query"
  | .noStep (some token) => s!"expected a location step, found {token.display}"
  | .valueStepNotLast => "text() and attribute steps must end a path"
  | .missingStep => "expected a location step"
  | .unsupportedAxis name => s!"unsupported axis `{name}`"
  | .missingAttributeName => "expected an attribute name"
  | .predicateOnAttribute => "predicates on attribute steps are not supported"
  | .predicateOnText => "predicates on text() are not supported"
  | .unsupportedNodeTest name => s!"unsupported node test `{name}()`"
  | .missingNodeTest => "expected a node test"
  | .selectsNoElements => "query does not select elements"
  | .endsInValues => "query must end with an element step"
  | .countOfValue => "count() expects a node-set"
  | .nameOfValue => "name() expects a node-set"
  | .stated text => text

/-- The first character of a name. -/
def isNameStart (c : Char) : Bool :=
  isAlphabetic c || c == '_'

/-- A further character of a name. -/
def isNameChar (c : Char) : Bool :=
  isAlphanumeric c || c == '_' || c == '-' || c == '.'

/-- The characters of a name that has begun: a colon belongs to it in front of a letter. -/
def nameChars : List Char → List Char
  | [] => []
  | c :: rest =>
    if isNameChar c then c :: nameChars rest
    else if c = ':' && rest.head?.any isNameStart then c :: nameChars rest
    else []

/-- A name without the points and hyphens at its end. -/
def trimName (name : List Char) : List Char :=
  (name.reverse.dropWhile fun c => c == '.' || c == '-').reverse

/-- The number that a row of digits and points writes. -/
def numberOf (chars : List Char) : Float :=
  match readFloat (String.ofList chars) with
  | .ok x => x
  | .error _ => 0.0 / 0.0

/-- A character of a number. -/
def isNumberChar (c : Char) : Bool :=
  isDigit c || c == '.'

/-- The token that begins with a character, and how many of the following characters belong to
it. -/
def tokenAt (c : Char) (rest : List Char) : Except Reason (Token × Nat) :=
  let next := rest.head?
  let number : Except Reason (Token × Nat) :=
    let more := rest.takeWhile isNumberChar
    .ok (.number (numberOf (c :: more)), more.length)
  if c = '/' then .ok (if next = some '/' then (.doubleSlash, 1) else (.slash, 0))
  else if c = '[' then .ok (.openBracket, 0)
  else if c = ']' then .ok (.closeBracket, 0)
  else if c = '(' then .ok (.openParen, 0)
  else if c = ')' then .ok (.closeParen, 0)
  else if c = '@' then .ok (.at, 0)
  else if c = ',' then .ok (.comma, 0)
  else if c = '*' then .ok (.star, 0)
  else if c = '|' then .ok (.pipe, 0)
  else if c = '=' then .ok (.equal, 0)
  else if c = '!' ∧ next = some '=' then .ok (.notEqual, 1)
  else if c = '<' then .ok (if next = some '=' then (.atMost, 1) else (.less, 0))
  else if c = '>' then .ok (if next = some '=' then (.atLeast, 1) else (.greater, 0))
  else if c = ':' ∧ next = some ':' then .ok (.doubleColon, 1)
  else if c = '.' then
    if next = some '.' then .ok (.doubleDot, 1)
    else if next.any isDigit then number
    else .ok (.dot, 0)
  else if c = '\'' ∨ c = '"' then
    let text := rest.takeWhile (· != c)
    if text.length < rest.length then .ok (.literal (String.ofList text), text.length + 1)
    else .error .unterminatedLiteral
  else if isDigit c then number
  else if isNameStart c then
    let more := trimName (nameChars rest)
    .ok (.name (String.ofList (c :: more)), more.length)
  else .error (.unexpectedCharacter c)

/-- The tokens of a text. -/
def tokenize : List Char → Except Reason (List Token)
  | [] => .ok []
  | c :: rest =>
    if isBlank c then tokenize rest
    else
      match tokenAt c rest with
      | .error r => .error r
      | .ok (token, width) => (tokenize (rest.drop width)).map (token :: ·)
termination_by text => text.length
decreasing_by all_goals grind

end Gleaner.Query
