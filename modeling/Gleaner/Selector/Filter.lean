/-
# Filters

The text between the brackets of a step is one of five forms, with blanks allowed at its ends and
around its parts: an attribute with a value, an attribute that contains a text, own text that
contains a text, a position counted from zero, and an attribute that is there.

Key definitions: `Filter`, `Filter.read?`.
-/
import Gleaner.Number.Power
import Gleaner.Text.Letter

namespace Gleaner.Selector

open Gleaner.Text

/-- A condition on the elements of a step. -/
inductive Filter where
  /-- `[@name='value']` -/
  | attributeIs (name value : String)
  /-- `[contains(@name,'value')]` -/
  | attributeHolds (name value : String)
  /-- `[contains(text(),'value')]` -/
  | textHolds (value : String)
  /-- `[position]`, counted from zero. -/
  | index (position : Nat)
  /-- `[@name]` -/
  | hasAttribute (name : String)
  deriving DecidableEq, Repr

/-- The first character of an attribute's name. -/
def isNameStart (c : Char) : Bool :=
  isAsciiLetter c || c == '_'

/-- A further character of an attribute's name. -/
def isNameChar (c : Char) : Bool :=
  isWordChar c || c == '.' || c == ':' || c == '-'

/-- What follows a mark, after blanks. -/
def mark? (mark : Char) (text : List Char) : Option (List Char) :=
  match trimStart text with
  | c :: rest => if c = mark then some rest else none
  | [] => none

/-- An attribute's name after its sign, and what follows. -/
def attribute? (text : List Char) : Option (List Char × List Char) :=
  match mark? '@' text with
  | some (c :: rest) =>
    if isNameStart c then some (c :: rest.takeWhile isNameChar, rest.dropWhile isNameChar)
    else none
  | _ => none

/-- The characters of a literal between single quotation marks, and what follows. -/
def literal? (text : List Char) : Option (List Char × List Char) :=
  match mark? '\'' text with
  | some rest =>
    match rest.dropWhile (· != '\'') with
    | _ :: after => some (rest.takeWhile (· != '\''), after)
    | [] => none
  | none => none

/-- Nothing but blanks is left. -/
def isDone (text : List Char) : Bool :=
  text.all isBlank

/-- `@name='value'` -/
def readAttributeIs? (body : List Char) : Option Filter := do
  let (name, rest) ← attribute? body
  let rest ← mark? '=' rest
  let (value, rest) ← literal? rest
  if isDone rest then some (.attributeIs (String.ofList name) (String.ofList value)) else none

/-- What follows `contains(`, after blanks. -/
def containsCall? (body : List Char) : Option (List Char) :=
  stripStart? "contains(".toList (trimStart body)

/-- The second argument of a call and its closing parenthesis, up to the end. -/
def lastArgument? (text : List Char) : Option (List Char) := do
  let rest ← mark? ',' text
  let (value, rest) ← literal? rest
  let rest ← mark? ')' rest
  if isDone rest then some value else none

/-- `contains(@name,'value')` -/
def readAttributeHolds? (body : List Char) : Option Filter := do
  let rest ← containsCall? body
  let (name, rest) ← attribute? rest
  let value ← lastArgument? rest
  some (.attributeHolds (String.ofList name) (String.ofList value))

/-- `contains(text(),'value')` -/
def readTextHolds? (body : List Char) : Option Filter := do
  let rest ← containsCall? body
  let rest ← stripStart? "text()".toList (trimStart rest)
  let value ← lastArgument? rest
  some (.textHolds (String.ofList value))

/-- A row of decimal digits whose number fits in 64 bits. -/
def readIndex? (body : List Char) : Option Filter :=
  let digits := trim body
  if digits.isEmpty || !digits.all isDigit then none
  else if numeralValue digits < Number.twoTo 64 then some (.index (numeralValue digits))
  else none

/-- `@name` -/
def readHasAttribute? (body : List Char) : Option Filter := do
  let (name, rest) ← attribute? body
  if isDone rest then some (.hasAttribute (String.ofList name)) else none

/-- The filter that the text between brackets writes, if it has one of the five forms. -/
def Filter.read? (body : List Char) : Option Filter :=
  readAttributeIs? body <|> readAttributeHolds? body <|> readTextHolds? body <|>
    readIndex? body <|> readHasAttribute? body

/-- The filter is decided by the attributes of an element alone. -/
def Filter.onAttributes : Filter → Bool
  | .attributeIs .. | .attributeHolds .. | .hasAttribute _ => true
  | .textHolds _ | .index _ => false

end Gleaner.Selector
