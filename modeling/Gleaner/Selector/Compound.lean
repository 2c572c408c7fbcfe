/-
# Element tests

An element test holds the name and the attribute filters of a step. It is formed from CSS text, so
a name or a value that CSS cannot write makes no test. On elements of HTML, names are compared
without regard to the case of ASCII letters, and so are the values of some attributes; on others they
are compared as they are. Attributes that have a namespace are not looked at.

Key definitions: `Compound`, `Compound.ofStep?`, `Compound.accepts`.
-/
import Gleaner.Markup.Tree
import Gleaner.Selector.Css

namespace Gleaner.Selector

open Gleaner.Text Gleaner.Markup

/-- A test of one attribute. -/
inductive AttributeTest where
  | present (name : String)
  | is (name value : String)
  | holds (name value : String)
  deriving DecidableEq, Repr

/-- A test of an element: its name, unless any will do, and its attributes. -/
structure Compound where
  name : Option String
  tests : List AttributeTest
  deriving DecidableEq, Repr

/-- The line breaks of CSS. -/
def isCssBreak (c : Char) : Bool :=
  c == '\n' || c == '\r' || c == '\x0c'

/-- CSS can write the name: it holds no line break, and a digit or a lone hyphen does not begin
it. -/
def isCssName (name : String) : Bool :=
  !name.toList.any isCssBreak &&
    match name.toList with
    | [] => false
    | ['-'] => false
    | '-' :: c :: _ => !isDigit c
    | c :: _ => !isDigit c

/-- CSS can write the value: it holds no line break that CSS has no escape for here. -/
def isCssValue (value : String) : Bool :=
  !value.toList.any fun c => c == '\r' || c == '\x0c'

/-- A text as CSS reads it, where NUL has no place. -/
def cssRead (text : String) : String :=
  String.ofList (text.toList.map fun c => if c = '\x00' then '\uFFFD' else c)

/-- The test of an attribute that a filter asks for. -/
def Filter.test? : Filter → Option AttributeTest
  | .attributeIs name value => some (.is (cssRead name) (cssRead value))
  | .attributeHolds name value => some (.holds (cssRead name) (cssRead value))
  | .hasAttribute name => some (.present (cssRead name))
  | .textHolds _ | .index _ => none

/-- CSS can write the filter, if it is one on attributes. -/
def Filter.isWritable : Filter → Bool
  | .attributeIs name value | .attributeHolds name value => isCssName name && isCssValue value
  | .hasAttribute name => isCssName name
  | .textHolds _ | .index _ => true

/-- The element test of a name and filters, if CSS can write it. -/
def Compound.ofStep? (name : String) (filters : List Filter) : Option Compound :=
  if (name == "*" || isCssName name) && filters.all Filter.isWritable then
    some ⟨if name = "*" then none else some (cssRead name), filters.filterMap Filter.test?⟩
  else none

/-- The attributes of HTML whose values are compared without regard to case. -/
def caselessAttributes : List String :=
  ["accept", "accept-charset", "align", "alink", "axis", "bgcolor", "charset", "checked", "clear",
    "codetype", "color", "compact", "declare", "defer", "dir", "direction", "disabled", "enctype",
    "face", "frame", "hreflang", "http-equiv", "lang", "language", "link", "media", "method",
    "multiple", "nohref", "noresize", "noshade", "nowrap", "readonly", "rel", "rev", "rules",
    "scope", "scrolling", "selected", "shape", "target", "text", "type", "valign", "valuetype",
    "vlink"]

/-- The form in which names are compared on an element. -/
def comparedName (e : Element) (name : String) : String :=
  if e.isHtml then lowerAscii name else name

/-- The form in which values of an attribute are compared on an element. -/
def comparedValue (e : Element) (name value : String) : String :=
  if e.isHtml ∧ lowerAscii name ∈ caselessAttributes then lowerAscii value else value

/-- The value of the attribute of a name. -/
def valueFor? (e : Element) (name : String) : Option String :=
  (e.attributes.entries.find? fun a => comparedName e a.1 == comparedName e name).map (·.2)

/-- An element passes a test of one attribute. The empty text is in no value. -/
def AttributeTest.accepts (e : Element) : AttributeTest → Bool
  | .present name => (valueFor? e name).isSome
  | .is name value =>
    (valueFor? e name).any fun v => comparedValue e name v == comparedValue e name value
  | .holds name value =>
    !value.isEmpty && (valueFor? e name).any fun v =>
      occursIn (comparedValue e name value).toList (comparedValue e name v).toList

/-- An element passes a test. -/
def Compound.accepts (c : Compound) (e : Element) : Bool :=
  c.name.all (fun name => comparedName e name == comparedName e e.name) &&
    c.tests.all (·.accepts e)

end Gleaner.Selector
