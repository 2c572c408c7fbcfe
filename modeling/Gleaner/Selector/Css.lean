/-
# Selectors as CSS text

The path of a selector is shown in CSS, with two forms for what CSS lacks: own text that contains a
text, and a position. The same text, without these two, is the element test of a step. In a name a
character that CSS would not read as part of it follows a backslash; in a string, a quotation mark
and a backslash do, and a line feed is written as its code point.

Key definitions: `cssName`, `cssString`, `Filter.css`, `Step.css`, `Selector.css`,
`compoundText`.
-/
import Gleaner.Selector.Basic

namespace Gleaner.Selector

open Gleaner.Text

/-- A character that stands for itself in a CSS name: a letter, a digit, a hyphen, a low line, or
any character beyond ASCII. -/
def isPlainNameChar (c : Char) : Bool :=
  isAsciiLetter c || isDigit c || c == '-' || c == '_' || decide (128 ≤ c.toNat)

/-- A character of a CSS name. -/
def cssNameChar (c : Char) : List Char :=
  if isPlainNameChar c then [c] else ['\\', c]

/-- A name as CSS text. -/
def cssName (name : String) : List Char :=
  name.toList.flatMap cssNameChar

/-- A character of a CSS string. -/
def cssStringChar (c : Char) : List Char :=
  if c = '"' ∨ c = '\\' then ['\\', c]
  else if c = '\n' then ['\\', 'a', ' ']
  else [c]

/-- The content of a CSS string. -/
def cssString (value : String) : List Char :=
  value.toList.flatMap cssStringChar

/-- A test of an attribute against a value; `op` stands between them. -/
def cssTest (name : String) (op : List Char) (value : String) : List Char :=
  '[' :: cssName name ++ op ++ '"' :: cssString value ++ ['"', ']']

/-- A filter as CSS text. -/
def Filter.cssChars : Filter → List Char
  | .attributeIs name value => cssTest name ['='] value
  | .attributeHolds name value => cssTest name ['*', '='] value
  | .textHolds value => ":matchesOwn(".toList ++ value.toList ++ [')']
  | .index n => ":eq(".toList ++ (toString n).toList ++ [')']
  | .hasAttribute name => '[' :: cssName name ++ [']']

@[simp]
theorem Filter.cssChars_attributeIs (name value : String) :
    (Filter.attributeIs name value).cssChars = cssTest name ['='] value :=
  rfl

@[simp]
theorem Filter.cssChars_attributeHolds (name value : String) :
    (Filter.attributeHolds name value).cssChars = cssTest name ['*', '='] value :=
  rfl

@[simp]
theorem Filter.cssChars_textHolds (value : String) :
    (Filter.textHolds value).cssChars = ":matchesOwn(".toList ++ value.toList ++ [')'] :=
  rfl

@[simp]
theorem Filter.cssChars_index (n : Nat) :
    (Filter.index n).cssChars = ":eq(".toList ++ (toString n).toList ++ [')'] :=
  rfl

@[simp]
theorem Filter.cssChars_hasAttribute (name : String) :
    (Filter.hasAttribute name).cssChars = '[' :: cssName name ++ [']'] :=
  rfl

/-- A filter as CSS text. -/
def Filter.css (f : Filter) : String :=
  String.ofList f.cssChars

/-- The name of an element as CSS text. -/
def cssElement (name : String) : List Char :=
  if name = "*" then ['*'] else cssName name

/-- An element test as CSS text: a name and filters. -/
def compoundText (name : String) (filters : List Filter) : List Char :=
  cssElement name ++ filters.flatMap Filter.cssChars

/-- A step as CSS text, without what joins it to the step before. -/
def Step.cssChars (s : Step) : List Char :=
  match s.target with
  | .element name filters | .sibling name filters => compoundText name filters
  | .parent => ['.', '.']
  | .self => []
  | .accessor a => a.display.toList

/-- A step as CSS text, without what joins it to the step before. -/
def Step.css (s : Step) : String :=
  String.ofList s.cssChars

/-- What joins a step to the one before it. -/
def Step.combinator (s : Step) : String :=
  match s.target, s.reach with
  | .sibling .., _ => " ~ "
  | .parent, _ => " > "
  | _, .child => " > "
  | _, .below => " "

/-- A path as CSS text that continues the text `written`; steps to the element itself are left
out. -/
def cssOfPath (written : List Char) : List Step → List Char
  | [] => written
  | s :: rest =>
    if s.target = .self then cssOfPath written rest
    else
      let joined := if written.isEmpty then [] else s.combinator.toList
      cssOfPath (written ++ joined ++ s.cssChars) rest

/-- The path of a selector as CSS text. -/
def css (s : Selector) : String :=
  String.ofList (cssOfPath [] s.path)

end Gleaner.Selector
