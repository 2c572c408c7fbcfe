/-
# Steps

A step says how far to go from the elements before it, to a child or to anything below, then what
to go to, and in brackets on which conditions. A value accessor reads values in place of going to
elements.

Key definitions: `Accessor`, `Reach`, `Target`, `Step`, `Brackets`, `scanBrackets`, `Step.read`.
-/
import Gleaner.Selector.Fault
import Gleaner.Selector.Filter

namespace Gleaner.Selector

open Gleaner.Text

/-- What is read from the selected elements. -/
inductive Accessor where
  /-- `text()`: the own text of each element. -/
  | text
  /-- `node()`: the raw content of scripts and styles. -/
  | node
  /-- `@name`: the value of an attribute. -/
  | attribute (name : String)
  deriving DecidableEq, Repr

/-- The accessor that a segment of a selector writes, if it is one. -/
def Accessor.read? (segment : List Char) : Option Accessor :=
  let segment := trim segment
  if segment = "text()".toList then some .text
  else if segment = "node()".toList then some .node
  else
    match stripStart? ['@'] segment <|> stripStart? "attribute::".toList segment with
    | some rest =>
      let name := trim rest
      if name.isEmpty then none else some (.attribute (String.ofList name))
    | none => none

/-- An accessor as it is written. -/
def Accessor.display : Accessor → String
  | .text => "text()"
  | .node => "node()"
  | .attribute name => "@" ++ name

/-- How far a step goes from the elements before it. -/
inductive Reach where
  /-- To their children: the step follows a single slash. -/
  | child
  /-- To all below them: the step follows any other number of slashes. -/
  | below
  deriving DecidableEq, Repr

/-- What a step goes to. -/
inductive Target where
  /-- Elements of a name, or of any name for `*`. -/
  | element (name : String) (filters : List Filter)
  /-- Later siblings of a name. -/
  | sibling (name : String) (filters : List Filter)
  /-- The parent, `..`. -/
  | parent
  /-- The element itself, `.`. -/
  | self
  /-- Values in place of elements. -/
  | accessor (accessor : Accessor)
  deriving DecidableEq, Repr

/-- One step of a selector. -/
structure Step where
  /-- The step as it is written. -/
  raw : String
  reach : Reach
  target : Target
  deriving DecidableEq, Repr

/-- The filters of a step. -/
def Step.filters (s : Step) : List Filter :=
  match s.target with
  | .element _ filters | .sibling _ filters => filters
  | _ => []

/-- The accessor of a step that is one. -/
def Step.accessor? (s : Step) : Option Accessor :=
  match s.target with
  | .accessor a => some a
  | _ => none

/-! ### Brackets -/

/-- A step taken apart at its brackets. While a text is scanned from the back, `open` stands for
the text that belongs to what is open there: the head, or a group. -/
structure Brackets where
  /-- The text before the first bracket, or the rest of the group that is open. -/
  text : List Char
  /-- The texts between brackets. -/
  groups : List (List Char)
  /-- The first character that stands after a group, is no blank and lies in no group. -/
  trailing : Option Char

/-- A character of the text that is open. -/
def Brackets.keep (c : Char) (b : Brackets) : Brackets :=
  { b with text := c :: b.text }

/-- A scan of the text of a step. `stray` is reported for a closing bracket without an opening one,
and `cut` when the end comes inside brackets or a literal; `opened` says that a group has begun,
`depth` how many brackets are open, and `quoted` that a literal is. -/
def scanBrackets (stray cut : List Char) (opened : Bool) (depth : Nat) (quoted : Bool) :
    List Char → Except (List Char) Brackets
  | [] => if depth > 0 || quoted then .error cut else .ok ⟨[], [], none⟩
  | c :: rest =>
    let inText := depth > 0 || !opened
    if c = '\'' then
      (scanBrackets stray cut opened depth (!quoted) rest).map fun b =>
        if inText then b.keep c else b
    else if c = '[' && !quoted then
      if depth = 0 then
        (scanBrackets (if opened then stray else c :: rest) rest true 1 quoted rest).map fun b =>
          ⟨[], b.text :: b.groups, b.trailing⟩
      else (scanBrackets stray cut opened (depth + 1) quoted rest).map (·.keep c)
    else if c = ']' && !quoted then
      match depth with
      | 0 => .error stray
      | 1 => (scanBrackets stray cut opened 0 quoted rest).map fun b => { b with text := [] }
      | d + 2 => (scanBrackets stray cut opened (d + 1) quoted rest).map (·.keep c)
    else
      (scanBrackets stray cut opened depth quoted rest).map fun b =>
        if inText then b.keep c
        else if isBlank c then b
        else { b with trailing := some c }

/-- The text of a step taken apart at its brackets, or the text that is reported as no filter. -/
def readBrackets (body : List Char) : Except (List Char) Brackets :=
  scanBrackets body body false 0 false body

/-! ### The whole step -/

/-- An element's name; without one, any name is meant. -/
def elementName (text : List Char) : String :=
  let name := trim text
  if name.isEmpty then "*" else String.ofList name

/-- What the head of a step goes to, under the filters of the step. -/
def readTarget (head : List Char) (filters : List Filter) : Except Reason Target :=
  let noFilters (t : Target) : Except Reason Target :=
    if filters.isEmpty then .ok t else .error .filtersNotAllowed
  match Accessor.read? head with
  | some a => noFilters (.accessor a)
  | none =>
    if head = ['.'] then noFilters .self
    else if head = ['.', '.'] then noFilters .parent
    else
      match splitAtFirst? [':', ':'] head with
      | some (axis, name) =>
        if trim axis = "following-sibling".toList then .ok (.sibling (elementName name) filters)
        else .error (.unsupportedAxis (String.ofList (trim axis)))
      | none => .ok (.element (elementName head) filters)

/-- The filter that a text between the brackets of a step writes. -/
def Filter.read (step body : String) : Except Fault Filter :=
  match Filter.read? body.toList with
  | some f => .ok f
  | none => .error (.unknownFilter step body)

/-- The filters that the texts between brackets write; the first that is none is reported. -/
def readFilters : List (List Char) → Except (List Char) (List Filter)
  | [] => .ok []
  | body :: rest =>
    match Filter.read? body with
    | some f => (readFilters rest).map (f :: ·)
    | none => .error body

/-- A step without the blanks around it and the slashes in front of it. -/
def stepBody (text : List Char) : List Char :=
  (trim text).dropWhile (· == '/')

/-- The reach that the slashes in front of a step give it. -/
def stepReach (text : List Char) : Reach :=
  if ((trim text).takeWhile (· == '/')).length = 1 then .child else .below

/-- The step that a text writes. A filter that is none is reported before any other fault. -/
def Step.read (text : List Char) : Except Fault Step :=
  let raw := String.ofList text
  match readBrackets (stepBody text) with
  | .error filter => .error (.unknownFilter raw (String.ofList filter))
  | .ok brackets =>
    match readFilters brackets.groups with
    | .error filter => .error (.unknownFilter raw (String.ofList filter))
    | .ok filters =>
      match brackets.trailing with
      | some c => .error (.unusable raw (.afterFilter c))
      | none =>
        match readTarget (trim brackets.text) filters with
        | .error reason => .error (.unusable raw reason)
        | .ok target => .ok ⟨raw, stepReach text, target⟩

end Gleaner.Selector
