/-
# From markup to a document

The pieces of HTML text are put together into a document. It always has one element `html` with a
`head` and a `body`, whether they are written or not. Metadata before the body goes to the head;
blanks before the head are dropped. In the body a start tag first closes what it ends: a block ends
a paragraph, a list item the item before it, a table part the parts before it that it does not
belong to, and a part that a table lacks is added. An end tag closes what is open inside its
element, except that a form ends alone; one without an element is dropped, except that a paragraph's
end makes an empty paragraph. A template may stand anywhere; inside it the rules of the body hold,
whatever is around it.

Not covered: what lies in a table outside of its cells is left there, inline elements that overlap
are not split, parts of a table right in a template are dropped, and `svg` and `math` open elements
like those of other names, so that nothing in them is closed where it opens or has a namespace. Of
the references by name only those of `Markup.Reference` are known.

Key definitions: `Setting`, `leave`, `startTag`, `endTag`, `rawTag`, `Phase`, `Builder`,
`Builder.step`, `Builder.read`, `Document.ofMarkup`.
-/
import Gleaner.Markup.ElementKind
import Gleaner.Markup.OpenElements
import Gleaner.Markup.Token

namespace Gleaner.Markup

open Gleaner.Text OpenElements

/-- What the innermost open elements make of a tag. -/
inductive Setting where
  | body
  | caption
  | cell
  | row
  | rowGroup
  | columns
  | table
  | select
  deriving DecidableEq, Repr

/-- The setting that the open elements make: that of the innermost one that makes any. -/
def settingOf : OpenElements → Setting
  | [] => .body
  | f :: rest =>
    if f.name = "template" then .body
    else if f.name = "select" then .select
    else if isCell f.name then .cell
    else if f.name = "tr" then .row
    else if isRowGroup f.name then .rowGroup
    else if f.name = "caption" then .caption
    else if f.name = "colgroup" then .columns
    else if f.name = "table" then .table
    else settingOf rest

/-- The setting is one inside a table. -/
def Setting.inTable (s : Setting) : Bool :=
  s != .body && s != .select

/-- A blank between tags. Unlike inside a tag, a carriage return counts, which only a reference
brings in. -/
def isOuterSpace (c : Char) : Bool :=
  isTagSpace c || c == '\r'

namespace OpenElements

/-- Elements whose end may be left out are closed, but not one of the given name. -/
def closeOmitted (except : String) (stack : OpenElements) : OpenElements :=
  stack.closeWhile fun name => mayOmitEnd name && name != except

/-- An open element of the name is closed with all inside it. -/
def finish (name : String) (stack : OpenElements) : OpenElements :=
  (stack.closeOmitted name).closeThrough (· == name)

/-- The paragraph in view, if there is one, is closed. -/
def closeParagraph (stack : OpenElements) : OpenElements :=
  if stack.inScope (· == "p") boundsParagraph then stack.finish "p" else stack

/-- The list item or description in view, if there is one, is closed. -/
def closeItem (isItem : String → Bool) (stack : OpenElements) : OpenElements :=
  let stops := fun name => isItem name ||
    (isSpecial name && name != "address" && name != "div" && name != "p")
  match stack.innermost? stops with
  | some name => if isItem name then stack.finish name else stack
  | none => stack

/-- The elements are closed up to the table, which stays open. -/
def toTable : OpenElements → OpenElements :=
  closeTo (· == "table")

/-- The table is open, or a row group of it. -/
def toRowGroup (stack : OpenElements) : OpenElements :=
  if stack.inScope isRowGroup boundsTable then stack.closeTo isRowGroup
  else stack.toTable.push "tbody" .empty

/-- The table has an open row, to which all inside it is closed. -/
def toRow (stack : OpenElements) : OpenElements :=
  if stack.inScope (· == "tr") boundsTable then stack.closeTo (· == "tr")
  else stack.toRowGroup.push "tr" .empty

/-- The choice is closed. -/
def closeSelect : OpenElements → OpenElements :=
  closeThrough (· == "select")

/-- The innermost element is closed if it has the name. -/
def closeIf (name : String) (stack : OpenElements) : OpenElements :=
  if stack.current = name then stack.close else stack

/-- A group of columns ends in front of what cannot stand in it. -/
def leaveColumns (stack : OpenElements) : OpenElements :=
  if stack.current = "colgroup" then stack.toTable else stack

/-- A choice that stands in a table ends in front of a tag of the table or of a part of it. -/
def leaveSelect (stack : OpenElements) : OpenElements :=
  if settingOf stack = .select ∧ (settingOf stack.closeSelect).inTable then stack.closeSelect
  else stack

/-- What a token ends before it is looked at itself. -/
def leave (t : Token) (stack : OpenElements) : OpenElements :=
  match t with
  | .doctype _ | .comment => stack
  | .char c => if isOuterSpace c then stack else stack.leaveColumns
  | .raw .. => stack.leaveColumns
  | .start name _ =>
    if isTableBox name then stack.leaveColumns.leaveSelect
    else if name = "col" ∨ name = "html" ∨ name = "template" then stack
    else stack.leaveColumns
  | .finish name =>
    if isTableBox name then
      if stack.inScope (· == name) boundsTable then stack.leaveColumns.leaveSelect
      else stack.leaveColumns
    else if name = "col" ∨ name = "colgroup" ∨ name = "template" then stack
    else stack.leaveColumns

end OpenElements

/-- A start tag of a part of a table, where a table is open. -/
def startTablePart (name : String) (attributes : KeyMap String) (stack : OpenElements) :
    OpenElements :=
  if isCell name then stack.toRow.push name attributes
  else if name = "tr" then stack.toRowGroup.push name attributes
  else if name = "col" then
    if settingOf stack = .columns then stack.addEmpty name attributes
    else (stack.toTable.push "colgroup" .empty).addEmpty name attributes
  else stack.toTable.push name attributes

/-- A start tag where no table or choice asks for rules of its own. -/
def startInBody (oldRules : Bool) (name : String) (attributes : KeyMap String)
    (stack : OpenElements) : OpenElements :=
  if name ∈ ["html", "head", "body", "frameset", "frame"] ∨ isTablePart name then stack
  else if isBlock name ∨ name = "p" ∨ name = "form" then
    stack.closeParagraph.push name attributes
  else if isHeading name then
    let stack := stack.closeParagraph
    (if isHeading stack.current then stack.close else stack).push name attributes
  else if name = "li" then
    (stack.closeItem (· == "li")).closeParagraph.push name attributes
  else if name = "dd" ∨ name = "dt" then
    (stack.closeItem fun n => n == "dd" || n == "dt").closeParagraph.push name attributes
  else if name = "button" then
    (if stack.inScope (· == "button") boundsScope then stack.finish "button" else stack).push name
      attributes
  else if name = "table" then
    (if oldRules then stack else stack.closeParagraph).push name attributes
  else if name = "hr" then stack.closeParagraph.addEmpty name attributes
  else if name = "image" then stack.addEmpty "img" attributes
  else if isVoid name then stack.addEmpty name attributes
  else if name = "option" ∨ name = "optgroup" then
    (stack.closeIf "option").push name attributes
  else if name = "rb" ∨ name = "rtc" then
    (if stack.inScope (· == "ruby") boundsScope then stack.closeOmitted "" else stack).push name
      attributes
  else if name = "rp" ∨ name = "rt" then
    (if stack.inScope (· == "ruby") boundsScope then stack.closeOmitted "rtc" else stack).push name
      attributes
  else stack.push name attributes

/-- A start tag inside a choice: only options, groups of them and rules between them belong
there. -/
def startInSelect (name : String) (attributes : KeyMap String) (stack : OpenElements) :
    OpenElements :=
  if name = "option" then (stack.closeIf "option").push name attributes
  else if name = "optgroup" then
    ((stack.closeIf "option").closeIf "optgroup").push name attributes
  else if name = "hr" then ((stack.closeIf "option").closeIf "optgroup").addEmpty name attributes
  else if name = "select" then stack.closeSelect
  else if name = "input" ∨ name = "keygen" then stack.closeSelect.addEmpty name attributes
  else stack

/-- A start tag. -/
def startTag (oldRules : Bool) (name : String) (attributes : KeyMap String) (stack : OpenElements) :
    OpenElements :=
  if name = "template" then stack.push name attributes
  else
    match settingOf stack with
    | .body => startInBody oldRules name attributes stack
    | .select => startInSelect name attributes stack
    | .cell | .caption =>
      if isTablePart name then startTablePart name attributes stack
      else startInBody oldRules name attributes stack
    | .columns | .table | .rowGroup | .row =>
      if isTablePart name then startTablePart name attributes stack
      else if name = "table" then
        startInBody oldRules name attributes (stack.closeThrough (· == "table"))
      else if name = "form" then stack.addEmpty name attributes
      else startInBody oldRules name attributes stack

/-- An element of the name is closed, if one is in view. -/
def finishInScope (name : String) (bounds : String → Bool) (except : String)
    (stack : OpenElements) : OpenElements :=
  if stack.inScope (· == name) bounds then
    (stack.closeOmitted except).closeThrough (· == name)
  else stack

/-- An end tag of an ordinary name: its element is closed, unless a special element lies
inside. -/
def finishOrdinary (name : String) (stack : OpenElements) : OpenElements :=
  match stack.innermost? fun n => n == name || isSpecial n with
  | some n => if n = name then stack.finish name else stack
  | none => stack

/-- An end tag where no table or choice asks for rules of its own. -/
def endInBody (name : String) (stack : OpenElements) : OpenElements :=
  if isBlock name ∨ isEnclosure name ∨ name = "button" then
    finishInScope name boundsScope "" stack
  else if name = "form" then
    if stack.inScope (· == name) boundsScope then (stack.closeOmitted "").endAlone name else stack
  else if name = "p" then
    if stack.inScope (· == "p") boundsParagraph then stack.finish "p"
    else stack.addEmpty "p" .empty
  else if name = "li" then finishInScope name boundsItem name stack
  else if name = "dd" ∨ name = "dt" then finishInScope name boundsScope name stack
  else if isHeading name then
    if stack.inScope isHeading boundsScope then (stack.closeOmitted "").closeThrough isHeading
    else stack
  else if name = "br" then stack.addEmpty "br" .empty
  else if name ∈ ["html", "head", "body"] ∨ isTablePart name then stack
  else finishOrdinary name stack

/-- An end tag of a table or of a part of one, where a table is open. -/
def endTablePart (name : String) (stack : OpenElements) : OpenElements :=
  let setting := settingOf stack
  if name = "table" then stack.closeThrough (· == "table")
  else if isRowGroup name ∨ name = "tr" ∨ isCell name ∨ name = "caption" then
    if stack.inScope (· == name) boundsTable then stack.closeThrough (· == name) else stack
  else if name = "colgroup" ∧ setting = .columns then stack.closeThrough (· == "colgroup")
  else stack

/-- An end tag inside a choice. -/
def endInSelect (name : String) (stack : OpenElements) : OpenElements :=
  if name = "option" then stack.closeIf "option"
  else if name = "optgroup" then
    let outer := stack.close
    let stack := if stack.current = "option" ∧ outer.current = "optgroup" then outer else stack
    stack.closeIf "optgroup"
  else if name = "select" then stack.closeSelect
  else stack

/-- The innermost template is closed with all inside it, if one is open. -/
def endTemplate (stack : OpenElements) : OpenElements :=
  if stack.isOpen (· == "template") then stack.closeThrough (· == "template") else stack

/-- An end tag. -/
def endTag (name : String) (stack : OpenElements) : OpenElements :=
  if name = "template" then endTemplate stack
  else
    match settingOf stack with
    | .body => endInBody name stack
    | .select => endInSelect name stack
    | .cell | .caption | .row | .rowGroup | .columns | .table =>
      if name = "table" ∨ isTablePart name then endTablePart name stack
      else endInBody name stack

/-- An element whose content is no markup. -/
def rawTree (name : String) (attributes : KeyMap String) (content : String) : Tree :=
  .element name attributes (if content.isEmpty then [] else [.text content])

/-- An element whose content is no markup is put where it belongs. -/
def rawTag (name : String) (attributes : KeyMap String) (content : String) (stack : OpenElements) :
    OpenElements :=
  let stack :=
    if name = "textarea" ∧ settingOf stack = .select then stack.closeSelect
    else if name = "xmp" ∨ name = "plaintext" then stack.closeParagraph
    else stack
  stack.addTree (rawTree name attributes content)

/-- How far the reading of a document has come. -/
inductive Phase where
  | initial
  | beforeHtml
  | beforeHead
  | inHead
  | afterHead
  | inBody
  | afterBody
  deriving DecidableEq, Repr

/-- A document that is being put together. Rows of nodes stand last first. -/
structure Builder where
  phase : Phase
  /-- A table does not end a paragraph. -/
  oldRules : Bool
  /-- A form has been opened and not been closed by an end tag. -/
  formOpen : Bool
  html : KeyMap String
  headAttributes : KeyMap String
  head : List Tree
  /-- What lies between the head and the body. -/
  between : List Tree
  /-- The open elements of the body, with the body itself outermost. Before the body is opened, the
  open elements of the head while a template is open there. -/
  stack : OpenElements

namespace Builder

/-- The start, before anything is read. -/
def start : Builder where
  phase := .initial
  oldRules := true
  formOpen := false
  html := .empty
  headAttributes := .empty
  head := []
  between := []
  stack := []

/-- Attributes that an element lacks are added to it. -/
def addMissing (attributes more : KeyMap String) : KeyMap String :=
  more.entries.foldl (fun m e => if m.contains e.1 then m else m.insert e.1 e.2) attributes

/-- The attributes of the outermost open element are completed. -/
def completeBody (more : KeyMap String) : OpenElements → OpenElements
  | [] => []
  | [f] => [{ f with attributes := addMissing f.attributes more }]
  | f :: rest => f :: completeBody more rest

/-- The rules of the body and of a template. -/
def inBody (b : Builder) (t : Token) : Builder :=
  let b := { b with stack := b.stack.leave t }
  let inTemplate := b.stack.isOpen (· == "template")
  match t with
  | .doctype _ => b
  | .comment => { b with stack := b.stack.addTree .comment }
  | .char c => if c = '\x00' then b else { b with stack := b.stack.addChar c }
  | .raw name attributes content => { b with stack := rawTag name attributes content b.stack }
  | .start name attributes =>
    let other := { b with stack := startTag b.oldRules name attributes b.stack }
    if name = "html" then
      if inTemplate then b else { b with html := addMissing b.html attributes }
    else if settingOf b.stack = .select then other
    else if name = "body" then
      if inTemplate then b else { b with stack := completeBody attributes b.stack }
    else if name = "form" then
      if inTemplate then other else if b.formOpen then b else { other with formOpen := true }
    else other
  | .finish name =>
    let other := { b with stack := endTag name b.stack }
    if name = "body" ∨ name = "html" then
      if settingOf b.stack = .body ∧ b.stack.inScope (· == "body") boundsScope then
        { b with phase := .afterBody }
      else b
    else if name = "form" ∧ settingOf b.stack ≠ .select then
      if inTemplate then { b with stack := finishInScope name boundsScope "" b.stack }
      else if b.formOpen then { other with formOpen := false }
      else b
    else other

/-- The body is opened. -/
def openBody (attributes : KeyMap String) (b : Builder) : Builder :=
  { b with phase := .inBody, stack := OpenElements.push "body" attributes [] }

/-- A template is opened in the head. -/
def openTemplate (attributes : KeyMap String) (b : Builder) : Builder :=
  let head : Frame := { name := "head", attributes := b.headAttributes, children := b.head }
  { b with stack := OpenElements.push "template" attributes [head] }

/-- The head has these open elements; when none is open inside it, it goes on as before. -/
def closeTemplate (b : Builder) : Builder :=
  match b.stack with
  | [head] => { b with head := head.children, stack := [] }
  | _ => b

/-- The rules while a template is open in the head. -/
def inTemplate (b : Builder) (t : Token) : Builder :=
  (inBody b t).closeTemplate

/-- The rules between the head and the body. -/
def afterHead (b : Builder) (t : Token) : Builder :=
  let other := inBody (openBody .empty b) t
  match t with
  | .doctype _ => b
  | .comment => { b with between := .comment :: b.between }
  | .char c => if isOuterSpace c then { b with between := appendChar c b.between } else other
  | .raw name attributes content =>
    if isRawMetadata name ∧ name ≠ "noscript" then
      { b with head := rawTree name attributes content :: b.head }
    else other
  | .start name attributes =>
    if name = "html" then { b with html := addMissing b.html attributes }
    else if name = "body" then openBody attributes b
    else if isMetadata name then { b with head := .element name attributes [] :: b.head }
    else if name = "template" then openTemplate attributes b
    else if name = "head" then b
    else other
  | .finish name => if name ∈ ["body", "html", "br"] then other else b

/-- The rules of the head. -/
def inHead (b : Builder) (t : Token) : Builder :=
  let other := afterHead { b with phase := .afterHead } t
  match t with
  | .doctype _ => b
  | .comment => { b with head := .comment :: b.head }
  | .char c => if isOuterSpace c then { b with head := appendChar c b.head } else other
  | .raw name attributes content =>
    if isRawMetadata name then { b with head := rawTree name attributes content :: b.head }
    else other
  | .start name attributes =>
    if name = "html" then { b with html := addMissing b.html attributes }
    else if isMetadata name then { b with head := .element name attributes [] :: b.head }
    else if name = "template" then openTemplate attributes b
    else if name = "head" then b
    else other
  | .finish name =>
    if name = "head" then { b with phase := .afterHead }
    else if name ∈ ["body", "html", "br"] then other
    else b

/-- The rules before the head. -/
def beforeHead (b : Builder) (t : Token) : Builder :=
  let other := inHead { b with phase := .inHead } t
  match t with
  | .doctype _ | .comment => b
  | .char c => if isOuterSpace c then b else other
  | .raw .. => other
  | .start name attributes =>
    if name = "html" then { b with html := addMissing b.html attributes }
    else if name = "head" then { b with phase := .inHead, headAttributes := attributes }
    else other
  | .finish name => if name ∈ ["head", "body", "html", "br"] then other else b

/-- The rules before the element of the whole document. -/
def beforeHtml (b : Builder) (t : Token) : Builder :=
  let other := beforeHead { b with phase := .beforeHead } t
  match t with
  | .doctype _ | .comment => b
  | .char c => if isOuterSpace c then b else other
  | .raw .. => other
  | .start name attributes =>
    if name = "html" then { b with phase := .beforeHead, html := attributes } else other
  | .finish name => if name ∈ ["head", "body", "html", "br"] then other else b

/-- The rules before anything else, where a document type counts. -/
def initial (b : Builder) (t : Token) : Builder :=
  match t with
  | .doctype type => { b with phase := .beforeHtml, oldRules := asksForOldRules type }
  | .comment => b
  | .char c => if isOuterSpace c then b else beforeHtml { b with phase := .beforeHtml } t
  | t => beforeHtml { b with phase := .beforeHtml } t

/-- The rules after the body: blanks still belong to it, and anything else opens it again. -/
def afterBody (b : Builder) (t : Token) : Builder :=
  match t with
  | .doctype _ | .comment => b
  | .char c => if isOuterSpace c then inBody b t else inBody { b with phase := .inBody } t
  | .start name _ =>
    if name = "html" then inBody b t else inBody { b with phase := .inBody } t
  | .finish name => if name = "html" then b else inBody { b with phase := .inBody } t
  | .raw .. => inBody { b with phase := .inBody } t

/-- One more token. -/
def step (b : Builder) (t : Token) : Builder :=
  match b.phase with
  | .initial => initial b t
  | .beforeHtml => beforeHtml b t
  | .beforeHead => beforeHead b t
  | .inHead => if b.stack.isEmpty then inHead b t else inTemplate b t
  | .afterHead => if b.stack.isEmpty then afterHead b t else inTemplate b t
  | .inBody => inBody b t
  | .afterBody => afterBody b t

/-- A text is read to its end. -/
def read (b : Builder) (text : List Char) : Builder :=
  if h : text = [] then b
  else
    let inChoice := decide (settingOf b.stack = .select)
    have := length_scan_lt inChoice h
    ((scan inChoice text).1.foldl step b).read (scan inChoice text).2
termination_by text.length

/-- A template that the head leaves open is closed with all inside it. -/
def finishHead (b : Builder) : Builder :=
  match b.phase with
  | .inHead | .afterHead =>
    match b.stack.outermost with
    | some head => { b with head := head.children, stack := [] }
    | none => b
  | _ => b

/-- The document, with all that is open closed. -/
def document (b : Builder) : Document :=
  let b := b.finishHead
  let body := match b.stack.outermost with
    | some f => f.toTree
    | none => .element "body" .empty []
  ⟨[.element "html" b.html
      (.element "head" b.headAttributes b.head.reverse :: b.between.reverse ++ [body])]⟩

end Builder

/-- The document of a text. -/
def Document.ofMarkup (text : List Char) : Document :=
  (Builder.start.read text).document

end Gleaner.Markup
