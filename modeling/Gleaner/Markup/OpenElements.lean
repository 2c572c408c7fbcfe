/-
# Open elements

While markup is read, the elements whose end has not come yet lie in one another, the innermost
first. Each holds what has been put into it so far. Closing an element puts it into the next outer
one; the outermost is never closed. The end of an element may be read while another inside it goes
on: then it is left where it is, but out of view, and is closed with the one inside it.

Key definitions: `Frame`, `OpenElements`, `addTree`, `addChar`, `close`, `closeThrough`, `inScope`,
`endAlone`.
-/
import Gleaner.Markup.Tree

namespace Gleaner.Markup

/-- An open element; its children so far stand last first. -/
structure Frame where
  name : String
  attributes : KeyMap String
  children : List Tree
  /-- The element's end has been read, and it is closed with the element inside it. -/
  ended : Bool := false

/-- The element that a frame becomes when it is closed. What is in a template stands in a node of its
own. -/
def Frame.toTree (f : Frame) : Tree :=
  .element f.name f.attributes
    (if f.name = "template" then [.fragment f.children.reverse] else f.children.reverse)

theorem Frame.toTree_of_ne {f : Frame} (h : f.name ≠ "template") :
    f.toTree = .element f.name f.attributes f.children.reverse := by
  rw [toTree, if_neg h]

/-- The element is in view and its name has the property. -/
def Frame.shows (f : Frame) (p : String → Bool) : Bool :=
  !f.ended && p f.name

/-- The open elements, innermost first. -/
abbrev OpenElements := List Frame

/-- A row of children, last first, with a character put after them: it goes on with the text that
stands there. -/
def appendChar (c : Char) : List Tree → List Tree
  | .text content :: rest => .text (content.push c) :: rest
  | children => .text (String.singleton c) :: children

namespace OpenElements

/-- The name of the innermost element. -/
def current (stack : OpenElements) : String :=
  match stack with
  | [] => ""
  | f :: _ => f.name

/-- A change of the children of the innermost element. -/
def update (change : List Tree → List Tree) : OpenElements → OpenElements
  | [] => []
  | f :: rest => { f with children := change f.children } :: rest

/-- The innermost element receives a node. -/
def addTree (tree : Tree) (stack : OpenElements) : OpenElements :=
  stack.update (tree :: ·)

/-- The innermost element receives a character of text. -/
def addChar (c : Char) (stack : OpenElements) : OpenElements :=
  stack.update (appendChar c)

/-- An element without content is put into the innermost element. -/
def addEmpty (name : String) (attributes : KeyMap String) (stack : OpenElements) : OpenElements :=
  stack.addTree (.element name attributes [])

/-- An element is opened in the innermost one. -/
def push (name : String) (attributes : KeyMap String) (stack : OpenElements) : OpenElements :=
  { name := name, attributes := attributes, children := [] } :: stack

/-- The innermost element is put into the next outer one, unless it is the only one. -/
def fold : OpenElements → OpenElements
  | f :: g :: rest => { g with children := f.toTree :: g.children } :: rest
  | stack => stack

/-- The innermost elements are put into the next outer ones, so many of them. -/
def foldMany : Nat → OpenElements → OpenElements
  | 0, stack => stack
  | n + 1, stack => foldMany n stack.fold

/-- The elements are closed up to the innermost one in view that has the property, which stays
open. -/
def closeTo (p : String → Bool) (stack : OpenElements) : OpenElements :=
  stack.foldMany (stack.findIdx fun f => f.shows p)

/-- The innermost element is closed, unless it is the only one, with those around it that have
ended. -/
def close (stack : OpenElements) : OpenElements :=
  stack.fold.closeTo fun _ => true

/-- The elements are closed up to the innermost one that has the property, and that one too. -/
def closeThrough (p : String → Bool) (stack : OpenElements) : OpenElements :=
  (stack.closeTo p).close

/-- The innermost elements are closed while they have the property. -/
def closeWhile (p : String → Bool) (stack : OpenElements) : OpenElements :=
  stack.closeTo fun name => !p name

/-- The name of the innermost element in view that has the property. -/
def innermost? (p : String → Bool) (stack : OpenElements) : Option String :=
  (stack.find? fun f => f.shows p).map (·.name)

/-- An element with the property is open and in view. -/
def isOpen (p : String → Bool) (stack : OpenElements) : Bool :=
  stack.any fun f => f.shows p

/-- An element with the property is open, and no element that bounds the view lies inside it. -/
def inScope (p bounds : String → Bool) (stack : OpenElements) : Bool :=
  (stack.innermost? fun name => p name || bounds name).any p

/-- The end of an element of the name is read while those inside it stay open. -/
def endAlone (name : String) (stack : OpenElements) : OpenElements :=
  if stack.current = name then stack.close
  else
    match stack.findIdx? fun f => f.shows (· == name) with
    | some i => stack.modify i fun f => { f with ended := true }
    | none => stack

/-- The outermost element, with the others closed into it. -/
def outermost : OpenElements → Option Frame
  | [] => none
  | stack => (stack.foldMany stack.length).head?

end OpenElements
end Gleaner.Markup
