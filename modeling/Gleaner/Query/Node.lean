/-
# Nodes of path queries

A path goes over the elements of a document and the document itself, which stands above and before
all of them. Along an axis that leads up or back, the nearest node comes first. On the way up a path
takes for the document whatever is no element, the node that holds the content of a template
included.

Key definitions: `Node`, `nodeAt`, `nodesAlong`, `nodesInOrder`, `NodeTest.accepts`.
-/
import Gleaner.Query.Expression
import Gleaner.Text.Search

namespace Gleaner.Query

open Gleaner.Text Gleaner.Markup

/-- A node that a path can stand at. -/
inductive Node where
  /-- The document itself. -/
  | document
  | element (element : Element)

/-- The place of a node; the document has the place without positions. -/
def Node.place : Node → Place
  | .document => []
  | .element e => e.place

/-- The node as an element. -/
def Node.element? : Node → Option Element
  | .document => none
  | .element e => some e

/-- The name of a node; the document has none. -/
def Node.name : Node → String
  | .document => ""
  | .element e => e.name

/-- The text of a node; that of the document is the text of its first outer element. -/
def Node.stringValue (d : Document) : Node → String
  | .document => (d.root?.map Element.stringValue).getD ""
  | .element e => e.stringValue

/-- The node that has a place: an element, or the document where no element has it. -/
def nodeAt (d : Document) (place : Place) : Node :=
  match d.elements.find? fun e => e.place == place with
  | some e => .element e
  | none => .document

/-- The nodes along an axis from a place, in the order of the axis. The way up goes over all places
above, and whatever is no element there counts as the document. -/
def nodesAlong (d : Document) (axis : Axis) (place : Place) : List Node :=
  let elements := (d.along axis place).map Node.element
  match axis with
  | .parent => ((Place.above place).take 1).map (nodeAt d)
  | .ancestor => (Place.above place).map (nodeAt d)
  | .ancestorOrSelf => (place :: Place.above place).map (nodeAt d)
  | .self | .descendantOrSelf => if place = [] then .document :: elements else elements
  | .precedingSibling => elements.reverse
  | .child | .descendant | .followingSibling => elements

/-- The nodes of a list in document order and each once. -/
def nodesInOrder (d : Document) (nodes : List Node) : List Node :=
  let elements := (d.inOrder (nodes.filterMap Node.element?)).map Node.element
  if nodes.any fun n => n.element?.isNone then .document :: elements else elements

/-- A node passes a node test; element names agree up to the case of ASCII letters. -/
def NodeTest.accepts : NodeTest → Node → Bool
  | .anyNode, _ => true
  | .anyElement, .element _ => true
  | .named name, .element e => sameName e.name name
  | _, .document => false

end Gleaner.Query
