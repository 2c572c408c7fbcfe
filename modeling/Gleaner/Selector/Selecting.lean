/-
# Elements selected step by step

A selector is followed from the whole document, one step after another. A step to elements takes
the groups of candidates that its reach gives, keeps those that pass its element test, and applies
its other filters to each group in the order in which they are written. A position counts among
what is left in a group, and in a step to anything below, among what is left of one parent.

Key definitions: `Scope`, `groupsOf`, `applyFilters`, `applyStep`, `Selector.elements`,
`readElements`, `Selector.evaluate`.
-/
import Gleaner.Datum
import Gleaner.Markup.Axis
import Gleaner.Selector.Compound

namespace Gleaner.Selector

open Gleaner.Text Gleaner.Markup

/-- The place of the parent. -/
def parentPlace (e : Element) : Place :=
  e.place.dropLast

/-- The elements of a group that come `n`-th among those of their parent; `seen` holds the places
of the parents of the elements before. -/
def nthOfParent (n : Nat) (seen : List Place) : List Element → List Element
  | [] => []
  | e :: rest =>
    let kept := nthOfParent n (parentPlace e :: seen) rest
    if seen.count (parentPlace e) = n then e :: kept else kept

/-- The elements of a group at a position, of the whole group or of each parent. -/
def atPosition (perParent : Bool) (n : Nat) (group : List Element) : List Element :=
  if perParent then nthOfParent n [] group else (group[n]?).toList

/-- A group under one filter; those on attributes have been decided before. -/
def applyFilter (perParent : Bool) (group : List Element) : Filter → List Element
  | .textHolds needle => group.filter fun e => occursIn needle.toList e.ownText.toList
  | .index n => atPosition perParent n group
  | .attributeIs .. | .attributeHolds .. | .hasAttribute _ => group

/-- A group under filters, one after another. -/
def applyFilters (perParent : Bool) (filters : List Filter) (group : List Element) :
    List Element :=
  filters.foldl (applyFilter perParent) group

/-- What a step starts from. -/
inductive Scope where
  /-- The document itself. -/
  | document
  | elements (list : List Element)

/-- The groups of candidates of a step that goes to elements of a name. -/
def groupsOf (d : Document) (sibling : Bool) (reach : Reach) : Scope → List (List Element)
  | .document =>
    if sibling then []
    else match reach with
      | .child => [d.along .child []]
      | .below => [d.elements]
  | .elements context =>
    if sibling then context.map fun e => d.along .followingSibling e.place
    else match reach with
      | .child => context.map fun e => d.along .child e.place
      | .below => [d.alongAny .descendant (context.map (·.place))]

/-- The elements that a step to elements of a name selects. -/
def selectNamed (d : Document) (sibling : Bool) (reach : Reach) (name : String)
    (filters : List Filter) (scope : Scope) : Except Reason (List Element) :=
  match Compound.ofStep? name filters with
  | none =>
    .error (.invalidCompound
      (String.ofList (compoundText name (filters.filter Filter.onAttributes))))
  | some test =>
    let perParent := !sibling && reach == .below
    .ok ((groupsOf d sibling reach scope).flatMap fun group =>
      applyFilters perParent filters (group.filter test.accepts))

/-- The parents that a scope has. -/
def parentsOf (d : Document) : Scope → List Element
  | .document => []
  | .elements context => d.alongAny .parent (context.map (·.place))

/-- The scope after a step. -/
def applyStep (d : Document) (scope : Scope) (s : Step) : Except Reason Scope :=
  match s.target with
  | .self => .ok scope
  | .parent => .ok (.elements (parentsOf d scope))
  | .accessor a => .error (.accessorNotLast a.display)
  | .element name filters =>
    (selectNamed d false s.reach name filters scope).map fun list => .elements (d.inOrder list)
  | .sibling name filters =>
    (selectNamed d true s.reach name filters scope).map fun list => .elements (d.inOrder list)

/-- The scope after a row of steps. -/
def applySteps (d : Document) (scope : Scope) : List Step → Except Reason Scope
  | [] => .ok scope
  | s :: rest => (applyStep d scope s).bind fun scope => applySteps d scope rest

/-- The elements of a scope. -/
def Scope.toList (d : Document) : Scope → List Element
  | .document => d.elements
  | .elements list => list

/-- The elements that a selector selects. -/
def elements (s : Selector) (d : Document) : Except Fault (List Element) :=
  match applySteps d .document s.path with
  | .ok scope => .ok (scope.toList d)
  | .error reason => .error (.unusable s.text reason)

/-- The values that an accessor reads from elements; without one, the texts right below them. -/
def readElements (accessor : Option Accessor) (list : List Element) : List Datum :=
  match accessor with
  | some .text => list.map fun e => .text e.ownText
  | some .node => list.flatMap fun e => e.dataNodes.map .data
  | some (.attribute name) => list.filterMap fun e => (e.attribute? name).map .text
  | none => list.flatMap fun e => e.directTexts.map .text

/-- The values that a selector yields on a document. -/
def evaluate (d : Document) (text : String) : Except Fault (List Datum) := do
  let selector ← read text
  let list ← selector.elements d
  pure (readElements selector.accessor list)

end Gleaner.Selector
