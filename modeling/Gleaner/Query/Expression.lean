/-
# Expressions of path queries

A path goes from node to node along axes; each step tests what it meets and may ask conditions of
it, which are expressions again. A last step may read values in place of going to elements.

Key definitions: `Function`, `Operator`, `NodeTest`, `ValueStep`, `Expr`, `Path`, `Step`.
-/
import Gleaner.Comparison
import Gleaner.Markup.Axis

namespace Gleaner.Query

open Gleaner.Markup

/-- A function that may be called. -/
inductive Function where
  | last
  | position
  | count
  | contains
  | startsWith
  | normalizeSpace
  | stringLength
  | string
  | name
  | not
  | true
  | false
  deriving DecidableEq, Repr

/-- The function of a name. -/
def Function.ofName? (name : String) : Option Function :=
  match name with
  | "last" => some .last
  | "position" => some .position
  | "count" => some .count
  | "contains" => some .contains
  | "starts-with" => some .startsWith
  | "normalize-space" => some .normalizeSpace
  | "string-length" => some .stringLength
  | "string" => some .string
  | "name" | "local-name" => some .name
  | "not" => some .not
  | "true" => some .true
  | "false" => some .false
  | _ => none

/-- The least and the greatest number of arguments of a function. -/
def Function.arity : Function → Nat × Nat
  | .last | .position | .true | .false => (0, 0)
  | .count | .not => (1, 1)
  | .contains | .startsWith => (2, 2)
  | .normalizeSpace | .stringLength | .string | .name => (0, 1)

/-- An operator between two expressions. -/
inductive Operator where
  | or
  | and
  | comparison (comparison : Comparison)
  deriving DecidableEq, Repr

/-- What a step accepts of the nodes along its axis. -/
inductive NodeTest where
  /-- Elements of a name. -/
  | named (name : String)
  | anyElement
  /-- Elements and the document itself. -/
  | anyNode
  deriving DecidableEq, Repr

/-- A last step that reads values. -/
inductive ValueStep where
  /-- The texts right below each element. -/
  | text
  /-- The attribute of a name, or all attributes. -/
  | attribute (name : Option String)
  deriving DecidableEq, Repr

mutual

/-- An expression. -/
inductive Expr where
  | path (path : Path)
  /-- All elements of some paths. -/
  | union (paths : List Path)
  | literal (text : String)
  | number (value : Float)
  | call (function : Function) (arguments : List Expr)
  | binary (left : Expr) (operator : Operator) (right : Expr)

/-- A path of steps from the document or from where the path stands. -/
structure Path where
  absolute : Bool
  steps : List Step
  value : Option ValueStep

/-- A step along an axis. -/
structure Step where
  axis : Axis
  test : NodeTest
  predicates : List Expr

end

/-- The axis of a name. -/
def axisOfName? (name : String) : Option Axis :=
  match name with
  | "child" => some .child
  | "descendant" => some .descendant
  | "descendant-or-self" => some .descendantOrSelf
  | "self" => some .self
  | "parent" => some .parent
  | "ancestor" => some .ancestor
  | "ancestor-or-self" => some .ancestorOrSelf
  | "following-sibling" => some .followingSibling
  | "preceding-sibling" => some .precedingSibling
  | _ => none

/-- The step from a node to itself and to all below it, which a double slash stands for. -/
def Step.selfAndBelow : Step :=
  ⟨.descendantOrSelf, .anyNode, []⟩

end Gleaner.Query
