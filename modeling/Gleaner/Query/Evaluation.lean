/-
# Evaluating path queries

A path starts from the document or from the node it stands at; after each step its nodes are put in
document order, each once. A condition of a step is asked of each candidate with its position among
those that passed the conditions before; a number holds at the position it names.

Key definitions: `Context`, `applyFunction`, `Expr.eval`, `Path.nodes`, `Step.follow`.
-/
import Gleaner.Query.Token
import Gleaner.Query.Value

namespace Gleaner.Query

open Gleaner.Text Gleaner.Number Gleaner.Markup

/-- Where an expression is evaluated: a node, its position among the candidates, and their
number. -/
structure Context where
  node : Node
  position : Nat
  size : Nat

/-- A function applied to the values of its arguments. Functions of one text take that of the
context's node if they have no argument. -/
def applyFunction (d : Document) (c : Context) (function : Function) (arguments : List Value) :
    Except Reason Value :=
  let text (i : Nat) : String :=
    match arguments[i]? with
    | some value => value.toText d
    | none => c.node.stringValue d
  match function with
  | .last => .ok (.scalar (.number (floatOfInt c.size)))
  | .position => .ok (.scalar (.number (floatOfInt c.position)))
  | .true => .ok (.scalar (.boolean Bool.true))
  | .false => .ok (.scalar (.boolean Bool.false))
  | .count =>
    match arguments.head? with
    | some (.nodes nodes) => .ok (.scalar (.number (floatOfInt nodes.length)))
    | some (.strings strings) => .ok (.scalar (.number (floatOfInt strings.length)))
    | _ => .error .countOfValue
  | .contains => .ok (.scalar (.boolean (occursIn (text 1).toList (text 0).toList)))
  | .startsWith => .ok (.scalar (.boolean ((text 1).toList.isPrefixOf (text 0).toList)))
  | .normalizeSpace => .ok (.scalar (.text (normalizeBlanks (text 0))))
  | .stringLength => .ok (.scalar (.number (floatOfInt (text 0).length)))
  | .string => .ok (.scalar (.text (text 0)))
  | .not => .ok (.scalar (.boolean !(arguments.head?.any Value.toBool)))
  | .name =>
    match arguments.head? with
    | some (.nodes nodes) => .ok (.scalar (.text ((nodes.head?.map Node.name).getD "")))
    | some _ => .error .nameOfValue
    | none => .ok (.scalar (.text c.node.name))

/-- A condition's value holds at a position: a number holds at the position it names. -/
def holdsAt (position : Nat) : Value → Bool
  | .scalar (.number x) => x == floatOfInt position
  | value => value.toBool

/-- The candidates from the `position`-th on of which the condition holds. -/
def keepWhere (condition : Context → Except Reason Value) (size : Nat) (position : Nat) :
    List Node → Except Reason (List Node)
  | [] => .ok []
  | node :: rest => do
    let value ← condition ⟨node, position, size⟩
    let kept ← keepWhere condition size (position + 1) rest
    pure (if holdsAt position value then node :: kept else kept)

/-- The nodes that a function gives for each of a list's, one after another. -/
def gather (follow : Node → Except Reason (List Node)) : List Node → Except Reason (List Node)
  | [] => .ok []
  | node :: rest => do
    let found ← follow node
    let more ← gather follow rest
    pure (found ++ more)

/-- The strings that a last step reads off an element. -/
def ValueStep.read (e : Element) : ValueStep → List String
  | .text => e.texts
  | .attribute none => e.allAttributes.map (·.2)
  | .attribute (some name) =>
    (e.allAttributes.filter fun entry => sameName entry.1 name).map (·.2)

mutual

/-- The value of an expression. -/
def Expr.eval (d : Document) (c : Context) : Expr → Except Reason Value
  | .path path => path.eval d c.node
  | .union paths => (nodesOfPaths d c.node paths).map fun nodes => .nodes (nodesInOrder d nodes)
  | .literal text => .ok (.scalar (.text text))
  | .number value => .ok (.scalar (.number value))
  | .call function arguments => do
    let values ← evalAll d c arguments
    applyFunction d c function values
  | .binary left .or right => do
    let value ← left.eval d c
    if value.toBool then pure (.scalar (.boolean Bool.true))
    else (right.eval d c).map fun v => .scalar (.boolean v.toBool)
  | .binary left .and right => do
    let value ← left.eval d c
    if value.toBool then (right.eval d c).map fun v => .scalar (.boolean v.toBool)
    else pure (.scalar (.boolean Bool.false))
  | .binary left (.comparison comparison) right => do
    let a ← left.eval d c
    let b ← right.eval d c
    pure (.scalar (.boolean (a.compare d comparison b)))

/-- The values of a row of expressions. -/
def evalAll (d : Document) (c : Context) : List Expr → Except Reason (List Value)
  | [] => .ok []
  | e :: rest => do
    let value ← e.eval d c
    let values ← evalAll d c rest
    pure (value :: values)

/-- The value of a path: its nodes, or the strings that its last step reads off the elements among
them. -/
def Path.eval (d : Document) (node : Node) : Path → Except Reason Value
  | ⟨absolute, steps, value⟩ => do
    let nodes ← followSteps d steps [if absolute then .document else node]
    match value with
    | none => pure (.nodes nodes)
    | some step => pure (.strings ((nodes.filterMap Node.element?).flatMap step.read))

/-- The nodes of a path, without regard to a last step that reads values. -/
def Path.nodes (d : Document) (node : Node) : Path → Except Reason (List Node)
  | ⟨absolute, steps, _⟩ => followSteps d steps [if absolute then .document else node]

/-- The nodes of a row of paths, one after another. -/
def nodesOfPaths (d : Document) (node : Node) : List Path → Except Reason (List Node)
  | [] => .ok []
  | path :: rest => do
    let found ← path.nodes d node
    let more ← nodesOfPaths d node rest
    pure (found ++ more)

/-- The nodes that steps lead to, in document order after each step. -/
def followSteps (d : Document) : List Step → List Node → Except Reason (List Node)
  | [], nodes => .ok nodes
  | step :: rest, nodes => do
    let found ← gather (fun node => step.follow d node) nodes
    followSteps d rest (nodesInOrder d found)

/-- The nodes that a step leads to from a node, in the order of its axis. -/
def Step.follow (d : Document) (node : Node) : Step → Except Reason (List Node)
  | ⟨axis, test, predicates⟩ =>
    keepAll d predicates ((nodesAlong d axis node.place).filter test.accepts)

/-- The candidates of which all conditions hold, asked one condition after another. -/
def keepAll (d : Document) : List Expr → List Node → Except Reason (List Node)
  | [], nodes => .ok nodes
  | predicate :: rest, nodes => do
    let kept ← keepWhere (fun c => predicate.eval d c) nodes.length 1 nodes
    keepAll d rest kept

end

end Gleaner.Query
