/-
# Reading path queries with a cursor

A query is read as it is otherwise, but by a walk of one cursor over all its tokens. A token is taken
by moving the cursor on, whether or not there is one, and the first token of a node test is put back
once it is known that no axis comes first. Nothing in the definitions keeps the cursor among the
tokens or lets a walk end with the calls that it may make.

Key definitions: `take`, `putBack`, `walkLevel`, `walkPrimary`, `walkPath`, `walkStep`, `walkExpr`.
-/
import Gleaner.Query.Grammar
import Gleaner.Walk

namespace Gleaner.Query

open Gleaner.Markup Gleaner.Walk

deriving instance BEq for Token

variable (tokens : List Token)

/-! ### Single tokens -/

/-- Takes the token at the cursor, if there is one. The cursor is moved on in any case. -/
def take : Walk Reason (Option Token) := do
  let token ← peek tokens
  move 1
  return token

/-- Moves the cursor back in front of the last token. -/
def putBack : Walk Reason Unit := do
  if (← here) = 0 then outside else modify fun cursor => cursor.movedTo (cursor.place - 1)

/-- A token comes next. -/
def comesNext (token : Token) : Walk Reason Bool :=
  return (← peek tokens) == some token

/-- Passes over a token, if it comes next. -/
def eat (token : Token) : Walk Reason Bool := do
  if ← comesNext tokens token then
    move 1
    return true
  else return false

/-- Passes over a token that has to come next. -/
def walkToken (token : Token) : Walk Reason Unit := do
  if ← eat tokens token then return () else halt (.expected token)

/-- A walk that only tells what has come about. -/
def settle {α : Type} : Except Reason α → Walk Reason α
  | .ok a => return a
  | .error reason => halt reason

/-- The name of an attribute, or a star for all of them, after the sign or the axis. -/
def walkAttribute : Walk Reason Piece := do
  let name ← match ← take tokens with
    | some (.name name) => pure (some name)
    | some .star => pure none
    | _ => halt .missingAttributeName
  if ← comesNext tokens .openBracket then halt .predicateOnAttribute
  else return .value (.attribute name)

/-! ### Expressions and paths -/

mutual

/-- An expression whose operators bind at least as tight as the level, where only so many calls may
lie in one another. -/
def walkLevel : (calls level : Nat) → Walk Reason Expr
  | 0, _ => unfinished
  | calls + 1, level => do
    if level < 4 then
      let left ← walkLevel calls (level + 1)
      walkOperators calls level left
    else walkUnion calls

/-- An expression that goes on from its left operand with operators of one level. -/
def walkOperators : (calls level : Nat) → (left : Expr) → Walk Reason Expr
  | 0, _, _ => unfinished
  | calls + 1, level, left => do
    match (← peek tokens).bind (operatorAt? level) with
    | none => return left
    | some operator =>
      move 1
      let right ← walkLevel calls (level + 1)
      walkOperators calls level (.binary left operator right)

/-- One operand, or paths with bars between them. -/
def walkUnion : (calls : Nat) → Walk Reason Expr
  | 0 => unfinished
  | calls + 1 => do
    let first ← walkPrimary calls
    if ← comesNext tokens .pipe then
      let path ← settle (elementPath first)
      return .union (path :: (← walkOperands calls))
    else return first

/-- The further operands of a union, each after a bar. -/
def walkOperands : (calls : Nat) → Walk Reason (List Path)
  | 0 => unfinished
  | calls + 1 => do
    if ← eat tokens .pipe then
      let operand ← walkPrimary calls
      let path ← settle (elementPath operand)
      return path :: (← walkOperands calls)
    else return []

/-- A literal, a number, an expression in parentheses, a call, or a path. -/
def walkPrimary : (calls : Nat) → Walk Reason Expr
  | 0 => unfinished
  | calls + 1 => do
    match ← peek tokens with
    | some (.literal text) =>
      move 1
      return .literal text
    | some (.number value) =>
      move 1
      return .number value
    | some .openParen =>
      move 1
      let e ← walkLevel calls 0
      walkToken tokens .closeParen
      return e
    | some (.name name) =>
      let second := tokens[(← here) + 1]?
      if second == some .openParen && !(name == "text" || name == "node") then
        move 2
        walkCall calls name
      else return .path (← walkPath calls)
    | _ => return .path (← walkPath calls)

/-- A call from behind its opening parenthesis. -/
def walkCall : (calls : Nat) → (name : String) → Walk Reason Expr
  | 0, _ => unfinished
  | calls + 1, name => do
    match Function.ofName? name with
    | none => halt (.unsupportedFunction name)
    | some function =>
      if ← eat tokens .closeParen then settle (callOf name function [])
      else settle (callOf name function (← walkArguments calls))

/-- The arguments of a call up to its closing parenthesis, of which there is at least one. -/
def walkArguments : (calls : Nat) → Walk Reason (List Expr)
  | 0 => unfinished
  | calls + 1 => do
    let e ← walkLevel calls 0
    if ← eat tokens .closeParen then return [e]
    else
      walkToken tokens .comma
      return e :: (← walkArguments calls)

/-- A path, from the document after a slash, or else from where it stands. -/
def walkPath : (calls : Nat) → Walk Reason Path
  | 0 => unfinished
  | calls + 1 => do
    match ← peek tokens with
    | some .slash =>
      move 1
      if startsStep (← peek tokens).toList then walkSteps calls true [] else return ⟨true, [], none⟩
    | some .doubleSlash =>
      move 1
      walkSteps calls true [.selfAndBelow]
    | token =>
      if startsStep token.toList then walkSteps calls false [] else halt (.noStep token)

/-- The rest of a path whose steps so far are given. -/
def walkSteps : (calls : Nat) → (absolute : Bool) → (steps : List Step) → Walk Reason Path
  | 0, _, _ => unfinished
  | calls + 1, absolute, steps => do
    match ← walkStep calls with
    | .value value =>
      match ← peek tokens with
      | some .slash | some .doubleSlash => halt .valueStepNotLast
      | _ => return ⟨absolute, steps, some value⟩
    | .step step =>
      match ← peek tokens with
      | some .slash =>
        move 1
        walkSteps calls absolute (steps ++ [step])
      | some .doubleSlash =>
        move 1
        walkSteps calls absolute (steps ++ [step, .selfAndBelow])
      | _ => return ⟨absolute, steps ++ [step], none⟩

/-- One step. -/
def walkStep : (calls : Nat) → Walk Reason Piece
  | 0 => unfinished
  | calls + 1 => do
    match ← take tokens with
    | some .dot => return .step ⟨.self, .anyNode, []⟩
    | some .doubleDot => return .step ⟨.parent, .anyNode, []⟩
    | some .at => walkAttribute tokens
    | some (.name name) =>
      if ← comesNext tokens .doubleColon then
        move 1
        if name = "attribute" then walkAttribute tokens
        else
          match axisOfName? name with
          | none => halt (.unsupportedAxis name)
          | some axis => walkNodeTest calls axis
      else
        putBack
        walkNodeTest calls .child
    | some _ =>
      putBack
      walkNodeTest calls .child
    | none => halt .missingStep

/-- A node test along an axis, with its conditions. -/
def walkNodeTest : (calls : Nat) → (axis : Axis) → Walk Reason Piece
  | 0, _ => unfinished
  | calls + 1, axis => do
    match ← take tokens with
    | some .star => return .step ⟨axis, .anyElement, ← walkPredicates calls⟩
    | some (.name name) =>
      if ← comesNext tokens .openParen then
        move 1
        walkToken tokens .closeParen
        if name = "node" then return .step ⟨axis, .anyNode, ← walkPredicates calls⟩
        else if name = "text" ∧ axis = .child then
          if ← comesNext tokens .openBracket then halt .predicateOnText else return .value .text
        else halt (.unsupportedNodeTest name)
      else return .step ⟨axis, .named name, ← walkPredicates calls⟩
    | _ => halt .missingNodeTest

/-- Conditions, each between brackets. -/
def walkPredicates : (calls : Nat) → Walk Reason (List Expr)
  | 0 => unfinished
  | calls + 1 => do
    if ← eat tokens .openBracket then
      let e ← walkLevel calls 0
      walkToken tokens .closeBracket
      return e :: (← walkPredicates calls)
    else return []

end

/-- How many calls may lie in one another in an expression: from one token to the next it takes
thirteen at the most, which is so for a call with arguments. -/
def callsFor : Nat :=
  13 * (tokens.length + 1)

/-- The expression that all tokens write. -/
def walkExpr : Walk Reason Expr := do
  let e ← walkLevel tokens (callsFor tokens) 0
  match ← peek tokens with
  | none => return e
  | some token => halt (.unexpected token)

end Gleaner.Query
