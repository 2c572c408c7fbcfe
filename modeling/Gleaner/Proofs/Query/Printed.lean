/-
# Expressions as rows of tokens

An expression is put down in one way. Every step names its axis; a function goes by the first of its
names; the path to the document alone stands in parentheses, since a name behind its slash would be
read as its first step. Apart from that, only an operand has parentheses: the left one where it
binds less tight than the operator, the right one where it does not bind tighter, for operators of
one level group to the left.

Key definitions: `Function.written`, `axisName`, `Operator.level`, `Operator.token`,
`Expr.binding`, `Expr.tokens`, `Path.tokens`, `Step.tokens`, `Expr.tokensAt`.
Key theorems: `operatorAt?_token`, `Expr.tokens_binary`.
-/
import Gleaner.Query.Grammar

namespace Gleaner.Query

open Gleaner.Markup

/-! ### Names and signs -/

/-- The name under which a function is called. -/
def Function.written : Function → String
  | .last => "last"
  | .position => "position"
  | .count => "count"
  | .contains => "contains"
  | .startsWith => "starts-with"
  | .normalizeSpace => "normalize-space"
  | .stringLength => "string-length"
  | .string => "string"
  | .name => "name"
  | .not => "not"
  | .true => "true"
  | .false => "false"

theorem ofName?_written (function : Function) :
    Function.ofName? function.written = some function := by
  cases function <;> rfl

/-- No function has the name of a node test. -/
theorem written_ne_nodeTest (function : Function) :
    ¬ (function.written = "text" ∨ function.written = "node") := by
  cases function <;> decide

/-- The name of an axis. -/
def axisName : Axis → String
  | .child => "child"
  | .descendant => "descendant"
  | .descendantOrSelf => "descendant-or-self"
  | .self => "self"
  | .parent => "parent"
  | .ancestor => "ancestor"
  | .ancestorOrSelf => "ancestor-or-self"
  | .followingSibling => "following-sibling"
  | .precedingSibling => "preceding-sibling"

theorem axisOfName?_axisName (axis : Axis) : axisOfName? (axisName axis) = some axis := by
  cases axis <;> rfl

theorem axisName_ne_attribute (axis : Axis) : axisName axis ≠ "attribute" := by
  cases axis <;> decide

def NodeTest.tokens : NodeTest → List Token
  | .named name => [.name name]
  | .anyElement => [.star]
  | .anyNode => [.name "node", .openParen, .closeParen]

def ValueStep.tokens : ValueStep → List Token
  | .text => [.name "text", .openParen, .closeParen]
  | .attribute (some name) => [.at, .name name]
  | .attribute none => [.at, .star]

/-- The level at which an operator binds, from the weakest. -/
def Operator.level : Operator → Nat
  | .or => 0
  | .and => 1
  | .comparison .equal | .comparison .notEqual => 2
  | .comparison _ => 3

theorem Operator.level_lt (op : Operator) : op.level < 4 := by
  match op with
  | .or | .and => decide
  | .comparison c => cases c <;> decide

def Operator.token : Operator → Token
  | .or => .name "or"
  | .and => .name "and"
  | .comparison .equal => .equal
  | .comparison .notEqual => .notEqual
  | .comparison .less => .less
  | .comparison .atMost => .atMost
  | .comparison .greater => .greater
  | .comparison .atLeast => .atLeast

/-- The token of an operator is that operator at its own level. -/
theorem operatorAt?_token (op : Operator) : operatorAt? op.level op.token = some op := by
  match op with
  | .or | .and => rfl
  | .comparison c => cases c <;> rfl

/-- At any other level it is none. -/
theorem operatorAt?_token_of_ne {op : Operator} {level : Nat} (h : level ≠ op.level) :
    operatorAt? level op.token = none := by
  match op with
  | .or | .and => simp_all [operatorAt?, Operator.token, Operator.level]
  | .comparison c => cases c <;> simp_all [operatorAt?, Operator.token, Operator.level]

/-! ### Expressions -/

/-- How tight an expression binds: as its operator does, and tighter than any if it has none. -/
def Expr.binding : Expr → Nat
  | .binary _ op _ => op.level
  | _ => 4

/-- The tokens stand in parentheses where these are needed. -/
def parenthesized (needed : Bool) (tokens : List Token) : List Token :=
  if needed then .openParen :: (tokens ++ [.closeParen]) else tokens

mutual

/-- The tokens that an expression is put down in. -/
def Expr.tokens : Expr → List Token
  | .path path => path.tokens
  | .union paths => List.intercalate [.pipe] (paths.map Path.tokens)
  | .literal text => [.literal text]
  | .number value => [.number value]
  | .call function arguments =>
    .name function.written :: .openParen ::
      (List.intercalate [.comma] (arguments.map Expr.tokens) ++ [.closeParen])
  | .binary left op right =>
    parenthesized (left.binding < op.level) left.tokens ++
      op.token :: parenthesized (right.binding ≤ op.level) right.tokens

/-- The tokens of a path. -/
def Path.tokens : Path → List Token
  | ⟨true, [], none⟩ => [.openParen, .slash, .closeParen]
  | ⟨absolute, steps, value⟩ =>
    (if absolute then [.slash] else []) ++
      List.intercalate [.slash] (steps.map Step.tokens ++ value.toList.map ValueStep.tokens)

/-- The tokens of a step. -/
def Step.tokens : Step → List Token
  | ⟨axis, test, predicates⟩ =>
    .name (axisName axis) :: .doubleColon :: (test.tokens ++
      predicates.flatMap fun e => .openBracket :: e.tokens ++ [.closeBracket])

end

/-- An expression as it is put down where one that binds as tight as the level is asked for. -/
def Expr.tokensAt (level : Nat) (e : Expr) : List Token :=
  parenthesized (e.binding < level) e.tokens

theorem Expr.tokensAt_zero (e : Expr) : e.tokensAt 0 = e.tokens := by
  simp [Expr.tokensAt, parenthesized]

/-- An expression without an operator is put down alike everywhere. -/
theorem Expr.tokensAt_of_binding {level : Nat} {e : Expr} (h : level ≤ e.binding) :
    e.tokensAt level = e.tokens := by
  have hneeded : ¬ e.binding < level := by omega
  simp [Expr.tokensAt, parenthesized, hneeded]

/-- An operand to the left binds at least as tight as the operator, one to the right tighter. -/
theorem Expr.tokens_binary (left right : Expr) (op : Operator) :
    (Expr.binary left op right).tokens =
      left.tokensAt op.level ++ op.token :: right.tokensAt (op.level + 1) := by
  rw [Expr.tokens, Expr.tokensAt, Expr.tokensAt]
  simp only [Nat.lt_succ_iff]

end Gleaner.Query
