/-
# Reading path queries

Operators bind in four levels, `or` weakest, then `and`, then equality, then order, and group to
the left; a union binds tighter than any of them. A name is an operator, a function, an axis or the
name of an element by what stands around it. Every reader returns what it leaves, which is shorter
than what it was given, so reading ends.

Key definitions: `operatorAt?`, `parseLevel`, `parsePath`, `parseExpr`.
-/
import Gleaner.Query.Expression
import Gleaner.Query.Token

namespace Gleaner.Query

open Gleaner.Text Gleaner.Markup

/-- The operator that a token is at a level of binding, from the weakest to the tightest. -/
def operatorAt? (level : Nat) (token : Token) : Option Operator :=
  match level, token with
  | 0, .name "or" => some .or
  | 1, .name "and" => some .and
  | 2, .equal => some (.comparison .equal)
  | 2, .notEqual => some (.comparison .notEqual)
  | 3, .less => some (.comparison .less)
  | 3, .atMost => some (.comparison .atMost)
  | 3, .greater => some (.comparison .greater)
  | 3, .atLeast => some (.comparison .atLeast)
  | _, _ => none

/-- A reading that takes at least one token. -/
abbrev Parsed (α : Type) (tokens : List Token) : Type :=
  Except Reason (α × Remainder tokens)

/-- A reading that may take nothing. -/
abbrev Continued (α : Type) (tokens : List Token) : Type :=
  Except Reason (α × { rest : List Token // rest.length ≤ tokens.length })

/-- A token can begin a step. -/
def startsStep : List Token → Bool
  | .name _ :: _ | .star :: _ | .at :: _ | .dot :: _ | .doubleDot :: _ => true
  | _ => false

/-- The path that an operand of a union is. -/
def elementPath : Expr → Except Reason Path
  | .path p =>
    match p.value with
    | none => .ok p
    | some _ => .error .unionOfValues
  | _ => .error .unionOfValues

theorem elementPath_path {path : Path} (h : path.value = none) :
    elementPath (.path path) = .ok path := by
  rw [elementPath, h]

theorem elementPath_eq_ok_iff {e : Expr} {path : Path} :
    elementPath e = .ok path ↔ e = .path path ∧ path.value = none := by
  constructor
  · intro h
    unfold elementPath at h
    split at h
    · split at h
      · next hvalue =>
        cases h
        exact ⟨rfl, hvalue⟩
      · cases h
    · cases h
  · rintro ⟨rfl, hvalue⟩
    exact elementPath_path hvalue

/-- A call with its arguments, if the function takes so many. -/
def callOf (name : String) (function : Function) (arguments : List Expr) : Except Reason Expr :=
  let (least, most) := function.arity
  if arguments.length < least ∨ most < arguments.length then
    .error (.wrongArity name least most arguments.length)
  else .ok (.call function arguments)

/-- What one step of a path is. -/
inductive Piece where
  | step (step : Step)
  | value (value : ValueStep)

/-- The name of an attribute, or a star for all of them, after the sign or the axis. -/
def parseAttribute (tokens : List Token) : Parsed Piece tokens :=
  match tokens with
  | .name _ :: .openBracket :: _ => .error .predicateOnAttribute
  | .star :: .openBracket :: _ => .error .predicateOnAttribute
  | .name name :: rest => .ok (.value (.attribute (some name)), ⟨rest, by simp⟩)
  | .star :: rest => .ok (.value (.attribute none), ⟨rest, by simp⟩)
  | _ => .error .missingAttributeName

mutual

/-- An expression whose operators bind at least as tight as the level. -/
def parseLevel (level : Nat) (tokens : List Token) : Parsed Expr tokens :=
  if level < 4 then do
    let (left, ⟨rest, _⟩) ← parseLevel (level + 1) tokens
    let (e, ⟨rest, _⟩) ← parseOperators level left rest
    pure (e, ⟨rest, by omega⟩)
  else parseUnion tokens
termination_by (tokens.length, 10 + (4 - level))

/-- An expression that goes on from its left operand with operators of one level. -/
def parseOperators (level : Nat) (left : Expr) (tokens : List Token) : Continued Expr tokens :=
  match tokens with
  | [] => .ok (left, ⟨[], Nat.le_refl _⟩)
  | token :: rest =>
    match operatorAt? level token with
    | none => .ok (left, ⟨token :: rest, Nat.le_refl _⟩)
    | some op => do
      let (right, ⟨more, _⟩) ← parseLevel (level + 1) rest
      let (e, ⟨left, _⟩) ← parseOperators level (.binary left op right) more
      pure (e, ⟨left, by grind⟩)
termination_by (tokens.length, 0)

/-- One operand, or paths with bars between them. -/
def parseUnion (tokens : List Token) : Parsed Expr tokens := do
  let (first, ⟨rest, shorter⟩) ← parsePrimary tokens
  match rest with
  | .pipe :: _ => do
    let path ← elementPath first
    let (paths, ⟨left, _⟩) ← parseOperands rest
    pure (.union (path :: paths), ⟨left, by grind⟩)
  | _ => pure (first, ⟨rest, shorter⟩)
termination_by (tokens.length, 9)

/-- The further operands of a union, each after a bar. -/
def parseOperands (tokens : List Token) : Continued (List Path) tokens :=
  match tokens with
  | .pipe :: rest => do
    let (operand, ⟨more, _⟩) ← parsePrimary rest
    let path ← elementPath operand
    let (paths, ⟨left, _⟩) ← parseOperands more
    pure (path :: paths, ⟨left, by grind⟩)
  | rest => pure ([], ⟨rest, Nat.le_refl _⟩)
termination_by (tokens.length, 0)

/-- A literal, a number, an expression in parentheses, a call, or a path. -/
def parsePrimary (tokens : List Token) : Parsed Expr tokens :=
  match tokens with
  | .literal text :: rest => .ok (.literal text, ⟨rest, by simp⟩)
  | .number value :: rest => .ok (.number value, ⟨rest, by simp⟩)
  | .openParen :: rest => do
    let (e, ⟨more, _⟩) ← parseLevel 0 rest
    match h : more with
    | .closeParen :: left => pure (e, ⟨left, by grind⟩)
    | _ => .error (.expected .closeParen)
  | .name name :: .openParen :: rest =>
    if name = "text" ∨ name = "node" then do
      let (path, left) ← parsePath (.name name :: .openParen :: rest)
      pure (.path path, left)
    else
      match Function.ofName? name with
      | none => .error (.unsupportedFunction name)
      | some function =>
        match h : rest with
        | .closeParen :: left => do
          let e ← callOf name function []
          pure (e, ⟨left, by grind⟩)
        | _ => do
          let (arguments, ⟨left, _⟩) ← parseArguments rest
          let e ← callOf name function arguments
          pure (e, ⟨left, by grind⟩)
  | tokens => do
    let (path, left) ← parsePath tokens
    pure (.path path, left)
termination_by (tokens.length, 8)

/-- The arguments of a call up to its closing parenthesis, of which there is at least one. -/
def parseArguments (tokens : List Token) : Parsed (List Expr) tokens := do
  let (e, ⟨rest, _⟩) ← parseLevel 0 tokens
  match h : rest with
  | .closeParen :: left => pure ([e], ⟨left, by grind⟩)
  | .comma :: more => do
    have : more.length < tokens.length := by grind
    let (others, ⟨left, _⟩) ← parseArguments more
    pure (e :: others, ⟨left, by grind⟩)
  | _ => .error (.expected .comma)
termination_by (tokens.length, 20)

/-- A path, from the document after a slash, or else from where it stands. -/
def parsePath (tokens : List Token) : Parsed Path tokens :=
  match tokens with
  | .slash :: rest =>
    if startsStep rest then do
      let (path, ⟨left, _⟩) ← parseSteps true [] rest
      pure (path, ⟨left, by grind⟩)
    else pure (⟨true, [], none⟩, ⟨rest, by simp⟩)
  | .doubleSlash :: rest => do
    let (path, ⟨left, _⟩) ← parseSteps true [.selfAndBelow] rest
    pure (path, ⟨left, by grind⟩)
  | tokens =>
    if startsStep tokens then parseSteps false [] tokens else .error (.noStep tokens.head?)
termination_by (tokens.length, 7)

/-- The rest of a path whose steps so far are given. -/
def parseSteps (absolute : Bool) (steps : List Step) (tokens : List Token) :
    Parsed Path tokens := do
  let (piece, ⟨rest, shorter⟩) ← parseStep tokens
  match piece with
  | .value value =>
    match h : rest with
    | .slash :: _ | .doubleSlash :: _ => .error .valueStepNotLast
    | _ => pure (⟨absolute, steps, some value⟩, ⟨rest, shorter⟩)
  | .step step =>
    match h : rest with
    | .slash :: more => do
      have : more.length < tokens.length := by grind
      let (path, ⟨left, _⟩) ← parseSteps absolute (steps ++ [step]) more
      pure (path, ⟨left, by grind⟩)
    | .doubleSlash :: more => do
      have : more.length < tokens.length := by grind
      let (path, ⟨left, _⟩) ← parseSteps absolute (steps ++ [step, .selfAndBelow]) more
      pure (path, ⟨left, by grind⟩)
    | _ => pure (⟨absolute, steps ++ [step], none⟩, ⟨rest, shorter⟩)
termination_by (tokens.length, 6)

/-- One step. -/
def parseStep (tokens : List Token) : Parsed Piece tokens :=
  match tokens with
  | .dot :: rest => .ok (.step ⟨.self, .anyNode, []⟩, ⟨rest, by simp⟩)
  | .doubleDot :: rest => .ok (.step ⟨.parent, .anyNode, []⟩, ⟨rest, by simp⟩)
  | .at :: rest => do
    let (piece, ⟨left, _⟩) ← parseAttribute rest
    pure (piece, ⟨left, by grind⟩)
  | .name name :: .doubleColon :: rest =>
    if name = "attribute" then do
      let (piece, ⟨left, _⟩) ← parseAttribute rest
      pure (piece, ⟨left, by grind⟩)
    else
      match axisOfName? name with
      | none => .error (.unsupportedAxis name)
      | some axis => do
        let (piece, ⟨left, _⟩) ← parseNodeTest axis rest
        pure (piece, ⟨left, by grind⟩)
  | [] => .error .missingStep
  | tokens => parseNodeTest .child tokens
termination_by (tokens.length, 5)

/-- A node test along an axis, with its conditions. -/
def parseNodeTest (axis : Axis) (tokens : List Token) : Parsed Piece tokens :=
  match tokens with
  | .star :: rest => do
    let (predicates, ⟨left, _⟩) ← parsePredicates rest
    pure (.step ⟨axis, .anyElement, predicates⟩, ⟨left, by grind⟩)
  | .name name :: .openParen :: rest =>
    match h : rest with
    | .closeParen :: more =>
      if name = "node" then do
        let (predicates, ⟨left, _⟩) ← parsePredicates more
        pure (.step ⟨axis, .anyNode, predicates⟩, ⟨left, by grind⟩)
      else if name = "text" ∧ axis = .child then
        match h : more with
        | .openBracket :: _ => .error .predicateOnText
        | _ => .ok (.value .text, ⟨more, by grind⟩)
      else .error (.unsupportedNodeTest name)
    | _ => .error (.expected .closeParen)
  | .name name :: rest => do
    let (predicates, ⟨left, _⟩) ← parsePredicates rest
    pure (.step ⟨axis, .named name, predicates⟩, ⟨left, by grind⟩)
  | _ => .error .missingNodeTest
termination_by (tokens.length, 4)

/-- Conditions, each between brackets. -/
def parsePredicates (tokens : List Token) : Continued (List Expr) tokens :=
  match tokens with
  | .openBracket :: rest => do
    let (e, ⟨more, _⟩) ← parseLevel 0 rest
    match h : more with
    | .closeBracket :: others => do
      have : others.length < rest.length := by grind
      let (predicates, ⟨left, _⟩) ← parsePredicates others
      pure (e :: predicates, ⟨left, by grind⟩)
    | _ => .error (.expected .closeBracket)
  | rest => pure ([], ⟨rest, Nat.le_refl _⟩)
termination_by (tokens.length, 0)

end

/-- The expression that a whole row of tokens writes. -/
def parseExpr (tokens : List Token) : Except Reason Expr := do
  let (e, ⟨rest, _⟩) ← parseLevel 0 tokens
  match rest with
  | [] => pure e
  | token :: _ => .error (.unexpected token)

end Gleaner.Query
