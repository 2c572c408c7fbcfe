/-
# Path queries

A path query selects elements: it is a path, or a union of paths, that does not end in a step that
reads values. A path that does not start from the document may match anywhere in it.

Key definitions: `Query`, `Query.Fault`, `Query.read`, `Query.elements`.
-/
import Gleaner.Query.Evaluation
import Gleaner.Query.Grammar

namespace Gleaner

open Gleaner.Query Gleaner.Markup

/-- A path query. -/
structure Query where
  /-- The query as it is written. -/
  text : String
  expr : Query.Expr

namespace Query

/-- A path query that cannot be read or evaluated. -/
structure Fault where
  query : String
  reason : Reason

/-- The wording of a fault. -/
def Fault.message (f : Fault) : String :=
  s!"XPath evaluation of `{f.query}` failed: {f.reason.message}"

/-- A path from the document; one that stands elsewhere may begin at any node. -/
def Path.anywhere (path : Path) : Path :=
  if path.absolute then path else ⟨true, Step.selfAndBelow :: path.steps, path.value⟩

/-- A path to elements that starts from the document. -/
def elementsAnywhere (path : Path) : Except Reason Path :=
  if path.value.isSome then .error .endsInValues else .ok path.anywhere

/-- Paths to elements that start from the document, or the reason of the first that is none. -/
def allAnywhere : List Path → Except Reason (List Path)
  | [] => .ok []
  | path :: rest => do
    let first ← elementsAnywhere path
    let others ← allAnywhere rest
    pure (first :: others)

/-- The expression of a query over a whole document. -/
def ofExpr : Expr → Except Reason Expr
  | .path path => (elementsAnywhere path).map .path
  | .union paths => (allAnywhere paths).map .union
  | _ => .error .selectsNoElements

/-- The expression that a text writes as a query. -/
def readExpr (text : List Char) : Except Reason Expr := do
  let tokens ← tokenize text
  let expr ← parseExpr tokens
  ofExpr expr

/-- The query that a text writes. -/
def read (text : String) : Except Fault Query :=
  match readExpr text.toList with
  | .ok expr => .ok ⟨text, expr⟩
  | .error reason => .error ⟨text, reason⟩

/-- The elements that an expression selects from a document. -/
def elementsOf (d : Document) (expr : Expr) : Except Reason (List Element) :=
  match expr.eval d ⟨.document, 1, 1⟩ with
  | .ok (.nodes list) => .ok (list.filterMap Node.element?)
  | .ok _ => .error .selectsNoElements
  | .error reason => .error reason

/-- The elements that a query selects from a document, in document order. -/
def elements (q : Query) (d : Document) : Except Fault (List Element) :=
  match elementsOf d q.expr with
  | .ok list => .ok list
  | .error reason => .error ⟨q.text, reason⟩

end Query
end Gleaner
