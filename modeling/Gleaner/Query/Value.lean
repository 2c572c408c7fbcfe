/-
# Values of path queries

An expression gives nodes, the strings that a last step reads, or a scalar. Each value can be taken
as a text or as a truth. A comparison holds between two values when it holds between some scalars
that they stand for.

Key definitions: `Scalar`, `Value`, `Value.toText`, `Value.toBool`, `Value.operands`,
`Value.compare`.
-/
import Gleaner.Number.Layout
import Gleaner.Number.Read
import Gleaner.Query.Node

namespace Gleaner.Query

open Gleaner.Text Gleaner.Number Gleaner.Markup

/-- A single value. -/
inductive Scalar where
  | text (text : String)
  | number (value : Float)
  | boolean (value : Bool)

/-- What an expression gives. -/
inductive Value where
  | nodes (nodes : List Node)
  | strings (strings : List String)
  | scalar (scalar : Scalar)

/-- The double that is no number. -/
def notANumber : Float := 0.0 / 0.0

/-- The number that a text writes between blanks. -/
def numberOfText (text : String) : Float :=
  match readFloat (trimmed text) with
  | .ok x => x
  | .error _ => notANumber

/-- A number as text; a whole number is written as an integer of 64 bits. -/
def textOfNumber (x : Float) : String :=
  if isWhole x && isFiniteFloat x then toString (clampedInt64 x) else plainLayout.write x

/-- A scalar as a number. -/
def Scalar.toNumber : Scalar → Float
  | .text t => numberOfText t
  | .number x => x
  | .boolean b => if b then 1 else 0

/-- A scalar as a truth. -/
def Scalar.toBool : Scalar → Bool
  | .text t => !t.isEmpty
  | .number x => x != 0 && !x.isNaN
  | .boolean b => b

/-- A scalar as a text. -/
def Scalar.toText : Scalar → String
  | .text t => t
  | .number x => textOfNumber x
  | .boolean b => if b then "true" else "false"

/-- A value as a truth: there is a node or a string, or the scalar is true. -/
def Value.toBool : Value → Bool
  | .nodes list => !list.isEmpty
  | .strings list => !list.isEmpty
  | .scalar s => s.toBool

/-- A value as a text: that of the first node or string, or of the scalar. -/
def Value.toText (d : Document) : Value → String
  | .nodes list => (list.head?.map (Node.stringValue d)).getD ""
  | .strings list => list.headD ""
  | .scalar s => s.toText

/-- Two scalars are equal as truths if one is a truth, else as numbers if one is a number, else as
texts. -/
def Scalar.agrees : Scalar → Scalar → Bool
  | .boolean b, s | s, .boolean b => b == s.toBool
  | .number x, s | s, .number x => x == s.toNumber
  | .text s, .text t => s == t

/-- A comparison holds between two scalars; order is that of numbers. -/
def Scalar.compare (comparison : Comparison) (a b : Scalar) : Bool :=
  match comparison with
  | .equal => a.agrees b
  | .notEqual => !a.agrees b
  | .less | .atMost | .greater | .atLeast =>
    comparison.accepts (orderOfFloats? a.toNumber b.toNumber)

/-- The texts of a row of texts for a comparison with another value: compared with a truth, the row
is the truth that it is not empty. -/
def textsAgainst (texts : List String) : Value → List Scalar
  | .scalar (.boolean _) => [.boolean !texts.isEmpty]
  | _ => texts.map .text

/-- The scalars that a value stands for in a comparison with another. -/
def Value.operands (d : Document) (value other : Value) : List Scalar :=
  match value with
  | .nodes list => textsAgainst (list.map (Node.stringValue d)) other
  | .strings list => textsAgainst list other
  | .scalar s => [s]

/-- A comparison holds between some scalar of one value and some of the other. -/
def Value.compare (d : Document) (comparison : Comparison) (left right : Value) : Bool :=
  (left.operands d right).any fun a =>
    (right.operands d left).any fun b => Scalar.compare comparison a b

end Gleaner.Query
