/-
# Comparisons

A comparison is decided by how its operands stand to each other, if they can be ordered at all.
Operands that cannot, such as a double that is no number, are unequal and nothing else.

Key definitions: `Comparison`, `Comparison.accepts`, `orderOfFloats?`.
Key theorems: `accepts_notEqual`.
-/

namespace Gleaner

/-- A sign that compares two operands. -/
inductive Comparison where
  | equal
  | notEqual
  | less
  | atMost
  | greater
  | atLeast
  deriving DecidableEq, Repr

/-- A comparison holds for operands that stand to each other as given. -/
def Comparison.accepts (comparison : Comparison) (order : Option Ordering) : Bool :=
  match comparison with
  | .equal => order == some .eq
  | .notEqual => order != some .eq
  | .less => order == some .lt
  | .atMost => order == some .lt || order == some .eq
  | .greater => order == some .gt
  | .atLeast => order == some .gt || order == some .eq

/-- How two doubles stand to each other, if both are numbers. -/
def orderOfFloats? (x y : Float) : Option Ordering :=
  if x < y then some .lt
  else if x == y then some .eq
  else if y < x then some .gt
  else none

theorem Comparison.accepts_notEqual (order : Option Ordering) :
    Comparison.notEqual.accepts order = !Comparison.equal.accepts order :=
  rfl

end Gleaner
