/-
# Comparisons of path queries, read from the other side

A comparison of two values holds when it holds between some scalars that they stand for. Scalars are
compared as truths, as numbers or as texts, whichever side asks for it, and each of these has an
order that is swapped when the sides change places. So a comparison between two values holds exactly
when the mirrored one holds between them the other way round.

Key definitions: `Comparison.mirrored`.
Key theorems: `accepts_mirrored`, `Scalar.compare_swapped`, `Value.compare_mirrored`.
-/
import Gleaner.Proofs.Number.Order
import Gleaner.Query.Value

namespace Gleaner

/-- The comparison that holds from right to left where this one holds from left to right. -/
def Comparison.mirrored : Comparison → Comparison
  | .equal => .equal
  | .notEqual => .notEqual
  | .less => .greater
  | .atMost => .atLeast
  | .greater => .less
  | .atLeast => .atMost

/-- A mirrored comparison holds for operands that stand to each other the other way round. -/
theorem Comparison.accepts_mirrored (comparison : Comparison) (order : Option Ordering) :
    comparison.mirrored.accepts (order.map Ordering.swap) = comparison.accepts order := by
  cases order with
  | none => cases comparison <;> rfl
  | some o => cases comparison <;> cases o <;> rfl

namespace Query

open Gleaner.Number Gleaner.Markup

/-- Whichever side asks to be compared as a truth or as a number, both are. -/
theorem Scalar.agrees_comm (a b : Scalar) : a.agrees b = b.agrees a := by
  cases a with
  | text s =>
    cases b with
    | text t => exact Bool.beq_comm
    | number y => rfl
    | boolean q => rfl
  | number x =>
    cases b with
    | text t => rfl
    | number y => exact beq_swap x y
    | boolean q => rfl
  | boolean p =>
    cases b with
    | text t => rfl
    | number y => rfl
    | boolean q => exact Bool.beq_comm

theorem Scalar.compare_swapped (comparison : Comparison) (a b : Scalar) :
    Scalar.compare comparison a b = Scalar.compare comparison.mirrored b a := by
  have horder (c : Comparison) :
      c.accepts (orderOfFloats? a.toNumber b.toNumber) =
        c.mirrored.accepts (orderOfFloats? b.toNumber a.toNumber) := by
    rw [orderOfFloats?_swap a.toNumber b.toNumber, c.accepts_mirrored]
  cases comparison with
  | equal => exact a.agrees_comm b
  | notEqual => exact congrArg (!·) (a.agrees_comm b)
  | less => exact horder .less
  | atMost => exact horder .atMost
  | greater => exact horder .greater
  | atLeast => exact horder .atLeast

/-- Two rows hold a pair whichever of them is gone through first. -/
theorem any_any_comm {α β : Type} (related : α → β → Bool) (first : List α) (second : List β) :
    (first.any fun a => second.any fun b => related a b) =
      second.any fun b => first.any fun a => related a b := by
  rw [Bool.eq_iff_iff]
  simp only [List.any_eq_true]
  constructor
  · rintro ⟨a, ha, b, hb, h⟩
    exact ⟨b, hb, a, ha, h⟩
  · rintro ⟨b, hb, a, ha, h⟩
    exact ⟨a, ha, b, hb, h⟩

/-- **Comparisons mirror.** A comparison between two values of any kinds holds exactly when the
mirrored one holds between them the other way round: equality and its contrary do not ask for the
order of their sides, less is greater from the other side, and at most is at least. -/
theorem Value.compare_mirrored (d : Document) (comparison : Comparison) (left right : Value) :
    left.compare d comparison right = right.compare d comparison.mirrored left := by
  unfold Value.compare
  rw [any_any_comm]
  congr 1
  funext b
  congr 1
  funext a
  exact Scalar.compare_swapped comparison a b

end Query
end Gleaner
