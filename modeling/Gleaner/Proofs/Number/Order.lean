/-
# The order of doubles

In the model of doubles as signs, mantissas and exponents, one comparison decides how two doubles
stand to each other: the first is less, they are equal, the first is greater, or one of them is no
number. Taken the other way round, it gives the swapped answer. The tests for less and for equal
are read off it, and so is the order of two doubles.

Key theorems: `compare_swap`, `orderOfFloats?_eq_compare`, `orderOfFloats?_swap`.
-/
import Gleaner.Comparison

namespace Gleaner.Number

open Float.Model (UnpackedFloat)

/-- A comparison taken the other way round gives the swapped answer. -/
theorem compare_swap (a b : UnpackedFloat) : b.compare a = (a.compare b).map Ordering.swap := by
  cases a with
  | notANumber => cases b <;> rfl
  | infinity s =>
    cases b with
    | infinity t => cases s <;> cases t <;> rfl
    | notANumber => cases s <;> rfl
    | zero t => cases s <;> rfl
    | finite t n f hn => cases s <;> cases t <;> rfl
  | zero s =>
    cases b with
    | infinity t => cases t <;> rfl
    | notANumber => rfl
    | zero t => rfl
    | finite t n f hn => cases t <;> rfl
  | finite s m e hm =>
    cases b with
    | infinity t => cases s <;> cases t <;> rfl
    | notANumber => cases s <;> rfl
    | zero t => cases s <;> rfl
    | finite t n f hn =>
      -- The sizes decide if the signs are the same, and the other way round below zero.
      have hsize : (compare f e).then (compare n m) = ((compare e f).then (compare m n)).swap := by
        rw [Ordering.swap_then, Int.compare_swap, Nat.compare_swap]
      cases s <;> cases t
      · exact congrArg (fun order => some order.swap) hsize
      · rfl
      · rfl
      · exact congrArg some hsize

variable {x y : Float}

theorem lt_iff_compare : x < y ↔ x.toModel.unpack.compare y.toModel.unpack = some .lt := by
  show Float.lt x y = true ↔ _
  unfold Float.lt
  rw [decide_eq_true_iff]
  show UnpackedFloat.lt _ _ = true ↔ _
  exact beq_iff_eq

theorem beq_iff_compare :
    (x == y) = true ↔ x.toModel.unpack.compare y.toModel.unpack = some .eq := by
  show UnpackedFloat.beq _ _ = true ↔ _
  exact beq_iff_eq

theorem gt_iff_compare : y < x ↔ x.toModel.unpack.compare y.toModel.unpack = some .gt := by
  rw [lt_iff_compare, compare_swap]
  cases x.toModel.unpack.compare y.toModel.unpack with
  | none => simp
  | some order => cases order <;> simp

/-- The order of two doubles is their comparison in the model. -/
theorem orderOfFloats?_eq_compare (x y : Float) :
    orderOfFloats? x y = x.toModel.unpack.compare y.toModel.unpack := by
  unfold orderOfFloats?
  simp only [lt_iff_compare (x := x), beq_iff_compare, gt_iff_compare (x := x)]
  cases x.toModel.unpack.compare y.toModel.unpack with
  | none => rfl
  | some order => cases order <;> rfl

/-- Two doubles stand to each other the other way round when they change places. -/
theorem orderOfFloats?_swap (x y : Float) :
    orderOfFloats? y x = (orderOfFloats? x y).map Ordering.swap := by
  rw [orderOfFloats?_eq_compare, orderOfFloats?_eq_compare, compare_swap]

/-- Doubles are equal in both orders or in none. -/
theorem beq_swap (x y : Float) : (x == y) = (y == x) := by
  rw [Bool.eq_iff_iff, beq_iff_compare, beq_iff_compare, compare_swap]
  cases y.toModel.unpack.compare x.toModel.unpack with
  | none => simp
  | some order => cases order <;> simp

end Gleaner.Number
