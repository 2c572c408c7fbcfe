/-
# Doubles as exact numbers

A finite double is a mantissa times a power of two. Here a double is taken apart into these, and
the double nearest to a quotient of natural numbers is found by exact arithmetic; of two that are
equally near, the one with the even mantissa is taken.

Key definitions: `Binary64`, `Binary64.ofFloat`, `roundQuotient`, `nearestFloat`, `truncated?`.
Key theorems: `roundQuotient_mul`, `two_mul_roundQuotient_le`, `le_two_mul_roundQuotient`.
-/
import Gleaner.Number.Power

namespace Gleaner.Number

/-- What a double stands for. -/
inductive Binary64 where
  /-- No number. -/
  | nan
  /-- One of the two infinities. -/
  | infinite (negative : Bool)
  /-- The number `mantissa * 2 ^ exponent` with a sign; zero has both signs. -/
  | finite (negative : Bool) (mantissa : Nat) (exponent : Int)
  deriving DecidableEq, Repr

/-- The exponent of the smallest positive double. -/
def leastExponent : Int := -1074

/-- A double taken apart. -/
def Binary64.ofFloat (x : Float) : Binary64 :=
  let bits := x.toBits.toNat
  let negative := decide (twoTo 63 ≤ bits)
  let field : Nat := bits / twoTo 52 % 2048
  let fraction : Nat := bits % twoTo 52
  if field = 2047 then
    if fraction = 0 then .infinite negative else .nan
  else if field = 0 then .finite negative fraction leastExponent
  else .finite negative (fraction + twoTo 52) ((field : Int) - 1075)

/-- The natural number nearest to `num / den`; a half goes to the even neighbour. -/
def roundQuotient (num den : Nat) : Nat :=
  let below := num / den
  let rest := 2 * (num % den)
  if rest < den then below
  else if den < rest then below + 1
  else if below % 2 = 0 then below else below + 1

/-- A quotient without a remainder is not changed. -/
theorem roundQuotient_mul (n : Nat) {den : Nat} (h : 0 < den) :
    roundQuotient (n * den) den = n := by
  simp [roundQuotient, h]

/-- The rounded quotient is at most half a unit above the quotient. -/
theorem two_mul_roundQuotient_le (num : Nat) {den : Nat} (h : 0 < den) :
    2 * (roundQuotient num den * den) ≤ 2 * num + den := by
  have hd := Nat.div_add_mod num den
  have hm := Nat.mod_lt num h
  rw [Nat.mul_comm] at hd
  simp only [roundQuotient]
  split
  · omega
  · split
    · rw [Nat.add_mul]; omega
    · split
      · omega
      · rw [Nat.add_mul]; omega

/-- The rounded quotient is at most half a unit below the quotient. -/
theorem le_two_mul_roundQuotient (num : Nat) {den : Nat} (h : 0 < den) :
    2 * num ≤ 2 * (roundQuotient num den * den) + den := by
  have hd := Nat.div_add_mod num den
  have hm := Nat.mod_lt num h
  rw [Nat.mul_comm] at hd
  simp only [roundQuotient]
  split
  · omega
  · split
    · rw [Nat.add_mul]; omega
    · split
      · omega
      · rw [Nat.add_mul]; omega

/-- The quotient `num / den` divided by `2 ^ shift`, rounded. -/
def roundShifted (num den : Nat) (shift : Int) : Nat :=
  if shift < 0 then roundQuotient (num * twoTo (-shift).toNat) den
  else roundQuotient num (den * twoTo shift.toNat)

/-- The greatest `k` with `2 ^ k ≤ num / den`, for positive numbers. -/
def floorLog2 (num den : Nat) : Int :=
  let guess : Int := (num.log2 : Int) - (den.log2 : Int)
  let reached := if guess < 0 then decide (den ≤ num * twoTo (-guess).toNat)
    else decide (den * twoTo guess.toNat ≤ num)
  if reached then guess else guess - 1

/-- The bits of the double nearest to `num / den`, without a sign; what is too large for a finite
double is infinite. -/
def nearestBits (num den : Nat) : Nat :=
  if num = 0 then 0
  else
    let exponent := max (floorLog2 num den - 52) leastExponent
    let mantissa := roundShifted num den exponent
    min ((exponent - leastExponent).toNat * twoTo 52 + mantissa) (2047 * twoTo 52)

/-- The double nearest to `num / den`, with a sign. -/
def nearestFloat (negative : Bool) (num den : Nat) : Float :=
  Float.ofBits (UInt64.ofNat (nearestBits num den + if negative then twoTo 63 else 0))

/-- The double nearest to an integer. -/
def floatOfInt (n : Int) : Float :=
  nearestFloat (decide (n < 0)) n.natAbs 1

/-- The double nearest to a decimal number `digits * 10 ^ exponent`. Exponents far beyond the range
of doubles are decided without computing the power. -/
def floatOfDecimal (negative : Bool) (digits : Nat) (exponent : Int) : Float :=
  let places : Int := (Nat.toDigits 10 digits).length + exponent
  if digits = 0 ∨ places < -400 then nearestFloat negative 0 1
  else if 400 < places then nearestFloat negative (tenTo 400) 1
  else if exponent < 0 then nearestFloat negative digits (tenTo (-exponent).toNat)
  else nearestFloat negative (digits * tenTo exponent.toNat) 1

/-- The integer part of a double, if it has one. -/
def truncated? (x : Float) : Option Int :=
  match Binary64.ofFloat x with
  | .finite negative mantissa exponent =>
    let size : Nat := if exponent < 0 then mantissa / twoTo (-exponent).toNat
      else mantissa * twoTo exponent.toNat
    some (if negative then -(size : Int) else size)
  | _ => none

/-- A double without a part after the point. -/
def isWhole (x : Float) : Bool :=
  match Binary64.ofFloat x with
  | .finite _ mantissa exponent => decide (0 ≤ exponent) || mantissa % twoTo (-exponent).toNat == 0
  | _ => false

/-- A double that is a number. -/
def isFiniteFloat (x : Float) : Bool :=
  match Binary64.ofFloat x with
  | .finite .. => true
  | _ => false

/-- The least integer of 64 bits with a sign. -/
def leastInt64 : Int := -(twoTo 63 : Int)

/-- The greatest integer of 64 bits with a sign. -/
def greatestInt64 : Int := (twoTo 63 : Int) - 1

/-- An integer of 64 bits with a sign. -/
def fitsInt64 (n : Int) : Bool :=
  decide (leastInt64 ≤ n) && decide (n ≤ greatestInt64)

/-- The integer of 64 bits nearest to the integer part of a double; what is no number gives zero. -/
def clampedInt64 (x : Float) : Int :=
  match Binary64.ofFloat x with
  | .nan => 0
  | .infinite negative => if negative then leastInt64 else greatestInt64
  | .finite .. => max leastInt64 (min greatestInt64 ((truncated? x).getD 0))

end Gleaner.Number
