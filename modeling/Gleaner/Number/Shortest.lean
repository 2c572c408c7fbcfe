/-
# The fewest digits that read back

Of the decimal numbers that read back as a given double, the shortest are those with the fewest
digits, and of these the one nearest to the double is taken. The double's own value is compared
with its two neighbours on the grids of 1, 2, … 17 digits, in exact arithmetic. Where the two are
equally near, a `Tie` says which one is taken.

Key definitions: `Reading`, `Reading.reads`, `decimalExponent`, `Tie`, `shortest`.
-/
import Gleaner.Number.Binary64

namespace Gleaner.Number

/-- A decimal number `significand * 10 ^ exponent`. -/
structure Decimal where
  significand : Nat
  exponent : Int
  deriving DecidableEq, Repr

/-- A positive double's value and the numbers that read as it, over a common denominator: all of
`low`, `value` and `high` are divided by `unit`. -/
structure Reading where
  low : Nat
  value : Nat
  high : Nat
  unit : Nat
  /-- The two ends themselves read as the double. -/
  closed : Bool

/-- The numbers that read as the double `mantissa * 2 ^ exponent`: up to half the distance to the
next double on each side, which below a power of two is only half as far. -/
def Reading.ofBinary (mantissa : Nat) (exponent : Int) : Reading :=
  let near := if mantissa = twoTo 52 ∧ leastExponent < exponent then 1 else 2
  let up := twoTo (exponent - 2).toNat
  let unit := twoTo (2 - exponent).toNat
  { low := (4 * mantissa - near) * up
    value := 4 * mantissa * up
    high := (4 * mantissa + 2) * up
    unit := unit
    closed := mantissa % 2 == 0 }

/-- The number `n / scale` reads as the double. -/
def Reading.reads (r : Reading) (n scale : Nat) : Bool :=
  if r.closed then decide (r.low * scale ≤ n * r.unit) && decide (n * r.unit ≤ r.high * scale)
  else decide (r.low * scale < n * r.unit) && decide (n * r.unit < r.high * scale)

/-- The number of decimal digits; zero has none. -/
def digitCount (n : Nat) : Nat :=
  if n = 0 then 0 else (Nat.toDigits 10 n).length

/-- The greatest `k` with `10 ^ k ≤ num / den`, for positive numbers. -/
def decimalExponent (num den : Nat) : Int :=
  if den ≤ num then (digitCount (num / den) : Int) - 1
  else -(digitCount ((den - 1) / num) : Int)

/-- Which of two equally near neighbours on a grid is taken. -/
inductive Tie where
  /-- The one whose last digit is even. -/
  | toEven
  /-- The greater one. -/
  | up
  deriving DecidableEq, Repr

/-- The lower of two equally near neighbours is taken. -/
def Tie.takesBelow (tie : Tie) (below : Nat) : Bool :=
  match tie with
  | .toEven => below % 2 == 0
  | .up => false

/-- The number on the grid of `10 ^ grid` that reads as the double and is nearest to it, if one
of the double's two neighbours there does. -/
def Reading.onGrid? (r : Reading) (tie : Tie) (grid : Int) : Option Decimal :=
  -- `n * step / scale` is the grid's `n`-th point.
  let step := tenTo grid.toNat
  let scale := tenTo (-grid).toNat
  let below := r.value * scale / (r.unit * step)
  let above := below + 1
  let belowReads := r.reads (below * step) scale
  let aboveReads := r.reads (above * step) scale
  let toBelow := r.value * scale - below * step * r.unit
  let toAbove := above * step * r.unit - r.value * scale
  let belowNearer := decide (toBelow < toAbove) || toBelow == toAbove && tie.takesBelow below
  if belowReads && (!aboveReads || belowNearer) then some ⟨below, grid⟩
  else if aboveReads then some ⟨above, grid⟩
  else none

/-- A decimal number whose significand does not end in zero. -/
def Decimal.normalize (d : Decimal) : Decimal :=
  let digits := Nat.toDigits 10 d.significand
  let zeros := (digits.reverse.takeWhile (· == '0')).length
  ⟨d.significand / tenTo zeros, d.exponent + zeros⟩

/-- The shortest decimal number that reads as the positive double `mantissa * 2 ^ exponent`. -/
def shortest (tie : Tie) (mantissa : Nat) (exponent : Int) : Decimal :=
  let r := Reading.ofBinary mantissa exponent
  let lead := decimalExponent r.value r.unit
  let found := (List.range 17).findSome? fun (n : Nat) => r.onGrid? tie (lead - (n : Int))
  (found.getD ⟨r.value / r.unit, 0⟩).normalize

end Gleaner.Number
