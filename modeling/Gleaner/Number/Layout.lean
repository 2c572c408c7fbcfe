/-
# How a double is written

Every text of a double has the fewest digits that read back. A layout says the rest: which decimal
exponents are written without an exponent mark, whether a whole number keeps a point and a zero,
whether a positive exponent has a sign, and which of two equally near texts is taken.

Key definitions: `Layout`, `Layout.write`, `plainLayout`, `preciseLayout`.
-/
import Gleaner.Number.Shortest

namespace Gleaner.Number

/-- The decisions of a way to write doubles. The decimal exponent of a number is that of its first
digit. -/
structure Layout where
  /-- The least and the greatest decimal exponent written without an exponent mark. -/
  positional : Option (Int × Int)
  /-- A whole number written without an exponent mark ends in a point and a zero. -/
  pointZero : Bool
  /-- A positive exponent follows a plus sign. -/
  plusSign : Bool
  /-- Which of two shortest texts is taken when the number lies halfway between them. -/
  tie : Tie

/-- The digits of a decimal number. -/
def Decimal.digits (d : Decimal) : List Char :=
  Nat.toDigits 10 d.significand

/-- The decimal exponent of the first digit. -/
def Decimal.lead (d : Decimal) : Int :=
  d.exponent + d.digits.length - 1

/-- A decimal number without an exponent mark. -/
def writePositional (layout : Layout) (d : Decimal) : List Char :=
  let digits := d.digits
  if 0 ≤ d.exponent then
    digits ++ List.replicate d.exponent.toNat '0' ++ if layout.pointZero then ['.', '0'] else []
  else
    let places := (-d.exponent).toNat
    if places < digits.length then
      digits.take (digits.length - places) ++ '.' :: digits.drop (digits.length - places)
    else '0' :: '.' :: List.replicate (places - digits.length) '0' ++ digits

/-- A decimal number with one digit before the point and an exponent mark. -/
def writeScientific (layout : Layout) (d : Decimal) : List Char :=
  let digits := d.digits
  let point := if digits.length ≤ 1 then digits else digits.take 1 ++ '.' :: digits.drop 1
  let sign := if d.lead < 0 then ['-'] else if layout.plusSign then ['+'] else []
  point ++ 'e' :: sign ++ Nat.toDigits 10 d.lead.natAbs

/-- The text of a double. -/
def Layout.write (layout : Layout) (x : Float) : String :=
  match Binary64.ofFloat x with
  | .nan => "NaN"
  | .infinite negative => if negative then "-inf" else "inf"
  | .finite negative mantissa exponent =>
    let sign := if negative then ['-'] else []
    let size :=
      if mantissa = 0 then writePositional layout ⟨0, 0⟩
      else
        let d := shortest layout.tie mantissa exponent
        match layout.positional with
        | none => writePositional layout d
        | some (least, greatest) =>
          if least ≤ d.lead ∧ d.lead ≤ greatest then writePositional layout d
          else writeScientific layout d
    String.ofList (sign ++ size)

/-- The layout of values shown to a reader: no exponent marks, and whole numbers without a point. -/
def plainLayout : Layout where
  positional := none
  pointZero := false
  plusSign := false
  tie := .up

/-- The layout of numbers quoted in messages: whole numbers end in a point and a zero, and very
large and very small numbers have an exponent mark. -/
def preciseLayout : Layout where
  positional := some (-4, 15)
  pointZero := true
  plusSign := false
  tie := .up

end Gleaner.Number
