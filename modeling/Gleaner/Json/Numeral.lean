/-
# Numerals of JSON text

A numeral is read into its parts first. An integer of 64 bits keeps its value. Any other numeral
becomes a double by one multiplication or division: as many digits as fit in 64 bits make a
significand, further digits of the whole part only raise the exponent, and the significand, as a
double, is scaled by a power of ten, as a double. Because of these roundings the result may differ
from the double nearest to the numeral.

Key definitions: `Numeral`, `readNumeral?`, `keepDigits`, `scaled?`, `Numeral.value?`.
-/
import Gleaner.Json.Basic
import Gleaner.Text.Search
import Gleaner.Text.Remainder

namespace Gleaner.Json

open Gleaner.Number Gleaner.Text

/-- The parts of a numeral: a sign, the digits before the point, those after it, and the exponent
with its sign. -/
structure Numeral where
  negative : Bool
  whole : List Char
  fraction : List Char
  exponent : Option (Bool × List Char)
  deriving DecidableEq, Repr

/-- A row of at least one digit, and what follows it. -/
def digits? (text : List Char) : Option (List Char × List Char) :=
  let digits := text.takeWhile isDigit
  if digits.isEmpty then none else some (digits, text.dropWhile isDigit)

/-- The point and the digits after it, if there is a point. -/
def fraction? : List Char → Option (List Char × List Char)
  | '.' :: rest => digits? rest
  | text => some ([], text)

/-- The exponent mark, a sign and digits, if there is an exponent mark. -/
def exponent? : List Char → Option (Option (Bool × List Char) × List Char)
  | c :: rest =>
    if c = 'e' ∨ c = 'E' then
      let (negative, digits) := match rest with
        | '+' :: cs => (false, cs)
        | '-' :: cs => (true, cs)
        | cs => (false, cs)
      (digits? digits).map fun (digits, rest) => (some (negative, digits), rest)
    else some (none, c :: rest)
  | [] => some (none, [])

/-- The digits before the point: a single zero, or a row that does not start with one. -/
def wholeDigits? (text : List Char) : Option (List Char × List Char) :=
  match digits? text with
  | some ('0' :: _ :: _, _) => none
  | other => other

/-- The numeral at the front of a text, and what follows it. -/
def readNumeral? (text : List Char) : Option (Numeral × List Char) := do
  let (negative, rest) := match text with
    | '-' :: cs => (true, cs)
    | cs => (false, cs)
  let (whole, rest) ← wholeDigits? rest
  let (fraction, rest) ← fraction? rest
  let (exponent, rest) ← exponent? rest
  pure (⟨negative, whole, fraction, exponent⟩, rest)

/-- Digits taken one by one while the number they write fits in 64 bits; the number, and the digits
that are left. -/
def keepDigits (n : Nat) : List Char → Nat × List Char
  | [] => (n, [])
  | c :: cs =>
    if n * 10 + digitValue c < twoTo 64 then keepDigits (n * 10 + digitValue c) cs else (n, c :: cs)

/-- The double nearest to a power of ten. -/
def powerOfTen (n : Nat) : Float :=
  nearestFloat false (tenTo n) 1

/-- A double divided by the power of ten of `n`; by 10^308 as often as `n` is above that. -/
def dividedBy (x : Float) (n : Nat) : Float :=
  if n ≤ 308 then x / powerOfTen n
  else if x == 0.0 then x
  else dividedBy (x / powerOfTen 308) (n - 308)
termination_by n

/-- A significand scaled by a power of ten, unless that is too large for a double. -/
def scaled? (significand : Nat) (exponent : Int) : Option Float :=
  let x := floatOfInt significand
  if exponent < 0 then some (dividedBy x exponent.natAbs)
  else if exponent ≤ 308 then
    let y := x * powerOfTen exponent.toNat
    if isFiniteFloat y then some y else none
  else if x == 0.0 then some x
  else none

/-- The greatest exponent that is used as it is written. -/
def greatestExponent : Nat := twoTo 31 - 1

/-- The size of a numeral as a double, unless it is too large for one. -/
def Numeral.size? (n : Numeral) : Option Float :=
  let (kept, dropped) := keepDigits 0 n.whole
  let (significand, unused) := keepDigits kept n.fraction
  let exponent : Int := (dropped.length : Int) - ((n.fraction.length : Int) - unused.length)
  match n.exponent with
  | none => scaled? significand exponent
  | some (negative, digits) =>
    let size := numeralValue digits
    if greatestExponent < size then
      if significand = 0 ∨ negative then some 0.0 else none
    else scaled? significand (if negative then exponent - size else exponent + size)

/-- The numeral has neither a point nor an exponent mark. -/
def Numeral.isPlain (n : Numeral) : Bool :=
  n.fraction.isEmpty && n.exponent.isNone

/-- The value of a numeral, unless it is too large for a double. Minus zero is a double. -/
def Numeral.value? (n : Numeral) : Option Numeric :=
  let plain := numeralValue n.whole
  if n.isPlain && !n.negative && decide (plain < twoTo 64) then some (.integer plain)
  else if n.isPlain && n.negative && decide (0 < plain) && decide (plain ≤ twoTo 63) then
    some (.integer (-(plain : Int)))
  else n.size?.map fun x => .float (if n.negative then -x else x)

end Gleaner.Json
