/-
# Numbers read from texts

Integers of a fixed range, doubles and truth values, each read from a whole text without blanks.
An integer that is out of range or holds a character that is no digit is refused for the first of
these that a reading from the left meets.

Key definitions: `IntegerFault`, `readInteger`, `readFloat`, `readBool`.
-/
import Gleaner.Number.Binary64
import Gleaner.Text.Search

namespace Gleaner.Number

open Gleaner.Text

/-- Why a text is no integer of its range. -/
inductive IntegerFault where
  | empty
  | invalidDigit
  | tooLarge
  | tooSmall
  deriving DecidableEq, Repr

/-- The wording of a fault. -/
def IntegerFault.message : IntegerFault → String
  | .empty => "cannot parse integer from empty string"
  | .invalidDigit => "invalid digit found in string"
  | .tooLarge => "number too large to fit in target type"
  | .tooSmall => "number too small to fit in target type"

/-- Digits read one by one: `n` is the value so far, and no value may be above `limit`. -/
def readDigits (limit : Nat) (overflow : IntegerFault) (n : Nat) :
    List Char → Except IntegerFault Nat
  | [] => .ok n
  | c :: cs =>
    if !isDigit c then .error .invalidDigit
    else if limit < n * 10 + digitValue c then .error overflow
    else readDigits limit overflow (n * 10 + digitValue c) cs

/-- An integer from `-below` to `above`, in decimal digits after an optional sign; the minus sign
is known only where there are integers below zero. -/
def readInteger (below above : Nat) (text : String) : Except IntegerFault Int :=
  match text.toList with
  | [] => .error .empty
  | ['+'] | ['-'] => .error .invalidDigit
  | '+' :: cs => (readDigits above .tooLarge 0 cs).map fun n => (n : Int)
  | '-' :: cs =>
    if below = 0 then .error .invalidDigit
    else (readDigits below .tooSmall 0 cs).map fun n => -(n : Int)
  | cs => (readDigits above .tooLarge 0 cs).map fun n => (n : Int)

/-- An integer of 64 bits with a sign. -/
def readInt64 : String → Except IntegerFault Int :=
  readInteger (twoTo 63) (twoTo 63 - 1)

/-- A natural number of 32 bits. -/
def readUInt32 : String → Except IntegerFault Int :=
  readInteger 0 (twoTo 32 - 1)

/-- Why a text is no double. -/
inductive FloatFault where
  | empty
  | invalid
  deriving DecidableEq, Repr

/-- The wording of a fault. -/
def FloatFault.message : FloatFault → String
  | .empty => "cannot parse float from empty string"
  | .invalid => "invalid float literal"

/-- A sign in front of a text: whether it is a minus sign, and what follows it. -/
def splitSign : List Char → Bool × List Char
  | '+' :: cs => (false, cs)
  | '-' :: cs => (true, cs)
  | cs => (false, cs)

/-- An exponent mark with its exponent, up to the end of the text. -/
def readExponent? : List Char → Option Int
  | [] => some 0
  | c :: cs =>
    if c = 'e' ∨ c = 'E' then
      let (negative, digits) := splitSign cs
      if digits.isEmpty || !digits.all isDigit then none
      else some (if negative then -(numeralValue digits : Int) else numeralValue digits)
    else none

/-- The two rows of digits around an optional point, and the rest. -/
def splitPoint (text : List Char) : List Char × List Char × List Char :=
  let whole := text.takeWhile isDigit
  match text.dropWhile isDigit with
  | '.' :: rest => (whole, rest.takeWhile isDigit, rest.dropWhile isDigit)
  | rest => (whole, [], rest)

/-- A double without its sign: `inf`, `infinity` and `nan` in any case, or decimal digits with an
optional point and an optional exponent mark. -/
def readUnsigned? (negative : Bool) (text : List Char) : Option Float :=
  let name := String.ofList (text.map lowerChar)
  if name = "inf" ∨ name = "infinity" then some (nearestFloat negative (tenTo 400) 1)
  else if name = "nan" then some (0.0 / 0.0)
  else
    let (whole, fraction, rest) := splitPoint text
    if whole.isEmpty && fraction.isEmpty then none
    else
      (readExponent? rest).map fun exponent =>
        floatOfDecimal negative (numeralValue (whole ++ fraction)) (exponent - fraction.length)

/-- The double nearest to the number that a text writes. -/
def readFloat (text : String) : Except FloatFault Float :=
  if text.isEmpty then .error .empty
  else
    let (negative, rest) := splitSign text.toList
    match readUnsigned? negative rest with
    | some x => .ok x
    | none => .error .invalid

/-- One of the two truth values, by its name. -/
def readBool (text : String) : Option Bool :=
  if text = "true" then some true
  else if text = "false" then some false
  else none

end Gleaner.Number
