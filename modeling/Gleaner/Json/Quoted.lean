/-
# Strings of JSON text

A string is read into its pieces first: characters, and the 16-bit units that `\u` escapes write.
Two units that form a surrogate pair are one character; a unit that is half a pair alone has no
text.

Key definitions: `Piece`, `readPieces?`, `joinPieces?`.
-/
import Gleaner.Text.Remainder

namespace Gleaner.Json

open Gleaner.Text

/-- A piece of a string: a character, or a 16-bit unit written by an escape. -/
inductive Piece where
  | char (c : Char)
  | unit (value : Nat)
  deriving DecidableEq, Repr

/-- The value of a hexadecimal digit. -/
def hexValue? (c : Char) : Option Nat :=
  if '0' ≤ c ∧ c ≤ '9' then some (c.toNat - 48)
  else if 'a' ≤ c ∧ c ≤ 'f' then some (c.toNat - 87)
  else if 'A' ≤ c ∧ c ≤ 'F' then some (c.toNat - 55)
  else none

/-- The unit that four hexadecimal digits write. -/
def unitOf? (a b c d : Char) : Option Nat := do
  let a ← hexValue? a
  let b ← hexValue? b
  let c ← hexValue? c
  let d ← hexValue? d
  pure (((a * 16 + b) * 16 + c) * 16 + d)

/-- The character that a short escape writes. -/
def shortEscape? (c : Char) : Option Char :=
  if c = '"' ∨ c = '\\' ∨ c = '/' then some c
  else if c = 'b' then some '\x08'
  else if c = 'f' then some '\x0c'
  else if c = 'n' then some '\n'
  else if c = 'r' then some '\r'
  else if c = 't' then some '\t'
  else none

/-- The pieces of a string up to its closing quotation mark, and what follows that. Control
characters must be escaped. -/
def readPieces? : (text : List Char) → Option (List Piece × Remainder text)
  | [] => none
  | c :: rest =>
    if c = '"' then some ([], ⟨rest, Nat.lt_succ_self _⟩)
    else if c = '\\' then
      match rest with
      | 'u' :: h₁ :: h₂ :: h₃ :: h₄ :: more => do
        let unit ← unitOf? h₁ h₂ h₃ h₄
        let (pieces, ⟨left, h⟩) ← readPieces? more
        pure (.unit unit :: pieces, ⟨left, by simp; omega⟩)
      | e :: more => do
        let char ← shortEscape? e
        let (pieces, ⟨left, h⟩) ← readPieces? more
        pure (.char char :: pieces, ⟨left, by simp; omega⟩)
      | [] => none
    else if c.toNat < 32 then none
    else
      (readPieces? rest).map fun (pieces, left) =>
        (.char c :: pieces, ⟨left.val, Nat.lt_succ_of_lt left.property⟩)

/-- The first half of a surrogate pair. -/
def isHighHalf (unit : Nat) : Bool :=
  decide (0xD800 ≤ unit) && decide (unit < 0xDC00)

/-- The second half of a surrogate pair. -/
def isLowHalf (unit : Nat) : Bool :=
  decide (0xDC00 ≤ unit) && decide (unit < 0xE000)

/-- The text of a row of pieces, unless half a surrogate pair stands alone. -/
def joinPieces? : List Piece → Option (List Char)
  | [] => some []
  | .char c :: rest => (joinPieces? rest).map (c :: ·)
  | .unit high :: .unit low :: rest =>
    if isHighHalf high then
      if isLowHalf low then
        let code := 0x10000 + (high - 0xD800) * 0x400 + (low - 0xDC00)
        (joinPieces? rest).map (Char.ofNat code :: ·)
      else none
    else if isLowHalf high then none
    else (joinPieces? (.unit low :: rest)).map (Char.ofNat high :: ·)
  | .unit unit :: rest =>
    if isHighHalf unit || isLowHalf unit then none
    else (joinPieces? rest).map (Char.ofNat unit :: ·)

end Gleaner.Json
