/-
# Character references

A reference stands for a character that cannot, or need not, be written itself: by its code point
in decimal or hexadecimal digits, or by a name. Some names may stand without their semicolon, though
in an attribute not in front of a letter, a digit or an equals sign. What is no reference stays as
it is written.

Key definitions: `namedCharacters`, `characterOf`, `reference?`, `resolve`.
Key theorems: `resolve_of_not_mem`.
-/
import Gleaner.Text.Search

namespace Gleaner.Markup

open Gleaner.Text

/-- The characters that have a name; the flag says whether the semicolon may be left out. -/
def namedCharacters : List (List Char × Bool × Char) :=
  [("amp".toList, true, '&'), ("AMP".toList, true, '&'), ("lt".toList, true, '<'),
   ("LT".toList, true, '<'), ("gt".toList, true, '>'), ("GT".toList, true, '>'),
   ("quot".toList, true, '"'), ("QUOT".toList, true, '"'), ("apos".toList, false, '\''),
   ("nbsp".toList, true, '\u00a0'), ("copy".toList, true, '©'), ("COPY".toList, true, '©')]

/-- The characters that the code points from 0x80 to 0x9F stand for, where not for themselves. -/
def westernCharacters : List (Nat × Nat) :=
  [(0x80, 0x20AC), (0x82, 0x201A), (0x83, 0x0192), (0x84, 0x201E), (0x85, 0x2026), (0x86, 0x2020),
   (0x87, 0x2021), (0x88, 0x02C6), (0x89, 0x2030), (0x8A, 0x0160), (0x8B, 0x2039), (0x8C, 0x0152),
   (0x8E, 0x017D), (0x91, 0x2018), (0x92, 0x2019), (0x93, 0x201C), (0x94, 0x201D), (0x95, 0x2022),
   (0x96, 0x2013), (0x97, 0x2014), (0x98, 0x02DC), (0x99, 0x2122), (0x9A, 0x0161), (0x9B, 0x203A),
   (0x9C, 0x0153), (0x9E, 0x017E), (0x9F, 0x0178)]

/-- What stands for a character that has no place in a document. -/
def replacementChar : Char := '\uFFFD'

/-- The character that a code point in a reference stands for. -/
def characterOf (code : Nat) : Char :=
  if code = 0 ∨ (0xD800 ≤ code ∧ code < 0xE000) ∨ 0x10FFFF < code then replacementChar
  else Char.ofNat ((westernCharacters.lookup code).getD code)

/-- A hexadecimal digit. -/
def isHexDigit (c : Char) : Bool :=
  isDigit c || (decide ('a' ≤ c) && decide (c ≤ 'f')) || (decide ('A' ≤ c) && decide (c ≤ 'F'))

/-- The value of a hexadecimal digit. -/
def hexDigitValue (c : Char) : Nat :=
  if isDigit c then c.toNat - 48 else (lowerChar c).toNat - 87

/-- The number that a row of hexadecimal digits writes. -/
def hexValue (digits : List Char) : Nat :=
  digits.foldl (fun n c => n * 16 + hexDigitValue c) 0

/-- The width of a reference by code point: its mark, its digits and a semicolon, if there is
one. -/
def numericWidth (mark : Nat) (digits rest : List Char) : Nat :=
  mark + digits.length + if rest.head? = some ';' then 1 else 0

/-- The character that a reference by code point stands for and the width of the reference, where
the text follows an ampersand and a number sign. -/
def numericReference? (text : List Char) : Option (Char × Nat) :=
  match text with
  | 'x' :: rest | 'X' :: rest =>
    let digits := rest.takeWhile isHexDigit
    if digits.isEmpty then none
    else some (characterOf (hexValue digits), numericWidth 2 digits (rest.dropWhile isHexDigit))
  | _ =>
    let digits := text.takeWhile isDigit
    if digits.isEmpty then none
    else some (characterOf (numeralValue digits), numericWidth 1 digits (text.dropWhile isDigit))

/-- A name without its semicolon is no reference in an attribute in front of this character. -/
def blocksName (c : Char) : Bool :=
  c == '=' || isAsciiLetter c || isDigit c

/-- The character that a reference by name stands for and the width of the reference. -/
def namedReference? (inAttribute : Bool) (text : List Char) : Option (Char × Nat) :=
  namedCharacters.findSome? fun (name, optional, c) =>
    match stripStart? name text with
    | none => none
    | some (';' :: _) => some (c, name.length + 1)
    | some rest =>
      if optional && !(inAttribute && rest.head?.any blocksName) then some (c, name.length)
      else none

/-- The character that a reference stands for and the width of the reference, where the text
follows an ampersand. -/
def reference? (inAttribute : Bool) : List Char → Option (Char × Nat)
  | '#' :: rest => numericReference? rest
  | text => namedReference? inAttribute text

/-- A text with its references replaced by the characters they stand for. -/
def resolve (inAttribute : Bool) : List Char → List Char
  | [] => []
  | c :: rest =>
    if c = '&' then
      match reference? inAttribute rest with
      | some (char, width) => char :: resolve inAttribute (rest.drop width)
      | none => c :: resolve inAttribute rest
    else c :: resolve inAttribute rest
termination_by text => text.length
decreasing_by all_goals simp [List.length_drop]; try omega

/-- A text without ampersands stays as it is. -/
theorem resolve_of_not_mem {inAttribute : Bool} {text : List Char} (h : '&' ∉ text) :
    resolve inAttribute text = text := by
  induction text with
  | nil => simp [resolve]
  | cons c rest ih =>
    obtain ⟨hc, hrest⟩ := List.ne_and_not_mem_of_not_mem_cons h
    rw [resolve, if_neg (Ne.symm hc), ih hrest]

end Gleaner.Markup
