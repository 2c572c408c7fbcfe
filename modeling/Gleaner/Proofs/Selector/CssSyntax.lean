/-
# Selectors of CSS

CSS text is read by the rules of CSS: a text is taken in with its line breaks made line feeds, then
read into names, strings, blanks and signs, where an escape stands for the character that it writes,
and these into the parts of a selector. What is not read is comments, numbers, arguments of
pseudo-classes, values of attributes without marks, and what is no CSS.

Key definitions: `input`, `escaped`, `name`, `string?`, `tokens?`, `Part`, `parts?`, `read`.
-/
import Gleaner.Markup.Reference
import Gleaner.Proofs.Selector.Rendered

namespace Gleaner.Css

open Gleaner.Text Gleaner.Selector
open Gleaner.Markup (isHexDigit hexValue replacementChar)

/-! ### Characters -/

/-- A text as it is taken in: every line break is a line feed, and NUL is replaced. -/
def input : List Char → List Char
  | [] => []
  | '\r' :: '\n' :: rest => '\n' :: input rest
  | c :: rest =>
    (if c = '\r' ∨ c = '\x0c' then '\n' else if c = '\x00' then replacementChar else c) ::
      input rest

def isSpace (c : Char) : Bool :=
  c == ' ' || c == '\t' || c == '\n'

def isNameStart (c : Char) : Bool :=
  isAsciiLetter c || c == '_' || decide (128 ≤ c.toNat)

def isNameChar (c : Char) : Bool :=
  isNameStart c || isDigit c || c == '-'

/-- A backslash begins an escape unless a line feed follows it. -/
def beginsEscape : List Char → Bool
  | '\\' :: rest => rest.head? != some '\n'
  | _ => false

/-- A name stands at the front. A digit does not begin one, not behind a hyphen either. -/
def beginsName : List Char → Bool
  | [] => false
  | c :: rest =>
    if c = '-' then rest.head?.any (fun d => isNameStart d || d == '-') || beginsEscape rest
    else isNameStart c || beginsEscape (c :: rest)

/-- The character of a code point, if it has one that may stand in a text. -/
def characterAt (code : Nat) : Char :=
  if code ≠ 0 ∧ code.isValidChar then Char.ofNat code else replacementChar

/-- What follows the blank at the front, if there is one. -/
def behindSpace (text : List Char) : Rest text :=
  if text.head?.any isSpace then ⟨text.drop 1, by simp⟩ else .all text

/-- The character that an escape stands for, where the text follows its backslash: the one of a code
point in up to six hexadecimal digits, which a blank may close, or the first one of the text. -/
def escaped : (text : List Char) → Char × Rest text
  | [] => (replacementChar, .all [])
  | c :: rest =>
    if isHexDigit c then
      let digits := ((c :: rest).take 6).takeWhile isHexDigit
      let behind : Rest (c :: rest) := ⟨(c :: rest).drop digits.length, by simp [List.length_drop]⟩
      (characterAt (hexValue digits), behind.andThen (behindSpace behind.val))
    else (c, ((Rest.all rest).behind c).toRest)

/-! ### Names and strings -/

/-- The characters of the name at the front. -/
def name (text : List Char) : List Char × Rest text :=
  match text with
  | [] => ([], .all [])
  | c :: rest =>
    if isNameChar c then
      let (more, after) := name rest
      (c :: more, (after.behind c).toRest)
    else if beginsEscape (c :: rest) then
      let (d, behind) := escaped rest
      let (more, after) := name behind.val
      (d :: more, ((behind.andThen after).behind c).toRest)
    else ([], .all (c :: rest))
termination_by text.length
decreasing_by
  · exact Nat.lt_succ_self _
  · exact Nat.lt_succ_of_le behind.property

/-- The characters of a string up to its closing mark. It holds no line feed but in an escape, and
a line feed behind a backslash is left out. -/
def string? (mark : Char) (text : List Char) : Option (List Char × Remainder text) :=
  match text with
  | [] => none
  | c :: rest =>
    if c = mark then some ([], (Rest.all rest).behind c)
    else if c = '\n' then none
    else if c = '\\' then
      if rest.head? = some '\n' then
        (string? mark (rest.drop 1)).map fun (more, after) =>
          (more, ⟨after.val, Nat.lt_succ_of_lt
            (Nat.lt_of_lt_of_le after.property (List.drop_sublist 1 rest).length_le)⟩)
      else
        let (d, behind) := escaped rest
        (string? mark behind.val).map fun (more, after) =>
          (d :: more, (behind.andTake after).toRest.behind c)
    else
      (string? mark rest).map fun (more, after) => (c :: more, after.toRest.behind c)
termination_by text.length
decreasing_by
  · exact Nat.lt_succ_of_le (List.drop_sublist 1 rest).length_le
  · exact Nat.lt_succ_of_le behind.property
  · exact Nat.lt_succ_self _

theorem length_name_lt {text : List Char} (h : beginsName text = true) :
    (name text).2.val.length < text.length := by
  cases text with
  | nil => cases h
  | cons c rest =>
    have hfirst : isNameChar c = true ∨ beginsEscape (c :: rest) = true := by
      rw [beginsName] at h
      split at h
      · next hc => exact .inl (by simp [hc, isNameChar])
      · rw [Bool.or_eq_true] at h
        exact h.imp (fun hstart => by simp [isNameChar, hstart]) id
    rw [name]
    split
    · exact ((name rest).2.behind c).property
    · next hplain =>
      rw [if_pos (hfirst.resolve_left hplain)]
      exact (((escaped rest).2.andThen (name (escaped rest).2.val).2).behind c).property

/-! ### Tokens and parts -/

inductive Token where
  | name (text : String)
  | string (text : String)
  | space
  | sign (c : Char)
  deriving DecidableEq, Repr

/-- The tokens of a text without comments. A string that is not closed is no token. -/
def tokens? (text : List Char) : Option (List Token) :=
  match text with
  | [] => some []
  | c :: rest =>
    if c = '"' ∨ c = '\'' then
      match string? c rest with
      | some (chars, after) => (tokens? after.val).map (.string (String.ofList chars) :: ·)
      | none => none
    else if beginsName (c :: rest) then
      (tokens? (name (c :: rest)).2.val).map (.name (String.ofList (name (c :: rest)).1) :: ·)
    else if isSpace c then (tokens? (rest.dropWhile isSpace)).map (.space :: ·)
    else (tokens? rest).map (.sign c :: ·)
termination_by text.length
decreasing_by
  · exact Nat.lt_succ_of_lt after.property
  · next h => exact length_name_lt h
  · exact Nat.lt_succ_of_le (length_dropWhile_le isSpace rest)
  · exact Nat.lt_succ_self _

/-- A part of a selector. -/
inductive Part where
  /-- `*` -/
  | any
  /-- The name of elements. -/
  | type (name : String)
  /-- `[name]`, or `[name="value"]` with any operator. -/
  | attribute (asked : Asked)
  /-- A class, an identifier or a pseudo-class, by its mark. -/
  | marked (mark : Char) (name : String)
  /-- What ends an element test: a comma or a combinator, which blanks may be. -/
  | separator (sign : Char)
  deriving DecidableEq, Repr

/-- The parts of a selector without arguments of pseudo-classes. -/
def parts? : List Token → Option (List Part)
  | [] => some []
  | .name n :: rest => (parts? rest).map (.type n :: ·)
  | .space :: rest => (parts? rest).map (.separator ' ' :: ·)
  | .string _ :: _ => none
  | .sign '*' :: rest => (parts? rest).map (.any :: ·)
  | .sign '[' :: .name n :: .sign ']' :: rest => (parts? rest).map (.attribute ⟨n, none⟩ :: ·)
  | .sign '[' :: .name n :: .sign '=' :: .string v :: .sign ']' :: rest =>
    (parts? rest).map (.attribute ⟨n, some (['='], v)⟩ :: ·)
  | .sign '[' :: .name n :: .sign c :: .sign '=' :: .string v :: .sign ']' :: rest =>
    if c ∈ ['*', '~', '|', '^', '$'] then
      (parts? rest).map (.attribute ⟨n, some ([c, '='], v)⟩ :: ·)
    else none
  | .sign c :: rest =>
    if c ∈ [',', '>', '+', '~'] then (parts? rest).map (.separator c :: ·)
    else if c ∈ ['.', '#', ':'] then
      match rest with
      | .name n :: rest => (parts? rest).map (.marked c n :: ·)
      | _ => none
    else none

/-- The parts that a text is read as, once it is taken in. -/
def selector? (text : List Char) : Option (List Part) :=
  (tokens? text).bind parts?

/-- A text read as a selector of CSS. -/
def read (text : List Char) : Option (List Part) :=
  selector? (input text)

/-- A class and a combinator are parts of their own, and an escape is its character. -/
example : read "a.b > c\\>d[e*=\"f\\\"\\a g\"]".toList =
    some [.type "a", .marked '.' "b", .separator ' ', .separator '>', .separator ' ',
      .type "c>d", .attribute ⟨"e", some (['*', '='], "f\"\ng")⟩] := by
  decide +kernel

end Gleaner.Css
