/-
# The spellings that a query is made of

Reading a query into tokens loses nothing: the text is made of spellings of its tokens, one after
another, and of blanks. The other way round, spellings that a blank keeps apart are read one by one,
if a name is one by itself and a number is a row of digits, with a point between two of them at
most.

Key definitions: `MadeOf`, `NameTail`, `PlainName`, `PlainNumber`, `Token.PlainlySpelledBy`.
Key theorems: `madeOf_of_tokenize`, `tokenize_spelling`, `tokenize_spaced`, `lexing_is_lossless`.
-/
import Gleaner.Proofs.Query.Lexing
import Gleaner.Proofs.Success
import Mathlib.Data.List.DropRight
import Mathlib.Data.List.Forall2

namespace Gleaner.Query

open Gleaner.Text

variable {c : Char} {a text : List Char} {token : Token} {tokens : List Token}

/-! ### What is read -/

/-- A text is made of spellings of the tokens one after another, with blanks in front of each of
them and at the end. -/
inductive MadeOf : List Token → List Char → Prop
  | blanks {blanks : List Char} : Blanks blanks → MadeOf [] blanks
  | token {token : Token} {tokens : List Token} {blanks spelling rest : List Char} :
    Blanks blanks → token.SpelledBy spelling → MadeOf tokens rest →
    MadeOf (token :: tokens) (blanks ++ spelling ++ rest)

/-- Another blank in front changes nothing. -/
theorem MadeOf.blank (h : MadeOf tokens text) (hc : isBlank c = true) :
    MadeOf tokens (c :: text) := by
  have hcons {blanks : List Char} (hblanks : Blanks blanks) : Blanks (c :: blanks) :=
    List.forall_mem_cons.2 ⟨hc, hblanks⟩
  cases h with
  | blanks hblanks => exact .blanks (hcons hblanks)
  | token hblanks hspelling hrest => exact .token (hcons hblanks) hspelling hrest

/-- **A text that is read is made of spellings of its tokens.** -/
theorem madeOf_of_tokenize : ∀ {text : List Char} {tokens : List Token},
    tokenize text = .ok tokens → MadeOf tokens text
  | [], tokens, h => by
    rw [tokenize] at h
    cases h
    exact .blanks (List.forall_mem_nil _)
  | c :: text, tokens, h => by
    rw [tokenize] at h
    split at h
    · next hblank => exact (madeOf_of_tokenize h).blank hblank
    split at h
    · cases h
    next token width htoken =>
    obtain ⟨others, hothers, rfl⟩ := map_eq_ok_iff.1 h
    -- What the token takes is its spelling, and the text goes on right behind it.
    obtain ⟨more, rest, rfl, hwidth, hspelled⟩ := ensures_tokenAt c text _ htoken
    have hdrop : (more ++ rest).drop width = rest := by
      rw [← show more.length = width from hwidth, List.drop_left]
    rw [hdrop] at hothers
    have hblanks : Blanks [] := List.forall_mem_nil _
    exact MadeOf.token hblanks hspelled (madeOf_of_tokenize hothers)
termination_by text => text.length
decreasing_by all_goals grind

/-! ### What is written -/

/-- Characters that go on with a name: each is one of a name, or a colon in front of a letter. -/
def NameTail : List Char → Prop
  | [] => True
  | c :: rest =>
    (isNameChar c = true ∨ c = ':' ∧ rest.head?.any isNameStart = true) ∧ NameTail rest

instance decidableNameTail : DecidablePred NameTail
  | [] => .isTrue trivial
  | _ :: rest => @instDecidableAnd _ _ _ (decidableNameTail rest)

/-- A name that nothing is taken from: it begins with a letter, goes on with what belongs to a name
and does not end in a point or a hyphen. -/
def PlainName (name : List Char) : Prop :=
  ∃ c more, name = c :: more ∧ isNameStart c = true ∧ NameTail more ∧
    ∀ d ∈ name.getLast?, d ≠ '.' ∧ d ≠ '-'

/-- A row of digits. -/
def Digits (text : List Char) : Prop :=
  text ≠ [] ∧ ∀ c ∈ text, isDigit c = true

/-- A row of digits, or two with a point between them. -/
def PlainNumber (text : List Char) : Prop :=
  Digits text ∨ ∃ whole fraction, Digits whole ∧ Digits fraction ∧ text = whole ++ '.' :: fraction

/-- What is asked of a spelling so that the token is read back: names and numbers are plain. -/
def Token.Plain : Token → List Char → Prop
  | .name _, spelling => PlainName spelling
  | .number _, spelling => PlainNumber spelling
  | _, _ => True

/-- A plain text spells the token. -/
def Token.PlainlySpelledBy (token : Token) (spelling : List Char) : Prop :=
  token.SpelledBy spelling ∧ token.Plain spelling

theorem nameChars_of_nameTail : ∀ {more : List Char}, NameTail more → nameChars more = more
  | [], _ => rfl
  | c :: more, ⟨hc, hmore⟩ => by
    rw [nameChars, nameChars_of_nameTail hmore]
    rcases hc with hname | ⟨rfl, hnext⟩
    · rw [if_pos hname]
    · simp [hnext]

theorem trimName_of_getLast {more : List Char} (h : ∀ d ∈ more.getLast?, d ≠ '.' ∧ d ≠ '-') :
    trimName more = more := by
  refine List.rdropWhile_eq_self_iff.2 fun hne => ?_
  simpa using h _ (List.getLast_mem_getLast? hne)

theorem PlainName.isName {name : List Char} (h : PlainName name) : IsName name := by
  obtain ⟨c, more, rfl, hstart, htail, hlast⟩ := h
  refine ⟨c, more, rfl, hstart, nameChars_of_nameTail htail, trimName_of_getLast fun d hd => ?_⟩
  refine hlast d ?_
  rw [List.getLast?_cons, hd]
  rfl

/-- A plain number begins with a digit, and nothing else stands in it than in any number. -/
theorem PlainNumber.cons (h : PlainNumber text) :
    ∃ c more, text = c :: more ∧ isDigit c = true ∧ ∀ d ∈ more, isNumberChar d = true := by
  have hdigits {row : List Char} (hrow : ∀ d ∈ row, isDigit d = true) :
      ∀ d ∈ row, isNumberChar d = true := fun d hd => by rw [isNumberChar, hrow d hd]; rfl
  have hcons {row : List Char} (hrow : Digits row) :
      ∃ c more, row = c :: more ∧ isDigit c = true ∧ ∀ d ∈ more, isNumberChar d = true := by
    obtain ⟨hne, hall⟩ := hrow
    obtain ⟨c, more, rfl⟩ := List.exists_cons_of_ne_nil hne
    rw [List.forall_mem_cons] at hall
    exact ⟨c, more, rfl, hall.1, hdigits hall.2⟩
  rcases h with hrow | ⟨whole, fraction, hwhole, hfraction, rfl⟩
  · exact hcons hrow
  · obtain ⟨c, more, rfl, hc, hmore⟩ := hcons hwhole
    refine ⟨c, more ++ '.' :: fraction, rfl, hc, ?_⟩
    rw [List.forall_mem_append, List.forall_mem_cons]
    exact ⟨hmore, by decide, hdigits hfraction.2⟩

/-- A number begins where a digit stands. -/
theorem tokenAt_digit (h : isDigit c = true) (rest : List Char) :
    tokenAt c rest = .ok (.number (numberOf (c :: rest.takeWhile isNumberChar)),
      (rest.takeWhile isNumberChar).length) := by
  have hmarks : ∀ m ∈ marks, isDigit m = false := by decide
  have hmark : c ∉ marks := fun hc => by rw [hmarks c hc] at h; cases h
  simp only [marks, List.mem_cons, List.not_mem_nil, or_false, not_or] at hmark
  unfold tokenAt
  simp only [hmark, h, false_and, or_false, if_true, if_false]

/-- A text that is one token from the first character to the last. -/
theorem tokenize_single {more : List Char} (hblank : isBlank c = false)
    (h : tokenAt c more = .ok (token, more.length)) : tokenize (c :: more) = .ok [token] := by
  rw [tokenize_token hblank h, List.drop_length, tokenize_nil]
  rfl

/-- **A spelling is read as its token.** -/
theorem tokenize_spelling {spelling : List Char} (h : token.PlainlySpelledBy spelling) :
    tokenize spelling = .ok [token] := by
  obtain ⟨h, hplain⟩ := h
  cases token with
  | name value =>
    obtain rfl := h
    have hend : nameChars [] = [] := rfl
    have hspells := spells_name (PlainName.isName hplain) hend
    rw [String.ofList_toList] at hspells
    exact hspells.tokenize
  | literal value =>
    obtain ⟨mark, hmark, hvalue, rfl⟩ := h
    have hblank : isBlank mark = false := by rcases hmark with rfl | rfl <;> decide
    refine tokenize_single hblank ?_
    rw [tokenAt_literal hmark hvalue, String.ofList_toList, List.length_append]
    rfl
  | number value =>
    obtain ⟨-, -, rfl⟩ := h
    obtain ⟨c, more, rfl, hc, hmore⟩ := PlainNumber.cons hplain
    have htake : more.takeWhile isNumberChar = more := List.takeWhile_eq_self_iff.2 hmore
    refine tokenize_single (not_blank_of_isDigit hc) ?_
    rw [tokenAt_digit hc, htake]
  | _ =>
    cases h
    exact tokenize_single (by decide) rfl

/-- A blank between two texts is read as nothing. -/
theorem spells_blank (rest : List Char) : Spells [' '] [] rest := by
  unfold Spells
  rw [List.singleton_append, tokenize, if_pos (by decide)]
  cases tokenize rest <;> rfl

/-- **Spellings with a blank between them are read one by one.** -/
theorem tokenize_spaced {spellings : List (List Char)}
    (h : List.Forall₂ Token.PlainlySpelledBy tokens spellings) :
    tokenize (List.intercalate [' '] spellings) = .ok tokens := by
  induction h with
  | nil => rw [List.intercalate_nil, tokenize_nil]
  | cons hfirst hmore ih =>
    have hspelling := tokenize_spelling hfirst
    cases hmore with
    | nil => simpa using hspelling
    | cons hnext hmore =>
      rw [List.intercalate_cons_cons,
        spells_separated ⟨by decide, by decide⟩ spells_blank hspelling, ih]
      rfl

/-- **Nothing is lost between a query and its tokens.** -/
theorem lexing_is_lossless :
    (∀ (query : List Char) (tokens : List Token),
      tokenize query = .ok tokens → MadeOf tokens query) ∧
    ∀ (tokens : List Token) (spellings : List (List Char)),
      List.Forall₂ Token.PlainlySpelledBy tokens spellings →
      tokenize (List.intercalate [' '] spellings) = .ok tokens :=
  ⟨fun _ _ => madeOf_of_tokenize, fun _ _ => tokenize_spaced⟩

theorem lexing_is_lossless_prefixed :
    List.Forall₂ Token.PlainlySpelledBy
      [.name "dc:creator", .doubleColon, .doubleDot, .literal "3.",
        .number (numberOf ['3', '.', '5'])]
      ["dc:creator".toList, [':', ':'], ['.', '.'], ['"', '3', '.', '"'], ['3', '.', '5']] ∧
    tokenize "dc:creator :: .. \"3.\" 3.5".toList =
      .ok [.name "dc:creator", .doubleColon, .doubleDot, .literal "3.",
        .number (numberOf ['3', '.', '5'])] ∧
    MadeOf [.name "dc:creator", .doubleColon, .doubleDot, .literal "3.",
      .number (numberOf ['3', '.', '5'])] "dc:creator :: .. \"3.\" 3.5".toList := by
  have hspelled : List.Forall₂ Token.PlainlySpelledBy
      [.name "dc:creator", .doubleColon, .doubleDot, .literal "3.",
        .number (numberOf ['3', '.', '5'])]
      ["dc:creator".toList, [':', ':'], ['.', '.'], ['"', '3', '.', '"'], ['3', '.', '5']] := by
    have hlast : ∀ d ∈ "dc:creator".toList.getLast?, d ≠ '.' ∧ d ≠ '-' := by
      intro d hd
      cases hd
      decide
    refine .cons ⟨rfl, 'd', "c:creator".toList, rfl, by decide, by decide, hlast⟩ ?_
    refine .cons ⟨rfl, trivial⟩ (.cons ⟨rfl, trivial⟩ ?_)
    refine .cons ⟨⟨'"', .inr rfl, by decide, rfl⟩, trivial⟩ (.cons ⟨?_, .inr ?_⟩ .nil)
    · exact ⟨by decide, by decide, rfl⟩
    · exact ⟨['3'], ['5'], ⟨by decide, by decide⟩, ⟨by decide, by decide⟩, rfl⟩
  have hread := lexing_is_lossless.2 _ _ hspelled
  exact ⟨hspelled, hread, lexing_is_lossless.1 _ _ hread⟩

end Gleaner.Query
