/-
# Texts that are read into tokens

A text is the spelling of some tokens before a certain rest if the tokens of the two together are
those tokens and then the tokens of the rest. Spellings are put together from those of single
tokens: a sign whatever follows it, a literal between quotation marks, and a name before anything
that cannot go on with it.

Key definitions: `Spells`, `signOf?`, `IsName`.
Key theorems: `Spells.append`, `spells_sign`, `spells_literal`, `spells_name`.
-/
import Gleaner.Query.Token

namespace Gleaner.Query

open Gleaner.Text

/-- The text is read into the tokens where the rest follows it. -/
def Spells (text : List Char) (tokens : List Token) (rest : List Char) : Prop :=
  tokenize (text ++ rest) = (tokenize rest).map (tokens ++ ·)

theorem Spells.nil (rest : List Char) : Spells [] [] rest := by
  unfold Spells
  rw [List.nil_append]
  cases tokenize rest <;> rfl

/-- Texts one after another are read into their tokens one after another. -/
theorem Spells.append {a b rest : List Char} {s t : List Token} (ha : Spells a s (b ++ rest))
    (hb : Spells b t rest) : Spells (a ++ b) (s ++ t) rest := by
  unfold Spells
  rw [List.append_assoc, ha, hb]
  cases tokenize rest with
  | error r => rfl
  | ok tokens => simp [Except.map]

/-- The first token of a text is read, and then those of what it leaves. -/
theorem spells_of_tokenAt {c : Char} (text : List Char) {rest : List Char} {token : Token}
    (hblank : isBlank c = false) (h : tokenAt c (text ++ rest) = .ok (token, text.length)) :
    Spells (c :: text) [token] rest := by
  unfold Spells
  rw [List.cons_append, tokenize, hblank, h]
  simp only [List.drop_left]
  rfl

/-! ### Signs -/

/-- The sign of one character, if it begins no longer one. -/
def signOf? : Char → Option Token
  | '[' => some .openBracket
  | ']' => some .closeBracket
  | '(' => some .openParen
  | ')' => some .closeParen
  | '@' => some .at
  | ',' => some .comma
  | '*' => some .star
  | '|' => some .pipe
  | '=' => some .equal
  | _ => none

theorem spells_sign {c : Char} {token : Token} (h : signOf? c = some token) (rest : List Char) :
    Spells [c] [token] rest := by
  unfold signOf? at h
  split at h <;> cases h <;> exact spells_of_tokenAt [] (by decide) rfl

theorem spells_slash {rest : List Char} (h : rest.head? ≠ some '/') :
    Spells ['/'] [.slash] rest := by
  refine spells_of_tokenAt [] (by decide) ?_
  rw [List.nil_append, tokenAt]
  simp [h]

theorem spells_doubleSlash (rest : List Char) : Spells ['/', '/'] [.doubleSlash] rest :=
  spells_of_tokenAt ['/'] (by decide) rfl

theorem spells_dot {rest : List Char} (h : ∀ c ∈ rest.head?, c ≠ '.' ∧ isDigit c = false) :
    Spells ['.'] [.dot] rest := by
  have hdot : rest.head? ≠ some '.' := fun hc => (h '.' hc).1 rfl
  have hdigit : rest.head?.any isDigit = false := by
    cases hc : rest.head? with
    | none => rfl
    | some c => exact (h c hc).2
  refine spells_of_tokenAt [] (by decide) ?_
  rw [List.nil_append, tokenAt]
  simp [hdot, hdigit]

theorem spells_doubleDot (rest : List Char) : Spells ['.', '.'] [.doubleDot] rest :=
  spells_of_tokenAt ['.'] (by decide) rfl

theorem spells_doubleColon (rest : List Char) : Spells [':', ':'] [.doubleColon] rest :=
  spells_of_tokenAt [':'] (by decide) rfl

/-! ### Literals -/

/-- A text between quotation marks that it does not hold is a literal. -/
theorem spells_literal {value : String} (h : '\'' ∉ value.toList) (rest : List Char) :
    Spells ('\'' :: (value.toList ++ ['\''])) [.literal value] rest := by
  have hvalue : ∀ c ∈ value.toList, (c != '\'') = true := fun c hc => by
    rw [bne_iff_ne]
    rintro rfl
    exact h hc
  have htake : (value.toList ++ '\'' :: rest).takeWhile (· != '\'') = value.toList := by
    rw [List.takeWhile_append_of_pos hvalue]
    simp
  refine spells_of_tokenAt (value.toList ++ ['\'']) (by decide) ?_
  rw [List.append_assoc, List.singleton_append, tokenAt]
  simp [htake]

/-! ### Names -/

/-- A text is a name by itself: no character at its end is given back. -/
def IsName (name : List Char) : Prop :=
  ∃ c more, name = c :: more ∧ isNameStart c = true ∧ nameChars more = more ∧ trimName more = more

theorem nameChars_of_forall {text : List Char} (h : ∀ c ∈ text, isNameChar c = true) :
    nameChars text = text := by
  induction text with
  | nil => rfl
  | cons c text ih =>
    rw [List.forall_mem_cons] at h
    rw [nameChars, if_pos h.1, ih h.2]

/-- A name ends where nothing follows that could go on with it. -/
theorem nameChars_append {rest : List Char} (hrest : nameChars rest = []) :
    ∀ {name : List Char}, nameChars name = name → nameChars (name ++ rest) = name
  | [], _ => hrest
  | c :: name, h => by
    unfold nameChars at h
    rw [List.cons_append, nameChars]
    by_cases hc : isNameChar c = true
    · rw [if_pos hc, List.cons.injEq] at h
      rw [if_pos hc, nameChars_append hrest h.2]
    · rw [if_neg hc] at h
      by_cases hcolon : (c = ':' && name.head?.any isNameStart) = true
      · rw [if_pos hcolon, List.cons.injEq] at h
        have hhead : (name ++ rest).head? = name.head? := by
          cases name with
          | nil => simp at hcolon
          | cons d more => rfl
        rw [if_neg hc, hhead, if_pos hcolon, nameChars_append hrest h.2]
      · rw [if_neg hcolon] at h
        cases h

/-- The characters that begin a sign or a literal. -/
def marks : List Char :=
  ['/', '[', ']', '(', ')', '@', ',', '*', '|', '=', '!', '<', '>', ':', '.', '\'', '"']

/-- A character that begins a name is no blank and no digit, and begins nothing else. -/
theorem not_mark_of_isNameStart {c : Char} (h : isNameStart c = true) :
    isBlank c = false ∧ isDigit c = false ∧ c ∉ marks := by
  have hmarks : ∀ m ∈ marks, isNameStart m = false := by decide
  refine ⟨?_, ?_, fun hc => ?_⟩
  · rw [isNameStart, Bool.or_eq_true, beq_iff_eq] at h
    rcases h with h | rfl
    · exact not_blank_of_isAlphabetic h
    · decide
  · rw [Bool.eq_false_iff]
    intro hdigit
    rw [isNameStart, not_alphabetic_of_isDigit hdigit, Bool.false_or, beq_iff_eq] at h
    rw [h] at hdigit
    exact absurd hdigit (by decide)
  · rw [hmarks c hc] at h
    cases h

theorem spells_name {name rest : List Char} (h : IsName name) (hrest : nameChars rest = []) :
    Spells name [.name (String.ofList name)] rest := by
  obtain ⟨c, more, rfl, hstart, hmore, htrim⟩ := h
  obtain ⟨hblank, hdigit, hmark⟩ := not_mark_of_isNameStart hstart
  refine spells_of_tokenAt more hblank ?_
  simp only [marks, List.mem_cons, List.not_mem_nil, or_false, not_or] at hmark
  rw [tokenAt, nameChars_append hrest hmore, htrim]
  simp only [hmark, hdigit, hstart, false_and, or_false, if_true, if_false, Bool.false_eq_true]

end Gleaner.Query
