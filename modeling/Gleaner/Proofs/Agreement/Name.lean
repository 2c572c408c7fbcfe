/-
# Names and values that both readings know

An identifier begins with an ASCII letter or a low line, goes on with letters, digits, low lines and
hyphens, and does not end in a hyphen. Each grammar of the program takes it for a name and for
nothing else: that of steps, that of filters, that of CSS and that of path queries. So it is with a
value that holds no quotation mark and none of the characters that CSS cannot write here.

Key definitions: `isIdentifier`, `IsElementTest`, `IsValue`.
Key theorems: `isName_of_identifier`, `isAttributeName_of_identifier`, `elementName_of_test`,
`isCssName_of_identifier`, `cssRead_value`.
-/
import Gleaner.Proofs.Query.Spelling
import Gleaner.Proofs.Selector.Written
import Gleaner.Selector.Compound

namespace Gleaner

open Gleaner.Text Gleaner.Selector

/-- A further character of an identifier. -/
def isIdentifierChar (c : Char) : Bool :=
  isAsciiLetter c || isDigit c || c == '_' || c == '-'

/-- An identifier of ASCII, with hyphens inside only. -/
def isIdentifier : List Char → Bool
  | [] => false
  | c :: rest =>
    Selector.isNameStart c && rest.all isIdentifierChar && decide (rest.getLast? ≠ some '-')

/-- A name of elements that both readings know; a star stands for any. -/
def IsElementTest (name : String) : Prop :=
  name = "*" ∨ isIdentifier name.toList = true

instance (name : String) : Decidable (IsElementTest name) :=
  inferInstanceAs (Decidable (_ ∨ _))

/-- A value that both readings know. -/
def IsValue (value : String) : Prop :=
  ∀ c ∈ value.toList, c ≠ '\'' ∧ c ≠ '\r' ∧ c ≠ '\x0c' ∧ c ≠ '\x00'

instance (value : String) : Decidable (IsValue value) :=
  inferInstanceAs (Decidable (∀ c ∈ value.toList, _))

/-! ### The characters of an identifier -/

theorem isIdentifier_cons {c : Char} {rest : List Char} (h : isIdentifier (c :: rest) = true) :
    Selector.isNameStart c = true ∧ (∀ a ∈ rest, isIdentifierChar a = true) ∧
      rest.getLast? ≠ some '-' := by
  unfold isIdentifier at h
  rw [Bool.and_eq_true, Bool.and_eq_true, List.all_eq_true, decide_eq_true_eq] at h
  exact ⟨h.1.1, h.1.2, h.2⟩

theorem isIdentifierChar_of_mem {name : List Char} (h : isIdentifier name = true) :
    ∀ c ∈ name, isIdentifierChar c = true := by
  cases name with
  | nil => simp
  | cons c rest =>
    obtain ⟨hstart, hrest, -⟩ := isIdentifier_cons h
    intro a ha
    rw [List.mem_cons] at ha
    rcases ha with rfl | ha
    · rw [Selector.isNameStart, Bool.or_eq_true] at hstart
      rw [isIdentifierChar]
      rcases hstart with hletter | hlow
      · simp [hletter]
      · simp [hlow]
    · exact hrest a ha

/-- A character that no identifier holds is in none. -/
theorem ne_of_isIdentifierChar {c m : Char} (h : isIdentifierChar c = true)
    (hm : isIdentifierChar m = false) : c ≠ m := by
  rintro rfl
  rw [h] at hm
  cases hm

theorem isIdentifierChar_iff {c : Char} : isIdentifierChar c = true ↔
    isAsciiLetter c = true ∨ isDigit c = true ∨ c = '_' ∨ c = '-' := by
  simp only [isIdentifierChar, Bool.or_eq_true, beq_iff_eq, or_assoc]

theorem isAlphabetic_of_isAsciiLetter {c : Char} (h : isAsciiLetter c = true) :
    isAlphabetic c = true := by
  have := toNat_of_isAsciiLetter h
  rw [isAlphabetic, if_pos (by omega)]
  exact h

theorem not_blank_of_isIdentifierChar {c : Char} (h : isIdentifierChar c = true) :
    isBlank c = false := by
  rcases isIdentifierChar_iff.1 h with hletter | hdigit | rfl | rfl
  · exact not_blank_of_isAlphabetic (isAlphabetic_of_isAsciiLetter hletter)
  · exact not_blank_of_isDigit hdigit
  · decide
  · decide

/-- Names of path queries hold the characters of identifiers. -/
theorem Query.isNameChar_of_isIdentifierChar {c : Char} (h : isIdentifierChar c = true) :
    Query.isNameChar c = true := by
  unfold Query.isNameChar
  rcases isIdentifierChar_iff.1 h with hletter | hdigit | rfl | rfl
  · simp [isAlphanumeric_of_isAlphabetic (isAlphabetic_of_isAsciiLetter hletter)]
  · have := toNat_of_isDigit hdigit
    rw [isAlphanumeric, if_pos (by omega), hdigit]
    simp
  · decide
  · decide

/-- Names in filters hold the characters of identifiers. -/
theorem Selector.isNameChar_of_isIdentifierChar {c : Char} (h : isIdentifierChar c = true) :
    Selector.isNameChar c = true := by
  unfold Selector.isNameChar
  rw [isWordChar]
  rcases isIdentifierChar_iff.1 h with hletter | hdigit | rfl | rfl
  · have := toNat_of_isAsciiLetter hletter
    rw [if_pos (by omega), hletter]
    rfl
  · have := toNat_of_isDigit hdigit
    rw [if_pos (by omega), hdigit]
    simp
  · decide
  · decide

/-! ### Identifiers as names -/

/-- Path queries take an identifier for a name. -/
theorem isName_of_identifier {name : List Char} (h : isIdentifier name = true) :
    Query.IsName name := by
  obtain _ | ⟨c, rest⟩ := name
  · cases h
  obtain ⟨hstart, hrest, hlast⟩ := isIdentifier_cons h
  have hname : Query.nameChars rest = rest :=
    Query.nameChars_of_forall fun a ha => Query.isNameChar_of_isIdentifierChar (hrest a ha)
  refine ⟨c, rest, rfl, ?_, hname, ?_⟩
  · rw [Selector.isNameStart, Bool.or_eq_true] at hstart
    rw [Query.isNameStart]
    rcases hstart with hletter | hlow
    · simp [isAlphabetic_of_isAsciiLetter hletter]
    · simp [hlow]
  · obtain rfl | ⟨init, z, rfl⟩ := rest.eq_nil_or_concat
    · rfl
    · have hz : z ≠ '-' := by simpa using hlast
      have hdot : z ≠ '.' := ne_of_isIdentifierChar (hrest z (by simp)) (by decide)
      rw [Query.trimName]
      simp [hz, hdot]

/-- Filters take an identifier for the name of an attribute. -/
theorem isAttributeName_of_identifier {name : List Char} (h : isIdentifier name = true) :
    isAttributeName name = true := by
  obtain _ | ⟨c, rest⟩ := name
  · cases h
  obtain ⟨hstart, hrest, -⟩ := isIdentifier_cons h
  rw [isAttributeName, hstart, Bool.true_and, List.all_eq_true]
  intro a ha
  exact Selector.isNameChar_of_isIdentifierChar (hrest a ha)

theorem plain_of_identifier {name : List Char} (h : isIdentifier name = true) : Plain name := by
  have hne : name ≠ [] := by
    rintro rfl
    cases h
  have hmarks : ∀ m ∈ '\'' :: separators, isIdentifierChar m = false := by decide
  refine Plain.of_forall hne fun c hc => ?_
  have hchar := isIdentifierChar_of_mem h c hc
  refine ⟨not_blank_of_isIdentifierChar hchar, ?_, fun hm => ?_⟩
  · exact ne_of_isIdentifierChar hchar (hmarks _ List.mem_cons_self)
  · exact ne_of_isIdentifierChar hchar (hmarks c (List.mem_cons_of_mem _ hm)) rfl

/-- Steps take an identifier, or a star, for the name of elements. -/
theorem elementName_of_test {name : String} (h : IsElementTest name) : ElementName name := by
  rcases h with rfl | h
  · have hplain : Plain "*".toList := Plain.of_forall (by decide) (by decide)
    exact ⟨hplain, rfl, by decide, by decide, rfl⟩
  · have hplain := plain_of_identifier h
    have hlacks {m : Char} (hm : isIdentifierChar m = false) : m ∉ name.toList := fun hc =>
      ne_of_isIdentifierChar (isIdentifierChar_of_mem h m hc) hm rfl
    have hne {text : List Char} {m : Char} (hm : isIdentifierChar m = false) (hmem : m ∈ text) :
        name.toList ≠ text := fun heq => hlacks hm (heq ▸ hmem)
    have hparen : isIdentifierChar '(' = false := by decide
    have hdot : isIdentifierChar '.' = false := by decide
    have hcolon : isIdentifierChar ':' = false := by decide
    have haccessor : Accessor.read? name.toList = none := by
      refine Accessor.read?_eq_none hplain.solid (hne hparen (by decide)) (hne hparen (by decide))
        (stripStart?_eq_none_of_not_mem List.mem_cons_self (hlacks (by decide)))
        (stripStart?_eq_none_of_not_mem (m := ':') (by decide) (hlacks hcolon))
    refine ⟨hplain, haccessor, ?_, ?_, splitAtFirst?_eq_none (hlacks hcolon)⟩
    · rintro rfl
      exact hlacks hdot (by decide)
    · rintro rfl
      exact hlacks hdot (by decide)

/-! ### Identifiers and values in CSS -/

/-- CSS can write an identifier. -/
theorem isCssName_of_identifier {name : String} (h : isIdentifier name.toList = true) :
    isCssName name = true := by
  have hbreak : (name.toList.any isCssBreak) = false := by
    rw [List.any_eq_false]
    intro c hc hcss
    have hchar := isIdentifierChar_of_mem h c hc
    simp only [isCssBreak, Bool.or_eq_true, beq_iff_eq] at hcss
    rcases hcss with (rfl | rfl) | rfl <;> exact absurd hchar (by decide)
  rw [isCssName, hbreak]
  generalize name.toList = text at h
  obtain _ | ⟨c, rest⟩ := text
  · cases h
  obtain ⟨hstart, -, -⟩ := isIdentifier_cons h
  have hhyphen : c ≠ '-' := by
    rintro rfl
    exact absurd hstart (by decide)
  have hdigit : isDigit c = false := by
    rw [Bool.eq_false_iff]
    intro hdigit
    have := not_alphabetic_of_isDigit hdigit
    rw [Selector.isNameStart, Bool.or_eq_true, beq_iff_eq] at hstart
    rcases hstart with hletter | rfl
    · rw [isAlphabetic_of_isAsciiLetter hletter] at this
      cases this
    · exact absurd hdigit (by decide)
  simp [hhyphen, hdigit]

/-- CSS reads a text without NUL as it is. -/
theorem cssRead_eq {text : String} (h : '\x00' ∉ text.toList) : cssRead text = text := by
  have hmap : (text.toList.map fun c => if c = '\x00' then '\uFFFD' else c) = text.toList := by
    refine (List.map_congr_left fun c hc => if_neg ?_).trans (List.map_id _)
    rintro rfl
    exact h hc
  rw [cssRead, hmap, String.ofList_toList]

theorem cssRead_identifier {name : String} (h : isIdentifier name.toList = true) :
    cssRead name = name :=
  cssRead_eq fun hc => absurd (isIdentifierChar_of_mem h _ hc) (by decide)

theorem cssRead_value {value : String} (h : IsValue value) : cssRead value = value :=
  cssRead_eq fun hc => (h _ hc).2.2.2 rfl

/-- CSS can write a value. -/
theorem isCssValue_of_value {value : String} (h : IsValue value) : isCssValue value = true := by
  unfold isCssValue
  rw [Bool.not_eq_true', List.any_eq_false]
  intro c hc
  simp [(h c hc).2.1, (h c hc).2.2.1]

end Gleaner
