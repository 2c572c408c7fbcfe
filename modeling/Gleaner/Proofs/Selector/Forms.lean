/-
# The five forms of a filter

The text between the brackets of a step is a filter when it has one of five forms: the pieces of the
form stand in it in their order, with blanks or nothing in front of each of them and at the end. The
name, the value and the number that stand there are those of the filter. A literal may hold whatever
another form is made of, for its end is its second quotation mark and nothing else.

The first character that is no blank tells an attribute, a call and a position apart; behind it an
attribute with a value is told from one without by the sign of equality, and the two calls by what
stands first between the parentheses. So a text has one form at most, and it does not matter in
which order the forms are tried.

Key definitions: `isAttributeName`, `Quotable`, `Spaced`, `Filter.Form`, `formReaders`.
Key theorems: `Filter.read?_of_form`, `Filter.read?_eq_some_iff`, `Filter.read_iff_form`.
-/
import Gleaner.Proofs.Number.Decimal
import Gleaner.Proofs.Text.Trimming
import Gleaner.Selector.Step
import Gleaner.Text.Remainder

namespace Gleaner.Selector

open Gleaner.Text

variable {text name value rest body blanks : List Char} {pieces : List (List Char)} {f : Filter}

/-! ### Forms -/

/-- What a condition begins with that one text contains another. -/
def containsStart : List Char :=
  "contains(".toList

/-- The own text of an element, as the first text of such a condition. -/
def ownTextCall : List Char :=
  "text()".toList

/-- A filter may name the attribute. -/
def isAttributeName : List Char → Bool
  | [] => false
  | c :: rest => isNameStart c && rest.all isNameChar

/-- A filter may hold the value between its quotation marks. -/
def Quotable (value : String) : Prop :=
  '\'' ∉ value.toList

/-- A value between its quotation marks. -/
def quoted (value : String) : List Char :=
  '\'' :: (value.toList ++ ['\''])

/-- The pieces stand in a text one after another, with blanks or nothing in front of each of them
and at the end. -/
def Spaced : List (List Char) → List Char → Prop
  | [], text => Blanks text
  | piece :: pieces, text =>
    ∃ blanks rest, Blanks blanks ∧ text = blanks ++ (piece ++ rest) ∧ Spaced pieces rest

/-- The forms of the text between brackets, each with the filter that it writes. -/
inductive Filter.Form (body : List Char) : Filter → Prop
  /-- `@name='value'` -/
  | attributeIs {name value : String} : isAttributeName name.toList = true → Quotable value →
      Spaced ['@' :: name.toList, ['='], quoted value] body → Form body (.attributeIs name value)
  /-- `contains(@name,'value')` -/
  | attributeHolds {name value : String} : isAttributeName name.toList = true → Quotable value →
      Spaced [containsStart, '@' :: name.toList, [','], quoted value, [')']] body →
      Form body (.attributeHolds name value)
  /-- `contains(text(),'value')` -/
  | textHolds {value : String} : Quotable value →
      Spaced [containsStart, ownTextCall, [','], quoted value, [')']] body →
      Form body (.textHolds value)
  /-- Decimal digits of a number that fits in 64 bits, perhaps with zeros in front. -/
  | index {digits : List Char} : digits ≠ [] → (∀ c ∈ digits, isDigit c = true) →
      numeralValue digits < Number.twoTo 64 → Spaced [digits] body →
      Form body (.index (numeralValue digits))
  /-- `@name` -/
  | hasAttribute {name : String} : isAttributeName name.toList = true →
      Spaced ['@' :: name.toList] body → Form body (.hasAttribute name)

/-! ### Signs -/

theorem isDone_of_spaced (h : Spaced [] text) : isDone text = true :=
  List.all_eq_true.2 h

theorem spaced_of_isDone (h : isDone text = true) : Spaced [] text :=
  List.all_eq_true.1 h

theorem eq_of_mark? {sign : Char} (h : mark? sign text = some rest) :
    ∃ blanks, Blanks blanks ∧ text = blanks ++ sign :: rest := by
  obtain ⟨blanks, hblanks, htext⟩ := exists_trimStart text
  refine ⟨blanks, hblanks, ?_⟩
  unfold mark? at h
  split at h
  · next c more hstart =>
    obtain ⟨rfl, hmore⟩ := Option.ite_none_right_eq_some.1 h
    rw [← Option.some.inj hmore, ← hstart]
    exact htext
  · cases h

theorem spaced_of_mark? {sign : Char} (h : mark? sign text = some rest)
    (hrest : Spaced pieces rest) : Spaced ([sign] :: pieces) text := by
  obtain ⟨blanks, hblanks, htext⟩ := eq_of_mark? h
  exact ⟨blanks, rest, hblanks, htext, hrest⟩

theorem mark?_blanks (sign : Char) (h : Blanks blanks) (text : List Char) :
    mark? sign (blanks ++ text) = mark? sign text := by
  rw [mark?, mark?, trimStart_append h]

theorem mark?_self {sign : Char} (h : isBlank sign = false) (rest : List Char) :
    mark? sign (sign :: rest) = some rest := by
  rw [mark?, trimStart_cons h]
  exact if_pos rfl

theorem mark?_other {sign c : Char} (h : isBlank c = false) (hne : c ≠ sign) (rest : List Char) :
    mark? sign (c :: rest) = none := by
  rw [mark?, trimStart_cons h]
  exact if_neg hne

/-- A sign is read where it stands as a piece. -/
theorem mark?_of_spaced {sign : Char} (hsign : isBlank sign = false)
    (h : Spaced ([sign] :: pieces) text) :
    ∃ rest, mark? sign text = some rest ∧ Spaced pieces rest := by
  obtain ⟨blanks, rest, hblanks, rfl, hrest⟩ := h
  refine ⟨rest, ?_, hrest⟩
  rw [mark?_blanks sign hblanks]
  exact mark?_self hsign rest

/-! ### Attributes -/

/-- What is taken for an attribute is its sign and a name, behind blanks. -/
theorem eq_of_attribute? (h : attribute? text = some (name, rest)) :
    ∃ blanks, Blanks blanks ∧ isAttributeName name = true ∧
      text = blanks ++ '@' :: (name ++ rest) := by
  unfold attribute? at h
  split at h
  · next c more hmark =>
    obtain ⟨blanks, hblanks, htext⟩ := eq_of_mark? hmark
    obtain ⟨hc, hname⟩ := Option.ite_none_right_eq_some.1 h
    cases hname
    refine ⟨blanks, hblanks, ?_, ?_⟩
    · rw [isAttributeName, hc, Bool.true_and]
      exact List.all_takeWhile
    · rw [htext, List.cons_append, List.takeWhile_append_dropWhile]
  · cases h

theorem spaced_of_attribute? (h : attribute? text = some (name, rest))
    (hrest : Spaced pieces rest) : Spaced (('@' :: name) :: pieces) text := by
  obtain ⟨blanks, hblanks, -, htext⟩ := eq_of_attribute? h
  exact ⟨blanks, rest, hblanks, htext, hrest⟩

/-- A name that is read is one. -/
theorem isAttributeName_of_attribute? (h : attribute? text = some (name, rest)) :
    isAttributeName (String.ofList name).toList = true := by
  obtain ⟨-, -, hname, -⟩ := eq_of_attribute? h
  rwa [String.toList_ofList]

/-- No blank goes on with a name. -/
theorem not_isNameChar_of_isBlank {c : Char} (h : isBlank c = true) : isNameChar c = false := by
  have hne {m : Char} (hm : isBlank m = false) : (c == m) = false := by
    rw [beq_eq_false_iff_ne]
    rintro rfl
    exact Bool.false_ne_true (hm.symm.trans h)
  have hword : isWordChar c = false := by
    rw [isWordChar]
    split
    · next hlow =>
      have hletter : isAsciiLetter c = false := by
        rw [Bool.eq_false_iff]
        intro hletter
        have halphabetic : isAlphabetic c = true := by
          rw [isAlphabetic, if_pos hlow, hletter]
        exact Bool.false_ne_true ((not_blank_of_isAlphabetic halphabetic).symm.trans h)
      have hdigit : isDigit c = false := by
        rw [Bool.eq_false_iff]
        exact fun hdigit => Bool.false_ne_true ((not_blank_of_isDigit hdigit).symm.trans h)
      rw [hletter, hdigit, hne (by decide)]
      rfl
    · have hdisjoint {t : List (Nat × Nat)} (ht : (blankRanges.all fun a => t.all fun b =>
          decide (a.2 < b.1) || decide (b.2 < a.1)) = true) : inRanges t c = false :=
        not_inRanges_of_disjoint ht h
      rw [hdisjoint (t := alphabeticRanges) (by decide +kernel),
        hdisjoint (t := decimalRanges) (by decide +kernel),
        hdisjoint (t := wordMarkRanges) (by decide +kernel)]
      simp
  rw [isNameChar, hword, hne (by decide), hne (by decide), hne (by decide)]
  rfl

/-- What follows does not go on with the name of an attribute. -/
def EndsAttribute (rest : List Char) : Prop :=
  ∀ c ∈ rest.head?, isNameChar c = false

theorem endsAttribute_blanks (h : Blanks blanks) (hrest : EndsAttribute rest) :
    EndsAttribute (blanks ++ rest) := by
  cases blanks with
  | nil => exact hrest
  | cons b more =>
    rintro _ ⟨⟩
    exact not_isNameChar_of_isBlank (h b List.mem_cons_self)

/-- Pieces of which the first does not go on with a name do not, for all that may stand in front of
it is blanks. -/
theorem endsAttribute_of_spaced (hpieces : ∀ piece ∈ pieces.head?, piece ≠ [] ∧ EndsAttribute piece)
    (h : Spaced pieces text) : EndsAttribute text := by
  cases pieces with
  | nil =>
    have hnil : EndsAttribute [] := by simp [EndsAttribute]
    have hend := endsAttribute_blanks h hnil
    rwa [List.append_nil] at hend
  | cons piece more =>
    obtain ⟨blanks, rest, hblanks, rfl, -⟩ := h
    obtain ⟨hne, hpiece⟩ := hpieces piece rfl
    obtain ⟨c, tail, rfl⟩ := List.exists_cons_of_ne_nil hne
    exact endsAttribute_blanks hblanks hpiece

/-- So does no piece that is a sign of its own. -/
theorem endsAttribute_sign {sign : Char} (h : isNameChar sign = false) :
    ∀ piece ∈ ([sign] :: pieces).head?, piece ≠ [] ∧ EndsAttribute piece := by
  rintro _ ⟨⟩
  refine ⟨List.cons_ne_nil _ _, ?_⟩
  rintro _ ⟨⟩
  exact h

theorem attribute?_blanks (h : Blanks blanks) (text : List Char) :
    attribute? (blanks ++ text) = attribute? text := by
  rw [attribute?, attribute?, mark?_blanks '@' h]

/-- An attribute's name is read up to what cannot belong to it. -/
theorem attribute?_written {name rest : List Char} (h : isAttributeName name = true)
    (hrest : EndsAttribute rest) :
    attribute? ('@' :: (name ++ rest)) = some (name, rest) := by
  obtain _ | ⟨c, more⟩ := name
  · cases h
  · rw [isAttributeName, Bool.and_eq_true, List.all_eq_true] at h
    obtain ⟨htake, hdrop⟩ := span_append h.2 hrest
    rw [attribute?, List.cons_append, mark?_self (by decide)]
    simp only
    rw [if_pos h.1, htake, hdrop]

theorem attribute?_other {c : Char} (h : isBlank c = false) (hne : c ≠ '@') (rest : List Char) :
    attribute? (c :: rest) = none := by
  unfold attribute?
  rw [mark?_other h hne]

/-- An attribute is read where it stands as a piece. -/
theorem attribute?_of_spaced (hname : isAttributeName name = true)
    (hpieces : ∀ piece ∈ pieces.head?, piece ≠ [] ∧ EndsAttribute piece)
    (h : Spaced (('@' :: name) :: pieces) text) :
    ∃ rest, attribute? text = some (name, rest) ∧ Spaced pieces rest := by
  obtain ⟨blanks, rest, hblanks, rfl, hrest⟩ := h
  refine ⟨rest, ?_, hrest⟩
  rw [attribute?_blanks hblanks]
  exact attribute?_written hname (endsAttribute_of_spaced hpieces hrest)

/-- Text that begins otherwise has no attribute at its start. -/
theorem attribute?_eq_none {c : Char} {tail : List Char} (hc : isBlank c = false) (hne : c ≠ '@')
    (h : Spaced ((c :: tail) :: pieces) text) : attribute? text = none := by
  obtain ⟨blanks, rest, hblanks, rfl, -⟩ := h
  rw [attribute?_blanks hblanks]
  exact attribute?_other hc hne _

/-! ### Literals -/

/-- What is taken for a literal has no quotation mark but its own, behind blanks. -/
theorem eq_of_literal? (h : literal? text = some (value, rest)) :
    ∃ blanks, Blanks blanks ∧ '\'' ∉ value ∧ text = blanks ++ '\'' :: (value ++ '\'' :: rest) := by
  unfold literal? at h
  split at h
  · next more hmark =>
    obtain ⟨blanks, hblanks, htext⟩ := eq_of_mark? hmark
    split at h
    · next c after hdrop =>
      cases h
      have hc : c = '\'' := by
        have hhead := List.head?_dropWhile_not (· != '\'') more
        rw [hdrop] at hhead
        simpa using hhead
      refine ⟨blanks, hblanks, fun hmem => ?_, ?_⟩
      · have hall := List.all_eq_true.1 (List.all_takeWhile (p := (· != '\'')) (l := more)) _ hmem
        simp at hall
      · have hsplit := List.takeWhile_append_dropWhile (p := (· != '\'')) (l := more)
        rw [hdrop, hc] at hsplit
        rw [htext, hsplit]
    · cases h
  · cases h

theorem spaced_of_literal? (h : literal? text = some (value, rest)) (hrest : Spaced pieces rest) :
    Spaced (quoted (String.ofList value) :: pieces) text := by
  obtain ⟨blanks, hblanks, -, htext⟩ := eq_of_literal? h
  refine ⟨blanks, rest, hblanks, ?_, hrest⟩
  rw [htext, quoted, String.toList_ofList]
  simp

theorem quotable_of_literal? (h : literal? text = some (value, rest)) :
    Quotable (String.ofList value) := by
  obtain ⟨-, -, hvalue, -⟩ := eq_of_literal? h
  rwa [Quotable, String.toList_ofList]

/-- A literal is read up to its closing mark. -/
theorem literal?_written {value : List Char} (h : '\'' ∉ value) (rest : List Char) :
    literal? ('\'' :: (value ++ '\'' :: rest)) = some (value, rest) := by
  have hvalue : ∀ c ∈ value, (c != '\'') = true := fun c hc => by
    rw [bne_iff_ne]
    rintro rfl
    exact h hc
  rw [literal?, mark?_self (by decide)]
  simp only
  rw [List.dropWhile_append_of_pos hvalue, List.takeWhile_append_of_pos hvalue]
  simp

theorem literal?_of_spaced {value : String} (hvalue : Quotable value)
    (h : Spaced (quoted value :: pieces) text) :
    ∃ rest, literal? text = some (value.toList, rest) ∧ Spaced pieces rest := by
  obtain ⟨blanks, rest, hblanks, rfl, hrest⟩ := h
  refine ⟨rest, ?_, hrest⟩
  rw [literal?, mark?_blanks '\'' hblanks, ← literal?, ← literal?_written hvalue rest, quoted]
  simp

/-! ### Calls -/

theorem spaced_of_containsCall? (h : containsCall? text = some rest) (hrest : Spaced pieces rest) :
    Spaced (containsStart :: pieces) text := by
  obtain ⟨blanks, hblanks, htext⟩ := exists_trimStart text
  rw [containsCall?, stripStart?_eq_some_iff] at h
  rw [h] at htext
  exact ⟨blanks, rest, hblanks, htext, hrest⟩

theorem containsCall?_blanks (h : Blanks blanks) (text : List Char) :
    containsCall? (blanks ++ text) = containsCall? text := by
  rw [containsCall?, containsCall?, trimStart_append h]

theorem containsCall?_written (rest : List Char) :
    containsCall? (containsStart ++ rest) = some rest := by
  unfold containsCall?
  rw [stripStart?_eq_some_iff]
  rfl

theorem containsCall?_other {c : Char} (h : isBlank c = false) (hne : c ≠ 'c') (rest : List Char) :
    containsCall? (c :: rest) = none := by
  rw [containsCall?, trimStart_cons h]
  exact if_neg (Ne.symm hne)

theorem containsCall?_of_spaced (h : Spaced (containsStart :: pieces) text) :
    ∃ rest, containsCall? text = some rest ∧ Spaced pieces rest := by
  obtain ⟨blanks, rest, hblanks, rfl, hrest⟩ := h
  refine ⟨rest, ?_, hrest⟩
  rw [containsCall?_blanks hblanks]
  exact containsCall?_written rest

theorem containsCall?_eq_none {c : Char} {tail : List Char} (hc : isBlank c = false) (hne : c ≠ 'c')
    (h : Spaced ((c :: tail) :: pieces) text) : containsCall? text = none := by
  obtain ⟨blanks, rest, hblanks, rfl, -⟩ := h
  rw [containsCall?_blanks hblanks]
  exact containsCall?_other hc hne _

theorem spaced_of_lastArgument? (h : lastArgument? text = some value) :
    Quotable (String.ofList value) ∧ Spaced [[','], quoted (String.ofList value), [')']] text := by
  simp only [lastArgument?, Option.bind_eq_bind, Option.bind_eq_some_iff] at h
  obtain ⟨afterComma, hcomma, ⟨found, afterValue⟩, hvalue, last, hparen, hdone⟩ := h
  obtain ⟨hlast, hfound⟩ := Option.ite_none_right_eq_some.1 hdone
  cases hfound
  refine ⟨quotable_of_literal? hvalue, spaced_of_mark? hcomma (spaced_of_literal? hvalue ?_)⟩
  exact spaced_of_mark? hparen (spaced_of_isDone hlast)

theorem lastArgument?_of_spaced {value : String} (hvalue : Quotable value)
    (h : Spaced [[','], quoted value, [')']] text) : lastArgument? text = some value.toList := by
  obtain ⟨afterComma, hcomma, h⟩ := mark?_of_spaced (by decide) h
  obtain ⟨afterValue, hliteral, h⟩ := literal?_of_spaced hvalue h
  obtain ⟨last, hparen, h⟩ := mark?_of_spaced (by decide) h
  simp [lastArgument?, hcomma, hliteral, hparen, isDone_of_spaced h]

/-! ### Positions -/

theorem exists_digits_of_readIndex? (h : readIndex? body = some f) :
    ∃ digits, digits ≠ [] ∧ (∀ c ∈ digits, isDigit c = true) ∧
      numeralValue digits < Number.twoTo 64 ∧ Spaced [digits] body ∧
      f = .index (numeralValue digits) := by
  obtain ⟨before, after, hbefore, hafter, hbody⟩ := exists_trim body
  unfold readIndex? at h
  dsimp only at h
  split at h
  · cases h
  · next hdigits =>
    obtain ⟨hlt, hf⟩ := Option.ite_none_right_eq_some.1 h
    cases hf
    rw [Bool.or_eq_true, not_or, Bool.not_eq_true', Bool.not_eq_false, List.isEmpty_iff,
      List.all_eq_true] at hdigits
    rw [List.append_assoc] at hbody
    exact ⟨_, hdigits.1, hdigits.2, hlt, ⟨before, after, hbefore, hbody, hafter⟩, rfl⟩

/-- What stands first in a text decides which readers can take it. -/
theorem head?_of_spaced {c : Char} {tail : List Char} (hc : isBlank c = false)
    (h : Spaced ((c :: tail) :: pieces) text) : (trimStart text).head? = some c := by
  obtain ⟨blanks, rest, hblanks, rfl, -⟩ := h
  rw [trimStart_append hblanks, List.cons_append, trimStart_cons hc]
  rfl

theorem readIndex?_eq_none {c : Char} {tail : List Char} (hc : isBlank c = false)
    (hdigit : isDigit c = false) (h : Spaced ((c :: tail) :: pieces) text) :
    readIndex? text = none := by
  cases hread : readIndex? text with
  | none => rfl
  | some f =>
    obtain ⟨digits, hne, hdigits, -, hspaced, -⟩ := exists_digits_of_readIndex? hread
    obtain ⟨d, more, rfl⟩ := List.exists_cons_of_ne_nil hne
    have hd : isDigit d = true := hdigits d List.mem_cons_self
    have hhead := head?_of_spaced (not_blank_of_isDigit hd) hspaced
    rw [head?_of_spaced hc h, Option.some.injEq] at hhead
    rw [← hhead, hdigit] at hd
    cases hd

theorem readIndex?_of_spaced {digits : List Char} (hne : digits ≠ [])
    (hdigits : ∀ c ∈ digits, isDigit c = true) (hlt : numeralValue digits < Number.twoTo 64)
    (h : Spaced [digits] text) : readIndex? text = some (.index (numeralValue digits)) := by
  obtain ⟨before, after, hbefore, rfl, hafter⟩ := h
  have hsolid : Solid digits :=
    Solid.of_forall hne fun c hc => not_blank_of_isDigit (hdigits c hc)
  have htrim : trim (before ++ (digits ++ after)) = digits := by
    rw [← List.append_assoc, trim_padded hbefore hafter, hsolid.trim_eq]
  rw [readIndex?, htrim, List.all_eq_true.2 hdigits]
  simp [hne, hlt]

/-! ### What is read has a form -/

theorem form_of_readAttributeIs? (h : readAttributeIs? body = some f) : f.Form body := by
  simp only [readAttributeIs?, Option.bind_eq_bind, Option.bind_eq_some_iff] at h
  obtain ⟨⟨name, afterName⟩, hname, afterSign, hsign, ⟨value, last⟩, hvalue, hdone⟩ := h
  obtain ⟨hlast, hf⟩ := Option.ite_none_right_eq_some.1 hdone
  cases hf
  refine .attributeIs (isAttributeName_of_attribute? hname) (quotable_of_literal? hvalue) ?_
  rw [String.toList_ofList]
  exact spaced_of_attribute? hname
    (spaced_of_mark? hsign (spaced_of_literal? hvalue (spaced_of_isDone hlast)))

theorem form_of_readAttributeHolds? (h : readAttributeHolds? body = some f) : f.Form body := by
  simp only [readAttributeHolds?, Option.bind_eq_bind, Option.bind_eq_some_iff] at h
  obtain ⟨afterCall, hcall, ⟨name, afterName⟩, hname, value, hvalue, hf⟩ := h
  cases hf
  obtain ⟨hquotable, hlast⟩ := spaced_of_lastArgument? hvalue
  refine .attributeHolds (isAttributeName_of_attribute? hname) hquotable ?_
  rw [String.toList_ofList]
  exact spaced_of_containsCall? hcall (spaced_of_attribute? hname hlast)

theorem form_of_readTextHolds? (h : readTextHolds? body = some f) : f.Form body := by
  simp only [readTextHolds?, Option.bind_eq_bind, Option.bind_eq_some_iff] at h
  obtain ⟨afterCall, hcall, afterText, htext, value, hvalue, hf⟩ := h
  cases hf
  obtain ⟨hquotable, hlast⟩ := spaced_of_lastArgument? hvalue
  obtain ⟨blanks, hblanks, hstart⟩ := exists_trimStart afterCall
  rw [stripStart?_eq_some_iff] at htext
  rw [htext] at hstart
  exact .textHolds hquotable (spaced_of_containsCall? hcall ⟨blanks, _, hblanks, hstart, hlast⟩)

theorem form_of_readHasAttribute? (h : readHasAttribute? body = some f) : f.Form body := by
  simp only [readHasAttribute?, Option.bind_eq_bind, Option.bind_eq_some_iff] at h
  obtain ⟨⟨name, last⟩, hname, hdone⟩ := h
  obtain ⟨hlast, hf⟩ := Option.ite_none_right_eq_some.1 hdone
  cases hf
  refine .hasAttribute (isAttributeName_of_attribute? hname) ?_
  rw [String.toList_ofList]
  exact spaced_of_attribute? hname (spaced_of_isDone hlast)

/-- The readers of the five forms, in the order in which they are asked. -/
def formReaders : List (List Char → Option Filter) :=
  [readAttributeIs?, readAttributeHolds?, readTextHolds?, readIndex?, readHasAttribute?]

/-- A filter that is read is read by one of them. -/
theorem Filter.exists_reader (h : Filter.read? body = some f) :
    ∃ reader ∈ formReaders, reader body = some f := by
  simp only [Filter.read?, Option.orElse_eq_orElse, Option.orElse_eq_or, Option.or_eq_some_iff] at h
  rcases h with h | ⟨-, h | ⟨-, h | ⟨-, h | ⟨-, h⟩⟩⟩⟩
  all_goals exact ⟨_, by simp [formReaders], h⟩

theorem form_of_reader {reader : List Char → Option Filter} (hreader : reader ∈ formReaders)
    (h : reader body = some f) : f.Form body := by
  simp only [formReaders, List.mem_cons, List.not_mem_nil, or_false] at hreader
  rcases hreader with rfl | rfl | rfl | rfl | rfl
  · exact form_of_readAttributeIs? h
  · exact form_of_readAttributeHolds? h
  · exact form_of_readTextHolds? h
  · obtain ⟨digits, hne, hdigits, hlt, hbody, rfl⟩ := exists_digits_of_readIndex? h
    exact .index hne hdigits hlt hbody
  · exact form_of_readHasAttribute? h

/-! ### What has a form is read -/

/-- A text that has a form is read as the filter which it writes. -/
theorem Filter.read?_of_form (h : f.Form body) : Filter.read? body = some f := by
  unfold Filter.read?
  cases h with
  | @attributeIs name value hname hvalue h =>
    obtain ⟨afterName, hattribute, h⟩ :=
      attribute?_of_spaced hname (endsAttribute_sign (by decide)) h
    obtain ⟨afterSign, hsign, h⟩ := mark?_of_spaced (by decide) h
    obtain ⟨last, hliteral, h⟩ := literal?_of_spaced hvalue h
    have hread : readAttributeIs? body = some (.attributeIs name value) := by
      simp [readAttributeIs?, hattribute, hsign, hliteral, isDone_of_spaced h]
    rw [hread]
    rfl
  | @attributeHolds name value hname hvalue h =>
    have hfirst : attribute? body = none := attribute?_eq_none (by decide) (by decide) h
    obtain ⟨afterCall, hcall, h⟩ := containsCall?_of_spaced h
    obtain ⟨afterName, hattribute, h⟩ :=
      attribute?_of_spaced hname (endsAttribute_sign (by decide)) h
    simp [readAttributeIs?, hfirst, readAttributeHolds?, hcall, hattribute,
      lastArgument?_of_spaced hvalue h]
  | @textHolds value hvalue h =>
    have hfirst : attribute? body = none := attribute?_eq_none (by decide) (by decide) h
    obtain ⟨afterCall, hcall, h⟩ := containsCall?_of_spaced h
    have hsecond : attribute? afterCall = none := attribute?_eq_none (by decide) (by decide) h
    obtain ⟨blanks, rest, hblanks, rfl, h⟩ := h
    have htext : stripStart? "text()".toList (trimStart (blanks ++ (ownTextCall ++ rest))) =
        some rest := by
      rw [trimStart_append hblanks, stripStart?_eq_some_iff]
      rfl
    rw [readAttributeIs?, hfirst, readAttributeHolds?, hcall, readTextHolds?, hcall]
    simp only [Option.bind_eq_bind, Option.bind_some, Option.bind_none]
    rw [hsecond, htext, Option.bind_some, lastArgument?_of_spaced hvalue h]
    simp
  | @index digits hne hdigits hlt h =>
    have hindex := readIndex?_of_spaced hne hdigits hlt h
    obtain ⟨d, more, rfl⟩ := List.exists_cons_of_ne_nil hne
    have hd : isDigit d = true := hdigits d List.mem_cons_self
    have hblank := not_blank_of_isDigit hd
    have hattribute := attribute?_eq_none hblank (ne_of_isDigit hd (by decide)) h
    have hcall := containsCall?_eq_none hblank (ne_of_isDigit hd (by decide)) h
    rw [readAttributeIs?, hattribute, readAttributeHolds?, hcall, readTextHolds?, hcall, hindex]
    rfl
  | @hasAttribute name hname h =>
    have hcall : containsCall? body = none := containsCall?_eq_none (by decide) (by decide) h
    have hindex : readIndex? body = none := readIndex?_eq_none (by decide) (by decide) h
    obtain ⟨last, hattribute, h⟩ := attribute?_of_spaced hname (by simp) h
    have hsign : mark? '=' last = none := by
      rw [mark?, Blanks.trimStart h]
    simp [readAttributeIs?, readAttributeHolds?, readTextHolds?, hcall, hindex,
      readHasAttribute?, hattribute, hsign, isDone_of_spaced h]

/-- A text is read as a filter exactly when it has the filter's form. -/
theorem Filter.read?_eq_some_iff : Filter.read? body = some f ↔ f.Form body := by
  refine ⟨fun h => ?_, Filter.read?_of_form⟩
  obtain ⟨reader, hreader, hf⟩ := Filter.exists_reader h
  exact form_of_reader hreader hf

/-- The readers may be asked in any order. -/
theorem findSome?_of_perm {order : List (List Char → Option Filter)}
    (h : order.Perm formReaders) (body : List Char) :
    (order.findSome? fun reader => reader body) = Filter.read? body := by
  cases hfound : order.findSome? fun reader => reader body with
  | some f =>
    obtain ⟨reader, hreader, hf⟩ := List.exists_of_findSome?_eq_some hfound
    exact (Filter.read?_of_form (form_of_reader (h.mem_iff.1 hreader) hf)).symm
  | none =>
    rw [List.findSome?_eq_none_iff] at hfound
    rw [eq_comm, Option.eq_none_iff_forall_ne_some]
    intro f hf
    obtain ⟨reader, hreader, hread⟩ := Filter.exists_reader hf
    rw [hfound reader (h.mem_iff.2 hreader)] at hread
    cases hread

/-- **A filter has one of five forms.** The text between brackets is read as a filter exactly when
it has the form of that filter. No text has the forms of two, and the readers of the forms give the
same in whatever order they are asked. Any other text is reported as it is, as a fault of the
grammar. -/
theorem Filter.read_iff_form (step body : String) :
    (∀ f, Filter.read step body = .ok f ↔ f.Form body.toList) ∧
      (∀ f g : Filter, f.Form body.toList → g.Form body.toList → f = g) ∧
      (∀ order : List (List Char → Option Filter), order.Perm formReaders →
        (order.findSome? fun reader => reader body.toList) = Filter.read? body.toList) ∧
      ∀ fault, Filter.read step body = .error fault ↔
        fault = .unknownFilter step body ∧ ∀ f : Filter, ¬f.Form body.toList := by
  simp only [← Filter.read?_eq_some_iff]
  refine ⟨fun f => ?_, fun f g hf hg => ?_, fun order h => findSome?_of_perm h _, fun fault => ?_⟩
  · unfold Filter.read
    cases Filter.read? body.toList <;> simp
  · rw [hf] at hg
    exact Option.some.inj hg
  · unfold Filter.read
    cases Filter.read? body.toList <;> simp [eq_comm]

/-- Blanks of three kinds around the pieces, and a literal that begins as another form does. -/
def spacedOwnText : String :=
  "\u00a0contains( text()\u2003,\t'@id=' ) "

theorem Filter.read_spacedOwnText :
    Filter.read "//p" spacedOwnText = .ok (.textHolds "@id=") ∧
      (Filter.textHolds "@id=").Form spacedOwnText.toList ∧
      formReaders.reverse.findSome? (fun reader => reader spacedOwnText.toList) =
        some (.textHolds "@id=") := by
  obtain ⟨hread, -, horder, -⟩ := Filter.read_iff_form "//p" spacedOwnText
  have hok : Filter.read "//p" spacedOwnText = .ok (.textHolds "@id=") := by rfl
  exact ⟨hok, (hread _).1 hok, horder _ formReaders.reverse_perm⟩

end Gleaner.Selector
