/-
# The element test of a step, read back as CSS

The text of an element test is read by the rules of CSS as the name of the step and its tests of
attributes, whatever stands in the values, and as nothing else: no value and no name closes its
string or its bracket early, and none adds a comma, a combinator or a pseudo-class. The test that
elements are put to is the same.

Not covered are names that CSS has no escape for here: those with a line break in them, and those
that a digit begins, or a hyphen with nothing or a digit behind it.

Key definitions: `Css.Writable`, `Css.Plain`, `Target.asked`, `Compound.parts`.
Key theorems: `Css.name_written`, `Css.string?_written`, `Css.selector?_compoundText`,
`read_compoundText`.
-/
import Gleaner.Proofs.Selector.CssSyntax
import Gleaner.Proofs.Selector.Layout
import Gleaner.Selector.Compound

namespace Gleaner.Css

open Gleaner.Text Gleaner.Selector
open Gleaner.Markup (isHexDigit hexValue)

/-! ### What is written is read -/

variable {c : Char} {n rest : List Char}

theorem isNameChar_eq (c : Char) : isNameChar c = isPlainNameChar c := by
  unfold isNameChar isNameStart isPlainNameChar
  ac_rfl

theorem escaped_other (h : isHexDigit c = false) (rest : List Char) :
    escaped (c :: rest) = (c, ((Rest.all rest).behind c).toRest) := by
  simp [escaped, h]

/-- The blank that closes the digits of a line feed is no part of what follows. -/
theorem escaped_lineFeed (rest : List Char) :
    escaped ('a' :: ' ' :: rest) = ('\n', ⟨rest, by simp; omega⟩) := by
  have hdigits : (('a' :: ' ' :: rest).take 6).takeWhile isHexDigit = ['a'] := by
    simp [show isHexDigit 'a' = true by decide, show isHexDigit ' ' = false by decide]
  have hchar : characterAt (hexValue ['a']) = '\n' := by decide
  simp only [escaped, show isHexDigit 'a' = true by decide, if_true, hdigits, hchar]
  rfl

theorem isPlainNameChar_of_isHexDigit (h : isHexDigit c = true) : isPlainNameChar c = true := by
  simp only [isHexDigit, Bool.or_eq_true, Bool.and_eq_true, decide_eq_true_eq] at h
  have hkind : isAsciiLetter c = true ∨ isDigit c = true := by
    simp only [isAsciiLetter, Bool.or_eq_true, Bool.and_eq_true, decide_eq_true_eq]
    rcases h with (hdigit | ⟨hlow, hhigh⟩) | ⟨hlow, hhigh⟩
    · exact .inr hdigit
    · exact .inl (.inl ⟨hlow, Char.le_trans hhigh (by decide)⟩)
    · exact .inl (.inr ⟨hlow, Char.le_trans hhigh (by decide)⟩)
  rcases hkind with h | h <;> simp [isPlainNameChar, h]

/-- A character of a name is read as itself. -/
theorem name_cssNameChar (h : c ≠ '\n') (rest : List Char) :
    (name (cssNameChar c ++ rest)).1 = c :: (name rest).1 ∧
      (name (cssNameChar c ++ rest)).2.val = (name rest).2.val := by
  by_cases hplain : isPlainNameChar c = true
  · rw [show cssNameChar c = [c] from if_pos hplain, List.singleton_append, name, isNameChar_eq,
      hplain]
    exact ⟨rfl, rfl⟩
  · have hescape : beginsEscape ('\\' :: c :: rest) = true := by
      simpa [beginsEscape] using h
    have hhex : isHexDigit c = false := by
      rw [Bool.eq_false_iff]
      exact fun hhex => hplain (isPlainNameChar_of_isHexDigit hhex)
    rw [show cssNameChar c = ['\\', c] from if_neg hplain, List.cons_append,
      List.singleton_append, name, hescape, escaped_other hhex,
      show isNameChar '\\' = false by decide]
    exact ⟨rfl, rfl⟩

/-- No name is read where none goes on. -/
theorem name_of_endsName (h : EndsName rest) : (name rest).1 = [] ∧ (name rest).2.val = rest := by
  cases rest with
  | nil => simp [name, Rest.all]
  | cons c more =>
    obtain ⟨hc, hslash⟩ := h c rfl
    have hescape : beginsEscape (c :: more) = false := by
      unfold beginsEscape
      split
      · next heq => exact absurd (List.cons.inj heq).1 hslash
      · rfl
    rw [name, isNameChar_eq, hc, hescape]
    exact ⟨rfl, rfl⟩

/-- A name is read up to what cannot belong to it. -/
theorem name_written (hrest : EndsName rest) : ∀ {n : List Char}, '\n' ∉ n →
    (name (n.flatMap cssNameChar ++ rest)).1 = n ∧
      (name (n.flatMap cssNameChar ++ rest)).2.val = rest
  | [], _ => name_of_endsName hrest
  | c :: n, h => by
    obtain ⟨hc, hn⟩ := List.ne_and_not_mem_of_not_mem_cons h
    obtain ⟨hchars, hbehind⟩ := name_written hrest hn
    obtain ⟨hfirst, hmore⟩ := name_cssNameChar hc.symm (n.flatMap cssNameChar ++ rest)
    rw [List.flatMap_cons, List.append_assoc]
    exact ⟨by rw [hfirst, hchars], hmore.trans hbehind⟩

/-- A character of a string is read as itself. -/
theorem string?_cssStringChar {text value : List Char} (c : Char)
    (h : ∃ r, string? '"' text = some (value, r) ∧ r.val = rest) :
    ∃ r, string? '"' (cssStringChar c ++ text) = some (c :: value, r) ∧ r.val = rest := by
  obtain ⟨r, hvalue, hr⟩ := h
  by_cases hc : c = '"' ∨ c = '\\'
  · have hhex : isHexDigit c = false := by rcases hc with rfl | rfl <;> decide
    have hline : c ≠ '\n' := by rcases hc with rfl | rfl <;> decide
    rw [show cssStringChar c = ['\\', c] from if_pos hc, List.cons_append, List.singleton_append,
      string?, escaped_other hhex]
    simp [hvalue, hline, hr, Rest.all, Rest.behind, Remainder.toRest, Rest.andTake]
  · by_cases hline : c = '\n'
    · subst hline
      rw [show cssStringChar '\n' ++ text = '\\' :: 'a' :: ' ' :: text from rfl, string?,
        escaped_lineFeed]
      simp [hvalue, hr, Rest.behind, Remainder.toRest, Rest.andTake]
    · rw [show cssStringChar c = [c] from (if_neg hc).trans (if_neg hline), List.singleton_append,
        string?]
      simp [hvalue, hline, hr, not_or.1 hc, Rest.behind, Remainder.toRest]

/-- A string is read up to its closing mark, with all that is in it. -/
theorem string?_written (rest : List Char) : ∀ value : List Char,
    ∃ r, string? '"' (value.flatMap cssStringChar ++ '"' :: rest) = some (value, r) ∧ r.val = rest
  | [] => by
    rw [List.flatMap_nil, List.nil_append, string?, if_pos rfl]
    exact ⟨_, rfl, rfl⟩
  | c :: value => by
    rw [List.flatMap_cons, List.append_assoc]
    exact string?_cssStringChar c (string?_written rest value)

/-! ### Tokens and parts of what is written -/

/-- CSS can write the name here: it has no NUL and no line break in it, and it is not begun by a
digit, or by a hyphen with nothing or a digit behind it. -/
structure Writable (n : List Char) : Prop where
  chars : ∀ c ∈ n, c ∉ ['\x00', '\n', '\r', '\x0c']
  start : ∀ c ∈ n.head?, isDigit c = false
  hyphen : ∀ more, n = '-' :: more → ∃ c ∈ more.head?, isDigit c = false

/-- A name that CSS can write here. -/
structure IsName (n : List Char) : Prop extends Writable n where
  ne_nil : n ≠ []

theorem Writable.not_mem_lineFeed (h : Writable n) : '\n' ∉ n :=
  fun hmem => h.chars _ hmem (by decide)

/-- A character of a name is itself, one that may stand anywhere in a name, or it is escaped. -/
theorem beginsEscape_or_isNameChar (h : c ≠ '\n') (rest : List Char) :
    beginsEscape (cssNameChar c ++ rest) = true ∨
      cssNameChar c ++ rest = c :: rest ∧ isNameChar c = true := by
  by_cases hplain : isPlainNameChar c = true
  · rw [show cssNameChar c = [c] from if_pos hplain]
    exact .inr ⟨rfl, (isNameChar_eq c).trans hplain⟩
  · rw [show cssNameChar c = ['\\', c] from if_neg hplain]
    exact .inl (by simpa [beginsEscape] using h)

theorem beginsName_of_beginsEscape {text : List Char} (h : beginsEscape text = true) :
    beginsName text = true := by
  cases text with
  | nil => cases h
  | cons c rest =>
    have hc : c = '\\' := by
      unfold beginsEscape at h
      split at h
      · next heq => exact (List.cons.inj heq).1
      · cases h
    subst hc
    rw [beginsName, h]
    simp

theorem beginsName_written (h : IsName n) (rest : List Char) :
    beginsName (n.flatMap cssNameChar ++ rest) = true := by
  obtain ⟨c, more, rfl⟩ := List.exists_cons_of_ne_nil h.ne_nil
  have hline := List.ne_and_not_mem_of_not_mem_cons h.not_mem_lineFeed
  have hdigit := h.start c rfl
  rw [List.flatMap_cons, List.append_assoc]
  rcases beginsEscape_or_isNameChar hline.1.symm (more.flatMap cssNameChar ++ rest) with
    hescape | ⟨hself, hchar⟩
  · exact beginsName_of_beginsEscape hescape
  · rw [hself, beginsName]
    split
    · next hc =>
      subst hc
      obtain ⟨d, hd, hdigit⟩ := h.hyphen more rfl
      obtain ⟨last, rfl⟩ := List.head?_eq_some_iff.1 hd
      have hline := List.ne_and_not_mem_of_not_mem_cons hline.2
      rw [List.flatMap_cons, List.append_assoc]
      rcases beginsEscape_or_isNameChar hline.1.symm (last.flatMap cssNameChar ++ rest) with
        hescape | ⟨hself, hchar⟩
      · simp [hescape]
      · rw [isNameChar, hdigit] at hchar
        rw [hself]
        simp_all
    · next hc => simp_all [isNameChar]

theorem tokens?_of_beginsName {text : List Char} (h : beginsName text = true) :
    tokens? text = (tokens? (name text).2.val).map (.name (String.ofList (name text).1) :: ·) := by
  cases text with
  | nil => cases h
  | cons c rest =>
    have hnone : ∀ m ∈ ['"', '\''], isNameStart m = false ∧ m ≠ '-' ∧ m ≠ '\\' := by decide
    have hmark : ¬(c = '"' ∨ c = '\'') := by
      rw [← List.mem_pair]
      intro hc
      obtain ⟨hstart, hhyphen, hslash⟩ := hnone c hc
      rw [beginsName, if_neg hhyphen, hstart, Bool.false_or, beginsEscape] at h
      · cases h
      · simpa using hslash
    rw [tokens?, if_neg hmark, if_pos h]

theorem tokens?_name {n : String} (h : IsName n.toList) (hrest : EndsName rest) :
    tokens? (cssName n ++ rest) = (tokens? rest).map (.name n :: ·) := by
  obtain ⟨hchars, hbehind⟩ := name_written hrest h.not_mem_lineFeed
  rw [cssName, tokens?_of_beginsName (beginsName_written h rest), hchars, hbehind,
    String.ofList_toList]

theorem tokens?_string (value : String) (rest : List Char) :
    tokens? ('"' :: (cssString value ++ '"' :: rest)) =
      (tokens? rest).map (.string value :: ·) := by
  obtain ⟨r, hvalue, hr⟩ := string?_written rest value.toList
  rw [tokens?, if_pos (.inl rfl), cssString, hvalue]
  simp only [hr, String.ofList_toList]

theorem tokens?_sign (h : c ∈ ['*', '[', ']', '=']) (rest : List Char) :
    tokens? (c :: rest) = (tokens? rest).map (.sign c :: ·) := by
  have hnone : ¬(c = '"' ∨ c = '\'') ∧ c ≠ '-' ∧ c ≠ '\\' ∧ isNameStart c = false ∧
      isSpace c = false := by
    revert c
    decide
  obtain ⟨hmark, hhyphen, hslash, hstart, hspace⟩ := hnone
  have hname : beginsName (c :: rest) = false := by
    rw [beginsName, if_neg hhyphen, hstart, beginsEscape]
    · rfl
    · rintro more ⟨⟩
      exact hslash rfl
  rw [tokens?, if_neg hmark, hname, hspace]
  rfl

/-- What a filter asks of an attribute is read from its text, and what follows it is read on. -/
theorem selector?_filter {f : Filter} {a : Asked} (h : f.asked? = some a)
    (hname : IsName a.name.toList) (rest : List Char) :
    selector? (f.cssChars ++ rest) = (selector? rest).map (.attribute a :: ·) := by
  unfold selector?
  rw [Filter.cssChars_of_asked h, List.cons_append, List.append_assoc, tokens?_sign (by decide),
    tokens?_name hname (Filter.endsName_behind h rest)]
  cases f <;> cases h <;>
    simp [Asked.behind, tokens?_sign, tokens?_string] <;> cases tokens? rest <;> simp [parts?]

/-- The filters on attributes are read as what they ask, in order. -/
theorem selector?_filters : ∀ {filters : List Filter},
    (∀ f ∈ filters, ∀ a ∈ f.asked?, IsName a.name.toList) →
    selector? (filtersText (filters.filter Filter.onAttributes)) =
      some ((filters.filterMap Filter.asked?).map .attribute)
  | [], _ => by simp [selector?, filtersText, tokens?, parts?]
  | f :: filters, h => by
    obtain ⟨hf, hfilters⟩ := List.forall_mem_cons.1 h
    have hrest := selector?_filters hfilters
    cases ha : f.asked? with
    | none => simpa [Filter.onAttributes_eq, ha] using hrest
    | some a =>
      rw [List.filter_cons_of_pos (by simp [Filter.onAttributes_eq, ha]),
        List.filterMap_cons_some ha, filtersText, List.flatMap_cons,
        selector?_filter ha (hf a ha)]
      exact congrArg (Option.map (Part.attribute a :: ·)) hrest

/-- The name of an element test as a part: a star is any element. -/
def elementPart (name : String) : Part :=
  if name = "*" then .any else .type name

theorem selector?_element {name : String} (hname : IsName name.toList)
    (hrest : EndsName rest) :
    selector? (cssElement name ++ rest) = (selector? rest).map (elementPart name :: ·) := by
  unfold cssElement elementPart selector?
  split
  · rw [List.singleton_append, tokens?_sign (by decide)]
    cases tokens? rest <;> simp [parts?]
  · rw [tokens?_name hname hrest]
    cases tokens? rest <;> simp [parts?]

theorem selector?_compoundText {name : String} {filters : List Filter}
    (hname : IsName name.toList)
    (hfilters : ∀ f ∈ filters, ∀ a ∈ f.asked?, IsName a.name.toList) :
    selector? (compoundText name (filters.filter Filter.onAttributes)) =
      some (elementPart name :: (filters.filterMap Filter.asked?).map .attribute) := by
  have hends := endsName_filtersText (filters.filter Filter.onAttributes)
  calc selector? (compoundText name (filters.filter Filter.onAttributes))
    _ = (selector? (filtersText (filters.filter Filter.onAttributes))).map
          (elementPart name :: ·) := selector?_element hname hends
    _ = some (elementPart name :: (filters.filterMap Filter.asked?).map .attribute) := by
      rw [selector?_filters hfilters, Option.map_some]

/-! ### Texts that are taken in as they are -/

/-- None of the characters that are replaced when a text is taken in. -/
def Plain (text : List Char) : Prop :=
  ∀ c ∈ text, c ∉ ['\x00', '\r', '\x0c']

instance (text : List Char) : Decidable (Plain text) :=
  inferInstanceAs (Decidable (∀ c ∈ text, c ∉ ['\x00', '\r', '\x0c']))

theorem input_of_plain : ∀ {text : List Char}, Plain text → input text = text
  | [], _ => rfl
  | c :: rest, h => by
    obtain ⟨hc, hrest⟩ := List.forall_mem_cons.1 h
    simp only [List.mem_cons, List.not_mem_nil, or_false, not_or] at hc
    rw [input]
    · rw [if_neg (not_or.2 hc.2), if_neg hc.1, input_of_plain hrest]
    · rintro more rfl
      exact absurd rfl hc.2.1

theorem Plain.append {a b : List Char} (ha : Plain a) (hb : Plain b) : Plain (a ++ b) :=
  fun c hc => (List.mem_append.1 hc).elim (ha c) (hb c)

theorem Plain.flatMap {α : Type} {code : α → List Char} {list : List α}
    (h : ∀ a ∈ list, Plain (code a)) : Plain (list.flatMap code) := by
  intro c hc
  obtain ⟨a, ha, hc⟩ := List.mem_flatMap.1 hc
  exact h a ha c hc

theorem Writable.plain (h : Writable n) : Plain n := by
  have hsub : ['\x00', '\r', '\x0c'] ⊆ ['\x00', '\n', '\r', '\x0c'] := by decide
  exact fun c hc hmem => h.chars c hc (hsub hmem)

/-- Only a character itself and the marks of escapes stand for it. -/
theorem plain_cssName {n : String} (h : Plain n.toList) : Plain (cssName n) := by
  refine Plain.flatMap fun c hc d hd => ?_
  have hcode : d = '\\' ∨ d = c := by
    unfold cssNameChar at hd
    split at hd <;> simp at hd <;> simp [hd]
  rcases hcode with rfl | rfl
  · decide
  · exact h d hc

theorem plain_cssString {value : String} (h : Plain value.toList) : Plain (cssString value) := by
  refine Plain.flatMap fun c hc d hd => ?_
  have hcode : d = '\\' ∨ d = 'a' ∨ d = ' ' ∨ d = c := by
    unfold cssStringChar at hd
    split at hd
    · simp at hd
      tauto
    · split at hd <;> simp at hd <;> tauto
  rcases hcode with rfl | rfl | rfl | rfl
  · decide
  · decide
  · decide
  · exact h d hc

theorem plain_filter {f : Filter} {a : Asked} (h : f.asked? = some a) (hname : Plain a.name.toList)
    (hvalue : ∀ v ∈ a.value, Plain v.2.toList) : Plain f.cssChars := by
  have hsigns : Plain ['['] ∧ Plain [']'] ∧ Plain ['=', '"'] ∧ Plain ['*', '=', '"'] ∧
      Plain ['"', ']'] := by decide
  obtain ⟨hopen, hclose, his, hholds, hend⟩ := hsigns
  rw [Filter.cssChars_of_asked h]
  refine Plain.append hopen (Plain.append (plain_cssName hname) ?_)
  cases f <;> cases h
  · exact @Plain.append ['=', '"'] _ his (Plain.append (plain_cssString (hvalue _ rfl)) hend)
  · exact @Plain.append ['*', '=', '"'] _ hholds
      (Plain.append (plain_cssString (hvalue _ rfl)) hend)
  · exact hclose

/-- The text of an element test is taken in as it is if its names and values are. -/
theorem plain_compoundText {name : String} {filters : List Filter} (hname : Plain name.toList)
    (hfilters : ∀ a ∈ filters.filterMap Filter.asked?,
      Plain a.name.toList ∧ ∀ v ∈ a.value, Plain v.2.toList) :
    Plain (compoundText name (filters.filter Filter.onAttributes)) := by
  refine Plain.append ?_ (Plain.flatMap fun f hf => ?_)
  · unfold cssElement
    split
    · decide
    · exact plain_cssName hname
  · obtain ⟨hf, hon⟩ := List.mem_filter.1 hf
    rw [Filter.onAttributes_eq] at hon
    obtain ⟨a, ha⟩ := Option.isSome_iff_exists.1 hon
    obtain ⟨hplain, hvalues⟩ := hfilters a (List.mem_filterMap.2 ⟨f, hf, ha⟩)
    exact plain_filter ha hplain hvalues

end Gleaner.Css

namespace Gleaner.Selector

open Gleaner.Text

/-! ### Names of a step that is read -/

variable {c : Char} {name body text : List Char}

/-- The name of an attribute is one of CSS. -/
theorem isName_of_isAttributeName (h : isAttributeName name = true) : Css.IsName name := by
  obtain _ | ⟨c, more⟩ := name
  · cases h
  rw [isAttributeName, Bool.and_eq_true, List.all_eq_true] at h
  obtain ⟨hstart, hmore⟩ := h
  have hfirst : isDigit c = false ∧ c ≠ '-' := by
    refine ⟨?_, by rintro rfl; exact absurd hstart (by decide)⟩
    rw [Bool.eq_false_iff]
    intro hdigit
    have hrange := toNat_of_isDigit hdigit
    rw [isNameStart, Bool.or_eq_true, beq_iff_eq] at hstart
    rcases hstart with hletter | rfl
    · have hletter := toNat_of_isAsciiLetter hletter
      omega
    · exact absurd hdigit (by decide)
  have hnone : ∀ m ∈ ['\x00', '\n', '\r', '\x0c'],
      isNameStart m = false ∧ isNameChar m = false := by
    decide
  refine ⟨⟨?_, ?_, ?_⟩, List.cons_ne_nil c more⟩
  · intro d hd hmem
    obtain ⟨hnostart, hnochar⟩ := hnone d hmem
    rcases List.mem_cons.1 hd with rfl | hd
    · exact absurd (hnostart.symm.trans hstart) Bool.false_ne_true
    · exact absurd (hnochar.symm.trans (hmore d hd)) Bool.false_ne_true
  · rintro d ⟨⟩
    exact hfirst.1
  · rintro rest heq
    exact absurd (List.cons.inj heq).1 hfirst.2

/-- What a filter that is read asks of is named as an attribute is. -/
theorem isAttributeName_of_read? {f : Filter} {a : Asked} (h : Filter.read? body = some f)
    (ha : f.asked? = some a) : isAttributeName a.name.toList = true := by
  cases Filter.read?_eq_some_iff.1 h with
  | attributeIs hname _ _ | attributeHolds hname _ _ | hasAttribute hname _ =>
    cases ha
    exact hname
  | textHolds _ _ | index _ _ _ _ => cases ha

/-- What a step asks of attributes, in order. -/
def Target.asked (t : Target) : List Asked :=
  t.filters.filterMap Filter.asked?

/-- The attributes that a step asks for have names of CSS. -/
theorem Step.isName_of_asked {s : Step} {a : Asked} (h : Step.read text = .ok s)
    (ha : a ∈ s.target.asked) : Css.IsName a.name.toList := by
  obtain ⟨l, -, hreadable, -⟩ := exists_layout_of_read h
  obtain ⟨f, hf, ha⟩ := List.mem_filterMap.1 ha
  have hgroup : some f ∈ l.groups.map Filter.read? := by
    rw [hreadable.groups, filters_eq]
    exact List.mem_map_of_mem hf
  obtain ⟨group, -, hread⟩ := List.mem_map.1 hgroup
  exact isName_of_isAttributeName (isAttributeName_of_read? hread ha)

theorem elementName_ne_empty (text : List Char) : elementName text ≠ "" := by
  unfold elementName
  dsimp only
  split
  · decide
  · next h => simpa using h

/-- The name that a step goes to is the one that its head gives. -/
theorem exists_elementName {head : List Char} {filters : List Filter} {t : Target} {name : String}
    (h : readTarget head filters = .ok t) (hname : t.name? = some name) :
    ∃ text, name = elementName text := by
  have hbare {t' : Target}
      (h : (if filters.isEmpty then .ok t' else .error .filtersNotAllowed) =
        (.ok t : Except Reason Target)) : t' = t := by
    split at h <;> cases h
    rfl
  unfold readTarget at h
  dsimp only at h
  split at h
  · cases hbare h
    cases hname
  split at h
  · cases hbare h
    cases hname
  split at h
  · cases hbare h
    cases hname
  split at h
  · split at h <;> cases h
    exact ⟨_, (Option.some.inj hname).symm⟩
  · cases h
    exact ⟨_, (Option.some.inj hname).symm⟩

/-- A step goes to elements of a name that is not empty. -/
theorem Step.name_ne_empty {s : Step} {name : String} (h : Step.read text = .ok s)
    (hname : s.target.name? = some name) : name ≠ "" := by
  obtain ⟨b, -, -, -, htarget, -⟩ := read_eq_ok_iff.1 h
  obtain ⟨head, rfl⟩ := exists_elementName htarget hname
  exact elementName_ne_empty head

/-! ### The element test of a step -/

/-- What a test of an attribute asks. -/
def AttributeTest.asked : AttributeTest → Asked
  | .present name => ⟨name, none⟩
  | .is name value => ⟨name, some (['='], value)⟩
  | .holds name value => ⟨name, some (['*', '='], value)⟩

/-- An element test as parts of a selector. -/
def Compound.parts (c : Compound) : List Css.Part :=
  c.name.elim .any .type :: c.tests.map (.attribute ∘ AttributeTest.asked)

theorem cssRead_of_plain {text : String} (h : Css.Plain text.toList) : cssRead text = text := by
  have hsame : ∀ c ∈ text.toList, (if c = '\x00' then '\uFFFD' else c) = c := by
    intro c hc
    refine if_neg ?_
    rintro rfl
    exact h _ hc (by decide)
  rw [cssRead, List.map_congr_left hsame, List.map_id', String.ofList_toList]

theorem isCssName_of_isName {name : String} (h : Css.IsName name.toList) :
    isCssName name = true := by
  have hbreak : name.toList.any isCssBreak = false := by
    rw [List.any_eq_false]
    intro c hc hbreak
    have hchars := h.chars c hc
    simp only [isCssBreak, Bool.or_eq_true, beq_iff_eq] at hbreak
    rcases hbreak with (rfl | rfl) | rfl <;> exact hchars (by decide)
  rw [isCssName, hbreak]
  split
  · next hnil => exact absurd hnil h.ne_nil
  · next hone =>
    obtain ⟨c, hc, -⟩ := h.hyphen [] hone
    cases hc
  · next c more htwo =>
    obtain ⟨d, hd, hdigit⟩ := h.hyphen _ htwo
    cases hd
    simp [hdigit]
  · next c more _ _ hcons =>
    have hdigit := h.start c (by rw [hcons]; rfl)
    simp [hdigit]

theorem isCssValue_of_plain {value : String} (h : Css.Plain value.toList) :
    isCssValue value = true := by
  rw [isCssValue, Bool.not_eq_true', List.any_eq_false]
  intro c hc hbreak
  have hplain := h c hc
  simp only [Bool.or_eq_true, beq_iff_eq] at hbreak
  rcases hbreak with rfl | rfl <;> exact hplain (by decide)

/-- A filter makes a test of what it asks, if CSS can write its name and its value. -/
theorem Filter.test?_of_asked {f : Filter} {a : Asked} (h : f.asked? = some a)
    (hname : Css.IsName a.name.toList) (hvalue : ∀ v ∈ a.value, Css.Plain v.2.toList) :
    f.isWritable = true ∧ ∃ test, f.test? = some test ∧ test.asked = a := by
  have hread := cssRead_of_plain hname.plain
  have hcss := isCssName_of_isName hname
  have hvalue (v) (hv : v ∈ a.value) : isCssValue v.2 = true ∧ cssRead v.2 = v.2 :=
    ⟨isCssValue_of_plain (hvalue v hv), cssRead_of_plain (hvalue v hv)⟩
  cases f <;> cases h
  · obtain ⟨hwritable, hsame⟩ := hvalue _ rfl
    simp_all [isWritable, test?, AttributeTest.asked]
  · obtain ⟨hwritable, hsame⟩ := hvalue _ rfl
    simp_all [isWritable, test?, AttributeTest.asked]
  · simp_all [isWritable, test?, AttributeTest.asked]

/-- The tests of filters are what they ask, in order. -/
theorem tests_of_asked : ∀ {filters : List Filter},
    (∀ a ∈ filters.filterMap Filter.asked?,
      Css.IsName a.name.toList ∧ ∀ v ∈ a.value, Css.Plain v.2.toList) →
    filters.all Filter.isWritable = true ∧
      (filters.filterMap Filter.test?).map AttributeTest.asked = filters.filterMap Filter.asked?
  | [], _ => ⟨rfl, rfl⟩
  | f :: filters, h => by
    cases ha : f.asked? with
    | none =>
      rw [List.filterMap_cons_none ha] at h ⊢
      obtain ⟨hall, htests⟩ := tests_of_asked h
      have hnone : f.isWritable = true ∧ f.test? = none := by
        cases f <;> cases ha <;> exact ⟨rfl, rfl⟩
      rw [List.all_cons, hnone.1, hall, List.filterMap_cons_none hnone.2]
      exact ⟨rfl, htests⟩
    | some a =>
      rw [List.filterMap_cons_some ha] at h ⊢
      obtain ⟨⟨hname, hvalue⟩, hrest⟩ := List.forall_mem_cons.1 h
      obtain ⟨hall, htests⟩ := tests_of_asked hrest
      obtain ⟨hwritable, test, htest, rfl⟩ := Filter.test?_of_asked ha hname hvalue
      rw [List.all_cons, hwritable, hall, List.filterMap_cons_some htest, List.map_cons, htests]
      exact ⟨rfl, rfl⟩

/-- **The element test of a step is what its CSS text says.** -/
theorem read_compoundText {text : List Char} {s : Step} {name : String}
    (hread : Step.read text = .ok s) (hname : s.target.name? = some name)
    (hwritable : Css.Writable name.toList)
    (hvalues : ∀ a ∈ s.target.asked, ∀ v ∈ a.value, Css.Plain v.2.toList) :
    Css.read (compoundText name (s.target.filters.filter Filter.onAttributes)) =
        some (Css.elementPart name :: s.target.asked.map .attribute) ∧
      ∃ test, Compound.ofStep? name s.target.filters = some test ∧
        test.parts = Css.elementPart name :: s.target.asked.map .attribute := by
  have hne : name.toList ≠ [] := by
    rw [Ne, String.toList_eq_nil_iff]
    exact Step.name_ne_empty hread hname
  have hasked : ∀ a ∈ s.target.asked,
      Css.IsName a.name.toList ∧ ∀ v ∈ a.value, Css.Plain v.2.toList :=
    fun a ha => ⟨Step.isName_of_asked hread ha, hvalues a ha⟩
  constructor
  · have hplain : Css.Plain (compoundText name (s.target.filters.filter Filter.onAttributes)) :=
      Css.plain_compoundText hwritable.plain fun a ha => (hasked a ha).imp_left (·.plain)
    rw [Css.read, Css.input_of_plain hplain]
    refine Css.selector?_compoundText ⟨hwritable, hne⟩ fun f hf a ha => ?_
    exact (hasked a (List.mem_filterMap.2 ⟨f, hf, ha⟩)).1
  · obtain ⟨hall, htests⟩ := tests_of_asked hasked
    refine ⟨_, if_pos ?_, ?_⟩
    · simp [isCssName_of_isName ⟨hwritable, hne⟩, hall]
    · unfold Compound.parts Css.elementPart Target.asked
      rw [← htests, cssRead_of_plain hwritable.plain]
      split <;> simp

/-- A name that is all signs, and a value with marks, a backslash and a line feed in front of a
digit of hexadecimal. -/
theorem read_compoundText_of_marks :
    Step.read "//*,>b[@a:b='x\"],y\\\nc:d']".toList =
        .ok ⟨"//*,>b[@a:b='x\"],y\\\nc:d']", .below,
          .element "*,>b" [.attributeIs "a:b" "x\"],y\\\nc:d"]⟩ ∧
      Css.read (compoundText "*,>b" [.attributeIs "a:b" "x\"],y\\\nc:d"]) =
        some [.type "*,>b", .attribute ⟨"a:b", some (['='], "x\"],y\\\nc:d")⟩] := by
  have hread : Step.read "//*,>b[@a:b='x\"],y\\\nc:d']".toList =
      .ok ⟨"//*,>b[@a:b='x\"],y\\\nc:d']", .below,
        .element "*,>b" [.attributeIs "a:b" "x\"],y\\\nc:d"]⟩ := by
    decide +kernel
  refine ⟨hread, (read_compoundText hread rfl ⟨by decide, ?_, ?_⟩ ?_).1⟩
  · rintro c ⟨⟩
    decide
  · rintro more heq
    cases heq
  · decide

end Gleaner.Selector
