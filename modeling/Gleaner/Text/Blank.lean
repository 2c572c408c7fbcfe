/-
# Blanks

A blank is a character with the Unicode property White_Space. Selectors, paths and queries skip
blanks, typed readings trim them, and an element's own text is its words joined by single spaces.

Key definitions: `isBlank`, `trim`, `Solid`, `words`, `normalizeBlanks`.
Key theorems: `dropWhile_isBlank_idem`, `Solid.trim_eq`, `words_ne_nil`,
`isBlank_of_isWhitespace`.
-/

namespace Gleaner.Text

/-- A character lies in a table of code point ranges, each with both ends included. -/
def inRanges (table : List (Nat × Nat)) (c : Char) : Bool :=
  table.any fun range => decide (range.1 ≤ c.toNat) && decide (c.toNat ≤ range.2)

/-- No character lies in two tables of which no ranges overlap. -/
theorem not_inRanges_of_disjoint {s t : List (Nat × Nat)} {c : Char}
    (h : (s.all fun a => t.all fun b => decide (a.2 < b.1) || decide (b.2 < a.1)) = true)
    (hc : inRanges s c = true) : inRanges t c = false := by
  simp only [List.all_eq_true, Bool.or_eq_true, decide_eq_true_eq] at h
  simp only [inRanges, List.any_eq_true, Bool.and_eq_true, decide_eq_true_eq] at hc
  obtain ⟨a, ha, hca⟩ := hc
  rw [inRanges, List.any_eq_false]
  intro b hb
  have := h a ha b hb
  simp only [Bool.and_eq_true, decide_eq_true_eq]
  omega

/-- The code points of White_Space. -/
def blankRanges : List (Nat × Nat) :=
  [(0x9, 0xD), (0x20, 0x20), (0x85, 0x85), (0xA0, 0xA0), (0x1680, 0x1680), (0x2000, 0x200A),
   (0x2028, 0x2029), (0x202F, 0x202F), (0x205F, 0x205F), (0x3000, 0x3000)]

/-- A character with the property White_Space. -/
def isBlank (c : Char) : Bool :=
  inRanges blankRanges c

/-- Every whitespace character of the core library is a blank. -/
theorem isBlank_of_isWhitespace {c : Char} (h : c.isWhitespace = true) : isBlank c = true := by
  simp only [Char.isWhitespace, Bool.or_eq_true, decide_eq_true_eq] at h
  rcases h with ((rfl | rfl) | rfl) | rfl <;> decide

/-- A text from its first character that is no blank. -/
def trimStart (text : List Char) : List Char :=
  text.dropWhile isBlank

/-- A text up to its last character that is no blank. -/
def trimEnd (text : List Char) : List Char :=
  (text.reverse.dropWhile isBlank).reverse

/-- A text without the blanks at its two ends. -/
def trim (text : List Char) : List Char :=
  trimEnd (trimStart text)

/-- A second cut at the front takes nothing more. -/
theorem dropWhile_isBlank_idem (text : List Char) :
    trimStart (trimStart text) = trimStart text := by
  induction text with
  | nil => rfl
  | cons c cs ih =>
    by_cases h : isBlank c = true
    · simpa [trimStart, List.dropWhile_cons, h] using ih
    · simp [trimStart, h]

/-- A text that has a first and a last character, neither of them a blank. -/
structure Solid (text : List Char) : Prop where
  first : ∃ c rest, text = c :: rest ∧ isBlank c = false
  last : ∃ init c, text = init ++ [c] ∧ isBlank c = false

namespace Solid

/-- Nothing is cut off a text without blanks at its ends. -/
theorem trim_eq {text : List Char} (h : Solid text) : trim text = text := by
  obtain ⟨c, rest, rfl, hfirst⟩ := h.first
  obtain ⟨init, z, hinit, hlast⟩ := h.last
  have hstart : trimStart (c :: rest) = c :: rest := by
    rw [trimStart, List.dropWhile_cons, hfirst]
    rfl
  rw [trim, hstart, hinit, trimEnd, List.reverse_append, List.reverse_singleton,
    List.singleton_append, List.dropWhile_cons, hlast]
  simp

theorem append {a b : List Char} (ha : Solid a) (hb : Solid b) : Solid (a ++ b) := by
  obtain ⟨c, rest, rfl, hfirst⟩ := ha.first
  obtain ⟨init, z, rfl, hlast⟩ := hb.last
  exact ⟨⟨c, _, rfl, hfirst⟩, ⟨c :: rest ++ init, z, by simp, hlast⟩⟩

/-- A text is solid when no character of it is a blank and it has one. -/
theorem of_forall {text : List Char} (hne : text ≠ []) (h : ∀ c ∈ text, isBlank c = false) :
    Solid text := by
  refine ⟨?_, ?_⟩
  · obtain ⟨c, rest, rfl⟩ := List.exists_cons_of_ne_nil hne
    exact ⟨c, rest, rfl, h c List.mem_cons_self⟩
  · exact ⟨text.dropLast, text.getLast hne, (List.dropLast_concat_getLast hne).symm,
      h _ (List.getLast_mem hne)⟩

end Solid

/-- The words of a text that continues the word `word`. -/
def wordsFrom (word : List Char) : List Char → List (List Char)
  | [] => if word.isEmpty then [] else [word]
  | c :: cs =>
    if isBlank c then
      if word.isEmpty then wordsFrom [] cs else word :: wordsFrom [] cs
    else wordsFrom (word ++ [c]) cs

/-- The maximal runs of characters that are no blanks, in order. -/
def words (text : List Char) : List (List Char) :=
  wordsFrom [] text

theorem wordsFrom_ne_nil {word text w : List Char} (h : w ∈ wordsFrom word text) : w ≠ [] := by
  induction text generalizing word with
  | nil =>
    cases word with
    | nil => simp [wordsFrom] at h
    | cons a as => simp [wordsFrom] at h; simp [h]
  | cons c cs ih =>
    cases word with
    | nil =>
      by_cases hc : isBlank c = true
      · exact ih (by simpa [wordsFrom, hc] using h)
      · exact ih (by simpa [wordsFrom, hc] using h)
    | cons a as =>
      by_cases hc : isBlank c = true
      · simp only [wordsFrom, hc, if_true, List.isEmpty_cons, Bool.false_eq_true, if_false,
          List.mem_cons] at h
        rcases h with rfl | h
        · simp
        · exact ih h
      · exact ih (by simpa [wordsFrom, hc] using h)

/-- No word is empty. -/
theorem words_ne_nil {text w : List Char} (h : w ∈ words text) : w ≠ [] :=
  wordsFrom_ne_nil h

/-- The words of a text, joined by single spaces. -/
def normalizeBlanks (text : String) : String :=
  String.ofList (List.intercalate [' '] (words text.toList))

/-- A text without the blanks at its two ends, as a string. -/
def trimmed (text : String) : String :=
  String.ofList (trim text.toList)

end Gleaner.Text
