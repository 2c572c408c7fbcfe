/-
# Pieces of JSON paths that are read

A reader takes the text of what it reads and leaves what follows. A string is read up to its closing
quotation mark whatever follows it; an integer, a key and a literal are read where what follows
cannot go on with them.

Key definitions: `Ends`.
Key theorems: `readInteger_spelled`, `readKeys_written`, `readLiteral_written`,
`readComparison?_of_ends`.
-/
import Gleaner.Proofs.JsonPath.Clauses

namespace Gleaner.JsonPath

open Gleaner.Text Gleaner.Number

variable {c : Char} {text more rest blanks : List Char}

/-! ### Strings -/

theorem spelledName_escaped : ∀ text : List Char, SpelledName '\'' (text.flatMap escaped) text
  | [] => .nil
  | c :: text => by
    have ih := spelledName_escaped text
    rw [List.flatMap_cons, escaped]
    by_cases hc : c = '\'' ∨ c = '\\'
    · rw [if_pos hc]
      exact .behind ih
    · rw [if_neg hc]
      exact .plain (fun h => hc (.inr h)) (fun h => hc (.inl h)) ih

theorem readQuoted_escaped (rest text : List Char) :
    Reads (readQuoted '\'' (text.flatMap escaped ++ '\'' :: rest)) text rest :=
  readQuoted_spelled (by decide) (spelledName_escaped text) rest

/-- A string in front of a text, opened at its first quotation mark. -/
theorem writtenText_append (text : String) (rest : List Char) :
    writtenText text ++ rest = '\'' :: (text.toList.flatMap escaped ++ '\'' :: rest) := by
  rw [writtenText, List.cons_append, List.append_assoc, List.singleton_append]

/-! ### Integers -/

/-- The signs that may come behind an integer, a literal or a condition. -/
def closers : List Char :=
  [',', ':', ']', ')', '&', '|']

/-- What follows begins with one of these signs. -/
def Ends (rest : List Char) : Prop :=
  ∃ c more, rest = c :: more ∧ c ∈ closers

/-- None of these signs has a property that none of them has. -/
theorem Ends.head?_eq_false {p : Char → Bool} (h : Ends rest)
    (hp : ∀ c ∈ closers, p c = false) : ∀ c ∈ rest.head?, p c = false := by
  obtain ⟨c, more, rfl, hc⟩ := h
  rintro _ ⟨⟩
  exact hp c hc

/-- A character that the text of an integer begins with. -/
def startsInteger (c : Char) : Bool :=
  c == '-' || isDigit c

theorem writtenInteger_eq_cons (n : Int) :
    ∃ c more, writtenInteger n = c :: more ∧ startsInteger c = true := by
  obtain ⟨hne, hdigits⟩ := digits_toString n.natAbs
  obtain ⟨c, more, hcons⟩ := List.exists_cons_of_ne_nil hne
  have hc : isDigit c = true := hdigits c (by rw [hcons]; exact List.mem_cons_self)
  rw [writtenInteger, toString_int, hcons]
  by_cases hneg : n < 0
  · exact ⟨'-', c :: more, by rw [if_pos hneg]; rfl, rfl⟩
  · exact ⟨c, more, by rw [if_neg hneg]; rfl, by rw [startsInteger, hc, Bool.or_true]⟩

/-- No integer begins with a character that is neither a minus sign nor a digit. -/
theorem ne_of_startsInteger {m : Char} (h : startsInteger c = true)
    (hm : startsInteger m = false) : c ≠ m := by
  rintro rfl
  rw [h] at hm
  cases hm

theorem not_blank_of_startsInteger (h : startsInteger c = true) : isBlank c = false := by
  rw [startsInteger, Bool.or_eq_true, beq_iff_eq] at h
  rcases h with rfl | h
  · decide
  · exact not_blank_of_isDigit h

theorem not_mark_of_startsInteger (h : startsInteger c = true) : isMark c = false := by
  rw [isMark, Bool.or_eq_false_iff, beq_eq_false_iff_ne, beq_eq_false_iff_ne]
  exact ⟨ne_of_startsInteger h (by decide), ne_of_startsInteger h (by decide)⟩

/-- An integer begins with a minus sign or a digit. -/
theorem spelledInteger_eq_cons {n : Int} (h : SpelledInteger text n) :
    ∃ c more, text = c :: more ∧ startsInteger c = true := by
  cases h with
  | natural hne hdigits _ =>
    obtain ⟨c, more, rfl⟩ := List.exists_cons_of_ne_nil hne
    refine ⟨c, more, rfl, ?_⟩
    rw [startsInteger, hdigits c List.mem_cons_self, Bool.or_true]
  | negative => exact ⟨'-', _, rfl, rfl⟩

/-- An integer comes apart from what follows if that begins with no digit. -/
theorem splitInteger_spelled {n : Int} (h : SpelledInteger text n)
    (hrest : ∀ c ∈ rest.head?, isDigit c = false) :
    ∃ h : rest.length ≤ (text ++ rest).length, splitInteger (text ++ rest) = (text, ⟨rest, h⟩) := by
  have hle : rest.length ≤ (text ++ rest).length := by simp
  refine ⟨hle, ?_⟩
  cases h with
  | natural hne hdigits _ =>
    obtain ⟨htake, hdrop⟩ := span_append hdigits hrest
    obtain ⟨c, more, rfl⟩ := List.exists_cons_of_ne_nil hne
    rw [splitInteger]
    · exact Prod.ext htake (Subtype.ext hdrop)
    · intro tail heq
      exact ne_of_isDigit (hdigits c List.mem_cons_self) (by decide) (List.cons.inj heq).1
  | @negative digits _ hdigits _ =>
    obtain ⟨htake, hdrop⟩ := span_append hdigits hrest
    show splitInteger ('-' :: (digits ++ rest)) = _
    rw [splitInteger]
    exact Prod.ext (congrArg (List.cons '-') htake) (Subtype.ext hdrop)

/-- An integer of 64 bits is read where no digit follows it. -/
theorem readInteger_spelled {n : Int} (h : SpelledInteger text n)
    (hrest : ∀ c ∈ rest.head?, isDigit c = false) :
    Reads (readInteger (text ++ rest)) (some n) rest := by
  obtain ⟨hle, hsplit⟩ := splitInteger_spelled h hrest
  obtain ⟨c, more, hcons, hc⟩ := spelledInteger_eq_cons h
  have hstart : trimStart (text ++ rest) = text ++ rest := by
    rw [hcons]
    exact trimStart_cons (not_blank_of_startsInteger hc) _
  have hne : text ≠ [] := hcons ▸ List.cons_ne_nil c more
  rw [reads_readInteger_iff, hstart, hsplit]
  exact ⟨rfl, .inr ⟨hne, n, readInt64_spelled h, rfl⟩⟩

theorem readInteger_written {n : Int} (h : IsInt64 n)
    (hrest : ∀ c ∈ rest.head?, isDigit c = false) :
    Reads (readInteger (writtenInteger n ++ rest)) (some n) rest :=
  readInteger_spelled (spelledInteger_toString h) hrest

/-- No integer is read in front of a sign. -/
theorem readInteger_none (hblank : isBlank c = false) (hc : startsInteger c = false)
    (rest : List Char) : Reads (readInteger (c :: rest)) none (c :: rest) := by
  rw [startsInteger, Bool.or_eq_false_iff, beq_eq_false_iff_ne] at hc
  have hsplit : splitInteger (c :: rest) = ([], Rest.all (c :: rest)) := by
    rw [splitInteger]
    · refine Prod.ext ?_ (Subtype.ext ?_)
      · rw [List.takeWhile_cons, hc.2, if_neg Bool.false_ne_true]
      · change (c :: rest).dropWhile isDigit = c :: rest
        rw [List.dropWhile_cons, hc.2, if_neg Bool.false_ne_true]
    · intro tail heq
      exact hc.1 (List.cons.inj heq).1
  rw [reads_readInteger_iff, trimStart_cons hblank, hsplit]
  exact ⟨rfl, .inl ⟨rfl, rfl⟩⟩

/-! ### Keys -/

theorem readKey_written {key : Key} (h : key.Legible) (rest : List Char) :
    Reads (readKey (key.written ++ ']' :: rest)) key (']' :: rest) := by
  cases key with
  | name text =>
    have hread := readQuoted_escaped (']' :: rest) text.toList
    rw [Key.written, writtenText_append]
    exact reads_readKey_iff.2 ⟨'\'', _, trimStart_cons (by decide) _,
      .inl ⟨by decide, text.toList, hread, by rw [String.ofList_toList]⟩⟩
  | index n =>
    obtain ⟨c, more, hcons, hc⟩ := writtenInteger_eq_cons n
    have hend : ∀ c ∈ (']' :: rest).head?, isDigit c = false := by
      rintro _ ⟨⟩
      decide
    have hstart : trimStart (writtenInteger n ++ ']' :: rest) = c :: (more ++ ']' :: rest) := by
      rw [hcons]
      exact trimStart_cons (not_blank_of_startsInteger hc) _
    exact reads_readKey_iff.2 ⟨c, _, hstart,
      .inr ⟨not_mark_of_startsInteger hc, n, readInteger_written h hend, rfl⟩⟩

/-- Keys between brackets are read one after another, up to what begins no key. -/
theorem readKeys_written (hrest : ∀ c ∈ rest.head?, c ≠ '.' ∧ c ≠ '[') {path : List Key}
    (h : ∀ key ∈ path, key.Legible) : Reads (readKeys (writtenKeys path ++ rest)) path rest := by
  induction path with
  | nil =>
    exact reads_readKeys_iff.2 (.inr (.inr ⟨fun hpoint => (hrest '.' hpoint).1 rfl,
      fun hbracket => (hrest '[' hbracket).2 rfl, rfl, rfl⟩))
  | cons key path ih =>
    obtain ⟨hkey, hpath⟩ := List.forall_mem_cons.1 h
    have htext : writtenKeys (key :: path) ++ rest =
        '[' :: (key.written ++ ']' :: (writtenKeys path ++ rest)) := by
      simp [writtenKeys]
    rw [htext]
    exact reads_readKeys_iff.2 (.inr (.inl ⟨_, key, _, _, path, rfl, readKey_written hkey _,
      trimStart_cons (by decide) _, ih hpath, rfl⟩))

/-! ### Comparisons and literals -/

/-- No closing sign begins a comparison. -/
theorem readComparison?_of_ends (h : Ends rest) : readComparison? rest = none := by
  obtain ⟨c, more, rfl, hc⟩ := h
  simp only [closers, List.mem_cons, List.not_mem_nil, or_false] at hc
  rcases hc with rfl | rfl | rfl | rfl | rfl | rfl <;> rfl

/-- No word begins with another character than its first. -/
theorem afterWord?_of_ne {w : Char} {word : List Char} (h : w ≠ c) (rest : List Char) :
    afterWord? (w :: word) (c :: rest) = none := by
  rw [afterWord?, if_neg h]

/-- A literal begins with a character that is neither a blank nor the sign of equality. -/
theorem writtenLiteral_eq_cons : ∀ {literal : Json}, LegibleLiteral literal →
    ∃ c more, writtenLiteral literal = c :: more ∧ isBlank c = false ∧ c ≠ '='
  | .string text, _ => ⟨'\'', _, rfl, by decide, by decide⟩
  | .boolean true, _ => ⟨'t', _, rfl, by decide, by decide⟩
  | .boolean false, _ => ⟨'f', _, rfl, by decide, by decide⟩
  | .null, _ => ⟨'n', _, rfl, by decide, by decide⟩
  | .number (.integer n), _ => by
    obtain ⟨c, more, hcons, hc⟩ := writtenInteger_eq_cons n
    exact ⟨c, more, hcons, not_blank_of_startsInteger hc, ne_of_startsInteger hc (by decide)⟩

/-- An integer of 64 bits, with or without a sign, is read up to what cannot go on with it. -/
theorem readNumber_written {n : Int} (hlow : leastInt64 ≤ n) (hhigh : n < twoTo 64)
    (hrest : ∀ c ∈ rest.head?, isNumberChar c = false) :
    Reads (readNumber (writtenInteger n ++ rest)) (.number (.integer n)) rest := by
  have hchars : ∀ c ∈ writtenInteger n, isNumberChar c = true := by
    intro c hc
    rw [writtenInteger, toString_int, List.mem_append] at hc
    rcases hc with hc | hc
    · split at hc
      · rw [List.mem_singleton.1 hc]
        rfl
      · cases hc
    · have hdigit := (digits_toString n.natAbs).2 c hc
      simp [isNumberChar, hdigit]
  obtain ⟨htake, hdrop⟩ := span_append hchars hrest
  have hnumber : Json.readNumeric? (writtenInteger n) = some (.integer n) :=
    Json.readNumeric?_toString hlow hhigh
  exact reads_readNumber_iff.2 ⟨.integer n, by rw [htake, hnumber], rfl, hdrop.symm⟩

/-- An integer is no word. -/
theorem readWord?_of_startsInteger (h : startsInteger c = true) (rest : List Char) :
    readWord? (c :: rest) = none := by
  have htrue : afterWord? "true".toList (c :: rest) = none :=
    afterWord?_of_ne (ne_of_startsInteger h (by decide)).symm rest
  have hfalse : afterWord? "false".toList (c :: rest) = none :=
    afterWord?_of_ne (ne_of_startsInteger h (by decide)).symm rest
  have hnull : afterWord? "null".toList (c :: rest) = none :=
    afterWord?_of_ne (ne_of_startsInteger h (by decide)).symm rest
  simp only [readWord?, htrue, hfalse, hnull, Option.map_none]

theorem readLiteralHere_integer {n : Int} (hlow : leastInt64 ≤ n) (hhigh : n < twoTo 64)
    (hrest : Ends rest) :
    Reads (readLiteralHere (writtenInteger n ++ rest)) (.number (.integer n)) rest := by
  obtain ⟨c, more, hcons, hc⟩ := writtenInteger_eq_cons n
  have hnumber := readNumber_written hlow hhigh (hrest.head?_eq_false (by decide))
  rw [hcons, List.cons_append] at hnumber ⊢
  exact reads_readLiteralHere_iff.2 ⟨c, _, rfl,
    .inr (.inr ⟨not_mark_of_startsInteger hc, readWord?_of_startsInteger hc _, hnumber⟩)⟩

theorem readLiteralHere_written {literal : Json} (h : LegibleLiteral literal) (hrest : Ends rest) :
    Reads (readLiteralHere (writtenLiteral literal ++ rest)) literal rest := by
  have hle (word : List Char) : rest.length ≤ (word ++ rest).length := by simp
  match literal, h with
  | .string text, _ =>
    change Reads (readLiteralHere (writtenText text ++ rest)) (.string text) rest
    rw [writtenText_append]
    exact reads_readLiteralHere_iff.2 ⟨'\'', _, rfl, .inl ⟨by decide, text.toList,
      readQuoted_escaped rest text.toList, by rw [String.ofList_toList]⟩⟩
  | .boolean true, _ =>
    exact reads_readLiteralHere_iff.2
      ⟨'t', _, rfl, .inr (.inl ⟨by decide, ⟨rest, hle _⟩, rfl, rfl⟩)⟩
  | .boolean false, _ =>
    exact reads_readLiteralHere_iff.2
      ⟨'f', _, rfl, .inr (.inl ⟨by decide, ⟨rest, hle _⟩, rfl, rfl⟩)⟩
  | .null, _ =>
    exact reads_readLiteralHere_iff.2
      ⟨'n', _, rfl, .inr (.inl ⟨by decide, ⟨rest, hle _⟩, rfl, rfl⟩)⟩
  | .number (.integer n), h =>
    have hhigh : n < twoTo 64 := Int.lt_trans h.2 (by decide)
    exact readLiteralHere_integer h.1 hhigh hrest

/-- Blanks in front of a literal are passed over. -/
theorem readLiteral_blanks {literal : Json} (hblanks : Blanks blanks) (h : isBlank c = false)
    (hread : Reads (readLiteralHere (c :: text)) literal rest) :
    Reads (readLiteral (blanks ++ c :: text)) literal rest := by
  rwa [reads_readLiteral_iff, trimStart_blanks hblanks h]

/-- A literal is read where a closing sign follows it. -/
theorem readLiteral_written {literal : Json} (h : LegibleLiteral literal) (hrest : Ends rest) :
    Reads (readLiteral (writtenLiteral literal ++ rest)) literal rest := by
  obtain ⟨c, more, hcons, hblank, _⟩ := writtenLiteral_eq_cons h
  have hread := readLiteralHere_written h hrest
  rw [hcons, List.cons_append] at hread ⊢
  exact readLiteral_blanks .nil hblank hread

end Gleaner.JsonPath
