/-
# Pieces of XML put into HTML

A comment, an instruction, a CDATA section, a document type or a tag is read up to its end and put
into HTML. It ends where it was meant to: nothing in it looks like its end, the brackets inside a
document type match, and what stands between quotation marks closes no tag.

Key definitions: `quoteAfter`.
Key theorems: `untilClosed?_of_complete`, `untilClosed?_doctype`, `htmlFrom?_comment`,
`htmlFrom?_cdata`, `tagContent?_writtenTag`, `htmlFrom?_start`, `htmlFrom?_empty`, `htmlFrom?_end`.
-/
import Gleaner.Proofs.Markup.WrittenXml

namespace Gleaner.Markup.Xml

open Gleaner.Text

/-! ### Pieces of markup up to their end -/

variable {text rest before : List Char}

/-- A character that does not end markup belongs to it. -/
theorem untilClosed?_cons {complete : List Char → Bool} {c : Char} {content : List Char}
    (hopen : ¬ (c = '>' ∧ complete before = true))
    (h : Leaves (untilClosed? complete (c :: before)) text content rest) :
    Leaves (untilClosed? complete before) (c :: text) content rest := by
  obtain ⟨hlt, h⟩ := h
  refine ⟨Nat.lt_succ_of_lt hlt, (if_neg hopen).trans ?_⟩
  rw [h]
  rfl

/-- Markup goes on up to the first closing bracket before which it is complete. -/
theorem untilClosed?_of_complete {complete : List Char → Bool} :
    ∀ {text before : List Char}, complete (text.reverse ++ before) = true →
      (∀ a b, text = a ++ '>' :: b → complete (a.reverse ++ before) = false) →
      Leaves (untilClosed? complete before) (text ++ '>' :: rest) (before.reverse ++ text) rest
  | [], before, hend, _ => by
    have hclosed : complete before = true := hend
    refine ⟨Nat.lt_succ_self _, ?_⟩
    rw [List.append_nil]
    exact if_pos ⟨rfl, hclosed⟩
  | c :: text, before, hend, hinside => by
    -- a bracket here would stand behind a complete front
    have hopen : ¬ (c = '>' ∧ complete before = true) := by
      rintro ⟨rfl, hc⟩
      have hfalse : complete before = false := hinside [] text rfl
      rw [hfalse] at hc
      cases hc
    have hlater : ∀ a b, text = a ++ '>' :: b → complete (a.reverse ++ c :: before) = false := by
      intro a b htext
      have hcut := hinside (c :: a) b (by rw [htext]; rfl)
      simpa using hcut
    have hmore : Leaves (untilClosed? complete (c :: before)) (text ++ '>' :: rest)
        ((c :: before).reverse ++ text) rest :=
      untilClosed?_of_complete (by simpa using hend) hlater
    rw [List.reverse_cons, List.append_assoc] at hmore
    exact untilClosed?_cons hopen hmore

/-- What ends in front of a mark that a tail does not hold ends in front of the tail. -/
theorem exists_of_append_eq {tail u b : List Char} {m : Char} (h : text ++ tail = u ++ m :: b)
    (hm : m ∉ tail) : ∃ b', text = u ++ m :: b' := by
  rcases List.append_eq_append_iff.1 h with ⟨c, rfl, hc⟩ | ⟨c, rfl, hc⟩
  · exact absurd (hc ▸ List.mem_append_right c List.mem_cons_self) hm
  · cases c with
    | nil =>
      rw [List.nil_append] at hc
      exact absurd (hc ▸ List.mem_cons_self) hm
    | cons d c =>
      obtain ⟨rfl, -⟩ := List.cons.inj hc
      exact ⟨c, rfl⟩

/-- What goes on with a mark that a front does not hold goes on behind the front. -/
theorem exists_of_append_eq' {front u b : List Char} {m : Char} (h : front ++ text = u ++ m :: b)
    (hm : m ∉ front) : ∃ u', text = u' ++ m :: b := by
  rcases List.append_eq_append_iff.1 h with ⟨c, rfl, hc⟩ | ⟨c, rfl, hc⟩
  · exact ⟨c, hc⟩
  · cases c with
    | nil =>
      rw [List.nil_append] at hc
      exact ⟨[], hc.symm⟩
    | cons d c =>
      obtain ⟨rfl, -⟩ := List.cons.inj hc
      exact absurd (List.mem_append_right u List.mem_cons_self) hm

theorem occursIn_append (needle before after : List Char) :
    occursIn needle (before ++ (needle ++ after)) = true := by
  rw [occursIn_iff]
  exact ⟨before, after, by simp⟩

/-- A text read backwards begins with a mark exactly where it ends in the mark read backwards. -/
theorem stripStart?_reverse_iff {mark : List Char} :
    (stripStart? mark text.reverse).isSome = true ↔ ∃ u, text = u ++ mark.reverse := by
  rw [Option.isSome_iff_exists]
  constructor
  · rintro ⟨r, hr⟩
    rw [stripStart?_eq_some_iff, List.reverse_eq_iff] at hr
    exact ⟨r.reverse, by simpa using hr⟩
  · rintro ⟨u, rfl⟩
    exact ⟨u.reverse, by simp [stripStart?_eq_some_iff]⟩

/-! ### Comments, instructions, CDATA sections and document types -/

variable {opened : List (List Char)}

/-- A comment goes on up to its end. -/
theorem untilClosed?_comment (h : occursIn ['-', '-', '>'] text = false) (rest : List Char) :
    Leaves (untilClosed? (fun before => decide (4 < before.length) &&
        (stripStart? ['-', '-'] before).isSome) [])
      ('!' :: '-' :: '-' :: (text ++ '-' :: '-' :: '>' :: rest))
      ('!' :: '-' :: '-' :: (text ++ ['-', '-'])) rest := by
  have hsplit : '!' :: '-' :: '-' :: (text ++ '-' :: '-' :: '>' :: rest) =
      '!' :: '-' :: '-' :: (text ++ ['-', '-']) ++ '>' :: rest := by simp
  rw [hsplit]
  apply untilClosed?_of_complete
  · have hlength : 4 < ('!' :: '-' :: '-' :: (text ++ ['-', '-'])).length := by simp
    have hends : (stripStart? ['-', '-']
        ('!' :: '-' :: '-' :: (text ++ ['-', '-'])).reverse).isSome = true :=
      stripStart?_reverse_iff.2 ⟨'!' :: '-' :: '-' :: text, rfl⟩
    simp only [List.append_nil, List.length_reverse, decide_eq_true hlength, hends, Bool.and_self]
  · intro a b htext
    rw [List.append_nil, Bool.and_eq_false_imp, decide_eq_true_eq, List.length_reverse]
    intro hlength
    rw [Bool.eq_false_iff]
    intro hends
    obtain ⟨u, rfl⟩ := stripStart?_reverse_iff.1 hends
    have htail : ('!' :: '-' :: '-' :: text) ++ ['-', '-'] = u ++ ['-', '-'] ++ '>' :: b := htext
    obtain ⟨b', hinner⟩ := exists_of_append_eq htail (by decide)
    have hlong : 3 ≤ u.length := by
      simp only [List.length_append, List.length_reverse, List.length_cons, List.length_nil]
        at hlength
      omega
    have hs : text = u.drop 3 ++ (['-', '-', '>'] ++ b') := by
      have hdrop := congrArg (List.drop 3) hinner
      simpa [List.drop_append_of_le_length, hlong] using hdrop
    rw [hs, occursIn_append] at h
    cases h

/-- A CDATA section goes on up to its end. -/
theorem untilClosed?_cdata (h : occursIn [']', ']', '>'] text = false) (rest : List Char) :
    Leaves (untilClosed? (fun before => (stripStart? [']', ']'] before).isSome) [])
      (['!', '[', 'C', 'D', 'A', 'T', 'A', '['] ++ (text ++ ']' :: ']' :: '>' :: rest))
      (['!', '[', 'C', 'D', 'A', 'T', 'A', '['] ++ (text ++ [']', ']'])) rest := by
  have hsplit : ['!', '[', 'C', 'D', 'A', 'T', 'A', '['] ++ (text ++ ']' :: ']' :: '>' :: rest) =
      ['!', '[', 'C', 'D', 'A', 'T', 'A', '['] ++ (text ++ [']', ']']) ++ '>' :: rest := by
    simp only [List.append_assoc, List.cons_append, List.nil_append]
  rw [hsplit]
  apply untilClosed?_of_complete
  · rw [List.append_nil, ← List.append_assoc]
    exact stripStart?_reverse_iff.2 ⟨_, rfl⟩
  · intro a b htext
    rw [List.append_nil, Bool.eq_false_iff]
    intro hends
    obtain ⟨u, rfl⟩ := stripStart?_reverse_iff.1 hends
    rw [← List.append_assoc] at htext
    obtain ⟨b', hinner⟩ := exists_of_append_eq htext (by decide)
    have hcut :
        ['!', '[', 'C', 'D', 'A', 'T', 'A', '['] ++ text = u ++ ']' :: (']' :: '>' :: b') := by
      simpa using hinner
    obtain ⟨u', hs⟩ := exists_of_append_eq' hcut (by decide)
    have hfound : occursIn [']', ']', '>'] (u' ++ ([']', ']', '>'] ++ b')) = true :=
      occursIn_append _ u' b'
    rw [hs] at h
    rw [show ']' :: (']' :: '>' :: b') = [']', ']', '>'] ++ b' from rfl, hfound] at h
    cases h

/-- A processing instruction goes on up to its end. -/
theorem untilClosed?_instruction (h : occursIn ['?', '>'] ('?' :: text) = false)
    (rest : List Char) :
    Leaves (untilClosed? (fun before => before.head? == some '?') [])
      ('?' :: (text ++ '?' :: '>' :: rest)) ('?' :: (text ++ ['?'])) rest := by
  have hsplit : '?' :: (text ++ '?' :: '>' :: rest) = '?' :: (text ++ ['?']) ++ '>' :: rest := by
    simp
  rw [hsplit]
  apply untilClosed?_of_complete
  · simp
  · intro a b htext
    rw [List.append_nil, Bool.eq_false_iff]
    intro hends
    obtain ⟨u, rfl⟩ : ∃ u, a = u ++ ['?'] := by
      obtain ⟨r, hr⟩ := List.head?_eq_some_iff.1 (beq_iff_eq.1 hends)
      exact ⟨r.reverse, by simpa using List.reverse_eq_iff.1 hr⟩
    have htail : ('?' :: text) ++ ['?'] = u ++ ['?'] ++ '>' :: b := htext
    obtain ⟨b', hinner⟩ := exists_of_append_eq htail (by decide)
    have hs : '?' :: text = u ++ (['?', '>'] ++ b') := by simpa using hinner
    rw [hs, occursIn_append] at h
    cases h

/-- A document type goes on while the brackets inside it do. -/
theorem untilClosed?_doctype (rest : List Char) : ∀ {text before : List Char} {depth : Nat},
    bracketsMatch depth text = true → before.count '<' = before.count '>' + depth →
    Leaves (untilClosed? isBalanced before) (text ++ '>' :: rest) (before.reverse ++ text) rest
  | [], before, depth, h, hcount => by
    obtain rfl : depth = 0 := by simpa [bracketsMatch] using h
    have hclosed : isBalanced before = true := by simpa [isBalanced] using hcount
    exact untilClosed?_of_complete hclosed (by simp)
  | c :: text, before, depth, h, hcount => by
    have hopen : ¬ (c = '>' ∧ isBalanced before = true) := by
      rintro ⟨rfl, hc⟩
      have hzero : depth = 0 := by
        have hc : before.count '<' = before.count '>' := by simpa [isBalanced] using hc
        omega
      simp [bracketsMatch, hzero] at h
    have hmore : Leaves (untilClosed? isBalanced (c :: before)) (text ++ '>' :: rest)
        ((c :: before).reverse ++ text) rest := by
      rw [bracketsMatch] at h
      split at h
      · next hc =>
        exact untilClosed?_doctype rest h (by simp [hc, hcount]; omega)
      · split at h
        · next hc =>
          obtain ⟨hdepth, h⟩ := Bool.and_eq_true_iff.1 h
          have hdepth : depth ≠ 0 := by simpa using hdepth
          exact untilClosed?_doctype rest h (by simp [hc, hcount]; omega)
        · next hless hgreater =>
          exact untilClosed?_doctype rest h (by simp [hcount, hless, hgreater])
    rw [List.reverse_cons, List.append_assoc] at hmore
    exact untilClosed?_cons hopen hmore

/-- What begins with an exclamation mark is put into HTML as it is shown. -/
theorem htmlFrom?_declaration {markup shown : List Char}
    (h : Leaves declaration? ('!' :: markup) shown rest) :
    htmlFrom? opened ('<' :: '!' :: markup) = (htmlFrom? opened rest).map (shown ++ ·) := by
  obtain ⟨_, h⟩ := h
  rw [htmlFrom?]
  simp only [List.head?_cons, h]

section

variable {content inner : List Char}

theorem declaration?_comment (hsecond : text[1]? = some '-')
    (hread : Leaves (untilClosed? (fun before => decide (4 < before.length) &&
      (stripStart? ['-', '-'] before).isSome) []) text content rest)
    (hstart : stripStart? ['!', '-', '-'] content = some inner) :
    Leaves declaration? text [] rest := by
  obtain ⟨hlt, hread⟩ := hread
  refine ⟨hlt, ?_⟩
  have hmark : "!--".toList = ['!', '-', '-'] := rfl
  rw [declaration?, hsecond]
  simp only [hread, hmark, hstart, Option.map_some]

theorem declaration?_cdata (hsecond : text[1]? = some '[')
    (hread : Leaves (untilClosed? (fun before => (stripStart? [']', ']'] before).isSome) []) text
      content rest)
    (hstart : stripStart? ['!', '[', 'C', 'D', 'A', 'T', 'A', '['] content = some inner) :
    Leaves declaration? text (escape (inner.take (inner.length - 2))) rest := by
  obtain ⟨hlt, hread⟩ := hread
  refine ⟨hlt, ?_⟩
  have hmark : "![CDATA[".toList = ['!', '[', 'C', 'D', 'A', 'T', 'A', '['] := rfl
  rw [declaration?, hsecond]
  simp only [hread, hmark, hstart, Option.map_some]

theorem declaration?_doctype (hsecond : text[1]? = some 'D')
    (hread : Leaves (untilClosed? isBalanced []) text content rest)
    (htype : (content.take 8).map lowerChar = "!doctype".toList ∧
      (content.drop 8).any (fun d => !isSpace d) = true) :
    Leaves declaration? text [] rest := by
  obtain ⟨hlt, hread⟩ := hread
  refine ⟨hlt, ?_⟩
  rw [declaration?, hsecond]
  simp only [hread, if_pos htype]
  rfl

end

/-- A comment vanishes. -/
theorem htmlFrom?_comment (h : occursIn ['-', '-', '>'] text = false) :
    htmlFrom? opened (writtenComment text ++ rest) = htmlFrom? opened rest := by
  have hread := declaration?_comment rfl (untilClosed?_comment h rest)
    (stripStart?_eq_some_iff.2 rfl)
  have hshown : htmlFrom? opened (['<', '!', '-', '-'] ++ (text ++ (['-', '-', '>'] ++ rest))) =
      (htmlFrom? opened rest).map ([] ++ ·) := htmlFrom?_declaration hread
  rw [writtenComment, List.append_assoc, List.append_assoc, hshown]
  exact Option.map_id_apply

/-- A CDATA section becomes a text all of whose special characters are references. -/
theorem htmlFrom?_cdata (h : occursIn [']', ']', '>'] text = false) :
    htmlFrom? opened (writtenCdata text ++ rest) =
      (htmlFrom? opened rest).map (escape text ++ ·) := by
  have hread := declaration?_cdata rfl (untilClosed?_cdata h rest)
    (stripStart?_eq_some_iff.2 rfl)
  have hinner : (text ++ [']', ']']).take ((text ++ [']', ']']).length - 2) =
      text := by simp
  rw [hinner] at hread
  rw [writtenCdata, List.append_assoc, List.append_assoc]
  exact htmlFrom?_declaration hread

/-- A processing instruction vanishes. -/
theorem htmlFrom?_instruction (h : occursIn ['?', '>'] ('?' :: text) = false) :
    htmlFrom? opened (writtenInstruction text ++ rest) = htmlFrom? opened rest := by
  obtain ⟨hlt, hclosed⟩ := untilClosed?_instruction h rest
  have hread : afterInstruction? ('?' :: (text ++ '?' :: '>' :: rest)) =
      some ⟨rest, hlt⟩ := by
    rw [afterInstruction?, hclosed]
    simp
  have htext : ['<', '?'] ++ (text ++ (['?', '>'] ++ rest)) =
      '<' :: '?' :: (text ++ '?' :: '>' :: rest) := rfl
  rw [writtenInstruction, List.append_assoc, List.append_assoc, htext, htmlFrom?]
  simp only [List.head?_cons, hread]

/-- A document type vanishes. -/
theorem htmlFrom?_doctype (h : bracketsMatch 0 text = true)
    (hname : text.any (fun c => !isSpace c) = true) :
    htmlFrom? opened (writtenDoctype text ++ rest) = htmlFrom? opened rest := by
  have hbalanced : bracketsMatch 0 (['!', 'D', 'O', 'C', 'T', 'Y', 'P', 'E'] ++ text) = true := h
  have hclosed : Leaves (untilClosed? isBalanced [])
      (['!', 'D', 'O', 'C', 'T', 'Y', 'P', 'E'] ++ text ++ '>' :: rest)
      (['!', 'D', 'O', 'C', 'T', 'Y', 'P', 'E'] ++ text) rest :=
    untilClosed?_doctype rest hbalanced rfl
  have hread := declaration?_doctype rfl hclosed ⟨rfl, hname⟩
  have hshown : htmlFrom? opened
      (['<', '!', 'D', 'O', 'C', 'T', 'Y', 'P', 'E'] ++ (text ++ ('>' :: rest))) =
      (htmlFrom? opened rest).map ([] ++ ·) := htmlFrom?_declaration hread
  rw [writtenDoctype, List.append_assoc, List.append_assoc, List.singleton_append, hshown]
  exact Option.map_id_apply

/-! ### Tags -/

/-- The quotation mark that is open behind a character of a tag. -/
def quoteAfter (c : Char) : (quote : Option Char) → Option Char
  | none => if c = '\'' ∨ c = '"' then some c else none
  | some q => if c = q then none else some q

theorem tagContent?_cons {c : Char} {quote : Option Char} {content : List Char}
    (hquote : quote = none → c ≠ '>')
    (h : Leaves (tagContent? (quoteAfter c quote)) text content rest) :
    Leaves (tagContent? quote) (c :: text) (c :: content) rest := by
  obtain ⟨hlt, h⟩ := h
  refine ⟨Nat.lt_succ_of_lt hlt, ?_⟩
  cases quote with
  | none =>
    rw [quoteAfter] at h
    refine (if_neg (hquote rfl)).trans ?_
    rw [h]
    rfl
  | some q =>
    rw [quoteAfter] at h
    show (tagContent? (if c = q then none else some q) text).map _ = _
    rw [h]
    rfl

theorem tagContent?_end (rest : List Char) : Leaves (tagContent? none) ('>' :: rest) [] rest :=
  ⟨Nat.lt_succ_self _, rfl⟩

/-- Outside of quotation marks a tag goes on with what is neither one nor a closing bracket. -/
theorem tagContent?_plain {content : List Char} :
    ∀ {front : List Char}, (∀ c ∈ front, c ≠ '>' ∧ c ≠ '\'' ∧ c ≠ '"') →
      Leaves (tagContent? none) text content rest →
      Leaves (tagContent? none) (front ++ text) (front ++ content) rest
  | [], _, h => h
  | c :: front, hfront, h => by
    obtain ⟨⟨hclose, hsingle, hdouble⟩, hfront⟩ := List.forall_mem_cons.1 hfront
    apply tagContent?_cons fun _ => hclose
    simp only [quoteAfter, hsingle, hdouble, or_self, if_false]
    exact tagContent?_plain hfront h

/-- Between quotation marks it goes on up to the second one. -/
theorem tagContent?_quoted {content : List Char} (h : Leaves (tagContent? none) text content rest) :
    ∀ {value : List Char}, '"' ∉ value →
      Leaves (tagContent? (some '"')) (value ++ '"' :: text) (value ++ '"' :: content) rest
  | [], _ => by
    apply tagContent?_cons (by simp)
    simpa [quoteAfter] using h
  | c :: value, hvalue => by
    obtain ⟨hc, hvalue⟩ := List.ne_and_not_mem_of_not_mem_cons hvalue
    apply tagContent?_cons (by simp)
    simp only [quoteAfter, if_neg hc.symm]
    exact tagContent?_quoted h hvalue

theorem not_mem_writtenValue (a : WrittenAttribute) : '"' ∉ a.writtenValue := by
  intro hmem
  rcases mem_writtenText hmem with ⟨-, -, hquote⟩ | href
  · exact hquote rfl rfl
  · revert href
    decide

variable {name : String} {attributes : List WrittenAttribute} {content : List Char}

theorem tagContent?_name (hname : ∀ c ∈ name.toList, isNameChar c = true)
    (h : Leaves (tagContent? none) text content rest) :
    Leaves (tagContent? none) (name.toList ++ text) (name.toList ++ content) rest := by
  refine tagContent?_plain (fun c hc => ?_) h
  have hne {d : Char} (hd : isNameChar d = false) : c ≠ d := ne_of_isNameChar (hname c hc) hd
  exact ⟨hne (by decide), hne (by decide), hne (by decide)⟩

theorem tagContent?_attribute {a : WrittenAttribute} (ha : a.Legible)
    (h : Leaves (tagContent? none) text content rest) :
    Leaves (tagContent? none) (a.written ++ text) (a.written ++ content) rest := by
  have hvalue : Leaves (tagContent? none) ('"' :: (a.writtenValue ++ '"' :: text))
      ('"' :: (a.writtenValue ++ '"' :: content)) rest :=
    tagContent?_cons (by simp) (tagContent?_quoted h (not_mem_writtenValue a))
  have hequal : Leaves (tagContent? none) ('=' :: '"' :: (a.writtenValue ++ '"' :: text))
      ('=' :: '"' :: (a.writtenValue ++ '"' :: content)) rest :=
    tagContent?_cons (by simp) hvalue
  have hname := tagContent?_name ha.name hequal
  have hspace : Leaves (tagContent? none) (' ' :: _) (' ' :: _) rest :=
    tagContent?_cons (by simp) hname
  simpa [WrittenAttribute.written] using hspace

/-- A tag that can be written is read up to its closing bracket. -/
theorem tagContent?_writtenTag (htag : LegibleTag name attributes)
    (h : Leaves (tagContent? none) text content rest) :
    Leaves (tagContent? none) (writtenTag name attributes ++ text)
      (writtenTag name attributes ++ content) rest := by
  have hattributes : ∀ {list : List WrittenAttribute}, (∀ a ∈ list, a.Legible) →
      Leaves (tagContent? none) (list.flatMap WrittenAttribute.written ++ text)
        (list.flatMap WrittenAttribute.written ++ content) rest := by
    intro list hlist
    induction list with
    | nil => exact h
    | cons a list ih =>
      obtain ⟨ha, hlist⟩ := List.forall_mem_cons.1 hlist
      rw [List.flatMap_cons, List.append_assoc, List.append_assoc]
      exact tagContent?_attribute ha (ih hlist)
  rw [writtenTag, List.append_assoc, List.append_assoc]
  exact tagContent?_name htag.name (hattributes htag.legible)

/-- What is no declaration, instruction or end tag is a tag that opens an element. -/
theorem htmlFrom?_tag (hhead : ∀ c ∈ ['!', '?', '/'], text.head? ≠ some c)
    (hread : Leaves (tagContent? none) text content rest) :
    htmlFrom? opened ('<' :: text) =
      if content.getLast? = some '/' then
        (htmlFrom? opened rest).map (writeEmpty content.dropLast ++ ·)
      else
        (htmlFrom? (tagName content :: opened) rest).map fun more =>
          '<' :: content ++ '>' :: more := by
  obtain ⟨_, hread⟩ := hread
  rw [htmlFrom?]
  split
  · next hnone =>
    obtain rfl := List.head?_eq_none_iff.1 hnone
    cases hread
  · next hc => exact absurd hc (hhead '!' (by decide))
  · next hc => exact absurd hc (hhead '?' (by decide))
  · next hc => exact absurd hc (hhead '/' (by decide))
  · simp only [hread]

theorem LegibleTag.head? (h : LegibleTag name attributes) (text : List Char) :
    ∃ c, (writtenTag name attributes ++ text).head? = some c ∧ isAsciiLetter c = true := by
  have hletter := h.letter
  rw [writtenTag]
  cases hname : name.toList with
  | nil => simp [hname] at hletter
  | cons c chars =>
    rw [hname] at hletter
    exact ⟨c, rfl, by simpa using hletter⟩

/-- A legible tag is none of the other pieces of markup. -/
theorem LegibleTag.head?_ne (h : LegibleTag name attributes) (text : List Char) :
    ∀ c ∈ ['!', '?', '/'], (writtenTag name attributes ++ text).head? ≠ some c := by
  obtain ⟨d, hd, hletter⟩ := h.head? text
  rintro c hc heq
  rw [hd] at heq
  cases heq
  revert hletter
  simp only [List.mem_cons, List.not_mem_nil, or_false] at hc
  rcases hc with rfl | rfl | rfl
  all_goals decide

theorem tagName_writtenTag (h : LegibleTag name attributes) :
    tagName (writtenTag name attributes) = name.toList := by
  have hname : ∀ c ∈ name.toList, (!isSpace c) = true := by
    intro c hc
    rw [isSpace_of_isNameChar (h.name c hc)]
    rfl
  have hattributes : ∀ c ∈ (attributes.flatMap WrittenAttribute.written).head?,
      (!isSpace c) = false := by
    cases attributes with
    | nil => simp
    | cons a attributes =>
      rintro c ⟨⟩
      rfl
  exact (span_append hname hattributes).1

/-- A tag does not end as an empty one does. -/
theorem getLast?_writtenTag (h : LegibleTag name attributes) :
    (writtenTag name attributes).getLast? ≠ some '/' := by
  rcases List.eq_nil_or_concat attributes with rfl | ⟨front, a, rfl⟩
  · intro hlast
    have hmem : '/' ∈ name.toList := by
      simpa [writtenTag] using List.mem_of_getLast? hlast
    exact absurd (h.name '/' hmem) (by decide)
  · have hquote : writtenTag name (front ++ [a]) =
        name.toList ++ front.flatMap WrittenAttribute.written ++
          ' ' :: (a.name.toList ++ '=' :: '"' :: a.writtenValue) ++ ['"'] := by
      simp [writtenTag, WrittenAttribute.written]
    rw [List.concat_eq_append, hquote, List.getLast?_concat]
    decide

/-- The start tag of an element stays. -/
theorem htmlFrom?_start (h : LegibleTag name attributes) :
    htmlFrom? opened ('<' :: (writtenTag name attributes ++ '>' :: rest)) =
      (htmlFrom? (name.toList :: opened) rest).map fun more =>
        '<' :: (writtenTag name attributes ++ '>' :: more) := by
  have hread := tagContent?_writtenTag h (tagContent?_end rest)
  rw [List.append_nil] at hread
  rw [htmlFrom?_tag (h.head?_ne _) hread, if_neg (getLast?_writtenTag h), tagName_writtenTag h]
  rfl

/-- A tag that opens and closes an element is written as one or as two. -/
theorem htmlFrom?_empty (h : LegibleTag name attributes) :
    htmlFrom? opened ('<' :: (writtenTag name attributes ++ '/' :: '>' :: rest)) =
      (htmlFrom? opened rest).map (writeEmpty (writtenTag name attributes) ++ ·) := by
  have hslash : Leaves (tagContent? none) ('/' :: '>' :: rest) ['/'] rest :=
    tagContent?_cons (by simp) (tagContent?_end rest)
  rw [htmlFrom?_tag (h.head?_ne _) (tagContent?_writtenTag h hslash), if_pos (by simp)]
  simp

theorem endName_name (h : ∀ c ∈ name.toList, isNameChar c = true) :
    endName name.toList = name.toList := by
  have hspace : ∀ c ∈ name.toList, isSpace c = false := fun c hc => isSpace_of_isNameChar (h c hc)
  have hkept : name.toList.reverse.dropWhile isSpace = name.toList.reverse := by
    cases hlast : name.toList.reverse with
    | nil => rfl
    | cons c chars =>
      have hc : isSpace c = false := hspace c (List.mem_reverse.1 (hlast ▸ List.mem_cons_self))
      rw [List.dropWhile_cons, hc, if_neg Bool.false_ne_true]
  rw [endName, hkept, List.reverse_reverse, ite_self]

/-- The end tag of the innermost open element stays. -/
theorem htmlFrom?_end (h : ∀ c ∈ name.toList, isNameChar c = true) :
    htmlFrom? (name.toList :: opened) (writtenEnd name ++ rest) =
      (htmlFrom? opened rest).map (writtenEnd name ++ ·) := by
  have hname := tagContent?_name h (tagContent?_end rest)
  have hread : Leaves (tagContent? none) ('/' :: (name.toList ++ '>' :: rest)) ('/' :: name.toList)
      rest := by
    apply tagContent?_cons (by simp)
    simpa [quoteAfter] using hname
  obtain ⟨_, hread⟩ := hread
  rw [writtenEnd_append, htmlFrom?]
  simp only [List.head?_cons, hread, List.drop_succ_cons, List.drop_zero, endName_name h, if_true]
  simp [writtenEnd]

end Gleaner.Markup.Xml
