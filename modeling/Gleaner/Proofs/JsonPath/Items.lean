/-
# Items of JSON paths as they may be written

An item may be written in many ways: a name between quotation marks of either kind, with backslashes
in front of any of its characters; an integer with zeros in front; a slice with its bounds or without
them, with its step or without it; and blanks around each part of these. However an item is written,
it is read, and what follows is left, with blanks in front of it at most. A row of items with commas
between them is read one item after another.

Key definitions: `ReadsTo`, `SpelledBound`, `Item.Spelled`.
Key theorems: `readItem_spelled`, `readMoreItems_spelled`, `readChoice_row`, `readChoice_wildcard`,
`Item.spelled_written`.
-/
import Gleaner.Proofs.JsonPath.Condition
import Mathlib.Data.List.Forall2

namespace Gleaner.JsonPath

open Gleaner.Text Gleaner.Number

variable {c : Char} {text more rest blanks : List Char}

/-! ### Readings with blanks behind them -/

/-- A reading gives a value and leaves the rest, with blanks in front of it at most. -/
def ReadsTo {α : Type} {P : List Char → Prop}
    (reading : Except Stop (α × { rest : List Char // P rest })) (a : α) (rest : List Char) :
    Prop :=
  ∃ blanks, Blanks blanks ∧ Reads reading a (blanks ++ rest)

theorem Reads.readsTo {α : Type} {P : List Char → Prop}
    {reading : Except Stop (α × { rest : List Char // P rest })} {a : α} (h : Reads reading a rest) :
    ReadsTo reading a rest :=
  ⟨[], .nil, h⟩

/-! ### Bounds -/

/-- Blanks in front of an integer, or in front of where none is, are passed over. -/
theorem readInteger_blanks {found : Option Int} (hblanks : Blanks blanks)
    (h : Reads (readInteger text) found rest) :
    Reads (readInteger (blanks ++ text)) found rest := by
  have hstart : trimStart (blanks ++ text) = trimStart text := trimStart_append hblanks text
  rw [reads_readInteger_iff] at h ⊢
  rwa [hstart]

/-- A bound of a slice as it may be written, with blanks around it; or blanks, where it is
missing. -/
inductive SpelledBound : List Char → Option Int → Prop where
  | missing {blanks : List Char} (h : Blanks blanks) : SpelledBound blanks none
  | given {before text after : List Char} {n : Int} (hbefore : Blanks before)
      (h : SpelledInteger text n) (hafter : Blanks after) :
      SpelledBound (before ++ (text ++ after)) (some n)

/-- A bound of a slice is read, or found missing. -/
theorem readInteger_bound {bound : Option Int} (h : SpelledBound text bound) (hrest : Ends rest) :
    ReadsTo (readInteger (text ++ rest)) bound rest := by
  cases h with
  | missing hblanks =>
    obtain ⟨c, more, rfl, hc⟩ := hrest
    have hclosers : ∀ c ∈ closers, isBlank c = false ∧ startsInteger c = false := by decide
    exact (readInteger_blanks hblanks
      (readInteger_none (hclosers c hc).1 (hclosers c hc).2 more)).readsTo
  | @given before digits after n hbefore h hafter =>
    have hend : ∀ c ∈ (after ++ rest).head?, isDigit c = false := by
      refine forall_head?_append hafter (fun c hblank => ?_) (hrest.head?_eq_false (by decide))
      rw [← Bool.not_eq_true]
      intro hdigit
      rw [not_blank_of_isDigit hdigit] at hblank
      cases hblank
    have hread := readInteger_blanks hbefore (readInteger_spelled h hend)
    refine ⟨after, hafter, ?_⟩
    rwa [List.append_assoc, List.append_assoc]

/-- What comes first where a bound may stand, and a sign that is no blank behind it. -/
theorem trimStart_bound {bound : Option Int} (h : SpelledBound text bound)
    (hc : isBlank c = false) (rest : List Char) :
    ∃ sign left, trimStart (text ++ c :: rest) = sign :: left ∧
      ((sign = c ∧ bound = none) ∨ startsInteger sign = true) := by
  cases h with
  | missing hblanks => exact ⟨c, rest, trimStart_blanks hblanks hc rest, .inl ⟨rfl, rfl⟩⟩
  | @given before digits after n hbefore h hafter =>
    obtain ⟨sign, tail, rfl, hsign⟩ := spelledInteger_eq_cons h
    rw [List.append_assoc, List.append_assoc, List.cons_append]
    exact ⟨sign, _, trimStart_blanks hbefore (not_blank_of_startsInteger hsign) _, .inr hsign⟩

/-! ### Items -/

/-- A comma or a closing bracket comes next: what comes behind an item. -/
def EndsItem (rest : List Char) : Prop :=
  ∃ c more, rest = c :: more ∧ (c = ',' ∨ c = ']')

theorem EndsItem.ends (h : EndsItem rest) : Ends rest := by
  obtain ⟨c, more, rfl, hc⟩ := h
  refine ⟨c, more, rfl, ?_⟩
  rcases hc with rfl | rfl
  · decide
  · decide

/-- What comes behind an item begins neither with a blank nor with a colon. -/
theorem EndsItem.exists_sign (h : EndsItem rest) :
    ∃ c more, rest = c :: more ∧ isBlank c = false ∧ c ≠ ':' := by
  obtain ⟨c, more, rfl, hc⟩ := h
  refine ⟨c, more, rfl, ?_⟩
  rcases hc with rfl | rfl
  · decide
  · decide

theorem EndsItem.trimStart_eq (h : EndsItem rest) (hblanks : Blanks blanks) :
    trimStart (blanks ++ rest) = rest := by
  obtain ⟨c, more, rfl, hblank, -⟩ := h.exists_sign
  exact trimStart_blanks hblanks hblank more

/-- No slice goes on behind an item. -/
theorem EndsItem.head?_ne (h : EndsItem rest) (hblanks : Blanks blanks) :
    (trimStart (blanks ++ rest)).head? ≠ some ':' := by
  rw [h.trimStart_eq hblanks]
  obtain ⟨c, more, rfl, -, hcolon⟩ := h.exists_sign
  exact fun heq => hcolon (Option.some.inj heq)

/-- An index begins with a minus sign or a digit. -/
theorem trimStart_index {n : Int} (h : SpelledBound text (some n)) (hrest : EndsItem rest) :
    ∃ sign left, trimStart (text ++ rest) = sign :: left ∧ startsInteger sign = true := by
  obtain ⟨c, more, rfl, hblank, -⟩ := hrest.exists_sign
  obtain ⟨sign, left, hstart, hnone | hsign⟩ := trimStart_bound h hblank more
  · cases hnone.2
  · exact ⟨sign, left, hstart, hsign⟩

theorem mark_cases {mark : Char} (h : isMark mark = true) : mark = '\'' ∨ mark = '"' := by
  rwa [isMark, Bool.or_eq_true, beq_iff_eq, beq_iff_eq] at h

/-- An item as it may be written: a name between quotation marks, a star, an index, or a slice with
its step or without it. -/
inductive Item.Spelled : List Char → Item → Prop where
  | name {before text chars after : List Char} {mark : Char} (hbefore : Blanks before)
      (hmark : isMark mark = true) (h : SpelledName mark text chars) (hafter : Blanks after) :
      Item.Spelled (before ++ mark :: (text ++ mark :: after)) (.name (String.ofList chars))
  | wildcard {before after : List Char} (hbefore : Blanks before) (hafter : Blanks after) :
      Item.Spelled (before ++ '*' :: after) .wildcard
  | index {text : List Char} {n : Int} (h : SpelledBound text (some n)) :
      Item.Spelled text (.index n)
  | slice {first second : List Char} {start stop : Option Int} (hstart : SpelledBound first start)
      (hstop : SpelledBound second stop) :
      Item.Spelled (first ++ ':' :: second) (.slice start stop 1)
  | stepped {first second third : List Char} {start stop step : Option Int}
      (hstart : SpelledBound first start) (hstop : SpelledBound second stop)
      (hstep : SpelledBound third step) (hzero : step.getD 1 ≠ 0) :
      Item.Spelled (first ++ ':' :: (second ++ ':' :: third)) (.slice start stop (step.getD 1))

/-- Where no colon comes behind the stop of a slice, its step is one. -/
theorem readStep_missing (hblanks : Blanks blanks) (hrest : EndsItem rest) :
    Reads (readStep (blanks ++ rest)) 1 rest :=
  reads_readStep_iff.2 (.inr ⟨hrest.head?_ne hblanks, rfl, (hrest.trimStart_eq hblanks).symm⟩)

theorem readStep_colon {step : Option Int} (hblanks : Blanks blanks) (h : SpelledBound text step)
    (hzero : step.getD 1 ≠ 0) (hrest : EndsItem rest) :
    ReadsTo (readStep (blanks ++ ':' :: (text ++ rest))) (step.getD 1) rest := by
  obtain ⟨after, hafter, hread⟩ := readInteger_bound h hrest.ends
  exact ⟨after, hafter, reads_readStep_iff.2 (.inl ⟨_, step,
    trimStart_blanks hblanks (by decide) _, hread, hzero, rfl⟩)⟩

/-- An index is read where no colon makes it the start of a slice. -/
theorem readPositions_index {n : Int} (h : SpelledBound text (some n)) (hrest : EndsItem rest) :
    Reads (readPositions (text ++ rest)) (.index n) rest := by
  obtain ⟨after, hafter, hread⟩ := readInteger_bound h hrest.ends
  exact reads_readPositions_iff.2 ⟨some n, _, hread,
    .inr ⟨hrest.head?_ne hafter, (hrest.trimStart_eq hafter).symm, n, rfl, rfl⟩⟩

/-- A slice is read from its start on, when its step is read behind its stop. -/
theorem readPositions_slice {first second left : List Char} {start stop : Option Int} {step : Int}
    (hstart : SpelledBound first start) (hstop : SpelledBound second stop) (hleft : Ends left)
    (hstep : ∀ blanks, Blanks blanks → ReadsTo (readStep (blanks ++ left)) step rest) :
    ReadsTo (readPositions (first ++ ':' :: (second ++ left))) (.slice start stop step) rest := by
  have hcolon : Ends (':' :: (second ++ left)) := ⟨':', _, rfl, by decide⟩
  obtain ⟨between, hbetween, hstart⟩ := readInteger_bound hstart hcolon
  obtain ⟨behind, hbehind, hstop⟩ := readInteger_bound hstop hleft
  obtain ⟨after, hafter, hstep⟩ := hstep behind hbehind
  exact ⟨after, hafter, reads_readPositions_iff.2 ⟨start, _, hstart, .inl ⟨_, stop, _, step,
    trimStart_blanks hbetween (by decide) _, hstop, hstep, rfl⟩⟩⟩

/-- What begins with a colon, a minus sign or a digit is an index or a slice. -/
theorem readItem_of_readPositions {item : Item} {tail : List Char}
    (htext : trimStart text = c :: tail) (hc : c = ':' ∨ startsInteger c = true)
    (h : Reads (readPositions text) item rest) :
    Reads (readItem text) item rest := by
  refine reads_readItem_iff.2 ⟨c, tail, htext, .inr (.inr ?_)⟩
  rcases hc with rfl | hc
  · exact ⟨by decide, by decide, h⟩
  · exact ⟨not_mark_of_startsInteger hc, ne_of_startsInteger hc (by decide), h⟩

/-- A slice is an item, whatever it starts with. -/
theorem readItem_slice {first : List Char} {start : Option Int} {item : Item}
    (hstart : SpelledBound first start)
    (h : ReadsTo (readPositions (first ++ ':' :: text)) item rest) :
    ReadsTo (readItem (first ++ ':' :: text)) item rest := by
  obtain ⟨sign, left, hsign, hcolon⟩ :=
    trimStart_bound hstart (by decide : isBlank ':' = false) text
  obtain ⟨after, hafter, hread⟩ := h
  exact ⟨after, hafter, readItem_of_readPositions hsign (hcolon.imp_left And.left) hread⟩

/-- An item is read however it is written. -/
theorem readItem_spelled {item : Item} (h : Item.Spelled text item) (hrest : EndsItem rest) :
    ReadsTo (readItem (text ++ rest)) item rest := by
  cases h with
  | @name before chars name after mark hbefore hmark h hafter =>
    have hblank : isBlank mark = false := by
      rcases mark_cases hmark with rfl | rfl
      · decide
      · decide
    have hread : Reads (readQuoted mark (chars ++ mark :: (after ++ rest))) name (after ++ rest) :=
      (reads_readQuoted_iff hmark).2 ⟨chars, h, rfl⟩
    rw [List.append_assoc, List.cons_append, List.append_assoc, List.cons_append]
    exact ⟨after, hafter, reads_readItem_iff.2 ⟨mark, _, trimStart_blanks hbefore hblank _,
      .inl ⟨hmark, name, hread, rfl⟩⟩⟩
  | @wildcard before after hbefore hafter =>
    rw [List.append_assoc, List.cons_append]
    exact ⟨after, hafter, reads_readItem_iff.2 ⟨'*', _, trimStart_blanks hbefore (by decide) _,
      .inr (.inl ⟨rfl, rfl, rfl⟩)⟩⟩
  | @index _ n h =>
    obtain ⟨sign, left, hstart, hsign⟩ := trimStart_index h hrest
    exact (readItem_of_readPositions hstart (.inr hsign) (readPositions_index h hrest)).readsTo
  | @slice first second start stop hstart hstop =>
    rw [List.append_assoc, List.cons_append]
    exact readItem_slice hstart (readPositions_slice hstart hstop hrest.ends fun blanks hblanks =>
      (readStep_missing hblanks hrest).readsTo)
  | @stepped first second third start stop step hstart hstop hstep hzero =>
    have htext : first ++ ':' :: (second ++ ':' :: third) ++ rest =
        first ++ ':' :: (second ++ ':' :: (third ++ rest)) := by simp
    have hcolon : Ends (':' :: (third ++ rest)) := ⟨':', _, rfl, by decide⟩
    rw [htext]
    exact readItem_slice hstart (readPositions_slice hstart hstop hcolon fun blanks hblanks =>
      readStep_colon hblanks hstep hzero hrest)

/-! ### Rows -/

/-- The items of a row behind its first one, each behind a comma, and the closing bracket. -/
def restOfRow (others : List (List Char)) (rest : List Char) : List Char :=
  others.flatMap (',' :: ·) ++ ']' :: rest

/-- A row of items with commas between them is the first one and the others behind commas. -/
theorem intercalate_comma (text : List Char) (others : List (List Char)) (rest : List Char) :
    List.intercalate [','] (text :: others) ++ ']' :: rest = text ++ restOfRow others rest := by
  induction others generalizing text with
  | nil => rw [List.intercalate_singleton]; rfl
  | cons second others ih =>
    rw [List.intercalate_cons_cons, List.append_assoc, List.append_assoc, ih, restOfRow, restOfRow,
      List.flatMap_cons, List.append_assoc]
    rfl

/-- Behind an item of a row stands a comma, or the closing bracket. -/
theorem endsItem_restOfRow (others : List (List Char)) (rest : List Char) :
    EndsItem (restOfRow others rest) := by
  cases others with
  | nil => exact ⟨']', rest, rfl, .inr rfl⟩
  | cons text others => exact ⟨',', _, rfl, .inl rfl⟩

/-- Items behind commas are read one after another, up to the closing bracket. -/
theorem readMoreItems_spelled {others : List (List Char)} {items : List Item}
    (h : List.Forall₂ Item.Spelled others items) (hblanks : Blanks blanks) (rest : List Char) :
    Reads (readMoreItems (blanks ++ restOfRow others rest)) items (']' :: rest) := by
  induction h generalizing blanks with
  | nil =>
    have hstart : trimStart (blanks ++ restOfRow [] rest) = ']' :: rest :=
      trimStart_blanks hblanks (by decide) rest
    refine reads_readMoreItems_iff.2 (.inr ⟨?_, rfl, hstart.symm⟩)
    rw [hstart]
    exact fun heq => absurd (Option.some.inj heq) (by decide)
  | @cons text item others items hitem _ ih =>
    obtain ⟨after, hafter, hread⟩ := readItem_spelled hitem (endsItem_restOfRow others rest)
    have htext : restOfRow (text :: others) rest = ',' :: (text ++ restOfRow others rest) := by
      simp [restOfRow]
    rw [htext]
    exact reads_readMoreItems_iff.2 (.inl ⟨_, item, _, items,
      trimStart_blanks hblanks (by decide) _, hread, ih hafter, rfl⟩)

theorem readItems_spelled {others : List (List Char)} {first : Item} {items : List Item}
    (hfirst : Item.Spelled text first) (h : List.Forall₂ Item.Spelled others items)
    (rest : List Char) :
    Reads (readItems (text ++ restOfRow others rest)) (.ofItems first items) (']' :: rest) := by
  obtain ⟨after, hafter, hread⟩ := readItem_spelled hfirst (endsItem_restOfRow others rest)
  exact reads_readItems_iff.2 ⟨first, _, items, hread, readMoreItems_spelled h hafter rest, rfl⟩

/-- An item but a star begins neither with a star nor with a question mark. -/
theorem trimStart_spelled {item : Item} (h : Item.Spelled text item) (hstar : item ≠ .wildcard)
    (hrest : EndsItem rest) :
    ∃ sign left, trimStart (text ++ rest) = sign :: left ∧ sign ≠ '*' ∧ sign ≠ '?' := by
  have hinteger {sign : Char} (hsign : sign = ':' ∨ startsInteger sign = true) :
      sign ≠ '*' ∧ sign ≠ '?' := by
    rcases hsign with rfl | hsign
    · decide
    · exact ⟨ne_of_startsInteger hsign (by decide), ne_of_startsInteger hsign (by decide)⟩
  have hslice {first : List Char} {start : Option Int} (hstart : SpelledBound first start)
      (second : List Char) :
      ∃ sign left, trimStart (first ++ ':' :: second) = sign :: left ∧ sign ≠ '*' ∧ sign ≠ '?' := by
    obtain ⟨sign, left, hsign, hcolon⟩ :=
      trimStart_bound hstart (by decide : isBlank ':' = false) second
    exact ⟨sign, left, hsign, hinteger (hcolon.imp_left And.left)⟩
  cases h with
  | @name before chars name after mark hbefore hmark h hafter =>
    have hblank : isBlank mark = false ∧ mark ≠ '*' ∧ mark ≠ '?' := by
      rcases mark_cases hmark with rfl | rfl
      · decide
      · decide
    rw [List.append_assoc, List.cons_append]
    exact ⟨mark, _, trimStart_blanks hbefore hblank.1 _, hblank.2⟩
  | wildcard => exact absurd rfl hstar
  | @index _ n h =>
    obtain ⟨sign, left, hstart, hsign⟩ := trimStart_index h hrest
    exact ⟨sign, left, hstart, hinteger (.inr hsign)⟩
  | @slice first second start stop hstart hstop =>
    rw [List.append_assoc, List.cons_append]
    exact hslice hstart _
  | @stepped first second third start stop step hstart hstop hstep hzero =>
    rw [List.append_assoc, List.cons_append]
    exact hslice hstart _

/-- A row of items that does not begin with a star is read up to the closing bracket. -/
theorem readChoice_row {others : List (List Char)} {first : Item} {items : List Item}
    (hstar : first ≠ .wildcard) (hfirst : Item.Spelled text first)
    (h : List.Forall₂ Item.Spelled others items) (rest : List Char) :
    Reads (readChoice (text ++ restOfRow others rest)) (.ofItems first items) (']' :: rest) := by
  obtain ⟨sign, left, hstart, hsign, hquestion⟩ :=
    trimStart_spelled hfirst hstar (endsItem_restOfRow others rest)
  refine reads_readChoice_iff.2 (.inr (.inr ⟨?_, ?_, readItems_spelled hfirst h rest⟩))
  · rw [hstart]
    exact fun heq => hsign (Option.some.inj heq)
  · rw [hstart]
    exact fun heq => hquestion (Option.some.inj heq)

/-- A star that comes first is taken for all that stands between the brackets. -/
theorem readChoice_wildcard (h : Item.Spelled text .wildcard) (rest : List Char) :
    ReadsTo (readChoice (text ++ rest)) (.item .wildcard) rest := by
  cases h with
  | @wildcard before after hbefore hafter =>
    rw [List.append_assoc, List.cons_append]
    exact ⟨after, hafter,
      reads_readChoice_iff.2 (.inl ⟨trimStart_blanks hbefore (by decide) _, rfl⟩)⟩

/-! ### Items as they are written -/

theorem spelledBound_writtenInteger {n : Int} (h : IsInt64 n) :
    SpelledBound (writtenInteger n) (some n) := by
  have hspelled := SpelledBound.given .nil (spelledInteger_toString h) .nil
  rwa [List.nil_append, List.append_nil] at hspelled

theorem spelledBound_written {bound : Option Int} (h : ∀ n ∈ bound, IsInt64 n) :
    SpelledBound (writtenBound bound) bound := by
  cases bound with
  | none => exact .missing .nil
  | some n => exact spelledBound_writtenInteger (h n rfl)

/-- An item may be written in the one way in which paths are put down. -/
theorem Item.spelled_written (brief : Bool) {item : Item} (h : item.Legible) :
    Item.Spelled (item.written brief) item := by
  cases item with
  | name text =>
    have hspelled := Item.Spelled.name .nil (by decide : isMark '\'' = true)
      (spelledName_escaped text.toList) .nil
    rwa [List.nil_append, String.ofList_toList] at hspelled
  | wildcard => exact .wildcard .nil .nil
  | index n => exact .index (spelledBound_writtenInteger h)
  | slice start stop step =>
    obtain ⟨hstart, hstop, hstep, hzero⟩ := h
    have hstart := spelledBound_written hstart
    have hstop := spelledBound_written hstop
    rw [Item.written, writtenStep]
    split
    · next hbrief =>
      obtain rfl : step = 1 := by
        rw [Bool.and_eq_true, beq_iff_eq] at hbrief
        exact hbrief.2
      rw [List.append_nil]
      exact .slice hstart hstop
    · exact .stepped hstart hstop (spelledBound_writtenInteger hstep) hzero

end Gleaner.JsonPath
