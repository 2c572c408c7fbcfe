/-
# JSON text is read back

What is written of a text, of a number without a sign and of an object is taken apart again, whatever
closes it: a character that is escaped gives a piece that has the character as its text, so the text
of the pieces is the text that was written.

Key definitions: `Json.pieceOf`, `Json.piecesOf`, `Json.numeralOf`, `Json.Closes`, `Json.Spells`,
`Json.Fields`.
Key theorems: `Json.textOf?_piecesOf`, `Json.spells_string`, `Json.spells_natural`,
`Json.spells_object`, `Json.writtenOf?_write`.
-/
import Gleaner.Proofs.Json.Control

namespace Gleaner.Json

open Gleaner.Number Gleaner.Text

variable {c : Char} {text rest : List Char} {pieces : List Piece} {json : Json} {written : Written}

/-! ### Strings -/

/-- The piece that is read where a character is written inside a string: the unit of a control
character without a short escape, and else the character. -/
def pieceOf (c : Char) : Piece :=
  if c.toNat < 32 ∧ c ∉ ['\n', '\r', '\t', '\x08', '\x0c'] then .unit c.toNat else .char c

/-- The pieces that are read where a text is written as a string. -/
def piecesOf (text : String) : List Piece :=
  text.toList.map pieceOf

theorem readPieces?_char (hquote : c ≠ '"') (hslash : c ≠ '\\') (hcontrol : ¬c.toNat < 32)
    (h : Leaves readPieces? text pieces rest) :
    Leaves readPieces? (c :: text) (.char c :: pieces) rest := by
  obtain ⟨hlt, h⟩ := h
  refine ⟨Nat.lt_succ_of_lt hlt, ?_⟩
  rw [readPieces?.eq_def]
  dsimp only
  rw [if_neg hquote, if_neg hslash, if_neg hcontrol, h]
  rfl

/-- A short escape is a character. -/
theorem readPieces?_short {e : Char} (he : e ≠ 'u') (hshort : shortEscape? e = some c)
    (h : Leaves readPieces? text pieces rest) :
    Leaves readPieces? ('\\' :: e :: text) (.char c :: pieces) rest := by
  obtain ⟨hlt, h⟩ := h
  refine ⟨Nat.lt_succ_of_lt (Nat.lt_succ_of_lt hlt), ?_⟩
  rw [readPieces?.eq_def]
  simp [he, hshort, h]

/-- A long escape is a unit. -/
theorem readPieces?_unit {a b c d : Char} {unit : Nat} (hunit : unitOf? a b c d = some unit)
    (h : Leaves readPieces? text pieces rest) :
    Leaves readPieces? ('\\' :: 'u' :: a :: b :: c :: d :: text) (.unit unit :: pieces) rest := by
  obtain ⟨hlt, h⟩ := h
  refine ⟨by simp only [List.length_cons]; omega, ?_⟩
  rw [readPieces?.eq_def]
  simp [hunit, h]

/-- The four digits of a long escape write the control character that is escaped. -/
theorem unitOf?_digitChar (h : c.toNat < 32) :
    unitOf? '0' '0' (Nat.digitChar (c.toNat / 16)) (Nat.digitChar (c.toNat % 16)) =
      some c.toNat := by
  have hall : ∀ n < 32, unitOf? '0' '0' (Nat.digitChar (n / 16)) (Nat.digitChar (n % 16)) =
      some n := by decide
  exact hall c.toNat h

/-- A character is read back from its form inside a string. -/
theorem readPieces?_escapeChar (c : Char) (h : Leaves readPieces? text pieces rest) :
    Leaves readPieces? (escapeChar c ++ text) (pieceOf c :: pieces) rest := by
  unfold escapeChar
  split
  · next hmark =>
    have hpiece : pieceOf c = .char c := by rcases hmark with rfl | rfl <;> rfl
    rw [hpiece]
    exact readPieces?_short (by rcases hmark with rfl | rfl <;> decide)
      (if_pos (hmark.imp_right .inl)) h
  iterate 5
    split
    · next heq =>
      subst heq
      exact readPieces?_short (by decide) rfl h
  next hmark hn hr ht hb hf =>
  split
  · next hcontrol =>
    have hpiece : pieceOf c = .unit c.toNat := if_pos ⟨hcontrol, by simp [hn, hr, ht, hb, hf]⟩
    rw [hpiece]
    exact readPieces?_unit (unitOf?_digitChar hcontrol) h
  · next hlarge =>
    have hpiece : pieceOf c = .char c := if_neg fun hcontrol => hlarge hcontrol.1
    obtain ⟨hquote, hslash⟩ := not_or.1 hmark
    rw [hpiece]
    exact readPieces?_char hquote hslash hlarge h

theorem readPieces?_written (text rest : List Char) :
    Leaves readPieces? (text.flatMap escapeChar ++ '"' :: rest) (text.map pieceOf) rest := by
  induction text with
  | nil =>
    refine ⟨Nat.lt_succ_self _, ?_⟩
    show readPieces? ('"' :: rest) = _
    rw [readPieces?.eq_def]
    rfl
  | cons c text ih =>
    rw [List.flatMap_cons, List.append_assoc, List.map_cons]
    exact readPieces?_escapeChar c ih

/-- A unit that is no half of a pair is a character, whatever follows it. -/
theorem joinPieces?_unit {unit : Nat} (hhigh : isHighHalf unit = false)
    (hlow : isLowHalf unit = false) (pieces : List Piece) :
    joinPieces? (.unit unit :: pieces) = (joinPieces? pieces).map (Char.ofNat unit :: ·) := by
  cases pieces with
  | nil => simp [joinPieces?, hhigh, hlow]
  | cons piece rest => cases piece <;> simp [joinPieces?, hhigh, hlow]

theorem joinPieces?_pieceOf (c : Char) (pieces : List Piece) :
    joinPieces? (pieceOf c :: pieces) = (joinPieces? pieces).map (c :: ·) := by
  unfold pieceOf
  split
  · next hcontrol =>
    have hhigh : isHighHalf c.toNat = false := by
      simp only [isHighHalf, Bool.and_eq_false_iff, decide_eq_false_iff_not]
      omega
    have hlow : isLowHalf c.toNat = false := by
      simp only [isLowHalf, Bool.and_eq_false_iff, decide_eq_false_iff_not]
      omega
    rw [joinPieces?_unit hhigh hlow, Char.ofNat_toNat]
  · rw [joinPieces?]

/-- **The text of the pieces of a written string is the text that was written.** -/
@[simp] theorem textOf?_piecesOf (text : String) : textOf? (piecesOf text) = some text := by
  have hjoin : ∀ chars : List Char, joinPieces? (chars.map pieceOf) = some chars := by
    intro chars
    induction chars with
    | nil => rw [List.map_nil, joinPieces?]
    | cons c chars ih => rw [List.map_cons, joinPieces?_pieceOf, ih, Option.map_some]
  rw [textOf?, piecesOf, hjoin, Option.map_some, String.ofList_toList]

/-! ### Values -/

/-- The parts of the numeral of a number without a sign. -/
def numeralOf (n : Nat) : Numeral :=
  ⟨false, (toString n).toList, [], none⟩

/-- What may stand behind a value: a comma, or the sign that closes an array or object, or
nothing. -/
def Closes (rest : List Char) : Prop :=
  ∀ c ∈ rest.head?, c = ',' ∨ c = ']' ∨ c = '\x7d'

/-- A text writes a value: it is taken apart as that, whatever closes it. -/
def Spells (text : List Char) (written : Written) : Prop :=
  ∀ rest, Closes rest → Leaves readWritten? (text ++ rest) written rest

theorem closes_nil : Closes [] :=
  nofun

theorem closes_comma (rest : List Char) : Closes (',' :: rest) := by
  rintro c ⟨⟩
  exact .inl rfl

theorem closes_brace (rest : List Char) : Closes ('\x7d' :: rest) := by
  rintro c ⟨⟩
  exact .inr (.inr rfl)

/-- What closes a value is no part of a numeral. -/
theorem Closes.not_numeral (h : Closes rest) :
    ∀ c ∈ rest.head?, isDigit c = false ∧ c ≠ '.' ∧ c ≠ 'e' ∧ c ≠ 'E' := by
  intro c hc
  rcases h c hc with rfl | rfl | rfl <;> decide

/-- A word or a numeral is taken by its first sign. -/
theorem readWritten?_atom {tail : List Char} (hspace : isSpace c = false) (hquote : c ≠ '"')
    (hbracket : c ≠ '[') (hbrace : c ≠ '\x7b')
    (h : readAtom? (c :: tail) = some (written, rest)) (hlt : rest.length < (c :: tail).length) :
    Leaves readWritten? (c :: tail) written rest := by
  refine ⟨hlt, ?_⟩
  rw [readWritten?]
  simp [next?_of_not hspace, hquote, hbracket, hbrace, h, Nat.lt_add_one_iff, Nat.lt_succ_iff.1 hlt]

theorem spells_null : Spells "null".toList .null := by
  intro rest _
  refine readWritten?_atom (by decide) (by decide) (by decide) (by decide) rfl ?_
  show rest.length < rest.length + 4
  omega

theorem spells_string (text : String) : Spells (writeString text) (.string (piecesOf text)) := by
  intro rest _
  obtain ⟨hlt, h⟩ := readPieces?_written text.toList rest
  have hmark : isSpace '"' = false := by decide
  have htext : writeString text ++ rest = '"' :: (text.toList.flatMap escapeChar ++ '"' :: rest) := by
    simp [writeString]
  rw [htext]
  refine ⟨Nat.lt_succ_of_lt hlt, ?_⟩
  rw [readWritten?]
  simp [next?_of_not hmark, h, piecesOf]

/-- The digits of a number are taken as a numeral up to what closes it. -/
theorem readNumeral?_natural (n : Nat) (hrest : Closes rest) :
    readNumeral? ((toString n).toList ++ rest) = some (numeralOf n, rest) := by
  have hwhole := wholeDigits?_toString n fun c hc => (hrest.not_numeral c hc).1
  have hfraction : fraction? rest = some ([], rest) := by
    cases rest with
    | nil => rfl
    | cons c tail =>
      rw [fraction?]
      intro left heq
      exact (hrest.not_numeral c rfl).2.1 (List.cons.inj heq).1
  have hexponent : exponent? rest = some (none, rest) := by
    cases rest with
    | nil => rfl
    | cons c tail =>
      obtain ⟨-, -, hsmall, hlarge⟩ := hrest.not_numeral c rfl
      exact if_neg (not_or.2 ⟨hsmall, hlarge⟩)
  obtain ⟨c, tail, hcons⟩ := List.exists_cons_of_ne_nil (digits_toString n).1
  have hc : isDigit c = true := (digits_toString n).2 c (by rw [hcons]; exact .head _)
  rw [hcons] at hwhole
  rw [numeralOf, hcons]
  rw [List.cons_append, readNumeral?]
  · rw [← List.cons_append, hwhole]
    simp only [Option.bind_eq_bind, Option.bind_some, hfraction, hexponent]
    rfl
  · intro cs heq
    exact ne_of_isDigit hc (by decide) (List.cons.inj heq).1

theorem spells_natural (n : Nat) : Spells (toString n).toList (.numeral (numeralOf n)) := by
  intro rest hrest
  obtain ⟨c, tail, hcons⟩ := List.exists_cons_of_ne_nil (digits_toString n).1
  have hc : isDigit c = true := (digits_toString n).2 c (by rw [hcons]; exact .head _)
  have hne {d : Char} (hd : isDigit d = false) : c ≠ d := ne_of_isDigit hc hd
  have hread := readNumeral?_natural n hrest
  rw [hcons, List.cons_append] at hread ⊢
  refine readWritten?_atom ?_ (hne (by decide)) (hne (by decide)) (hne (by decide)) ?_ ?_
  · simp [isSpace, hne (by decide : isDigit ' ' = false), hne (by decide : isDigit '\n' = false),
      hne (by decide : isDigit '\t' = false), hne (by decide : isDigit '\r' = false)]
  · have hword {w : Char} {word : List Char} (hw : isDigit w = false) :
        stripStart? (w :: word) (c :: (tail ++ rest)) = none :=
      if_neg (hne hw).symm
    have hnull : stripStart? "null".toList (c :: (tail ++ rest)) = none := hword (by decide)
    have htrue : stripStart? "true".toList (c :: (tail ++ rest)) = none := hword (by decide)
    have hfalse : stripStart? "false".toList (c :: (tail ++ rest)) = none := hword (by decide)
    rw [readAtom?, hnull, htrue, hfalse]
    exact congrArg (Option.map _) hread
  · simp only [List.length_cons, List.length_append]
    omega

/-! ### Objects -/

/-- A field in front of more text: its key between quotation marks, a colon and its value. -/
theorem writeField_append (key : String) (more : List Char) :
    writeString key ++ ':' :: text ++ more =
      '"' :: (key.toList.flatMap escapeChar ++ '"' :: ':' :: (text ++ more)) := by
  simp [writeString]

/-- The last field of an object, with the closing brace. -/
theorem readFields?_last {key : String} (hvalue : Spells text written) :
    Leaves readFields? (writeString key ++ ':' :: text ++ '\x7d' :: rest)
      [(piecesOf key, written)] rest := by
  obtain ⟨hkey, hreadKey⟩ := readPieces?_written key.toList (':' :: (text ++ '\x7d' :: rest))
  obtain ⟨htext, hreadText⟩ := hvalue _ (closes_brace rest)
  have hquote : isSpace '"' = false := by decide
  have hcolon : isSpace ':' = false := by decide
  have hbrace : isSpace '\x7d' = false := by decide
  rw [writeField_append]
  have hlength : rest.length < (text ++ '\x7d' :: rest).length :=
    Nat.lt_trans (Nat.lt_succ_self _) htext
  refine ⟨Nat.lt_succ_of_lt (Nat.lt_trans hlength (Nat.lt_of_succ_lt hkey)), ?_⟩
  rw [readFields?]
  simp only [next?_of_not hquote, hreadKey, next?_of_not hcolon, hreadText, next?_of_not hbrace,
    Option.bind_eq_bind, Option.bind_some, if_true]
  rfl

/-- A field of an object, with the comma behind it and the fields that follow. -/
theorem readFields?_more {key : String} {more : List Char} {fields : List (List Piece × Written)}
    (hvalue : Spells text written) (hmore : Leaves readFields? more fields rest) :
    Leaves readFields? (writeString key ++ ':' :: text ++ ',' :: more)
      ((piecesOf key, written) :: fields) rest := by
  obtain ⟨hkey, hreadKey⟩ := readPieces?_written key.toList (':' :: (text ++ ',' :: more))
  obtain ⟨htext, hreadText⟩ := hvalue _ (closes_comma more)
  obtain ⟨hlt, hreadMore⟩ := hmore
  have hquote : isSpace '"' = false := by decide
  have hcolon : isSpace ':' = false := by decide
  have hcomma : isSpace ',' = false := by decide
  rw [writeField_append]
  have hlength : rest.length < (text ++ ',' :: more).length :=
    Nat.lt_trans (Nat.lt_succ_of_lt hlt) htext
  refine ⟨Nat.lt_succ_of_lt (Nat.lt_trans hlength (Nat.lt_of_succ_lt hkey)), ?_⟩
  rw [readFields?]
  simp only [next?_of_not hquote, hreadKey, next?_of_not hcolon, hreadText, next?_of_not hcomma,
    hreadMore, Option.bind_eq_bind, Option.bind_some, if_true]
  rfl

/-- The fields of an object with their values and what these are taken apart as. -/
abbrev Fields : Type :=
  List (String × Json × Written)

/-- The text of the fields, with commas between them. -/
def Fields.writeChars (fields : Fields) : List Char :=
  joinWritten (writeFields (fields.map fun f => (f.1, f.2.1)))

/-- What the fields are taken apart as. -/
def Fields.parts (fields : Fields) : List (List Piece × Written) :=
  fields.map fun f => (piecesOf f.1, f.2.2)

/-- The fields of an object, with the closing brace. -/
theorem readFields?_written :
    ∀ (field : String × Json × Written) (fields : Fields),
      (∀ f ∈ field :: fields, Spells f.2.1.writeChars f.2.2) →
      Leaves readFields? (Fields.writeChars (field :: fields) ++ '\x7d' :: rest)
        (Fields.parts (field :: fields)) rest
  | field, [], h => by
    rw [Fields.writeChars, writeFields_eq_map, joinWritten, List.map_singleton, List.map_singleton,
      List.intercalate_singleton]
    exact readFields?_last (h field List.mem_cons_self)
  | field, next :: others, h => by
    obtain ⟨hfield, hothers⟩ := List.forall_mem_cons.1 h
    have hmore := readFields?_written next others hothers
    have htext : Fields.writeChars (field :: next :: others) =
        writeString field.1 ++ ':' :: field.2.1.writeChars ++
          ',' :: Fields.writeChars (next :: others) := by
      simp [Fields.writeChars, writeFields, joinWritten, List.intercalate_cons_cons]
    rw [htext, List.append_assoc, List.cons_append]
    exact readFields?_more hfield hmore

/-- **An object is read back field by field**, if the values of its fields are read back. -/
theorem spells_object (fields : Fields) (h : ∀ f ∈ fields, Spells f.2.1.writeChars f.2.2) :
    Spells (object (fields.map fun f => (f.1, f.2.1))).writeChars (.object fields.parts) := by
  intro rest _
  have hopen : isSpace '\x7b' = false := by decide
  have hclose : isSpace '\x7d' = false := by decide
  have hquote : isSpace '"' = false := by decide
  have htext : (object (fields.map fun f => (f.1, f.2.1))).writeChars ++ rest =
      '\x7b' :: (fields.writeChars ++ '\x7d' :: rest) := by
    rw [writeChars, List.cons_append, List.cons_append, List.append_assoc, List.singleton_append]
    rfl
  rw [htext]
  cases fields with
  | nil =>
    show Leaves readWritten? ('\x7b' :: '\x7d' :: rest) (.object []) rest
    refine ⟨by simp only [List.length_cons]; omega, ?_⟩
    rw [readWritten?]
    simp [next?_of_not hopen, next?_of_not hclose]
  | cons field others =>
    have hread : Leaves readFields? (Fields.writeChars (field :: others) ++ '\x7d' :: rest)
        (Fields.parts (field :: others)) rest := readFields?_written field others h
    have hfront : ∃ tail, Fields.writeChars (field :: others) ++ '\x7d' :: rest = '"' :: tail := by
      cases others <;> exact ⟨_, rfl⟩
    obtain ⟨tail, hfront⟩ := hfront
    rw [hfront] at hread ⊢
    obtain ⟨hlt, hread⟩ := hread
    refine ⟨Nat.lt_succ_of_lt hlt, ?_⟩
    rw [readWritten?]
    simp [next?_of_not hopen, next?_of_not hquote, hread]

/-- What is written of a value is taken apart again. -/
theorem writtenOf?_write (h : Spells json.writeChars written) :
    writtenOf? json.write = some written := by
  have htext : json.write.toList = json.writeChars := String.toList_ofList
  have hread := h [] closes_nil
  rw [List.append_nil, ← htext] at hread
  obtain ⟨hlt, hread⟩ := hread
  rw [writtenOf?, hread]
  rfl

end Gleaner.Json
