/-
# The parts of a reading

For each reader of a JSON path it is said once what it has taken when it gives something: the sign
that it looked at, the parts that other readers gave it, and what these left. Whatever is put
together in this way is also read. Here this is said of names, strings and integers, and of the
items between brackets.

Key definitions: `Reads`, `SpelledName`.
Key theorems: `reads_bind_iff`, `expect_eq_ok_iff`, `reads_readName_iff`, `reads_readQuoted_iff`,
`reads_readInteger_iff`, `reads_readItem_iff`, `reads_readMoreItems_iff`.
-/
import Gleaner.JsonPath.Grammar
import Gleaner.Proofs.JsonPath.Written
import Gleaner.Proofs.Success
import Gleaner.Proofs.Text.Trimming

namespace Gleaner.JsonPath

open Gleaner.Text Gleaner.Number

/-- A reading gives a value and leaves the rest. -/
def Reads {α : Type} {P : List Char → Prop}
    (reading : Except Stop (α × { rest : List Char // P rest })) (a : α) (rest : List Char) :
    Prop :=
  ∃ h : P rest, reading = .ok (a, ⟨rest, h⟩)

variable {c sign : Char} {text rest blanks : List Char}

/-! ### Readings one after another -/

section

variable {α β γ : Type} {A B : List Char → Prop} {a b : α}

/-- What a reading leaves is as short as it says. -/
theorem Reads.left {reading : Except Stop (α × { rest : List Char // A rest })}
    (h : Reads reading a rest) : A rest :=
  h.elim fun hrest _ => hrest

theorem reads_ok_iff {left : { rest : List Char // A rest }} :
    Reads (.ok (a, left)) b rest ↔ b = a ∧ rest = left.val := by
  constructor
  · rintro ⟨_, ⟨⟩⟩
    exact ⟨rfl, rfl⟩
  · rintro ⟨rfl, rfl⟩
    exact ⟨left.property, rfl⟩

theorem not_reads_stopAt {reason : Reason} :
    ¬Reads (stopAt text reason : Except Stop (α × { rest : List Char // A rest })) a rest := by
  rintro ⟨_, ⟨⟩⟩

theorem reads_bind_iff {first : Except Stop γ}
    {next : γ → Except Stop (α × { rest : List Char // A rest })} :
    Reads (first >>= next) a rest ↔ ∃ found, first = .ok found ∧ Reads (next found) a rest := by
  constructor
  · rintro ⟨hrest, h⟩
    obtain ⟨found, hfound, h⟩ := bind_eq_ok_iff.1 h
    exact ⟨found, hfound, hrest, h⟩
  · rintro ⟨found, hfound, hrest, h⟩
    exact ⟨hrest, bind_eq_ok_iff.2 ⟨found, hfound, h⟩⟩

theorem reads_map_iff {first : Except Stop γ} {f : γ → α × { rest : List Char // A rest }} :
    Reads (first.map f) a rest ↔ ∃ found, first = .ok found ∧ (f found).1 = a ∧
      (f found).2.val = rest := by
  constructor
  · rintro ⟨hrest, h⟩
    obtain ⟨found, hfound, h⟩ := map_eq_ok_iff.1 h
    exact ⟨found, hfound, congrArg Prod.fst h, congrArg (fun pair => pair.2.val) h⟩
  · rintro ⟨found, hfound, rfl, rfl⟩
    exact ⟨(f found).2.property, map_eq_ok_iff.2 ⟨found, hfound, rfl⟩⟩

end

/-! ### Signs -/

/-- What stands behind blanks comes first, if it is none. -/
theorem trimStart_blanks (hblanks : Blanks blanks) (h : isBlank c = false) (rest : List Char) :
    trimStart (blanks ++ c :: rest) = c :: rest :=
  (trimStart_append hblanks _).trans (trimStart_cons h rest)

theorem length_lt_of_trimStart (h : trimStart text = c :: rest) : rest.length < text.length := by
  have hle := length_dropWhile_le isBlank text
  rw [← trimStart, h] at hle
  exact hle

theorem length_trimStart_le (text : List Char) : (trimStart text).length ≤ text.length :=
  length_dropWhile_le isBlank text

theorem nextSign?_of_trimStart (h : trimStart text = c :: rest) :
    nextSign? text = some (c, ⟨rest, length_lt_of_trimStart h⟩) :=
  next?_eq_some_iff.2 h

theorem trimStart_of_nextSign? {left : Remainder text} (h : nextSign? text = some (c, left)) :
    trimStart text = c :: left.val :=
  next?_eq_some_iff.1 h

theorem nextSign?_of_blanks (h : trimStart text = []) : nextSign? text = none :=
  next?_eq_none_iff.2 (List.dropWhile_eq_nil_iff.1 h)

/-- There is a next sign, or there are blanks at most. -/
theorem nextSign?_cases (text : List Char) :
    (∃ c rest, trimStart text = c :: rest) ∨ trimStart text = [] := by
  cases h : trimStart text with
  | nil => exact .inr rfl
  | cons c rest => exact .inl ⟨c, rest, rfl⟩

/-- No character begins a text that is none behind it. -/
theorem head?_ne_of_forall (h : ∀ tail, text = c :: tail → False) : text.head? ≠ some c := by
  intro hhead
  obtain ⟨tail, htext⟩ := List.head?_eq_some_iff.1 hhead
  exact h tail htext

/-- Another sign comes next than one that is not found next. -/
theorem head?_trimStart_ne (h : ∀ left, nextSign? text = some (sign, left) → False) :
    (trimStart text).head? ≠ some sign :=
  head?_ne_of_forall fun _ htext => h _ (nextSign?_of_trimStart htext)

theorem expect_eq_ok_iff {left : Remainder text} :
    expect sign text = .ok left ↔ trimStart text = sign :: left.val := by
  rcases nextSign?_cases text with ⟨c, tail, h⟩ | h
  · rw [expect, nextSign?_of_trimStart h, h, List.cons.injEq]
    dsimp only
    by_cases hc : c = sign
    · rw [if_pos hc, Except.ok.injEq, Subtype.ext_iff]
      exact (and_iff_right hc).symm
    · rw [if_neg hc]
      exact iff_of_false (fun h => by cases h) fun h => hc h.1
  · rw [expect, nextSign?_of_blanks h, h]
    exact iff_of_false (fun h => by cases h) (List.cons_ne_nil _ _).symm

/-- A sign that is taken from behind blanks. -/
theorem expect_of_trimStart (h : trimStart text = sign :: rest) :
    expect sign text = .ok ⟨rest, length_lt_of_trimStart h⟩ :=
  expect_eq_ok_iff.2 h

theorem expect_self (h : isBlank c = false) (rest : List Char) :
    expect c (c :: rest) = .ok ⟨rest, Nat.lt_succ_self _⟩ :=
  expect_of_trimStart (trimStart_cons h rest)

theorem expect_of_ne (h : trimStart text = c :: rest) (hne : c ≠ sign) :
    expect sign text = stopAt (c :: rest) (.expected sign) := by
  have hskip : (skipBlanks text).val = c :: rest := h
  rw [expect, nextSign?_of_trimStart h]
  dsimp only
  rw [if_neg hne, hskip]

/-! ### Names, strings and integers -/

/-- Behind the characters with a property comes none with it. -/
theorem forall_head?_dropWhile (p : Char → Bool) (text : List Char) :
    ∀ c ∈ (text.dropWhile p).head?, p c = false := by
  intro c hc
  have hhead := List.head?_dropWhile_not p text
  rwa [Option.mem_def.1 hc] at hhead

/-- A name is taken up to the first character that belongs to none. -/
theorem reads_readName_iff {name : String} :
    Reads (readName text) name rest ↔
      ∃ front, front ≠ [] ∧ (∀ c ∈ front, isMemberChar c = true) ∧
        (∀ c ∈ rest.head?, isMemberChar c = false) ∧ text = front ++ rest ∧
          name = String.ofList front := by
  constructor
  · intro h
    rw [readName.eq_def] at h
    split at h
    · exact (not_reads_stopAt h).elim
    · next c tail =>
      split at h
      · next hc =>
        obtain ⟨rfl, rfl⟩ := reads_ok_iff.1 h
        refine ⟨c :: tail.takeWhile isMemberChar, List.cons_ne_nil _ _, ?_, ?_, ?_, rfl⟩
        · exact List.forall_mem_cons.2 ⟨hc, fun d hd => List.all_eq_true.1 List.all_takeWhile d hd⟩
        · exact forall_head?_dropWhile isMemberChar tail
        · exact congrArg (c :: ·) List.takeWhile_append_dropWhile.symm
      · exact (not_reads_stopAt h).elim
  · rintro ⟨front, hne, hfront, hrest, rfl, rfl⟩
    obtain ⟨c, tail, rfl⟩ := List.exists_cons_of_ne_nil hne
    obtain ⟨hc, htail⟩ := List.forall_mem_cons.1 hfront
    obtain ⟨htake, hdrop⟩ := span_append htail hrest
    rw [List.cons_append, readName, if_pos hc]
    exact reads_ok_iff.2 ⟨by rw [htake], hdrop.symm⟩

section

variable {mark : Char} {chars : List Char}

theorem readQuoted_mark (h : mark ≠ '\\') (rest : List Char) :
    Reads (readQuoted mark (mark :: rest)) [] rest := by
  rw [readQuoted.eq_def]
  dsimp only
  rw [if_neg h, if_pos rfl]
  exact reads_ok_iff.2 ⟨rfl, rfl⟩

theorem readQuoted_backslash (h : Reads (readQuoted mark text) chars rest) :
    Reads (readQuoted mark ('\\' :: c :: text)) (c :: chars) rest := by
  obtain ⟨hlt, h⟩ := h
  rw [readQuoted, if_pos rfl]
  exact reads_bind_iff.2 ⟨_, h, reads_ok_iff.2 ⟨rfl, rfl⟩⟩

theorem readQuoted_cons (hbackslash : c ≠ '\\') (hmark : c ≠ mark)
    (h : Reads (readQuoted mark text) chars rest) :
    Reads (readQuoted mark (c :: text)) (c :: chars) rest := by
  obtain ⟨hlt, h⟩ := h
  rw [readQuoted.eq_def]
  dsimp only
  rw [if_neg hbackslash, if_neg hmark]
  exact reads_bind_iff.2 ⟨_, h, reads_ok_iff.2 ⟨rfl, rfl⟩⟩

end

/-- The characters of a string as they may be written between quotation marks: each as it is or
behind a backslash, which a quotation mark of the kind and a backslash need. -/
inductive SpelledName (mark : Char) : List Char → List Char → Prop where
  | nil : SpelledName mark [] []
  | plain {c : Char} {text chars : List Char} (hbackslash : c ≠ '\\') (hmark : c ≠ mark)
      (h : SpelledName mark text chars) : SpelledName mark (c :: text) (c :: chars)
  | behind {c : Char} {text chars : List Char} (h : SpelledName mark text chars) :
      SpelledName mark ('\\' :: c :: text) (c :: chars)

/-- A string is read up to its closing quotation mark, however it is written. -/
theorem readQuoted_spelled {mark : Char} {chars : List Char} (hmark : mark ≠ '\\')
    (h : SpelledName mark text chars) (rest : List Char) :
    Reads (readQuoted mark (text ++ mark :: rest)) chars rest := by
  induction h with
  | nil => exact readQuoted_mark hmark rest
  | plain hbackslash hne _ ih => exact readQuoted_cons hbackslash hne ih
  | behind _ ih => exact readQuoted_backslash ih

/-- What is taken for a string is its characters, and the closing quotation mark. -/
theorem exists_spelled_of_readQuoted {mark : Char} (text : List Char) {chars rest : List Char}
    (h : Reads (readQuoted mark text) chars rest) :
    ∃ body, SpelledName mark body chars ∧ text = body ++ mark :: rest := by
  rw [readQuoted.eq_def] at h
  split at h
  · exact (not_reads_stopAt h).elim
  · next c tail =>
    split at h
    · next hbackslash =>
      subst hbackslash
      split at h
      · exact (not_reads_stopAt h).elim
      · next escaped more =>
        obtain ⟨⟨others, left⟩, hothers, h⟩ := reads_bind_iff.1 h
        obtain ⟨rfl, rfl⟩ := reads_ok_iff.1 h
        obtain ⟨body, hbody, htext⟩ := exists_spelled_of_readQuoted more ⟨left.property, hothers⟩
        exact ⟨'\\' :: escaped :: body, .behind hbody, congrArg ('\\' :: escaped :: ·) htext⟩
    · next hbackslash =>
      split at h
      · next hmark =>
        obtain ⟨rfl, rfl⟩ := reads_ok_iff.1 h
        exact ⟨[], .nil, congrArg (· :: _) hmark⟩
      · next hmark =>
        obtain ⟨⟨others, left⟩, hothers, h⟩ := reads_bind_iff.1 h
        obtain ⟨rfl, rfl⟩ := reads_ok_iff.1 h
        obtain ⟨body, hbody, htext⟩ := exists_spelled_of_readQuoted tail ⟨left.property, hothers⟩
        exact ⟨c :: body, .plain hbackslash hmark hbody, congrArg (c :: ·) htext⟩
termination_by text.length
decreasing_by all_goals grind

/-- A string is taken up to its closing quotation mark. -/
theorem reads_readQuoted_iff {mark : Char} (hmark : isMark mark = true) {chars : List Char} :
    Reads (readQuoted mark text) chars rest ↔
      ∃ body, SpelledName mark body chars ∧ text = body ++ mark :: rest := by
  refine ⟨exists_spelled_of_readQuoted text, ?_⟩
  rintro ⟨body, hbody, rfl⟩
  refine readQuoted_spelled ?_ hbody rest
  rintro rfl
  cases hmark

theorem reads_readInteger_iff {found? : Option Int} :
    Reads (readInteger text) found? rest ↔
      rest = (splitInteger (trimStart text)).2.val ∧
        (((splitInteger (trimStart text)).1 = [] ∧ found? = none) ∨
          ((splitInteger (trimStart text)).1 ≠ [] ∧
            ∃ n, readInt64 (String.ofList (splitInteger (trimStart text)).1) = .ok n ∧
              found? = some n)) := by
  have hstart : trimStart text = (skipBlanks text).val := rfl
  rw [readInteger, hstart]
  generalize splitInteger (skipBlanks text).val = parts
  obtain ⟨chars, left⟩ := parts
  dsimp only
  constructor
  · intro h
    split at h
    · next hempty =>
      obtain ⟨rfl, rfl⟩ := reads_ok_iff.1 h
      exact ⟨rfl, .inl ⟨List.isEmpty_iff.1 hempty, rfl⟩⟩
    · next hne =>
      split at h
      · next n hn =>
        obtain ⟨rfl, rfl⟩ := reads_ok_iff.1 h
        exact ⟨rfl, .inr ⟨mt List.isEmpty_iff.2 hne, n, hn, rfl⟩⟩
      · exact (not_reads_stopAt h).elim
  · rintro ⟨rfl, ⟨rfl, rfl⟩ | ⟨hne, n, hn, rfl⟩⟩
    · exact reads_ok_iff.2 ⟨rfl, rfl⟩
    · rw [if_neg (mt List.isEmpty_iff.1 hne), hn]
      exact reads_ok_iff.2 ⟨rfl, rfl⟩

/-! ### Items -/

theorem reads_readStep_iff {step : Int} :
    Reads (readStep text) step rest ↔
      (∃ tail step?, trimStart text = ':' :: tail ∧ Reads (readInteger tail) step? rest ∧
        step?.getD 1 ≠ 0 ∧ step = step?.getD 1) ∨
      ((trimStart text).head? ≠ some ':' ∧ step = 1 ∧ rest = trimStart text) := by
  constructor
  · intro h
    rw [readStep.eq_def] at h
    split at h
    · next tail hnext =>
      obtain ⟨⟨step?, left⟩, hread, h⟩ := reads_bind_iff.1 h
      dsimp only at h
      split at h
      · exact (not_reads_stopAt h).elim
      · next hzero =>
        obtain ⟨rfl, rfl⟩ := reads_ok_iff.1 h
        exact .inl ⟨tail.val, step?, trimStart_of_nextSign? hnext, ⟨left.property, hread⟩, hzero,
          rfl⟩
    · next hnext =>
      obtain ⟨rfl, rfl⟩ := reads_ok_iff.1 h
      exact .inr ⟨head?_trimStart_ne hnext, rfl, rfl⟩
  · rintro (⟨tail, step?, htext, ⟨hle, hread⟩, hzero, rfl⟩ | ⟨hhead, rfl, rfl⟩)
    · rw [readStep, nextSign?_of_trimStart htext]
      refine reads_bind_iff.2 ⟨_, hread, ?_⟩
      dsimp only
      rw [if_neg hzero]
      exact reads_ok_iff.2 ⟨rfl, rfl⟩
    · rw [readStep.eq_def]
      split
      · next tail hnext =>
        exact (hhead (congrArg List.head? (trimStart_of_nextSign? hnext))).elim
      · exact reads_ok_iff.2 ⟨rfl, rfl⟩

theorem reads_readPositions_iff {item : Item} :
    Reads (readPositions text) item rest ↔
      ∃ start middle, Reads (readInteger text) start middle ∧
        ((∃ tail stop after step, trimStart middle = ':' :: tail ∧
            Reads (readInteger tail) stop after ∧ Reads (readStep after) step rest ∧
            item = .slice start stop step) ∨
          ((trimStart middle).head? ≠ some ':' ∧ rest = trimStart middle ∧
            ∃ n, start = some n ∧ item = .index n)) := by
  constructor
  · intro h
    obtain ⟨⟨start, middle⟩, hstart, h⟩ := reads_bind_iff.1 h
    refine ⟨start, middle.val, ⟨middle.property, hstart⟩, ?_⟩
    dsimp only at h
    split at h
    · next tail hnext =>
      obtain ⟨⟨stop, after⟩, hstop, h⟩ := reads_bind_iff.1 h
      obtain ⟨⟨step, left⟩, hstep, h⟩ := reads_bind_iff.1 h
      obtain ⟨rfl, rfl⟩ := reads_ok_iff.1 h
      exact .inl ⟨tail.val, stop, after.val, step, trimStart_of_nextSign? hnext,
        ⟨after.property, hstop⟩, ⟨left.property, hstep⟩, rfl⟩
    · next hnext =>
      split at h
      · next n =>
        obtain ⟨rfl, rfl⟩ := reads_ok_iff.1 h
        exact .inr ⟨head?_trimStart_ne hnext, rfl, n, rfl, rfl⟩
      · exact (not_reads_stopAt h).elim
  · rintro ⟨start, middle, ⟨hmiddle, hstart⟩, h⟩
    refine reads_bind_iff.2 ⟨_, hstart, ?_⟩
    rcases h with ⟨tail, stop, after, step, htext, ⟨hafter, hstop⟩, ⟨hrest, hstep⟩, rfl⟩ |
      ⟨hhead, rfl, n, rfl, rfl⟩
    · dsimp only
      rw [nextSign?_of_trimStart htext]
      refine reads_bind_iff.2 ⟨_, hstop, reads_bind_iff.2 ⟨_, hstep, ?_⟩⟩
      exact reads_ok_iff.2 ⟨rfl, rfl⟩
    · dsimp only
      split
      · next tail hnext =>
        exact (hhead (congrArg List.head? (trimStart_of_nextSign? hnext))).elim
      · exact reads_ok_iff.2 ⟨rfl, rfl⟩

theorem reads_readItem_iff {item : Item} :
    Reads (readItem text) item rest ↔
      ∃ c tail, trimStart text = c :: tail ∧
        ((isMark c = true ∧ ∃ chars, Reads (readQuoted c tail) chars rest ∧
            item = .name (String.ofList chars)) ∨
          (c = '*' ∧ item = .wildcard ∧ rest = tail) ∨
          (isMark c = false ∧ c ≠ '*' ∧ Reads (readPositions text) item rest)) := by
  rcases nextSign?_cases text with ⟨c, tail, htext⟩ | htext
  · rw [readItem, nextSign?_of_trimStart htext, htext]
    dsimp only
    constructor
    · intro h
      refine ⟨c, tail, rfl, ?_⟩
      split at h
      · next hmark =>
        obtain ⟨⟨chars, left⟩, hchars, h⟩ := reads_bind_iff.1 h
        obtain ⟨rfl, rfl⟩ := reads_ok_iff.1 h
        exact .inl ⟨hmark, chars, ⟨left.property, hchars⟩, rfl⟩
      · next hmark =>
        split at h
        · next hstar =>
          obtain ⟨rfl, rfl⟩ := reads_ok_iff.1 h
          exact .inr (.inl ⟨hstar, rfl, rfl⟩)
        · next hstar => exact .inr (.inr ⟨Bool.not_eq_true _ ▸ hmark, hstar, h⟩)
    · rintro ⟨_, _, ⟨⟩, ⟨hmark, chars, ⟨hle, hchars⟩, rfl⟩ | ⟨rfl, rfl, rfl⟩ | ⟨hmark, hstar, h⟩⟩
      · rw [if_pos hmark]
        exact reads_bind_iff.2 ⟨_, hchars, reads_ok_iff.2 ⟨rfl, rfl⟩⟩
      · exact reads_ok_iff.2 ⟨rfl, rfl⟩
      · rwa [hmark, if_neg Bool.false_ne_true, if_neg hstar]
  · rw [readItem, nextSign?_of_blanks htext, htext]
    refine iff_of_false not_reads_stopAt ?_
    rintro ⟨_, _, ⟨⟩, _⟩

theorem reads_readMoreItems_iff {items : List Item} :
    Reads (readMoreItems text) items rest ↔
      (∃ tail first middle others, trimStart text = ',' :: tail ∧
        Reads (readItem tail) first middle ∧ Reads (readMoreItems middle) others rest ∧
        items = first :: others) ∨
      ((trimStart text).head? ≠ some ',' ∧ items = [] ∧ rest = trimStart text) := by
  rw [readMoreItems.eq_def]
  constructor
  · intro h
    split at h
    · next tail hnext =>
      obtain ⟨⟨first, middle⟩, hfirst, h⟩ := reads_bind_iff.1 h
      obtain ⟨⟨others, left⟩, hothers, h⟩ := reads_bind_iff.1 h
      obtain ⟨rfl, rfl⟩ := reads_ok_iff.1 h
      exact .inl ⟨tail.val, first, middle.val, others, trimStart_of_nextSign? hnext,
        ⟨middle.property, hfirst⟩, ⟨left.property, hothers⟩, rfl⟩
    · next hnext =>
      obtain ⟨rfl, rfl⟩ := reads_ok_iff.1 h
      exact .inr ⟨head?_trimStart_ne hnext, rfl, rfl⟩
  · rintro (⟨tail, first, middle, others, htext, ⟨hmiddle, hfirst⟩, ⟨hrest, hothers⟩, rfl⟩ |
      ⟨hhead, rfl, rfl⟩)
    · rw [nextSign?_of_trimStart htext]
      refine reads_bind_iff.2 ⟨_, hfirst, reads_bind_iff.2 ⟨_, hothers, ?_⟩⟩
      exact reads_ok_iff.2 ⟨rfl, rfl⟩
    · split
      · next tail hnext =>
        exact (hhead (congrArg List.head? (trimStart_of_nextSign? hnext))).elim
      · exact reads_ok_iff.2 ⟨rfl, rfl⟩

end Gleaner.JsonPath
