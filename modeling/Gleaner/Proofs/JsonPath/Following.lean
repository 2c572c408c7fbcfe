/-
# A cursor that does what a reading does

A reading returns what it leaves of a text; a walk leaves its cursor somewhere. The cursor stands in
front of what is left, so that the two keep step with each other: a walk ends where the reading
ends, with the same result or for the same reason, and its cursor has only gone on. Blanks in front
of a sign may have been passed by the walk before the reading passes them.

Key definitions: `Stands`, `Stops`, `Follows`.
Key theorems: `follows_loop`, `follows_passWhile`, `follows_walkSign`, `follows_walkName`,
`follows_walkQuoted`, `follows_walkInteger`, `follows_walkItem`, `follows_walkMoreItems`.
-/
import Gleaner.JsonPath.Cursor
import Gleaner.Proofs.JsonPath.Clauses
import Gleaner.Proofs.Walk

namespace Gleaner.JsonPath

open Gleaner.Number Gleaner.Text Gleaner.Walk

variable {text rest : List Char} {origin cursor after : Cursor} {c : Char}

/-- A cursor that set out from another stands in front of what is left of a text, and it has gone
on steadily. -/
structure Stands (text : List Char) (origin : Cursor) (rest : List Char) (cursor : Cursor) : Prop
    extends cursor.Faces text text.length rest where
  steady : origin.Steady → cursor.Steady

theorem Stands.movedTo (front : List Char) (h : Stands text origin (front ++ rest) cursor) :
    Stands text origin rest (cursor.movedTo (cursor.place + front.length)) :=
  ⟨h.toFaces.movedTo front, fun horigin => (h.steady horigin).movedTo _⟩

theorem Stands.moved (h : Stands text origin (c :: rest) cursor) :
    Stands text origin rest (cursor.movedTo (cursor.place + 1)) :=
  Stands.movedTo [c] h

/-- A walk stops as a reading does: for the same reason, and in front of what is left. -/
structure Stops (text : List Char) (origin : Cursor) (stop : Stop) (why : Halt Reason)
    (cursor : Cursor) : Prop where
  why_eq : why = .fault stop.reason
  left : ∃ rest, Stands text origin rest cursor ∧ stop.left = rest.length

section

variable {α β γ : Type} {A B : List Char → Prop} {enough : Prop}

/-- A run of a walk over a text does what a reading does, if the walk may make enough calls. -/
abbrev Follows (enough : Prop) (text : List Char) (origin : Cursor)
    (run : Option (Except (Halt Reason) α × Cursor))
    (reading : Except Stop (α × { rest : List Char // A rest })) : Prop :=
  Tracks enough (Stands text origin) (Stops text origin) run reading

theorem stops_of_stands {reason : Reason} (h : Stands text origin rest cursor) :
    Stops text origin ⟨reason, rest.length⟩ (.fault reason) cursor :=
  ⟨rfl, rest, h, rfl⟩

theorem follows_halt {reason : Reason} (h : Stands text origin rest cursor) :
    Follows enough text origin ((halt reason : Walk Reason α).runFrom cursor)
      (stopAt rest reason : Except Stop (α × { rest : List Char // A rest })) :=
  tracks_error (runFrom_halt reason) (stops_of_stands h)

/-- A walk that calls itself follows a reading if each call does that is made where less is left. -/
theorem follows_loop {A : List Char → List Char → Prop} {body : Walk Reason α → Walk Reason α}
    {reading : (rest : List Char) → Except Stop (α × { left : List Char // A rest left })}
    (hbody : ∀ (rest : List Char) (again : Walk Reason α) (cursor : Cursor),
      (∀ (shorter : List Char) (after : Cursor), shorter.length < rest.length →
        Stands text origin shorter after →
          Follows enough text origin (again.runFrom after) (reading shorter)) →
      Stands text origin rest cursor →
        Follows enough text origin ((body again).runFrom cursor) (reading rest))
    (h : Stands text origin rest cursor) :
    Follows enough text origin ((loop text body).runFrom cursor) (reading rest) :=
  loop_induction (P := fun rest walk => ∀ cursor, Stands text origin rest cursor →
      Follows enough text origin (walk.runFrom cursor) (reading rest))
    (fun rest again ih cursor => hbody rest again cursor fun shorter after hshorter =>
      ih shorter hshorter after) h.length_le cursor h

/-- What is looked at is the first character that the cursor faces. -/
theorem runFrom_peek (h : Stands text origin rest cursor) (next : Option Char → Walk Reason α) :
    (peek text >>= next).runFrom cursor = (next rest.head?).runFrom cursor := by
  rw [runFrom_peek_bind, h.peek]

theorem follows_passWhile {p : Char → Bool} {next : Unit → Walk Reason α}
    {reading : Except Stop (α × { rest : List Char // A rest })}
    (h : Stands text origin rest cursor)
    (hnext : ∀ after, Stands text origin (rest.dropWhile p) after →
      Follows enough text origin ((next ()).runFrom after) reading) :
    Follows enough text origin ((passWhile p text >>= next).runFrom cursor) reading := by
  obtain ⟨after, hrun, hfaces, hsteady⟩ := exists_passWhile p h.toFaces
  rw [runFrom_bind_of_ok hrun]
  exact hnext after ⟨hfaces, fun horigin => hsteady (h.steady horigin)⟩

theorem follows_blanks {next : Unit → Walk Reason α}
    {reading : Except Stop (α × { rest : List Char // A rest })}
    (h : Stands text origin rest cursor)
    (hnext : ∀ after, Stands text origin (trimStart rest) after →
      Follows enough text origin ((next ()).runFrom after) reading) :
    Follows enough text origin ((walkBlanks text >>= next).runFrom cursor) reading :=
  follows_passWhile h hnext

/-! ### Signs, names, strings and integers -/

theorem expect_of_blanks {sign : Char} (h : trimStart rest = []) :
    expect sign rest = stopAt [] (.expected sign) := by
  rw [expect, nextSign?_of_blanks h]

theorem follows_walkSign {sign : Char} {next : Unit → Walk Reason α} {skipped : List Char}
    {going : Remainder rest → Except Stop (α × { rest : List Char // A rest })}
    (h : Stands text origin skipped cursor) (hskipped : trimStart skipped = trimStart rest)
    (hnext : ∀ (left : Remainder rest) after, Stands text origin left.val after →
      Follows enough text origin ((next ()).runFrom after) (going left)) :
    Follows enough text origin ((walkSign text sign >>= next).runFrom cursor)
      (expect sign rest >>= going) := by
  rw [walkSign, bind_assoc]
  refine follows_blanks h fun middle hmiddle => ?_
  rw [bind_assoc, runFrom_peek hmiddle]
  rw [hskipped] at hmiddle ⊢
  rcases nextSign?_cases rest with ⟨c, tail, htext⟩ | htext
  · rw [htext] at hmiddle ⊢
    by_cases hc : c = sign
    · subst hc
      rw [expect_of_trimStart htext, List.head?_cons, if_pos rfl, runFrom_move_bind]
      exact hnext ⟨tail, length_lt_of_trimStart htext⟩ _ hmiddle.moved
    · have hhead : (c :: tail).head? ≠ some sign := fun heq => hc (Option.some.inj heq)
      rw [expect_of_ne htext hc, if_neg hhead]
      exact tracks_error (runFrom_bind_of_error rfl) (stops_of_stands hmiddle)
  · rw [htext] at hmiddle ⊢
    rw [expect_of_blanks htext, if_neg nofun]
    exact tracks_error (runFrom_bind_of_error rfl) (stops_of_stands hmiddle)

/-- What a slice holds between two places where the cursor stood. -/
theorem runFrom_slice {front : List Char} {start : Cursor}
    (hstart : Stands text origin (front ++ rest) start) (h : Stands text origin rest cursor) (next : List Char → Walk Reason α) :
    (slice text start.place >>= next).runFrom cursor = (next front).runFrom cursor :=
  runFrom_bind_of_ok (hstart.toFaces.slice h.toFaces)

/-- The characters of a name are those in front of the first that belongs to none. -/
theorem follows_walkNameChars {next : List Char → Walk Reason α}
    {reading : Except Stop (α × { rest : List Char // A rest })}
    (h : Stands text origin rest cursor)
    (hnext : ∀ after, Stands text origin (rest.dropWhile isMemberChar) after →
      Follows enough text origin ((next (rest.takeWhile isMemberChar)).runFrom after) reading) :
    Follows enough text origin ((walkNameChars text >>= next).runFrom cursor) reading := by
  rw [walkNameChars, bind_assoc, runFrom_here_bind, bind_assoc]
  refine follows_passWhile h fun after hafter => ?_
  rw [← List.takeWhile_append_dropWhile (p := isMemberChar) (l := rest)] at h
  rw [runFrom_slice h hafter]
  exact hnext after hafter

theorem follows_walkName (h : Stands text origin rest cursor) :
    Follows enough text origin ((walkName text).runFrom cursor) (readName rest) := by
  rw [walkName]
  refine follows_walkNameChars h fun after hafter => ?_
  cases rest with
  | nil => exact follows_halt hafter
  | cons c tail =>
    rw [readName]
    by_cases hc : isMemberChar c = true
    · rw [List.dropWhile_cons, if_pos hc] at hafter
      rw [List.takeWhile_cons, if_pos hc, if_pos hc]
      exact tracks_pure hafter
    · rw [List.dropWhile_cons, if_neg hc] at hafter
      rw [List.takeWhile_cons, if_neg hc, if_neg hc]
      exact follows_halt hafter

theorem follows_walkUntil {mark : Char} (h : Stands text origin rest cursor) :
    Follows enough text origin ((walkUntil text mark).runFrom cursor) (readQuoted mark rest) := by
  refine follows_loop (fun rest again cursor ih h => ?_) h
  rw [runFrom_peek h]
  cases rest with
  | nil => exact follows_halt h
  | cons c rest =>
    rw [readQuoted.eq_def]
    dsimp only [List.head?_cons]
    by_cases hslash : c = '\\'
    · rw [if_pos hslash, if_pos hslash, runFrom_move_bind]
      cases rest with
      | nil =>
        rw [runFrom_peek h.moved]
        exact follows_halt h.moved
      | cons escaped more =>
        have hmore : more.length < (c :: escaped :: more).length :=
          Nat.lt_succ_of_lt (Nat.lt_succ_self _)
        rw [runFrom_peek h.moved]
        dsimp only [List.head?_cons]
        rw [runFrom_move_bind]
        exact tracks_bind (ih more _ hmore h.moved.moved) fun chars left after hafter =>
          tracks_pure hafter
    rw [if_neg hslash, if_neg hslash]
    by_cases hmark : c = mark
    · rw [if_pos hmark, if_pos hmark, runFrom_move_bind]
      exact tracks_pure h.moved
    · rw [if_neg hmark, if_neg hmark, runFrom_move_bind]
      exact tracks_bind (ih rest _ (Nat.lt_succ_self _) h.moved) fun chars left after hafter =>
        tracks_pure hafter

/-- A string is read behind its first quotation mark. -/
theorem follows_walkQuoted {next : String → Walk Reason α}
    {going : List Char × Remainder rest → Except Stop (α × { rest : List Char // A rest })}
    (h : Stands text origin (c :: rest) cursor)
    (hnext : ∀ chars (left : Remainder rest) after, Stands text origin left.val after →
      Follows enough text origin ((next (String.ofList chars)).runFrom after) (going (chars, left))) :
    Follows enough text origin ((walkQuoted text >>= next).runFrom cursor)
      (readQuoted c rest >>= going) := by
  rw [walkQuoted, bind_assoc, runFrom_peek h]
  dsimp only [List.head?_cons]
  rw [bind_assoc, runFrom_move_bind, bind_assoc]
  refine tracks_bind (follows_walkUntil h.moved) fun chars left after hafter => ?_
  rw [pure_bind]
  exact hnext chars left after hafter

theorem splitInteger_of_ne (h : rest.head? ≠ some '-') :
    splitInteger rest = (rest.takeWhile isDigit, skipWhile isDigit rest) := by
  rw [splitInteger]
  rintro tail rfl
  exact h rfl

theorem follows_walkDigits {next : List Char → Walk Reason α}
    {reading : Except Stop (α × { rest : List Char // A rest })}
    (h : Stands text origin rest cursor)
    (hnext : ∀ after, Stands text origin (splitInteger rest).2.val after →
      Follows enough text origin ((next (splitInteger rest).1).runFrom after) reading) :
    Follows enough text origin ((walkDigits text >>= next).runFrom cursor) reading := by
  have hsplit (tail : List Char) : tail.takeWhile isDigit ++ tail.dropWhile isDigit = tail :=
    List.takeWhile_append_dropWhile
  rw [walkDigits, bind_assoc, runFrom_here_bind, bind_assoc, walkMinus, bind_assoc,
    runFrom_peek h]
  by_cases hminus : rest.head? = some '-'
  · obtain ⟨tail, rfl⟩ := List.head?_eq_some_iff.1 hminus
    rw [List.head?_cons, if_pos rfl, runFrom_move_bind, bind_assoc]
    refine follows_passWhile h.moved fun after hafter => ?_
    rw [← hsplit tail, ← List.cons_append] at h
    rw [runFrom_slice h hafter]
    exact hnext after hafter
  · rw [splitInteger_of_ne hminus] at hnext
    rw [if_neg hminus, pure_bind, bind_assoc]
    refine follows_passWhile h fun after hafter => ?_
    rw [← hsplit rest] at h
    rw [runFrom_slice h hafter]
    exact hnext after hafter

theorem follows_walkInteger {skipped : List Char} (h : Stands text origin skipped cursor)
    (hskipped : trimStart skipped = trimStart rest) :
    Follows enough text origin ((walkInteger text).runFrom cursor) (readInteger rest) := by
  rw [walkInteger]
  refine follows_blanks h fun start hstart => ?_
  have hstart : Stands text origin (skipBlanks rest).val start := by
    rw [hskipped] at hstart
    exact hstart
  refine follows_walkDigits hstart fun after hafter => ?_
  rw [readInteger]
  dsimp only
  by_cases hempty : (splitInteger (skipBlanks rest).val).1.isEmpty = true
  · rw [if_pos hempty, if_pos hempty]
    exact tracks_pure hafter
  · rw [if_neg hempty, if_neg hempty]
    cases readInt64 (String.ofList (splitInteger (skipBlanks rest).val).1) with
    | ok n => exact tracks_pure hafter
    | error fault => exact follows_halt hafter

/-! ### Items -/

/-- The next sign is no other than the first character behind the blanks. -/
theorem nextSign?_ne {left : Remainder rest} (h : ¬(trimStart rest).head? = some c) :
    nextSign? rest ≠ some (c, left) := by
  intro hnext
  rw [trimStart_of_nextSign? hnext] at h
  exact h rfl

theorem follows_walkStep (h : Stands text origin rest cursor) :
    Follows enough text origin ((walkStep text).runFrom cursor) (readStep rest) := by
  rw [walkStep]
  refine follows_blanks h fun middle hmiddle => ?_
  rw [runFrom_peek hmiddle]
  by_cases hcolon : (trimStart rest).head? = some ':'
  · obtain ⟨tail, htext⟩ := List.head?_eq_some_iff.1 hcolon
    rw [htext] at hmiddle ⊢
    rw [readStep, nextSign?_of_trimStart htext, List.head?_cons, if_pos rfl, runFrom_move_bind]
    refine tracks_bind (follows_walkInteger hmiddle.moved rfl) fun step left after hafter => ?_
    dsimp only
    by_cases hzero : step.getD 1 = 0
    · rw [if_pos hzero, if_pos hzero]
      exact follows_halt hafter
    · rw [if_neg hzero, if_neg hzero]
      exact tracks_pure hafter
  · rw [if_neg hcolon, readStep]
    split
    · next tail heq => exact absurd heq (nextSign?_ne hcolon)
    · exact tracks_pure hmiddle

theorem follows_walkPositions {skipped : List Char} (h : Stands text origin skipped cursor)
    (hskipped : trimStart skipped = trimStart rest) :
    Follows enough text origin ((walkPositions text).runFrom cursor) (readPositions rest) := by
  rw [walkPositions, readPositions]
  refine tracks_bind (follows_walkInteger h hskipped) fun start left after hafter => ?_
  refine follows_blanks hafter fun middle hmiddle => ?_
  rw [runFrom_peek hmiddle]
  dsimp only
  by_cases hcolon : (trimStart left.val).head? = some ':'
  · obtain ⟨tail, htext⟩ := List.head?_eq_some_iff.1 hcolon
    rw [htext] at hmiddle ⊢
    rw [nextSign?_of_trimStart htext, List.head?_cons, if_pos rfl, runFrom_move_bind]
    refine tracks_bind (follows_walkInteger hmiddle.moved rfl) fun stop afterStop last hlast => ?_
    exact tracks_bind (follows_walkStep hlast) fun step left after hafter => tracks_pure hafter
  · rw [if_neg hcolon]
    cases start with
    | some index =>
      dsimp only
      split
      · next tail heq => exact absurd heq (nextSign?_ne hcolon)
      · exact tracks_pure hmiddle
    | none =>
      dsimp only
      split
      · next tail heq => exact absurd heq (nextSign?_ne hcolon)
      · exact follows_halt hmiddle

theorem follows_walkItem {skipped : List Char} (h : Stands text origin skipped cursor)
    (hskipped : trimStart skipped = trimStart rest) :
    Follows enough text origin ((walkItem text).runFrom cursor) (readItem rest) := by
  rw [walkItem]
  refine follows_blanks h fun middle hmiddle => ?_
  rw [runFrom_peek hmiddle]
  rw [hskipped] at hmiddle ⊢
  rcases nextSign?_cases rest with ⟨c, tail, htext⟩ | htext
  · have hskipped : trimStart (c :: tail) = trimStart rest := by
      rw [← htext, dropWhile_isBlank_idem]
    rw [htext] at hmiddle ⊢
    rw [readItem, nextSign?_of_trimStart htext, List.head?_cons, Option.any_some]
    dsimp only
    by_cases hmark : isMark c = true
    · rw [if_pos hmark, if_pos hmark]
      exact follows_walkQuoted hmiddle fun chars left after hafter => tracks_pure hafter
    rw [if_neg hmark, if_neg hmark]
    by_cases hstar : c = '*'
    · subst hstar
      rw [if_pos rfl, if_pos rfl, runFrom_move_bind]
      exact tracks_pure hmiddle.moved
    · rw [if_neg hstar, if_neg fun heq => hstar (Option.some.inj heq)]
      exact follows_walkPositions hmiddle hskipped
  · rw [htext] at hmiddle ⊢
    rw [readItem, nextSign?_of_blanks htext]
    have hpositions : Follows enough text origin ((walkPositions text).runFrom middle)
        (readPositions []) :=
      follows_walkPositions hmiddle rfl
    exact hpositions

theorem follows_walkMoreItems (h : Stands text origin rest cursor) :
    Follows enough text origin ((walkMoreItems text).runFrom cursor) (readMoreItems rest) := by
  refine follows_loop (fun rest again cursor ih h => ?_) h
  refine follows_blanks h fun middle hmiddle => ?_
  rw [runFrom_peek hmiddle]
  by_cases hcomma : (trimStart rest).head? = some ','
  · obtain ⟨tail, htext⟩ := List.head?_eq_some_iff.1 hcomma
    have hlt := length_lt_of_trimStart htext
    rw [htext] at hmiddle ⊢
    rw [readMoreItems, nextSign?_of_trimStart htext, List.head?_cons, if_pos rfl,
      runFrom_move_bind]
    refine tracks_bind (follows_walkItem hmiddle.moved rfl) fun item left after hafter => ?_
    have hleft : left.val.length ≤ tail.length := left.property
    exact tracks_bind (ih _ _ (Nat.lt_of_le_of_lt hleft hlt) hafter) fun items last after hafter =>
      tracks_pure hafter
  · rw [if_neg hcomma, readMoreItems]
    split
    · next tail heq => exact absurd heq (nextSign?_ne hcomma)
    · exact tracks_pure hmiddle

end

end Gleaner.JsonPath
