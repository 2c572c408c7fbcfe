/-
# The cursor of a JSON path goes on to the end

The walk of the cursor over a path comes to its end whatever the text is: the calls that it may make
are enough, as each turn of a loop and each condition inside another has less text before it. The
cursor never goes back and never stands behind the end of the text, nothing is cut out of the text from
outside of it, and a fault names the place where the cursor stands. Brackets, conditions and strings
take at least one character.

Key theorems: `follows_walkCondition`, `follows_walkBrackets`, `follows_walkSegments`,
`walkPath_within`.
-/
import Gleaner.JsonPath.Basic
import Gleaner.Proofs.JsonPath.Following
import Gleaner.Proofs.JsonPath.Whole

namespace Gleaner.JsonPath

open Gleaner.Text Gleaner.Walk

variable {text rest : List Char} {origin cursor after : Cursor} {c : Char} {enough : Prop}

section

variable {α β γ : Type} {A B : List Char → Prop}

/-! ### Conditions -/

theorem follows_walkKey (h : Stands text origin rest cursor) :
    Follows enough text origin ((walkKey text).runFrom cursor) (readKey rest) := by
  rw [walkKey]
  refine follows_blanks h fun middle hmiddle => ?_
  rw [runFrom_peek hmiddle]
  rcases nextSign?_cases rest with ⟨c, tail, htext⟩ | htext
  · have hskipped : trimStart (c :: tail) = trimStart rest := by
      rw [← htext, dropWhile_isBlank_idem]
    rw [htext] at hmiddle ⊢
    rw [readKey, nextSign?_of_trimStart htext, List.head?_cons, Option.any_some]
    dsimp only
    by_cases hmark : isMark c = true
    · rw [if_pos hmark, if_pos hmark]
      exact follows_walkQuoted hmiddle fun chars left after hafter => tracks_pure hafter
    · rw [if_neg hmark, if_neg hmark]
      refine tracks_bind (follows_walkInteger hmiddle hskipped) fun index left after hafter => ?_
      cases index with
      | some index => exact tracks_pure hafter
      | none => exact follows_halt hafter
  · rw [htext] at hmiddle ⊢
    rw [readKey, nextSign?_of_blanks htext]
    have hinteger : Follows True text origin ((walkInteger text).runFrom middle) (readInteger []) :=
      follows_walkInteger hmiddle rfl
    obtain ⟨after, hrun, hafter⟩ := hinteger.of_ok trivial
    rw [if_neg (by decide), runFrom_bind_of_ok hrun]
    exact follows_halt hafter

theorem follows_walkKeys (h : Stands text origin rest cursor) :
    Follows enough text origin ((walkKeys text).runFrom cursor) (readKeys rest) := by
  refine follows_loop (fun rest again cursor ih h => ?_) h
  rw [runFrom_peek h]
  by_cases hpoint : rest.head? = some '.'
  · obtain ⟨tail, rfl⟩ := List.head?_eq_some_iff.1 hpoint
    rw [if_pos hpoint, runFrom_move_bind, readKeys]
    refine tracks_bind (follows_walkName h.moved) fun name left after hafter => ?_
    have hleft : left.val.length < tail.length := left.property
    exact tracks_bind (ih _ _ (Nat.lt_succ_of_lt hleft) hafter) fun keys last after hafter =>
      tracks_pure hafter
  by_cases hbracket : rest.head? = some '['
  · obtain ⟨tail, rfl⟩ := List.head?_eq_some_iff.1 hbracket
    rw [if_neg hpoint, if_pos hbracket, runFrom_move_bind, readKeys]
    refine tracks_bind (follows_walkKey h.moved) fun key inner middle hmiddle => ?_
    refine follows_walkSign hmiddle rfl fun left after hafter => ?_
    have hleft : left.val.length < tail.length := (Rest.andTake inner left).property
    exact tracks_bind (ih _ _ (Nat.lt_succ_of_lt hleft) hafter) fun keys last after hafter =>
      tracks_pure hafter
  · rw [if_neg hpoint, if_neg hbracket, readKeys]
    · exact tracks_pure h
    · rintro tail rfl
      exact hpoint rfl
    · rintro tail rfl
      exact hbracket rfl

/-- A text that begins with no word is not of the form of one that does. -/
theorem isPrefixOf_eq_false (word : List Char) (h : ∀ tail, rest = word ++ tail → False) :
    word.isPrefixOf rest = false := by
  rw [Bool.eq_false_iff]
  intro hword
  obtain ⟨tail, rfl⟩ := List.isPrefixOf_iff_prefix.1 hword
  exact h tail rfl

/-- The sign of a comparison that is found is the one that is read. -/
theorem find?_comparisonSigns (rest : List Char) :
    (comparisonSigns.find? fun sign => sign.1.isPrefixOf rest) =
      (readComparison? rest).map fun found => (writtenSign found.1, found.1) := by
  unfold readComparison?
  split
  · rfl
  · rfl
  · rfl
  · rfl
  · next tail h =>
    have hequal := isPrefixOf_eq_false ['='] h
    simp [comparisonSigns, hequal, writtenSign]
  · next tail h =>
    have hequal := isPrefixOf_eq_false ['='] h
    simp [comparisonSigns, hequal, writtenSign]
  · next h₁ h₂ h₃ h₄ h₅ h₆ =>
    simp [comparisonSigns, isPrefixOf_eq_false ['=', '='] h₁, isPrefixOf_eq_false ['!', '='] h₂,
      isPrefixOf_eq_false ['<', '='] h₃, isPrefixOf_eq_false ['>', '='] h₄,
      isPrefixOf_eq_false ['<'] h₅, isPrefixOf_eq_false ['>'] h₆]

theorem isPrefixOf_eq_isSome : ∀ (word rest : List Char),
    word.isPrefixOf rest = (afterWord? word rest).isSome
  | [], _ => rfl
  | w :: word, [] => rfl
  | w :: word, c :: rest => by
    rw [List.isPrefixOf, afterWord?]
    by_cases hw : w = c
    · rw [if_pos hw, Option.isSome_map, ← isPrefixOf_eq_isSome word rest, hw, beq_self_eq_true,
        Bool.true_and]
    · rw [if_neg hw, beq_false_of_ne hw]
      rfl

/-- The word that is found is the one that is read. -/
theorem find?_literalWords (rest : List Char) :
    (literalWords.find? fun word => word.1.isPrefixOf rest) = none ∧ readWord? rest = none ∨
    ∃ word value left, (literalWords.find? fun word => word.1.isPrefixOf rest) = some (word, value) ∧
      readWord? rest = some (value, left) ∧ rest = word ++ left.val := by
  simp only [literalWords, List.find?_cons, List.find?_nil, isPrefixOf_eq_isSome]
  rw [readWord?]
  cases htrue : afterWord? "true".toList rest with
  | some left => exact .inr ⟨_, _, left, rfl, rfl, afterWord?_eq_some_iff.1 htrue⟩
  | none =>
    cases hfalse : afterWord? "false".toList rest with
    | some left => exact .inr ⟨_, _, left, rfl, rfl, afterWord?_eq_some_iff.1 hfalse⟩
    | none =>
      cases hnull : afterWord? "null".toList rest with
      | some left => exact .inr ⟨_, _, left, rfl, rfl, afterWord?_eq_some_iff.1 hnull⟩
      | none => exact .inl ⟨rfl, rfl⟩

theorem follows_walkComparison {next : Option Comparison → Walk Reason α}
    {reading : Except Stop (α × { rest : List Char // A rest })}
    (h : Stands text origin rest cursor)
    (hnone : readComparison? (skipBlanks rest).val = none → ∀ after,
      Stands text origin (skipBlanks rest).val after →
        Follows enough text origin ((next none).runFrom after) reading)
    (hsome : ∀ comparison left, readComparison? (skipBlanks rest).val = some (comparison, left) →
      ∀ after, Stands text origin left.val after →
        Follows enough text origin ((next (some comparison)).runFrom after) reading) :
    Follows enough text origin ((walkComparison text >>= next).runFrom cursor) reading := by
  rw [walkComparison, bind_assoc]
  refine follows_blanks h fun middle hmiddle => ?_
  have hmiddle : Stands text origin (skipBlanks rest).val middle := hmiddle
  rw [bind_assoc, runFrom_ahead_bind, hmiddle.ahead, find?_comparisonSigns]
  cases hsign : readComparison? (skipBlanks rest).val with
  | none =>
    dsimp only [Option.map_none]
    rw [pure_bind]
    exact hnone hsign middle hmiddle
  | some found =>
    obtain ⟨comparison, left⟩ := found
    dsimp only [Option.map_some]
    rw [bind_assoc, runFrom_move_bind, pure_bind]
    refine hsome comparison left hsign _ (Stands.movedTo (writtenSign comparison) ?_)
    rw [← (readComparison?_eq_some_iff.1 hsign).1]
    exact hmiddle

/-- A reading whose result is changed alone is followed as it is. -/
theorem map_eq_bind {β : Type} (reading : Except Stop γ) (g : γ → β) :
    reading.map g = reading >>= fun found => pure (g found) :=
  map_eq_pure_bind g reading

theorem follows_walkNumber (h : Stands text origin rest cursor) :
    Follows enough text origin ((walkNumber text).runFrom cursor) (readNumber rest) := by
  rw [walkNumber, runFrom_here_bind]
  refine follows_passWhile h fun after hafter => ?_
  rw [← List.takeWhile_append_dropWhile (p := isNumberChar) (l := rest)] at h
  rw [runFrom_slice h hafter, readNumber]
  cases Json.readNumeric? (rest.takeWhile isNumberChar) with
  | some n => exact tracks_pure hafter
  | none => exact follows_halt hafter

theorem follows_walkLiteralHere (h : Stands text origin rest cursor) :
    Follows enough text origin ((walkLiteralHere text).runFrom cursor) (readLiteralHere rest) := by
  rw [walkLiteralHere, runFrom_peek h]
  cases rest with
  | nil =>
    rw [if_neg nofun, runFrom_ahead_bind, h.ahead]
    have hnumber : Follows enough text origin ((walkNumber text).runFrom cursor) (readNumber []) :=
      follows_walkNumber h
    exact hnumber
  | cons c tail =>
    rw [readLiteralHere, List.head?_cons, Option.any_some]
    by_cases hmark : isMark c = true
    · rw [if_pos hmark, if_pos hmark, map_eq_bind]
      exact follows_walkQuoted h fun chars left after hafter => tracks_pure hafter
    rw [if_neg hmark, if_neg hmark, runFrom_ahead_bind, h.ahead]
    obtain ⟨hfind, hread⟩ | ⟨word, value, left, hfind, hread, htext⟩ :=
      find?_literalWords (c :: tail)
    · rw [hfind, hread]
      exact follows_walkNumber h
    · rw [hfind, hread]
      dsimp only
      rw [runFrom_move_bind]
      rw [htext] at h
      exact tracks_pure (h.movedTo word)

theorem follows_walkLiteral (h : Stands text origin rest cursor) :
    Follows enough text origin ((walkLiteral text).runFrom cursor) (readLiteral rest) := by
  rw [walkLiteral]
  refine follows_blanks h fun middle hmiddle => ?_
  rw [readLiteral]
  exact tracks_map (follows_walkLiteralHere hmiddle) fun found => ⟨rfl, rfl⟩

theorem follows_walkComparedPath (h : Stands text origin rest cursor) :
    Follows enough text origin ((walkComparedPath text).runFrom cursor) (readComparedPath rest) := by
  rw [walkComparedPath, readComparedPath]
  refine tracks_bind (follows_walkKeys h) fun path (left : Rest rest) after hafter => ?_
  dsimp only
  refine follows_walkComparison hafter (fun hsign last hlast => ?_)
    fun comparison more hsign last hlast => ?_
  · have hsign : readComparison? (left.andThen (skipBlanks left.val)).val = none := hsign
    rw [hsign]
    exact tracks_pure hlast
  · have hsign : readComparison? (left.andThen (skipBlanks left.val)).val =
        some (comparison, more) := hsign
    rw [hsign]
    exact tracks_bind (follows_walkLiteral hlast) fun literal left after hafter =>
      tracks_pure hafter

/-- What is asked of the characters ahead is asked of those that the cursor faces. -/
theorem runFrom_startsWith (h : Stands text origin rest cursor) (word : List Char)
    (next : Bool → Walk Reason α) :
    (startsWith text word >>= next).runFrom cursor =
      (next (word.isPrefixOf rest)).runFrom cursor := by
  rw [startsWith, bind_assoc, runFrom_ahead_bind, h.ahead, pure_bind]

theorem connectiveWord_eq (level : Nat) :
    connectiveWord level = [connectiveSign level, connectiveSign level] := by
  rw [connectiveWord, connectiveSign]
  by_cases hlevel : level = 0
  · rw [if_pos hlevel, if_pos hlevel]
  · rw [if_neg hlevel, if_neg hlevel]

/-- The word of a connective stands where a connective is read. -/
theorem isPrefixOf_connectiveWord {level : Nat} (hlevel : level < 2) (rest : List Char) :
    (connectiveWord level).isPrefixOf rest = (connective? level rest).isSome := by
  rw [Bool.eq_iff_iff, List.isPrefixOf_iff_prefix, connectiveWord_eq, Option.isSome_iff_exists]
  constructor
  · rintro ⟨tail, rfl⟩
    exact ⟨((Rest.all tail).behind _).toRest.behind _, connective?_eq_some_iff.2 ⟨hlevel, rfl⟩⟩
  · rintro ⟨left, hleft⟩
    exact ⟨left.val, (connective?_eq_some_iff.1 hleft).2.symm⟩

/-- A negation is told from the sign of a comparison by what comes behind it. -/
theorem startsNegation_eq (c : Char) (tail : List Char) :
    (decide (some c = some '!') && !(['!', '='].isPrefixOf (c :: tail))) =
      (decide (c = '!') && tail.head? != some '=') := by
  by_cases hc : c = '!'
  · subst hc
    cases tail with
    | nil => rfl
    | cons d tail =>
      by_cases hd : d = '='
      · subst hd
        rfl
      · simp [List.isPrefixOf, hd, Ne.symm hd, bne]
  · have hnot : ¬some c = some '!' := fun h => hc (Option.some.inj h)
    rw [decide_eq_false hc, decide_eq_false hnot, Bool.false_and, Bool.false_and]

-- The induction is on the calls that may be made. A call that takes nothing is one to a higher level
-- or to a term, so that four of them suffice for each character that is left.
mutual

theorem follows_walkCondition : ∀ (calls level : Nat) {rest : List Char} {cursor : Cursor},
    Stands text origin rest cursor →
      Follows (4 * rest.length + 1 + (2 - level) < calls) text origin
        ((walkCondition text calls level).runFrom cursor) (readCondition level rest)
  | 0, _, _, _, _ => tracks_unfinished (Nat.not_lt_zero _)
  | calls + 1, level, rest, cursor, h => by
    rw [walkCondition, readCondition]
    by_cases hlevel : level < 2
    · rw [if_pos hlevel, if_pos hlevel]
      refine tracks_bind ((follows_walkCondition calls (level + 1) h).imp fun hcalls => by omega)
        fun first left after hafter => ?_
      dsimp only
      have hleft : left.val.length < rest.length := left.property
      rw [← bind_pure (walkConnected text calls level first)]
      exact tracks_bind ((follows_walkConnected calls first hlevel hafter).imp fun hcalls => by omega)
        fun condition last after hafter => tracks_pure hafter
    · rw [if_neg hlevel, if_neg hlevel]
      exact (follows_walkTerm calls h).imp fun hcalls => by omega

theorem follows_walkConnected : ∀ (calls : Nat) {level : Nat} (first : Condition)
    {rest : List Char} {cursor : Cursor}, level < 2 → Stands text origin rest cursor →
      Follows (4 * rest.length < calls) text origin
        ((walkConnected text calls level first).runFrom cursor) (readConnected level first rest)
  | 0, _, _, _, _, _, _ => tracks_unfinished (Nat.not_lt_zero _)
  | calls + 1, level, first, rest, cursor, hlevel, h => by
    rw [walkConnected]
    refine follows_blanks h fun middle hmiddle => ?_
    have hmiddle : Stands text origin (skipBlanks rest).val middle := hmiddle
    have hle : (skipBlanks rest).val.length ≤ rest.length := (skipBlanks rest).property
    rw [runFrom_startsWith hmiddle, isPrefixOf_connectiveWord hlevel, readConnected.eq_def]
    dsimp only
    cases hconnective : connective? level (skipBlanks rest).val with
    | none => exact tracks_pure hmiddle
    | some left =>
      have htext := (connective?_eq_some_iff.1 hconnective).2
      have hleft : left.val.length < (skipBlanks rest).val.length := left.property
      dsimp only
      rw [Option.isSome_some, if_pos rfl, runFrom_move_bind]
      rw [htext] at hmiddle
      have hmoved : Stands text origin left.val (middle.movedTo (middle.place + 2)) :=
        Stands.movedTo [_, _] hmiddle
      refine tracks_bind ((follows_walkCondition calls (level + 1) hmoved).imp fun hcalls => by omega)
        fun second more after hafter => ?_
      have hmore : more.val.length < left.val.length := more.property
      dsimp only
      rw [← bind_pure (walkConnected text calls level _)]
      exact tracks_bind ((follows_walkConnected calls _ hlevel hafter).imp fun hcalls => by omega)
        fun condition last after hafter => tracks_pure hafter

theorem follows_walkTerm : ∀ (calls : Nat) {rest : List Char} {cursor : Cursor},
    Stands text origin rest cursor →
      Follows (4 * rest.length < calls) text origin ((walkTerm text calls).runFrom cursor)
        (readTerm rest)
  | 0, _, _, _ => tracks_unfinished (Nat.not_lt_zero _)
  | calls + 1, rest, cursor, h => by
    rw [walkTerm]
    refine follows_blanks h fun middle hmiddle => ?_
    rw [runFrom_peek hmiddle, runFrom_startsWith hmiddle]
    rcases nextSign?_cases rest with ⟨c, tail, htext⟩ | htext
    · have hlt := length_lt_of_trimStart htext
      rw [htext] at hmiddle ⊢
      rw [List.head?_cons, startsNegation_eq, readTerm, nextSign?_of_trimStart htext]
      dsimp only
      by_cases hopen : c = '('
      · rw [if_pos hopen, if_pos (congrArg some hopen), runFrom_move_bind]
        refine tracks_bind ((follows_walkCondition calls 0 hmiddle.moved).imp fun hcalls => by omega)
          fun condition left after hafter => ?_
        exact follows_walkSign hafter rfl fun last after hafter => tracks_pure hafter
      rw [if_neg hopen, if_neg fun heq => hopen (Option.some.inj heq)]
      by_cases hnot : (decide (c = '!') && tail.head? != some '=') = true
      · rw [if_pos hnot, if_pos hnot, runFrom_move_bind]
        exact tracks_bind ((follows_walkTerm calls hmiddle.moved).imp fun hcalls => by omega)
          fun condition left after hafter => tracks_pure hafter
      rw [if_neg hnot, if_neg hnot]
      by_cases hvalue : c = '@'
      · rw [if_pos hvalue, if_pos (congrArg some hvalue), runFrom_move_bind,
          ← bind_pure (walkComparedPath text)]
        exact tracks_bind (follows_walkComparedPath hmiddle.moved) fun condition left after hafter =>
          tracks_pure hafter
      · have hstart : (skipBlanks rest).val = c :: tail := htext
        rw [if_neg hvalue, if_neg fun heq => hvalue (Option.some.inj heq), hstart]
        exact follows_halt hmiddle
    · rw [htext] at hmiddle ⊢
      rw [readTerm, nextSign?_of_blanks htext]
      exact follows_halt hmiddle

end

/-- A condition may make more calls than it needs, however much is left of the text. -/
theorem enough_callsFor (h : Stands text origin rest cursor) (level : Nat) :
    4 * rest.length + 1 + (2 - level) < callsFor text := by
  have hlength := h.length_le
  rw [callsFor]
  omega

/-! ### Segments -/

theorem follows_walkFilter (h : Stands text origin rest cursor) :
    Follows enough text origin ((walkFilter text).runFrom cursor) (readFilter rest) := by
  rw [walkFilter, readFilter]
  refine follows_walkSign h rfl fun opened start hstart => ?_
  refine tracks_bind ((follows_walkCondition _ 0 hstart).imp fun _ => enough_callsFor hstart 0)
    fun condition inner middle hmiddle => ?_
  exact follows_walkSign hmiddle rfl fun left after hafter => tracks_pure hafter

theorem follows_walkItems {skipped : List Char} (h : Stands text origin skipped cursor)
    (hskipped : trimStart skipped = trimStart rest) :
    Follows enough text origin ((walkItems text).runFrom cursor) (readItems rest) := by
  rw [walkItems, readItems]
  refine tracks_bind (follows_walkItem h hskipped) fun first more middle hmiddle => ?_
  exact tracks_bind (follows_walkMoreItems hmiddle) fun others left after hafter =>
    tracks_pure hafter

theorem follows_walkChoice (h : Stands text origin rest cursor) :
    Follows enough text origin ((walkChoice text).runFrom cursor) (readChoice rest) := by
  rw [walkChoice]
  refine follows_blanks h fun middle hmiddle => ?_
  rw [runFrom_peek hmiddle]
  by_cases hstar : (trimStart rest).head? = some '*'
  · obtain ⟨tail, htext⟩ := List.head?_eq_some_iff.1 hstar
    rw [htext] at hmiddle ⊢
    rw [readChoice, nextSign?_of_trimStart htext, List.head?_cons, if_pos rfl, runFrom_move_bind]
    exact tracks_pure hmiddle.moved
  rw [if_neg hstar]
  by_cases hfilter : (trimStart rest).head? = some '?'
  · obtain ⟨tail, htext⟩ := List.head?_eq_some_iff.1 hfilter
    rw [htext] at hmiddle ⊢
    rw [readChoice, nextSign?_of_trimStart htext, List.head?_cons, if_pos rfl, runFrom_move_bind,
      ← bind_pure (walkFilter text)]
    exact tracks_bind (follows_walkFilter hmiddle.moved) fun choice left after hafter =>
      tracks_pure hafter
  · rw [if_neg hfilter, readChoice]
    split
    · next tail heq => exact absurd heq (nextSign?_ne hstar)
    · next tail heq => exact absurd heq (nextSign?_ne hfilter)
    · exact follows_walkItems hmiddle (dropWhile_isBlank_idem rest)

/-- What is read behind a bracket is walked over with the bracket. -/
theorem follows_walkBrackets (h : Stands text origin rest cursor) :
    Follows enough text origin ((walkBrackets text).runFrom cursor) (do
      let opened ← expect '[' rest
      let (choice, left) ← readBrackets opened.val
      pure (choice, opened.andThen left.toRest)) := by
  rw [walkBrackets]
  refine follows_walkSign h rfl fun opened start hstart => ?_
  rw [readBrackets, bind_assoc]
  refine tracks_bind (follows_walkChoice hstart) fun choice inner middle hmiddle => ?_
  dsimp only
  rw [bind_assoc]
  exact follows_walkSign hmiddle rfl fun left after hafter => tracks_pure hafter

/-- Brackets that open at the cursor are read behind the first of them. -/
theorem follows_walkBrackets_here {next : Choice → Walk Reason α}
    {going : Choice × Remainder rest → Except Stop (α × { rest : List Char // A rest })}
    (h : Stands text origin ('[' :: rest) cursor)
    (hnext : ∀ choice (left : Remainder rest) after, Stands text origin left.val after →
      Follows enough text origin ((next choice).runFrom after) (going (choice, left))) :
    Follows enough text origin ((walkBrackets text >>= next).runFrom cursor)
      (readBrackets rest >>= going) := by
  have hbrackets : Follows True text origin _ _ := follows_walkBrackets h
  rw [expect_self (by decide) rest] at hbrackets
  change Follows True text origin _ (readBrackets rest >>= _) at hbrackets
  cases hread : readBrackets rest with
  | error stop =>
    rw [hread] at hbrackets
    obtain ⟨why, after, hrun, hstops⟩ := hbrackets.of_error trivial
    exact tracks_error (runFrom_bind_of_error hrun) hstops
  | ok found =>
    rw [hread] at hbrackets
    obtain ⟨after, hrun, hafter⟩ := hbrackets.of_ok trivial
    rw [runFrom_bind_of_ok hrun]
    exact hnext found.1 found.2 after hafter

theorem follows_walkMember (h : Stands text origin rest cursor) :
    Follows enough text origin ((walkMember text).runFrom cursor) (readMember rest) := by
  rw [walkMember, runFrom_peek h]
  by_cases hstar : rest.head? = some '*'
  · obtain ⟨tail, rfl⟩ := List.head?_eq_some_iff.1 hstar
    rw [if_pos hstar, runFrom_move_bind, readMember]
    exact tracks_pure h.moved
  · rw [if_neg hstar, readMember, map_eq_bind]
    · exact tracks_bind (follows_walkName h) fun name left after hafter => tracks_pure hafter
    · rintro tail rfl
      exact hstar rfl

theorem follows_walkBelow (h : Stands text origin rest cursor) :
    Follows enough text origin ((walkBelow text).runFrom cursor) (readBelow rest) := by
  rw [walkBelow, runFrom_peek h]
  by_cases hbracket : rest.head? = some '['
  · obtain ⟨tail, rfl⟩ := List.head?_eq_some_iff.1 hbracket
    rw [if_pos hbracket, readBelow, map_eq_bind, ← bind_pure (walkBrackets text)]
    exact follows_walkBrackets_here h fun choice left after hafter => tracks_pure hafter
  · rw [if_neg hbracket, readBelow]
    · exact follows_walkMember h
    · rintro tail rfl
      exact hbracket rfl

theorem follows_walkSegment (h : Stands text origin (c :: rest) cursor) :
    Follows enough text origin ((walkSegment text c).runFrom cursor) (readSegment c rest) := by
  rw [walkSegment, readSegment.eq_def]
  by_cases hbracket : c = '['
  · subst hbracket
    rw [if_neg (by decide), if_pos rfl, if_pos rfl, map_eq_bind]
    exact follows_walkBrackets_here h fun choice left after hafter => tracks_pure hafter
  by_cases hpoint : c = '.'
  · subst hpoint
    rw [if_pos rfl, if_neg hbracket, if_pos rfl, runFrom_startsWith h]
    by_cases hsecond : rest.head? = some '.'
    · obtain ⟨more, rfl⟩ := List.head?_eq_some_iff.1 hsecond
      have hmoved : Stands text origin more (cursor.movedTo (cursor.place + 2)) :=
        Stands.movedTo ['.', '.'] h
      have hpoints : ['.', '.'].isPrefixOf ('.' :: '.' :: more) = true := rfl
      rw [if_pos hpoints, runFrom_move_bind]
      show Follows enough text origin _ (Except.map _ (readBelow more))
      rw [map_eq_bind]
      exact tracks_bind (follows_walkBelow hmoved) fun choice left after hafter =>
        tracks_pure hafter
    · have hpoints : ['.', '.'].isPrefixOf ('.' :: rest) = false := by
        refine isPrefixOf_eq_false _ fun tail htext => hsecond ?_
        rw [(List.cons.inj htext).2]
        rfl
      rw [hpoints, if_neg Bool.false_ne_true, runFrom_move_bind]
      split
      · exact absurd rfl hsecond
      · rw [map_eq_bind]
        exact tracks_bind (follows_walkMember h.moved) fun choice left after hafter =>
          tracks_pure hafter
  · rw [if_neg hpoint, if_neg hbracket, if_neg hbracket, if_neg hpoint]
    exact follows_halt h

/-- Segments behind which nothing is left. -/
def toEnd (segments : List Segment) : List Segment × { rest : List Char // rest = [] } :=
  (segments, ⟨[], rfl⟩)

/-- The segments up to the end of a text. -/
def readToEnd (text : List Char) : Except Stop (List Segment × { rest : List Char // rest = [] }) :=
  (readSegments text).map toEnd

/-- All segments are followed up to the end of the text. -/
theorem follows_walkSegments (h : Stands text origin rest cursor) :
    Follows enough text origin ((walkSegments text).runFrom cursor) (readToEnd rest) := by
  refine follows_loop (fun rest again cursor ih h => ?_) h
  refine follows_blanks h fun middle hmiddle => ?_
  rw [runFrom_peek hmiddle]
  rcases nextSign?_cases rest with ⟨c, tail, htext⟩ | htext
  · have hlt := length_lt_of_trimStart htext
    rw [htext] at hmiddle ⊢
    rw [readToEnd, readSegments_of_trimStart htext, map_eq_bind, bind_assoc]
    refine tracks_bind (follows_walkSegment hmiddle) fun segment left after hafter => ?_
    have hleft : left.val.length ≤ tail.length := left.property
    have hshape : ((readSegments left.val).map (segment :: ·) >>= fun segments =>
        pure (toEnd segments)) =
        readToEnd left.val >>= fun found => pure (segment :: found.1, found.2) := by
      rw [readToEnd]
      cases readSegments left.val with
      | error stop => rfl
      | ok segments => rfl
    rw [hshape]
    exact tracks_bind (ih _ _ (Nat.lt_of_le_of_lt hleft hlt) hafter)
      fun segments last after hafter => tracks_pure hafter
  · rw [htext] at hmiddle ⊢
    rw [readToEnd, readSegments_of_blanks htext]
    exact tracks_pure hmiddle

/-- The whole path is followed up to the end of the text. -/
theorem follows_walkPath (h : Stands text origin text cursor) :
    Follows enough text origin ((walkPath text).runFrom cursor) ((readRooted text).map toEnd) := by
  rw [walkPath]
  refine follows_blanks h fun middle hmiddle => ?_
  rw [readRooted, map_eq_bind, bind_assoc]
  refine follows_walkSign hmiddle (dropWhile_isBlank_idem text) fun left after hafter => ?_
  rw [← map_eq_bind]
  exact follows_walkSegments hafter

end

/-! ### The whole walk -/

/-- A cursor within a text stands in front of what is left of it there. -/
theorem stands_self (h : cursor.place ≤ text.length) :
    Stands text cursor (text.drop cursor.place) cursor := by
  refine ⟨⟨rfl, ?_⟩, id⟩
  rw [List.length_drop]
  exact Nat.add_sub_of_le h

/-- A walk that follows a reading which takes something goes on. -/
theorem advances_of_follows {α : Type} {walk : Walk Reason α} {reading : Parsed α rest}
    (h : Follows enough text cursor (walk.runFrom cursor) reading)
    (hbefore : Stands text cursor rest cursor) : Advances text walk cursor :=
  h.advances hbefore.toFaces fun _ _ hafter => hafter.toFaces

/-- A string with both its quotation marks. -/
theorem follows_walkQuoted_whole (h : Stands text origin (c :: rest) cursor) :
    Follows enough text origin ((walkQuoted text).runFrom cursor)
      (readQuoted c rest >>= fun (chars, left) =>
        pure (String.ofList chars, (left.toRest.behind c : Remainder (c :: rest)))) := by
  rw [← bind_pure (walkQuoted text)]
  exact follows_walkQuoted h fun chars left after hafter => tracks_pure hafter

theorem advances_walkQuoted (hbefore : Stands text cursor rest cursor) :
    Advances text (walkQuoted text) cursor := by
  cases rest with
  | nil =>
    intro after a hrun
    rw [walkQuoted, runFrom_peek hbefore] at hrun
    cases hrun
  | cons mark tail =>
    have hquoted : Follows True text cursor _ _ := follows_walkQuoted_whole hbefore
    exact advances_of_follows hquoted hbefore

/-- The walk over a path ends with the calls that it may make, whatever the path is. Its cursor has
never gone back and never stood behind the end of the text, and what is asked for always lies within
the text. The walk finds what the reading of the path gives, and then the cursor stands at the end; or
it halts with the fault of that reading, which names the place of the cursor. From anywhere in the
text, brackets, conditions and strings that are walked over lead the cursor on. -/
theorem walkPath_within (path : String) :
    let text := rootedText path.toList
    (∃ outcome after, (walkPath text).runFrom .start = some (outcome, after) ∧
      after.Steady ∧ (∀ place ∈ after.trail, place ≤ text.length) ∧
      match JsonPath.read path with
      | .ok found => outcome = .ok found.segments ∧ after.place = text.length
      | .error fault => ∃ reason offset, outcome = .error (.fault reason) ∧
          fault = .unreadable (String.ofList text) reason offset ∧ offset = after.place ∧
          offset ≤ text.length) ∧
    ∀ before : Cursor, before.place ≤ text.length →
      Advances text (walkBrackets text) before ∧
      (∀ calls level, Advances text (walkCondition text calls level) before) ∧
      Advances text (walkQuoted text) before := by
  intro text
  refine ⟨?_, fun before hbefore => ?_⟩
  · have hstart : Stands text .start text .start := stands_self (Nat.zero_le _)
    have h : Follows True text .start _ _ := follows_walkPath hstart
    rw [JsonPath.read]
    cases hread : readRooted text with
    | ok segments =>
      rw [hread] at h
      obtain ⟨after, hrun, hafter⟩ := h.of_ok trivial
      have hplace : after.place = text.length := hafter.last_eq
      have hsteady := hafter.steady Cursor.steady_start
      exact ⟨_, after, hrun, hsteady, fun place hmem => hplace ▸ hsteady.le place hmem, rfl, hplace⟩
    | error stop =>
      rw [hread] at h
      obtain ⟨_, after, hrun, rfl, rest, hafter, hleft⟩ := h.of_error trivial
      have hplace : after.place + rest.length = text.length := hafter.last_eq
      have hoffset : text.length - stop.left = after.place := by
        rw [hleft, ← hplace, Nat.add_sub_cancel]
      have hle : after.place ≤ text.length := hplace ▸ Nat.le_add_right ..
      have hsteady := hafter.steady Cursor.steady_start
      refine ⟨_, after, hrun, hsteady, fun place hmem => (hsteady.le place hmem).trans hle, ?_⟩
      exact ⟨stop.reason, after.place, rfl, by rw [← hoffset]; rfl, rfl, hle⟩
  · have hstands := stands_self hbefore
    have hbrackets : Follows True text before _ _ := follows_walkBrackets hstands
    exact ⟨advances_of_follows hbrackets hstands,
      fun calls level => advances_of_follows (follows_walkCondition calls level hstands) hstands,
      advances_walkQuoted hstands⟩

/-- Where the reading gives a value, the walk gives it too. -/
theorem exists_ok_of_reads {α : Type} {A : List Char → Prop} {a : α} {left : List Char}
    {run : Option (Except (Halt Reason) α × Cursor)}
    {reading : Except Stop (α × { rest : List Char // A rest })}
    (h : Follows True text origin run reading) (hread : Reads reading a left) :
    ∃ after, run = some (.ok a, after) := by
  obtain ⟨_, rfl⟩ := hread
  obtain ⟨after, hrun, -⟩ := h.of_ok trivial
  exact ⟨after, hrun⟩

theorem walkPath_within_filtered :
    let text := rootedText "$[?(@['a'])]".toList
    (∃ after, (walkBrackets text).runFrom ⟨1, []⟩ =
        some (.ok (.filter (.present [.name "a"])), after) ∧
      1 < after.place ∧ after.place ≤ 12) ∧
    (∃ after, (walkCondition text (callsFor text) 0).runFrom ⟨4, []⟩ =
        some (.ok (.present [.name "a"]), after) ∧
      4 < after.place ∧ after.place ≤ 12) ∧
    ∃ after, (walkQuoted text).runFrom ⟨6, []⟩ = some (.ok "a", after) ∧
      6 < after.place ∧ after.place ≤ 12 := by
  intro text
  have htext : text = "$[?(@['a'])]".toList := by decide
  have hlegible : Condition.Legible (.present [.name "a"]) := by
    simp [Condition.Legible, Key.Legible]
  have hstands (place : Nat) (hplace : place ≤ 12) :
      Stands text ⟨place, []⟩ (text.drop place) ⟨place, []⟩ :=
    stands_self (by rw [htext]; exact hplace)
  have hwithin (place : Nat) (hplace : place ≤ 12) :=
    (walkPath_within "$[?(@['a'])]").2 ⟨place, []⟩ hplace
  refine ⟨?_, ?_, ?_⟩
  · have hdrop : text.drop 1 =
        '[' :: (Choice.written true (.filter (.present [.name "a"])) ++ [']']) := by
      rw [htext]
      decide
    have hopen := hstands 1 (by decide)
    rw [hdrop] at hopen
    have hchoice : Choice.Legible (.filter (.present [.name "a"])) := hlegible
    obtain ⟨_, hread⟩ := readBrackets_written true hchoice []
    obtain ⟨after, hrun⟩ := exists_ok_of_reads (follows_walkBrackets hopen)
      (reads_bind_iff.2 ⟨_, expect_self (by decide) _,
        reads_bind_iff.2 ⟨_, hread, reads_ok_iff.2 ⟨rfl, rfl⟩⟩⟩)
    exact ⟨after, hrun, (hwithin 1 (by decide)).1 after _ hrun⟩
  · have hdrop : text.drop 4 = Condition.written (.present [.name "a"]) ++ [')', ']'] := by
      rw [htext]
      decide
    have hopen := hstands 4 (by decide)
    rw [hdrop] at hopen
    obtain ⟨after, hrun⟩ := exists_ok_of_reads
      ((follows_walkCondition _ 0 hopen).imp fun _ => enough_callsFor hopen 0)
      (readCondition_written hlegible [']'])
    exact ⟨after, hrun, (hwithin 4 (by decide)).2.1 _ 0 after _ hrun⟩
  · have hdrop : text.drop 6 = ['\'', 'a', '\'', ']', ')', ']'] := by
      rw [htext]
      decide
    have hopen := hstands 6 (by decide)
    rw [hdrop] at hopen
    obtain ⟨_, hread⟩ : Reads (readQuoted '\'' ['a', '\'', ']', ')', ']']) ['a'] [']', ')', ']'] :=
      ⟨by decide, rfl⟩
    obtain ⟨after, hrun⟩ := exists_ok_of_reads (follows_walkQuoted_whole hopen)
      (reads_bind_iff.2 ⟨_, hread, reads_ok_iff.2 ⟨rfl, rfl⟩⟩)
    exact ⟨after, hrun, (hwithin 6 (by decide)).2.2 after _ hrun⟩

end Gleaner.JsonPath
