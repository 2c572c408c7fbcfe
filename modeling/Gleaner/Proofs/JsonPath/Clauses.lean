/-
# The parts of a condition and of a segment

What the readers of conditions and of segments have taken when they give something, and that
whatever is put together in this way is read.

Key definitions: `connectiveSign`.
Key theorems: `reads_readKeys_iff`, `readComparison?_eq_some_iff`, `reads_readLiteralHere_iff`,
`reads_readCondition_iff`, `reads_readConnected_iff`, `reads_readTerm_iff`,
`reads_readBrackets_iff`, `reads_readSegment_iff`, `readSegments_of_trimStart`.
-/
import Gleaner.Proofs.JsonPath.Parts

namespace Gleaner.JsonPath

open Gleaner.Text

variable {c : Char} {text rest : List Char}

/-! ### Paths inside conditions -/

theorem reads_readKey_iff {key : Key} :
    Reads (readKey text) key rest ↔
      ∃ c tail, trimStart text = c :: tail ∧
        ((isMark c = true ∧ ∃ chars, Reads (readQuoted c tail) chars rest ∧
            key = .name (String.ofList chars)) ∨
          (isMark c = false ∧ ∃ n, Reads (readInteger text) (some n) rest ∧ key = .index n)) := by
  rcases nextSign?_cases text with ⟨c, tail, htext⟩ | htext
  · rw [readKey, nextSign?_of_trimStart htext, htext]
    dsimp only
    constructor
    · intro h
      refine ⟨c, tail, rfl, ?_⟩
      split at h
      · next hmark =>
        obtain ⟨⟨chars, left⟩, hchars, h⟩ := reads_bind_iff.1 h
        obtain ⟨rfl, rfl⟩ := reads_ok_iff.1 h
        exact .inl ⟨hmark, chars, ⟨left.property, hchars⟩, rfl⟩
      · next hmark =>
        obtain ⟨⟨index, left⟩, hindex, h⟩ := reads_bind_iff.1 h
        dsimp only at h
        split at h
        · next n =>
          obtain ⟨rfl, rfl⟩ := reads_ok_iff.1 h
          exact .inr ⟨Bool.not_eq_true _ ▸ hmark, n, ⟨left.property, hindex⟩, rfl⟩
        · exact (not_reads_stopAt h).elim
    · rintro ⟨_, _, ⟨⟩, ⟨hmark, chars, ⟨hle, hchars⟩, rfl⟩ | ⟨hmark, n, ⟨hle, hindex⟩, rfl⟩⟩
      · rw [if_pos hmark]
        exact reads_bind_iff.2 ⟨_, hchars, reads_ok_iff.2 ⟨rfl, rfl⟩⟩
      · rw [hmark, if_neg Bool.false_ne_true]
        exact reads_bind_iff.2 ⟨_, hindex, reads_ok_iff.2 ⟨rfl, rfl⟩⟩
  · rw [readKey, nextSign?_of_blanks htext, htext]
    refine iff_of_false not_reads_stopAt ?_
    rintro ⟨_, _, ⟨⟩, _⟩

theorem reads_readKeys_iff {keys : List Key} :
    Reads (readKeys text) keys rest ↔
      (∃ tail name middle others, text = '.' :: tail ∧ Reads (readName tail) name middle ∧
        Reads (readKeys middle) others rest ∧ keys = .name name :: others) ∨
      (∃ tail key inner middle others, text = '[' :: tail ∧ Reads (readKey tail) key inner ∧
        trimStart inner = ']' :: middle ∧ Reads (readKeys middle) others rest ∧
        keys = key :: others) ∨
      (text.head? ≠ some '.' ∧ text.head? ≠ some '[' ∧ keys = [] ∧ rest = text) := by
  constructor
  · intro h
    rw [readKeys.eq_def] at h
    split at h
    · next tail =>
      obtain ⟨⟨name, middle⟩, hname, h⟩ := reads_bind_iff.1 h
      obtain ⟨⟨others, left⟩, hothers, h⟩ := reads_bind_iff.1 h
      obtain ⟨rfl, rfl⟩ := reads_ok_iff.1 h
      exact .inl ⟨tail, name, middle.val, others, rfl, ⟨middle.property, hname⟩,
        ⟨left.property, hothers⟩, rfl⟩
    · next tail =>
      obtain ⟨⟨key, inner⟩, hkey, h⟩ := reads_bind_iff.1 h
      obtain ⟨middle, hclose, h⟩ := reads_bind_iff.1 h
      obtain ⟨⟨others, left⟩, hothers, h⟩ := reads_bind_iff.1 h
      obtain ⟨rfl, rfl⟩ := reads_ok_iff.1 h
      exact .inr (.inl ⟨tail, key, inner.val, middle.val, others, rfl, ⟨inner.property, hkey⟩,
        expect_eq_ok_iff.1 hclose, ⟨left.property, hothers⟩, rfl⟩)
    · next hpoint hbracket =>
      obtain ⟨rfl, rfl⟩ := reads_ok_iff.1 h
      exact .inr (.inr ⟨head?_ne_of_forall hpoint, head?_ne_of_forall hbracket, rfl, rfl⟩)
  · rintro (⟨tail, name, middle, others, rfl, ⟨hmiddle, hname⟩, ⟨hrest, hothers⟩, rfl⟩ |
      ⟨tail, key, inner, middle, others, rfl, ⟨hinner, hkey⟩, hclose, ⟨hrest, hothers⟩, rfl⟩ |
      ⟨hpoint, hbracket, rfl, rfl⟩)
    · rw [readKeys]
      exact reads_bind_iff.2 ⟨_, hname, reads_bind_iff.2 ⟨_, hothers, reads_ok_iff.2 ⟨rfl, rfl⟩⟩⟩
    · rw [readKeys]
      exact reads_bind_iff.2 ⟨_, hkey, reads_bind_iff.2 ⟨_, expect_of_trimStart hclose,
        reads_bind_iff.2 ⟨_, hothers, reads_ok_iff.2 ⟨rfl, rfl⟩⟩⟩⟩
    · rw [readKeys]
      · exact reads_ok_iff.2 ⟨rfl, rfl⟩
      · rintro tail rfl
        exact hpoint rfl
      · rintro tail rfl
        exact hbracket rfl

/-! ### Comparisons and literals -/

theorem readComparison?_less (hrest : rest.head? ≠ some '=') :
    readComparison? ('<' :: rest) = some (.less, ((Rest.all rest).behind '<').toRest) := by
  rw [readComparison?]
  rintro tail rfl
  exact hrest rfl

theorem readComparison?_greater (hrest : rest.head? ≠ some '=') :
    readComparison? ('>' :: rest) = some (.greater, ((Rest.all rest).behind '>').toRest) := by
  rw [readComparison?]
  rintro tail rfl
  exact hrest rfl

/-- What is taken for the sign of a comparison is one, and where a single sign is taken no `=` comes
behind it. -/
theorem readComparison?_eq_some_iff {comparison : Comparison} {left : Rest text} :
    readComparison? text = some (comparison, left) ↔
      text = writtenSign comparison ++ left.val ∧
        (comparison = .less ∨ comparison = .greater → left.val.head? ≠ some '=') := by
  constructor
  · intro h
    unfold readComparison? at h
    split at h
    · cases h
      exact ⟨rfl, nofun⟩
    · cases h
      exact ⟨rfl, nofun⟩
    · cases h
      exact ⟨rfl, nofun⟩
    · cases h
      exact ⟨rfl, nofun⟩
    · next hequal =>
      cases h
      exact ⟨rfl, fun _ => head?_ne_of_forall hequal⟩
    · next hequal =>
      cases h
      exact ⟨rfl, fun _ => head?_ne_of_forall hequal⟩
    · cases h
  · obtain ⟨rest, hle⟩ := left
    dsimp only
    rintro ⟨rfl, hequal⟩
    cases comparison with
    | less => exact readComparison?_less (hequal (.inl rfl))
    | greater => exact readComparison?_greater (hequal (.inr rfl))
    | _ => rfl

/-- A word is taken where it stands. -/
theorem afterWord?_append (rest : List Char) : ∀ word : List Char,
    ∃ h : rest.length ≤ (word ++ rest).length,
      afterWord? word (word ++ rest) = some ⟨rest, h⟩
  | [] => ⟨Nat.le_refl _, rfl⟩
  | c :: word => by
    obtain ⟨hle, hword⟩ := afterWord?_append rest word
    rw [List.cons_append]
    refine ⟨Nat.le_succ_of_le hle, ?_⟩
    rw [afterWord?, if_pos rfl, hword]
    rfl

/-- A word is taken where it stands, and nowhere else. -/
theorem afterWord?_eq_some_iff {word : List Char} {left : Rest text} :
    afterWord? word text = some left ↔ text = word ++ left.val := by
  constructor
  · intro h
    induction word generalizing text with
    | nil =>
      cases h
      rfl
    | cons w word ih =>
      cases text with
      | nil => cases h
      | cons c text =>
        rw [afterWord?] at h
        split at h
        · next hw =>
          obtain ⟨rest, hrest, rfl⟩ := Option.map_eq_some_iff.1 h
          rw [hw, List.cons_append]
          exact congrArg (c :: ·) (ih hrest)
        · cases h
  · obtain ⟨rest, hle⟩ := left
    dsimp only
    rintro rfl
    exact (afterWord?_append rest word).elim fun _ h => h

/-- The word of a truth or of null, which begin with different characters. -/
theorem readWord?_eq_some_iff {literal : Json} {left : Rest text} :
    readWord? text = some (literal, left) ↔
      (literal = .boolean true ∧ text = "true".toList ++ left.val) ∨
      (literal = .boolean false ∧ text = "false".toList ++ left.val) ∨
      (literal = .null ∧ text = "null".toList ++ left.val) := by
  constructor
  · intro h
    unfold readWord? at h
    split at h
    · next htrue =>
      cases h
      exact .inl ⟨rfl, afterWord?_eq_some_iff.1 htrue⟩
    · split at h
      · next hfalse =>
        cases h
        exact .inr (.inl ⟨rfl, afterWord?_eq_some_iff.1 hfalse⟩)
      · obtain ⟨_, hnull, ⟨⟩⟩ := Option.map_eq_some_iff.1 h
        exact .inr (.inr ⟨rfl, afterWord?_eq_some_iff.1 hnull⟩)
  · obtain ⟨rest, hle⟩ := left
    dsimp only
    rintro (⟨rfl, rfl⟩ | ⟨rfl, rfl⟩ | ⟨rfl, rfl⟩)
    · rfl
    · rfl
    · rfl

theorem reads_readNumber_iff {literal : Json} :
    Reads (readNumber text) literal rest ↔
      ∃ n, Json.readNumeric? (text.takeWhile isNumberChar) = some n ∧ literal = .number n ∧
        rest = text.dropWhile isNumberChar := by
  unfold readNumber
  dsimp only
  constructor
  · intro h
    split at h
    · next n hn =>
      obtain ⟨rfl, rfl⟩ := reads_ok_iff.1 h
      exact ⟨n, hn, rfl, rfl⟩
    · exact (not_reads_stopAt h).elim
  · rintro ⟨n, hn, rfl, rfl⟩
    rw [hn]
    exact reads_ok_iff.2 ⟨rfl, rfl⟩

theorem reads_readLiteralHere_iff {literal : Json} :
    Reads (readLiteralHere text) literal rest ↔
      ∃ c tail, text = c :: tail ∧
        ((isMark c = true ∧ ∃ chars, Reads (readQuoted c tail) chars rest ∧
            literal = .string (String.ofList chars)) ∨
          (isMark c = false ∧ ∃ left, readWord? text = some (literal, left) ∧ rest = left.val) ∨
          (isMark c = false ∧ readWord? text = none ∧ Reads (readNumber text) literal rest)) := by
  cases text with
  | nil =>
    refine iff_of_false not_reads_stopAt ?_
    rintro ⟨_, _, ⟨⟩, _⟩
  | cons c tail =>
    rw [readLiteralHere]
    constructor
    · intro h
      refine ⟨c, tail, rfl, ?_⟩
      split at h
      · next hmark =>
        obtain ⟨⟨chars, left⟩, hchars, rfl, rfl⟩ := reads_map_iff.1 h
        exact .inl ⟨hmark, chars, ⟨left.property, hchars⟩, rfl⟩
      · next hmark =>
        have hmark := Bool.not_eq_true _ ▸ hmark
        split at h
        · next found hfound =>
          obtain ⟨literal', left⟩ := found
          obtain ⟨rfl, rfl⟩ := reads_ok_iff.1 h
          exact .inr (.inl ⟨hmark, left, hfound, rfl⟩)
        · next hnone => exact .inr (.inr ⟨hmark, hnone, h⟩)
    · rintro ⟨_, _, ⟨⟩, ⟨hmark, chars, ⟨hle, hchars⟩, rfl⟩ | ⟨hmark, left, hfound, rfl⟩ |
        ⟨hmark, hnone, h⟩⟩
      · rw [if_pos hmark]
        exact reads_map_iff.2 ⟨_, hchars, rfl, rfl⟩
      · rw [hmark, if_neg Bool.false_ne_true, hfound]
        exact reads_ok_iff.2 ⟨rfl, rfl⟩
      · rwa [hmark, if_neg Bool.false_ne_true, hnone]

theorem reads_readLiteral_iff {literal : Json} :
    Reads (readLiteral text) literal rest ↔
      Reads (readLiteralHere (trimStart text)) literal rest := by
  constructor
  · intro h
    obtain ⟨⟨literal', left⟩, hread, rfl, rfl⟩ := reads_map_iff.1 h
    exact ⟨left.property, hread⟩
  · rintro ⟨hle, hread⟩
    exact reads_map_iff.2 ⟨(literal, ⟨rest, hle⟩), hread, rfl, rfl⟩

/-! ### Conditions -/

theorem reads_readComparedPath_iff {condition : Condition} :
    Reads (readComparedPath text) condition rest ↔
      ∃ path middle, Reads (readKeys text) path middle ∧
        ((∃ comparison tail literal, trimStart middle = writtenSign comparison ++ tail ∧
            (comparison = .less ∨ comparison = .greater → tail.head? ≠ some '=') ∧
            Reads (readLiteral tail) literal rest ∧
            condition = .compare path comparison literal) ∨
          (readComparison? (trimStart middle) = none ∧ condition = .present path ∧
            rest = trimStart middle)) := by
  constructor
  · intro h
    obtain ⟨⟨path, middle⟩, hpath, h⟩ := reads_bind_iff.1 h
    refine ⟨path, middle.val, ⟨middle.property, hpath⟩, ?_⟩
    dsimp only at h
    split at h
    · next comparison left hsign =>
      obtain ⟨⟨literal, after⟩, hliteral, h⟩ := reads_bind_iff.1 h
      obtain ⟨rfl, rfl⟩ := reads_ok_iff.1 h
      obtain ⟨htext, hequal⟩ := readComparison?_eq_some_iff.1 hsign
      exact .inl ⟨comparison, left.val, literal, htext, hequal, ⟨after.property, hliteral⟩, rfl⟩
    · next hnone =>
      obtain ⟨rfl, rfl⟩ := reads_ok_iff.1 h
      exact .inr ⟨hnone, rfl, rfl⟩
  · rintro ⟨path, middle, ⟨hmiddle, hpath⟩, h⟩
    refine reads_bind_iff.2 ⟨_, hpath, ?_⟩
    dsimp only
    rcases h with ⟨comparison, tail, literal, htext, hequal, ⟨hrest, hliteral⟩, rfl⟩ |
      ⟨hnone, rfl, rfl⟩
    · have hle : tail.length ≤ (trimStart middle).length := by
        rw [htext, List.length_append]
        exact Nat.le_add_left _ _
      have hsign : readComparison?
          (Rest.andThen (⟨middle, hmiddle⟩ : Rest text) (skipBlanks middle)).val =
            some (comparison, ⟨tail, hle⟩) :=
        readComparison?_eq_some_iff.2 ⟨htext, hequal⟩
      rw [hsign]
      exact reads_bind_iff.2 ⟨_, hliteral, reads_ok_iff.2 ⟨rfl, rfl⟩⟩
    · have hsign : readComparison?
          (Rest.andThen (⟨middle, hmiddle⟩ : Rest text) (skipBlanks middle)).val = none := hnone
      rw [hsign]
      exact reads_ok_iff.2 ⟨rfl, rfl⟩

/-- The sign that stands twice between conditions that are connected at a level of binding. -/
def connectiveSign (level : Nat) : Char :=
  if level = 0 then '|' else '&'

theorem connective?_eq_some_iff {level : Nat} {left : Remainder text} :
    connective? level text = some left ↔
      level < 2 ∧ text = connectiveSign level :: connectiveSign level :: left.val := by
  constructor
  · intro h
    unfold connective? at h
    split at h
    · cases h
      exact ⟨Nat.two_pos, rfl⟩
    · cases h
      exact ⟨Nat.one_lt_two, rfl⟩
    · cases h
  · obtain ⟨rest, hlt⟩ := left
    dsimp only
    rintro ⟨hlevel, rfl⟩
    obtain rfl | rfl : level = 0 ∨ level = 1 := by omega
    · rfl
    · rfl

variable {level : Nat} {first condition : Condition}

theorem reads_readCondition_iff :
    Reads (readCondition level text) condition rest ↔
      (level < 2 ∧ ∃ first middle, Reads (readCondition (level + 1) text) first middle ∧
        Reads (readConnected level first middle) condition rest) ∨
      (¬level < 2 ∧ Reads (readTerm text) condition rest) := by
  rw [readCondition]
  split
  · next hlevel =>
    constructor
    · intro h
      obtain ⟨⟨first, middle⟩, hfirst, h⟩ := reads_bind_iff.1 h
      obtain ⟨⟨whole, left⟩, hwhole, h⟩ := reads_bind_iff.1 h
      obtain ⟨rfl, rfl⟩ := reads_ok_iff.1 h
      exact .inl ⟨hlevel, first, middle.val, ⟨middle.property, hfirst⟩, left.property, hwhole⟩
    · rintro (⟨-, first, middle, ⟨hmiddle, hfirst⟩, hrest, hwhole⟩ | ⟨hnot, -⟩)
      · exact reads_bind_iff.2 ⟨_, hfirst, reads_bind_iff.2 ⟨_, hwhole, reads_ok_iff.2 ⟨rfl, rfl⟩⟩⟩
      · exact (hnot hlevel).elim
  · next hlevel => exact ⟨fun h => .inr ⟨hlevel, h⟩, fun h => (h.resolve_left (hlevel ·.1)).2⟩

theorem reads_readConnected_iff :
    Reads (readConnected level first text) condition rest ↔
      (∃ tail second middle, level < 2 ∧
        trimStart text = connectiveSign level :: connectiveSign level :: tail ∧
        Reads (readCondition (level + 1) tail) second middle ∧
        Reads (readConnected level (connect level first second) middle) condition rest) ∨
      (connective? level (trimStart text) = none ∧ condition = first ∧ rest = trimStart text) := by
  rw [readConnected.eq_def]
  dsimp only
  constructor
  · intro h
    split at h
    · next hnone =>
      obtain ⟨rfl, rfl⟩ := reads_ok_iff.1 h
      exact .inr ⟨hnone, rfl, rfl⟩
    · next left hsome =>
      obtain ⟨⟨second, middle⟩, hsecond, h⟩ := reads_bind_iff.1 h
      obtain ⟨⟨whole, behind⟩, hwhole, h⟩ := reads_bind_iff.1 h
      obtain ⟨rfl, rfl⟩ := reads_ok_iff.1 h
      obtain ⟨hlevel, htext⟩ := connective?_eq_some_iff.1 hsome
      exact .inl ⟨left.val, second, middle.val, hlevel, htext, ⟨middle.property, hsecond⟩,
        behind.property, hwhole⟩
  · rintro (⟨tail, second, middle, hlevel, htext, ⟨hmiddle, hsecond⟩, hrest, hwhole⟩ |
      ⟨hnone, rfl, rfl⟩)
    · have hlt : tail.length < (trimStart text).length := by
        rw [htext]
        exact Nat.lt_succ_of_le (Nat.le_succ _)
      have hsome : connective? level (skipBlanks text).val = some ⟨tail, hlt⟩ :=
        connective?_eq_some_iff.2 ⟨hlevel, htext⟩
      rw [hsome]
      exact reads_bind_iff.2 ⟨_, hsecond, reads_bind_iff.2 ⟨_, hwhole, reads_ok_iff.2 ⟨rfl, rfl⟩⟩⟩
    · have hsome : connective? level (skipBlanks text).val = none := hnone
      rw [hsome]
      exact reads_ok_iff.2 ⟨rfl, rfl⟩

theorem reads_readTerm_iff :
    Reads (readTerm text) condition rest ↔
      ∃ c tail, trimStart text = c :: tail ∧
        ((c = '(' ∧ ∃ inner, Reads (readCondition 0 tail) condition inner ∧
            trimStart inner = ')' :: rest) ∨
          (c = '!' ∧ tail.head? ≠ some '=' ∧ ∃ denied, Reads (readTerm tail) denied rest ∧
            condition = .not denied) ∨
          (c = '@' ∧ Reads (readComparedPath tail) condition rest)) := by
  rcases nextSign?_cases text with ⟨c, tail, htext⟩ | htext
  · rw [readTerm, nextSign?_of_trimStart htext, htext]
    dsimp only
    constructor
    · intro h
      refine ⟨c, tail, rfl, ?_⟩
      split at h
      · next hopen =>
        obtain ⟨⟨inside, inner⟩, hinside, h⟩ := reads_bind_iff.1 h
        obtain ⟨left, hclose, h⟩ := reads_bind_iff.1 h
        obtain ⟨rfl, rfl⟩ := reads_ok_iff.1 h
        exact .inl ⟨hopen, inner.val, ⟨inner.property, hinside⟩, expect_eq_ok_iff.1 hclose⟩
      · split at h
        · next hnot =>
          rw [Bool.and_eq_true, decide_eq_true_eq, bne_iff_ne] at hnot
          obtain ⟨⟨denied, left⟩, hdenied, h⟩ := reads_bind_iff.1 h
          obtain ⟨rfl, rfl⟩ := reads_ok_iff.1 h
          exact .inr (.inl ⟨hnot.1, hnot.2, denied, ⟨left.property, hdenied⟩, rfl⟩)
        · split at h
          · next hvalue =>
            obtain ⟨⟨inside, left⟩, hinside, h⟩ := reads_bind_iff.1 h
            obtain ⟨rfl, rfl⟩ := reads_ok_iff.1 h
            exact .inr (.inr ⟨hvalue, left.property, hinside⟩)
          · exact (not_reads_stopAt h).elim
    · rintro ⟨_, _, ⟨⟩, ⟨rfl, inner, ⟨hinner, hinside⟩, hclose⟩ |
        ⟨rfl, hequal, denied, ⟨hrest, hdenied⟩, rfl⟩ | ⟨rfl, hrest, hinside⟩⟩
      · rw [if_pos rfl]
        exact reads_bind_iff.2 ⟨_, hinside, reads_bind_iff.2 ⟨_, expect_of_trimStart hclose,
          reads_ok_iff.2 ⟨rfl, rfl⟩⟩⟩
      · have hnot : (decide ('!' = '!') && tail.head? != some '=') = true := by
          rw [Bool.and_eq_true, bne_iff_ne]
          exact ⟨rfl, hequal⟩
        rw [if_neg (by decide), if_pos hnot]
        exact reads_bind_iff.2 ⟨_, hdenied, reads_ok_iff.2 ⟨rfl, rfl⟩⟩
      · have hnot : ¬(decide ('@' = '!') && tail.head? != some '=') = true := by
          rw [Bool.and_eq_true]
          exact fun h => absurd h.1 (by decide)
        rw [if_neg (by decide), if_neg hnot, if_pos rfl]
        exact reads_bind_iff.2 ⟨_, hinside, reads_ok_iff.2 ⟨rfl, rfl⟩⟩
  · rw [readTerm, nextSign?_of_blanks htext, htext]
    refine iff_of_false not_reads_stopAt ?_
    rintro ⟨_, _, ⟨⟩, _⟩

/-! ### Segments -/

section

variable {choice : Choice}

theorem reads_readFilter_iff :
    Reads (readFilter text) choice rest ↔
      ∃ tail condition inner, trimStart text = '(' :: tail ∧
        Reads (readCondition 0 tail) condition inner ∧ trimStart inner = ')' :: rest ∧
        choice = .filter condition := by
  constructor
  · intro h
    obtain ⟨tail, hopen, h⟩ := reads_bind_iff.1 h
    obtain ⟨⟨condition, inner⟩, hcondition, h⟩ := reads_bind_iff.1 h
    obtain ⟨left, hclose, h⟩ := reads_bind_iff.1 h
    obtain ⟨rfl, rfl⟩ := reads_ok_iff.1 h
    exact ⟨tail.val, condition, inner.val, expect_eq_ok_iff.1 hopen,
      ⟨inner.property, hcondition⟩, expect_eq_ok_iff.1 hclose, rfl⟩
  · rintro ⟨tail, condition, inner, hopen, ⟨hinner, hcondition⟩, hclose, rfl⟩
    exact reads_bind_iff.2 ⟨_, expect_of_trimStart hopen, reads_bind_iff.2 ⟨_, hcondition,
      reads_bind_iff.2 ⟨_, expect_of_trimStart hclose, reads_ok_iff.2 ⟨rfl, rfl⟩⟩⟩⟩

theorem reads_readItems_iff :
    Reads (readItems text) choice rest ↔
      ∃ first middle others, Reads (readItem text) first middle ∧
        Reads (readMoreItems middle) others rest ∧ choice = .ofItems first others := by
  constructor
  · intro h
    obtain ⟨⟨first, middle⟩, hfirst, h⟩ := reads_bind_iff.1 h
    obtain ⟨⟨others, left⟩, hothers, h⟩ := reads_bind_iff.1 h
    obtain ⟨rfl, rfl⟩ := reads_ok_iff.1 h
    exact ⟨first, middle.val, others, ⟨middle.property, hfirst⟩, ⟨left.property, hothers⟩, rfl⟩
  · rintro ⟨first, middle, others, ⟨hmiddle, hfirst⟩, ⟨hrest, hothers⟩, rfl⟩
    exact reads_bind_iff.2 ⟨_, hfirst, reads_bind_iff.2 ⟨_, hothers, reads_ok_iff.2 ⟨rfl, rfl⟩⟩⟩

theorem reads_readChoice_iff :
    Reads (readChoice text) choice rest ↔
      (trimStart text = '*' :: rest ∧ choice = .item .wildcard) ∨
      (∃ tail, trimStart text = '?' :: tail ∧ Reads (readFilter tail) choice rest) ∨
      ((trimStart text).head? ≠ some '*' ∧ (trimStart text).head? ≠ some '?' ∧
        Reads (readItems text) choice rest) := by
  constructor
  · intro h
    rw [readChoice.eq_def] at h
    split at h
    · next left hnext =>
      obtain ⟨rfl, rfl⟩ := reads_ok_iff.1 h
      exact .inl ⟨trimStart_of_nextSign? hnext, rfl⟩
    · next tail hnext =>
      obtain ⟨⟨filter, left⟩, hfilter, h⟩ := reads_bind_iff.1 h
      obtain ⟨rfl, rfl⟩ := reads_ok_iff.1 h
      exact .inr (.inl ⟨tail.val, trimStart_of_nextSign? hnext, left.property, hfilter⟩)
    · next hstar hmark =>
      exact .inr (.inr ⟨head?_trimStart_ne hstar, head?_trimStart_ne hmark, h⟩)
  · rintro (⟨htext, rfl⟩ | ⟨tail, htext, hrest, hfilter⟩ | ⟨hstar, hmark, h⟩)
    · rw [readChoice, nextSign?_of_trimStart htext]
      exact reads_ok_iff.2 ⟨rfl, rfl⟩
    · rw [readChoice, nextSign?_of_trimStart htext]
      exact reads_bind_iff.2 ⟨_, hfilter, reads_ok_iff.2 ⟨rfl, rfl⟩⟩
    · rw [readChoice.eq_def]
      split
      · next left hnext =>
        exact (hstar (congrArg List.head? (trimStart_of_nextSign? hnext))).elim
      · next left hnext =>
        exact (hmark (congrArg List.head? (trimStart_of_nextSign? hnext))).elim
      · exact h

theorem reads_readBrackets_iff :
    Reads (readBrackets text) choice rest ↔
      ∃ inner, Reads (readChoice text) choice inner ∧ trimStart inner = ']' :: rest := by
  constructor
  · intro h
    obtain ⟨⟨inside, inner⟩, hinside, h⟩ := reads_bind_iff.1 h
    obtain ⟨left, hclose, h⟩ := reads_bind_iff.1 h
    obtain ⟨rfl, rfl⟩ := reads_ok_iff.1 h
    exact ⟨inner.val, ⟨inner.property, hinside⟩, expect_eq_ok_iff.1 hclose⟩
  · rintro ⟨inner, ⟨hinner, hinside⟩, hclose⟩
    exact reads_bind_iff.2 ⟨_, hinside,
      reads_bind_iff.2 ⟨_, expect_of_trimStart hclose, reads_ok_iff.2 ⟨rfl, rfl⟩⟩⟩

theorem reads_readMember_iff :
    Reads (readMember text) choice rest ↔
      (text = '*' :: rest ∧ choice = .item .wildcard) ∨
      (text.head? ≠ some '*' ∧ ∃ name, Reads (readName text) name rest ∧
        choice = .item (.name name)) := by
  constructor
  · intro h
    rw [readMember.eq_def] at h
    split at h
    · obtain ⟨rfl, rfl⟩ := reads_ok_iff.1 h
      exact .inl ⟨rfl, rfl⟩
    · next hstar =>
      obtain ⟨⟨name, left⟩, hname, rfl, rfl⟩ := reads_map_iff.1 h
      exact .inr ⟨head?_ne_of_forall hstar, name, ⟨left.property, hname⟩, rfl⟩
  · rintro (⟨rfl, rfl⟩ | ⟨hstar, name, ⟨hrest, hname⟩, rfl⟩)
    · rw [readMember]
      exact reads_ok_iff.2 ⟨rfl, rfl⟩
    · rw [readMember.eq_def]
      split
      · exact (hstar rfl).elim
      · exact reads_map_iff.2 ⟨_, hname, rfl, rfl⟩

theorem reads_readBelow_iff :
    Reads (readBelow text) choice rest ↔
      (∃ tail, text = '[' :: tail ∧ Reads (readBrackets tail) choice rest) ∨
      (text.head? ≠ some '[' ∧ Reads (readMember text) choice rest) := by
  constructor
  · intro h
    rw [readBelow.eq_def] at h
    split at h
    · next tail =>
      obtain ⟨⟨inside, left⟩, hinside, rfl, rfl⟩ := reads_map_iff.1 h
      exact .inl ⟨tail, rfl, left.property, hinside⟩
    · next hbracket => exact .inr ⟨head?_ne_of_forall hbracket, h⟩
  · rintro (⟨tail, rfl, hrest, hinside⟩ | ⟨hbracket, h⟩)
    · rw [readBelow]
      exact reads_map_iff.2 ⟨_, hinside, rfl, rfl⟩
    · rw [readBelow.eq_def]
      split
      · exact (hbracket rfl).elim
      · exact h

theorem reads_readSegment_iff {segment : Segment} :
    Reads (readSegment c text) segment rest ↔
      (c = '[' ∧ ∃ choice, Reads (readBrackets text) choice rest ∧ segment = .child choice) ∨
      (c = '.' ∧
        ((∃ tail choice, text = '.' :: tail ∧ Reads (readBelow tail) choice rest ∧
            segment = .descendant choice) ∨
          (text.head? ≠ some '.' ∧ ∃ choice, Reads (readMember text) choice rest ∧
            segment = .child choice))) := by
  constructor
  · intro h
    rw [readSegment.eq_def] at h
    split at h
    · next hbracket =>
      obtain ⟨⟨choice, left⟩, hchoice, rfl, rfl⟩ := reads_map_iff.1 h
      exact .inl ⟨hbracket, choice, ⟨left.property, hchoice⟩, rfl⟩
    · split at h
      · next hpoint =>
        split at h
        · next tail =>
          obtain ⟨⟨choice, left⟩, hchoice, rfl, rfl⟩ := reads_map_iff.1 h
          exact .inr ⟨hpoint, .inl ⟨tail, choice, rfl, ⟨left.property, hchoice⟩, rfl⟩⟩
        · next hsecond =>
          obtain ⟨⟨choice, left⟩, hchoice, rfl, rfl⟩ := reads_map_iff.1 h
          exact .inr ⟨hpoint, .inr ⟨head?_ne_of_forall hsecond, choice,
            ⟨left.property, hchoice⟩, rfl⟩⟩
      · exact (not_reads_stopAt h).elim
  · rintro (⟨rfl, choice, ⟨hrest, hchoice⟩, rfl⟩ | ⟨rfl, h⟩)
    · rw [readSegment.eq_def, if_pos rfl]
      exact reads_map_iff.2 ⟨_, hchoice, rfl, rfl⟩
    · rw [readSegment.eq_def, if_neg (by decide), if_pos rfl]
      rcases h with ⟨tail, choice, rfl, ⟨hrest, hchoice⟩, rfl⟩ |
        ⟨hsecond, choice, ⟨hrest, hchoice⟩, rfl⟩
      · exact reads_map_iff.2 ⟨_, hchoice, rfl, rfl⟩
      · split
        · exact (hsecond rfl).elim
        · exact reads_map_iff.2 ⟨_, hchoice, rfl, rfl⟩

end

/-- Blanks write no segment. -/
theorem readSegments_of_blanks (h : trimStart text = []) : readSegments text = .ok [] := by
  rw [readSegments, nextSign?_of_blanks h]

/-- The first segment is read from its first character on, and then the others. -/
theorem readSegments_of_trimStart {tail : List Char} (h : trimStart text = c :: tail) :
    readSegments text = readSegment c tail >>= fun (segment, left) =>
      (readSegments left.val).map (segment :: ·) := by
  rw [readSegments, nextSign?_of_trimStart h]
  rfl

end Gleaner.JsonPath
