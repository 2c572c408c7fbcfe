/-
# Readings of the front of a text

A reader of a JSON path looks at two characters at most behind what it takes. So what it takes of a
text it also takes where more comes behind the text, if it has left these two; most readers need to
leave one only, and a string, or a row of items with its closing bracket, none. This holds of each
reader because it holds of those whose parts it puts together.

Key definitions: `Lasting`.
Key theorems: `readName_append`, `lasting_readInteger`, `lasting_readMoreItems`, `lasting_readKeys`,
`lasting_readLiteral`, `lasting_readCondition`, `lasting_readBrackets`.
-/
import Gleaner.Proofs.JsonPath.Clauses

namespace Gleaner.JsonPath

open Gleaner.Text Gleaner.Number

/-- What the reader takes of the text it also takes where more comes behind the text, if it has left
at least so many characters. -/
def Lasting {α : Type} {A : List Char → List Char → Prop} (room : Nat)
    (reader : (text : List Char) → Except Stop (α × { rest : List Char // A text rest }))
    (text : List Char) : Prop :=
  ∀ a rest, Reads (reader text) a rest → room ≤ rest.length →
    ∀ more, Reads (reader (text ++ more)) a (rest ++ more)

variable {c : Char} {text rest : List Char}

/-! ### Texts with more behind them -/

theorem head?_followed (h : text ≠ []) (more : List Char) : (text ++ more).head? = text.head? := by
  obtain ⟨c, tail, rfl⟩ := List.exists_cons_of_ne_nil h
  rfl

/-- Where something is left behind the characters with a property, they end there whatever comes
behind it. -/
theorem span_followed {p : Char → Bool} (h : text.dropWhile p ≠ []) (more : List Char) :
    (text ++ more).takeWhile p = text.takeWhile p ∧
      (text ++ more).dropWhile p = text.dropWhile p ++ more := by
  have hfront : ∀ c ∈ text.takeWhile p, p c = true :=
    fun c hc => List.all_eq_true.1 List.all_takeWhile c hc
  have hrest : ∀ c ∈ (text.dropWhile p ++ more).head?, p c = false := by
    rw [head?_followed h]
    exact forall_head?_dropWhile p text
  have hspan := span_append hfront hrest
  rwa [← List.append_assoc, List.takeWhile_append_dropWhile] at hspan

theorem trimStart_followed (h : trimStart text ≠ []) (more : List Char) :
    trimStart (text ++ more) = trimStart text ++ more :=
  (span_followed h more).2

theorem trimStart_followed_cons (h : trimStart text = c :: rest) (more : List Char) :
    trimStart (text ++ more) = c :: (rest ++ more) := by
  rw [trimStart_followed (h ▸ List.cons_ne_nil c rest), h, List.cons_append]

theorem ne_nil_of_room {room : Nat} (h : room + 1 ≤ text.length) : text ≠ [] :=
  List.ne_nil_of_length_pos (Nat.lt_of_lt_of_le (Nat.succ_pos room) h)

/-- The next sign is another one whatever comes behind. -/
theorem head?_trimStart_followed (h : trimStart text ≠ []) (hc : (trimStart text).head? ≠ some c)
    (more : List Char) : (trimStart (text ++ more)).head? ≠ some c := by
  rwa [trimStart_followed h, head?_followed h]

/-! ### Names, strings and integers -/

/-- A name is taken again if what comes behind it does not go on with it. -/
theorem readName_append {name : String} {more : List Char} (h : Reads (readName text) name rest)
    (hmore : ∀ c ∈ (rest ++ more).head?, isMemberChar c = false) :
    Reads (readName (text ++ more)) name (rest ++ more) := by
  obtain ⟨front, hne, hfront, -, rfl, rfl⟩ := reads_readName_iff.1 h
  exact reads_readName_iff.2 ⟨front, hne, hfront, hmore, List.append_assoc .., rfl⟩

theorem lasting_readName (text : List Char) : Lasting 1 readName text := by
  intro name rest h hroom more
  refine readName_append h ?_
  rw [head?_followed (ne_nil_of_room hroom)]
  obtain ⟨_, _, _, hrest, _⟩ := reads_readName_iff.1 h
  exact hrest

theorem lasting_readQuoted {mark : Char} (hmark : isMark mark = true) (text : List Char) :
    Lasting 0 (readQuoted mark) text := by
  intro chars rest h _ more
  obtain ⟨body, hbody, rfl⟩ := (reads_readQuoted_iff hmark).1 h
  exact (reads_readQuoted_iff hmark).2 ⟨body, hbody, by rw [List.append_assoc, List.cons_append]⟩

theorem splitInteger_followed (h : (splitInteger text).2.val ≠ []) (more : List Char) :
    (splitInteger (text ++ more)).1 = (splitInteger text).1 ∧
      (splitInteger (text ++ more)).2.val = (splitInteger text).2.val ++ more := by
  cases text with
  | nil => exact (h rfl).elim
  | cons c text =>
    by_cases hminus : c = '-'
    · subst hminus
      obtain ⟨htake, hdrop⟩ := span_followed (p := isDigit) h more
      exact ⟨congrArg ('-' :: ·) htake, hdrop⟩
    · have hplain (tail : List Char) : splitInteger (c :: tail) =
          ((c :: tail).takeWhile isDigit, skipWhile isDigit (c :: tail)) := by
        rw [splitInteger]
        exact fun _ heq => hminus (List.cons.inj heq).1
      rw [hplain] at h
      rw [List.cons_append, hplain, hplain]
      exact span_followed h more

theorem lasting_readInteger (text : List Char) : Lasting 1 readInteger text := by
  intro found? rest h hroom more
  obtain ⟨rfl, hfound⟩ := reads_readInteger_iff.1 h
  have hne := ne_nil_of_room hroom
  have hstart : trimStart text ≠ [] := fun hnil => hne (by rw [hnil]; rfl)
  obtain ⟨hchars, hleft⟩ := splitInteger_followed hne more
  rw [← trimStart_followed hstart] at hchars hleft
  refine reads_readInteger_iff.2 ⟨hleft.symm, ?_⟩
  rwa [hchars]

/-! ### Items -/

theorem lasting_readStep (text : List Char) : Lasting 1 readStep text := by
  intro step rest h hroom more
  rcases reads_readStep_iff.1 h with ⟨tail, step?, htext, hread, hzero, rfl⟩ | ⟨hcolon, rfl, rfl⟩
  · exact reads_readStep_iff.2 (.inl ⟨_, step?, trimStart_followed_cons htext more,
      lasting_readInteger tail _ _ hread hroom more, hzero, rfl⟩)
  · have hne := ne_nil_of_room hroom
    exact reads_readStep_iff.2 (.inr ⟨head?_trimStart_followed hne hcolon more, rfl,
      (trimStart_followed hne more).symm⟩)

theorem lasting_readPositions (text : List Char) : Lasting 1 readPositions text := by
  intro item rest h hroom more
  obtain ⟨start, middle, hstart, h⟩ := reads_readPositions_iff.1 h
  rcases h with ⟨tail, stop, after, step, htext, hstop, hstep, rfl⟩ | ⟨hcolon, rfl, n, rfl, rfl⟩
  · have hafter : 1 ≤ after.length := Nat.le_trans hroom hstep.left
    have hmiddle : 1 ≤ middle.length :=
      Nat.lt_of_le_of_lt (Nat.zero_le _) (length_lt_of_trimStart htext)
    exact reads_readPositions_iff.2 ⟨start, _, lasting_readInteger text _ _ hstart hmiddle more,
      .inl ⟨_, stop, _, step, trimStart_followed_cons htext more,
        lasting_readInteger tail _ _ hstop hafter more,
        lasting_readStep after _ _ hstep hroom more, rfl⟩⟩
  · have hmiddle : 1 ≤ middle.length := Nat.le_trans hroom (length_trimStart_le middle)
    have hne := ne_nil_of_room hroom
    exact reads_readPositions_iff.2 ⟨some n, _, lasting_readInteger text _ _ hstart hmiddle more,
      .inr ⟨head?_trimStart_followed hne hcolon more, (trimStart_followed hne more).symm, n, rfl,
        rfl⟩⟩

theorem lasting_readItem (text : List Char) : Lasting 1 readItem text := by
  intro item rest h hroom more
  obtain ⟨c, tail, htext, h⟩ := reads_readItem_iff.1 h
  refine reads_readItem_iff.2 ⟨c, _, trimStart_followed_cons htext more, ?_⟩
  rcases h with ⟨hmark, chars, hchars, rfl⟩ | ⟨rfl, rfl, rfl⟩ | ⟨hmark, hstar, h⟩
  · exact .inl ⟨hmark, chars, lasting_readQuoted hmark tail _ _ hchars (Nat.zero_le _) more, rfl⟩
  · exact .inr (.inl ⟨rfl, rfl, rfl⟩)
  · exact .inr (.inr ⟨hmark, hstar, lasting_readPositions text _ _ h hroom more⟩)

/-- An item, even one without text, is read in front of something. -/
theorem trimStart_ne_nil_of_readItems {choice : Choice} (h : Reads (readItems text) choice rest) :
    trimStart text ≠ [] := by
  obtain ⟨first, middle, others, hfirst, -, -⟩ := reads_readItems_iff.1 h
  obtain ⟨c, tail, htext, -⟩ := reads_readItem_iff.1 hfirst
  exact htext ▸ List.cons_ne_nil c tail

theorem lasting_readMoreItems (text : List Char) : Lasting 1 readMoreItems text := by
  intro items rest h hroom more
  rcases reads_readMoreItems_iff.1 h with
    ⟨tail, first, middle, others, htext, hfirst, hothers, rfl⟩ | ⟨hcomma, rfl, rfl⟩
  · have hmiddle : 1 ≤ middle.length := Nat.le_trans hroom hothers.left
    have hshorter : middle.length < text.length :=
      Nat.lt_of_le_of_lt hfirst.left (length_lt_of_trimStart htext)
    exact reads_readMoreItems_iff.2 (.inl ⟨_, first, _, others, trimStart_followed_cons htext more,
      lasting_readItem tail _ _ hfirst hmiddle more,
      lasting_readMoreItems middle _ _ hothers hroom more, rfl⟩)
  · have hne := ne_nil_of_room hroom
    exact reads_readMoreItems_iff.2 (.inr ⟨head?_trimStart_followed hne hcomma more, rfl,
      (trimStart_followed hne more).symm⟩)
termination_by text.length

/-! ### Paths inside conditions -/

theorem lasting_readKey (text : List Char) : Lasting 1 readKey text := by
  intro key rest h hroom more
  obtain ⟨c, tail, htext, h⟩ := reads_readKey_iff.1 h
  refine reads_readKey_iff.2 ⟨c, _, trimStart_followed_cons htext more, ?_⟩
  rcases h with ⟨hmark, chars, hchars, rfl⟩ | ⟨hmark, n, hindex, rfl⟩
  · exact .inl ⟨hmark, chars, lasting_readQuoted hmark tail _ _ hchars (Nat.zero_le _) more, rfl⟩
  · exact .inr ⟨hmark, n, lasting_readInteger text _ _ hindex hroom more, rfl⟩

theorem lasting_readKeys (text : List Char) : Lasting 1 readKeys text := by
  intro keys rest h hroom more
  rcases reads_readKeys_iff.1 h with ⟨tail, name, middle, others, rfl, hname, hothers, rfl⟩ |
    ⟨tail, key, inner, middle, others, rfl, hkey, hclose, hothers, rfl⟩ |
    ⟨hpoint, hbracket, rfl, rfl⟩
  · have hmiddle : 1 ≤ middle.length := Nat.le_trans hroom hothers.left
    have hshorter : middle.length < tail.length := hname.left
    exact reads_readKeys_iff.2 (.inl ⟨_, name, _, others, List.cons_append,
      lasting_readName tail _ _ hname hmiddle more, lasting_readKeys middle _ _ hothers hroom more,
      rfl⟩)
  · have hinner : middle.length < inner.length := length_lt_of_trimStart hclose
    have hshorter : inner.length ≤ tail.length := hkey.left
    have hroomy : 1 ≤ inner.length := Nat.lt_of_le_of_lt (Nat.zero_le _) hinner
    exact reads_readKeys_iff.2 (.inr (.inl ⟨_, key, _, _, others, List.cons_append,
      lasting_readKey tail _ _ hkey hroomy more, trimStart_followed_cons hclose more,
      lasting_readKeys middle _ _ hothers hroom more, rfl⟩))
  · have hhead := head?_followed (ne_nil_of_room hroom) more
    refine reads_readKeys_iff.2 (.inr (.inr ⟨?_, ?_, rfl, rfl⟩))
    · rwa [hhead]
    · rwa [hhead]
termination_by text.length
decreasing_by all_goals grind

/-! ### Comparisons and literals -/

theorem length_writtenSign_le (comparison : Comparison) : (writtenSign comparison).length ≤ 2 := by
  cases comparison <;> decide

/-- The first two characters tell that no comparison comes. -/
theorem readComparison?_none_followed (h : readComparison? text = none) (hroom : 2 ≤ text.length)
    (more : List Char) : readComparison? (text ++ more) = none := by
  rw [Option.eq_none_iff_forall_ne_some]
  rintro ⟨comparison, left⟩ hsome
  obtain ⟨htext, hequal⟩ := readComparison?_eq_some_iff.1 hsome
  have hsize : (writtenSign comparison).length ≤ text.length :=
    Nat.le_trans (length_writtenSign_le comparison) hroom
  obtain ⟨tail, rfl⟩ : writtenSign comparison <+: text :=
    List.prefix_of_prefix_length_le ⟨left.val, htext.symm⟩ (List.prefix_append ..) hsize
  have hrest : tail ++ more = left.val :=
    List.append_cancel_left ((List.append_assoc ..).symm.trans htext)
  have htail : readComparison? (writtenSign comparison ++ tail) =
      some (comparison, ⟨tail, by simp⟩) := by
    refine readComparison?_eq_some_iff.2 ⟨rfl, fun hsingle => ?_⟩
    have hne : tail ≠ [] := by
      rintro rfl
      rcases hsingle with rfl | rfl <;> exact absurd hroom (by decide)
    have hhead := hequal hsingle
    rwa [← hrest, head?_followed hne] at hhead
  cases h.symm.trans htail

theorem lasting_readNumber (text : List Char) : Lasting 1 readNumber text := by
  intro literal rest h hroom more
  obtain ⟨n, hn, rfl, rfl⟩ := reads_readNumber_iff.1 h
  obtain ⟨htake, hdrop⟩ := span_followed (ne_nil_of_room hroom) more
  exact reads_readNumber_iff.2 ⟨n, by rwa [htake], rfl, hdrop.symm⟩

/-- Where a number is read there is no word, whatever comes behind it. -/
theorem readWord?_of_reads_readNumber {tail : List Char} {literal : Json}
    (h : Reads (readNumber (c :: tail)) literal rest) (more : List Char) :
    readWord? (c :: more) = none := by
  obtain ⟨n, hn, -, -⟩ := reads_readNumber_iff.1 h
  have hc : isNumberChar c = true := by
    by_contra hc
    rw [List.takeWhile_cons, if_neg hc] at hn
    cases hn
  rw [Option.eq_none_iff_forall_ne_some]
  rintro ⟨literal, left⟩ hsome
  rcases readWord?_eq_some_iff.1 hsome with ⟨-, hword⟩ | ⟨-, hword⟩ | ⟨-, hword⟩
  · rw [(List.cons.inj hword).1] at hc
    cases hc
  · rw [(List.cons.inj hword).1] at hc
    cases hc
  · rw [(List.cons.inj hword).1] at hc
    cases hc

theorem readWord?_followed {literal : Json} {left : Rest text}
    (h : readWord? text = some (literal, left)) (more : List Char) :
    ∃ hle, readWord? (text ++ more) = some (literal, ⟨left.val ++ more, hle⟩) := by
  have hle : (left.val ++ more).length ≤ (text ++ more).length := by
    rw [List.length_append, List.length_append]
    exact Nat.add_le_add_right left.property _
  refine ⟨hle, readWord?_eq_some_iff.2 ?_⟩
  have hword (word : List Char) (htext : text = word ++ left.val) :
      text ++ more = word ++ (left.val ++ more) := by
    rw [← List.append_assoc, ← htext]
  rcases readWord?_eq_some_iff.1 h with ⟨rfl, htext⟩ | ⟨rfl, htext⟩ | ⟨rfl, htext⟩
  · exact .inl ⟨rfl, hword _ htext⟩
  · exact .inr (.inl ⟨rfl, hword _ htext⟩)
  · exact .inr (.inr ⟨rfl, hword _ htext⟩)

theorem lasting_readLiteralHere (text : List Char) : Lasting 1 readLiteralHere text := by
  intro literal rest h hroom more
  obtain ⟨c, tail, rfl, h⟩ := reads_readLiteralHere_iff.1 h
  refine reads_readLiteralHere_iff.2 ⟨c, _, List.cons_append, ?_⟩
  rcases h with ⟨hmark, chars, hchars, rfl⟩ | ⟨hmark, left, hword, rfl⟩ | ⟨hmark, -, h⟩
  · exact .inl ⟨hmark, chars, lasting_readQuoted hmark tail _ _ hchars (Nat.zero_le _) more, rfl⟩
  · obtain ⟨hle, hword⟩ := readWord?_followed hword more
    exact .inr (.inl ⟨hmark, _, hword, rfl⟩)
  · exact .inr (.inr ⟨hmark, readWord?_of_reads_readNumber h _,
      lasting_readNumber _ _ _ h hroom more⟩)

theorem lasting_readLiteral (text : List Char) : Lasting 1 readLiteral text := by
  intro literal rest h hroom more
  have hread := reads_readLiteral_iff.1 h
  have hstart : trimStart text ≠ [] := ne_nil_of_room (Nat.le_trans hroom hread.left)
  rw [reads_readLiteral_iff, trimStart_followed hstart]
  exact lasting_readLiteralHere _ _ _ hread hroom more

/-! ### Conditions -/

theorem lasting_readComparedPath (text : List Char) : Lasting 2 readComparedPath text := by
  intro condition rest h hroom more
  obtain ⟨path, middle, hpath, h⟩ := reads_readComparedPath_iff.1 h
  rcases h with ⟨comparison, tail, literal, htext, hequal, hliteral, rfl⟩ | ⟨hnone, rfl, rfl⟩
  · have htail : tail ≠ [] := ne_nil_of_room (Nat.le_trans hroom hliteral.left)
    have hstart : trimStart middle ≠ [] := htext ▸ List.append_ne_nil_of_right_ne_nil _ htail
    have hmiddle : 1 ≤ middle.length :=
      Nat.le_trans (List.length_pos_iff.2 hstart) (length_trimStart_le middle)
    refine reads_readComparedPath_iff.2 ⟨path, _, lasting_readKeys text _ _ hpath hmiddle more,
      .inl ⟨comparison, tail ++ more, literal, ?_, ?_,
        lasting_readLiteral tail _ _ hliteral (Nat.le_of_succ_le hroom) more, rfl⟩⟩
    · rw [trimStart_followed hstart, htext, List.append_assoc]
    · rwa [head?_followed htail]
  · have hstart := ne_nil_of_room hroom
    have hmiddle : 1 ≤ middle.length :=
      Nat.le_trans (Nat.le_of_succ_le hroom) (length_trimStart_le middle)
    refine reads_readComparedPath_iff.2 ⟨path, _, lasting_readKeys text _ _ hpath hmiddle more,
      .inr ⟨?_, rfl, (trimStart_followed hstart more).symm⟩⟩
    rw [trimStart_followed hstart]
    exact readComparison?_none_followed hnone hroom more

/-- The first two characters tell that no connective comes. -/
theorem connective?_none_followed {level : Nat} (h : connective? level text = none)
    (hroom : 2 ≤ text.length) (more : List Char) : connective? level (text ++ more) = none := by
  obtain ⟨c, d, tail, rfl⟩ : ∃ c d tail, text = c :: d :: tail := by
    match text, hroom with
    | c :: d :: tail, _ => exact ⟨c, d, tail, rfl⟩
  rw [Option.eq_none_iff_forall_ne_some]
  intro left hsome
  obtain ⟨hlevel, htext⟩ := connective?_eq_some_iff.1 hsome
  obtain ⟨rfl, htext⟩ := List.cons.inj htext
  obtain ⟨rfl, -⟩ := List.cons.inj htext
  have hlt : tail.length < (connectiveSign level :: connectiveSign level :: tail).length :=
    Nat.lt_succ_of_le (Nat.le_succ _)
  have hfound : connective? level (connectiveSign level :: connectiveSign level :: tail) =
      some ⟨tail, hlt⟩ := connective?_eq_some_iff.2 ⟨hlevel, rfl⟩
  cases h.symm.trans hfound

mutual

/-- What is taken for a condition is taken again, as its parts are. -/
theorem lasting_readCondition (level : Nat) (text : List Char) :
    Lasting 2 (readCondition level) text := by
  intro condition rest h hroom more
  rcases reads_readCondition_iff.1 h with ⟨hlevel, first, middle, hfirst, hwhole⟩ | ⟨hlevel, hterm⟩
  · have hshorter : middle.length < text.length := hfirst.left
    have hmiddle : 2 ≤ middle.length := Nat.le_trans hroom hwhole.left
    exact reads_readCondition_iff.2 (.inl ⟨hlevel, first, _,
      lasting_readCondition (level + 1) text _ _ hfirst hmiddle more,
      lasting_readConnected level first middle _ _ hwhole hroom more⟩)
  · exact reads_readCondition_iff.2 (.inr ⟨hlevel, lasting_readTerm text _ _ hterm hroom more⟩)
termination_by (text.length, 2 + (2 - level))

theorem lasting_readConnected (level : Nat) (first : Condition) (text : List Char) :
    Lasting 2 (readConnected level first) text := by
  intro condition rest h hroom more
  rcases reads_readConnected_iff.1 h with ⟨tail, second, middle, hlevel, htext, hsecond, hwhole⟩ |
    ⟨hnone, rfl, rfl⟩
  · have htail : tail.length < text.length := Nat.lt_of_succ_lt (length_lt_of_trimStart htext)
    have hshorter : middle.length < tail.length := hsecond.left
    have hmiddle : 2 ≤ middle.length := Nat.le_trans hroom hwhole.left
    exact reads_readConnected_iff.2 (.inl ⟨tail ++ more, second, _, hlevel,
      trimStart_followed_cons htext more,
      lasting_readCondition (level + 1) tail _ _ hsecond hmiddle more,
      lasting_readConnected level _ middle _ _ hwhole hroom more⟩)
  · have hfollowed := trimStart_followed (ne_nil_of_room hroom) more
    refine reads_readConnected_iff.2 (.inr ⟨?_, rfl, hfollowed.symm⟩)
    rw [hfollowed]
    exact connective?_none_followed hnone hroom more
termination_by (text.length, 0)

theorem lasting_readTerm (text : List Char) : Lasting 2 readTerm text := by
  intro condition rest h hroom more
  obtain ⟨c, tail, htext, h⟩ := reads_readTerm_iff.1 h
  have hshorter := length_lt_of_trimStart htext
  refine reads_readTerm_iff.2 ⟨c, _, trimStart_followed_cons htext more, ?_⟩
  rcases h with ⟨rfl, inner, hinside, hclose⟩ | ⟨rfl, hequal, denied, hdenied, rfl⟩ | ⟨rfl, hvalue⟩
  · have hinner : 2 ≤ inner.length :=
      Nat.le_trans hroom (Nat.le_of_lt (length_lt_of_trimStart hclose))
    exact .inl ⟨rfl, _, lasting_readCondition 0 tail _ _ hinside hinner more,
      trimStart_followed_cons hclose more⟩
  · have hne : tail ≠ [] := List.ne_nil_of_length_pos (Nat.zero_lt_of_lt hdenied.left)
    refine .inr (.inl ⟨rfl, ?_, denied, lasting_readTerm tail _ _ hdenied hroom more, rfl⟩)
    rwa [head?_followed hne]
  · exact .inr (.inr ⟨rfl, lasting_readComparedPath tail _ _ hvalue hroom more⟩)
termination_by (text.length, 1)
decreasing_by all_goals grind

end

theorem lasting_readFilter (text : List Char) : Lasting 1 readFilter text := by
  intro choice rest h hroom more
  obtain ⟨tail, condition, inner, hopen, hcondition, hclose, rfl⟩ := reads_readFilter_iff.1 h
  have hinner : 2 ≤ inner.length := Nat.lt_of_le_of_lt hroom (length_lt_of_trimStart hclose)
  exact reads_readFilter_iff.2 ⟨_, condition, _, trimStart_followed_cons hopen more,
    lasting_readCondition 0 tail _ _ hcondition hinner more, trimStart_followed_cons hclose more,
    rfl⟩

/-! ### Segments -/

theorem lasting_readItems (text : List Char) : Lasting 1 readItems text := by
  intro choice rest h hroom more
  obtain ⟨first, middle, others, hfirst, hothers, rfl⟩ := reads_readItems_iff.1 h
  have hmiddle : 1 ≤ middle.length := Nat.le_trans hroom hothers.left
  exact reads_readItems_iff.2 ⟨first, _, others, lasting_readItem text _ _ hfirst hmiddle more,
    lasting_readMoreItems middle _ _ hothers hroom more, rfl⟩

theorem lasting_readChoice (text : List Char) : Lasting 1 readChoice text := by
  intro choice rest h hroom more
  rcases reads_readChoice_iff.1 h with ⟨htext, rfl⟩ | ⟨tail, htext, hfilter⟩ |
    ⟨hstar, hmark, hitems⟩
  · exact reads_readChoice_iff.2 (.inl ⟨trimStart_followed_cons htext more, rfl⟩)
  · exact reads_readChoice_iff.2 (.inr (.inl ⟨_, trimStart_followed_cons htext more,
      lasting_readFilter tail _ _ hfilter hroom more⟩))
  · have hstart : trimStart text ≠ [] := trimStart_ne_nil_of_readItems hitems
    exact reads_readChoice_iff.2 (.inr (.inr ⟨head?_trimStart_followed hstart hstar more,
      head?_trimStart_followed hstart hmark more, lasting_readItems text _ _ hitems hroom more⟩))

/-- What stands between brackets is taken again, whatever is left behind the closing one. -/
theorem lasting_readBrackets (text : List Char) : Lasting 0 readBrackets text := by
  intro choice rest h _ more
  obtain ⟨inner, hinside, hclose⟩ := reads_readBrackets_iff.1 h
  have hinner : 1 ≤ inner.length :=
    Nat.lt_of_le_of_lt (Nat.zero_le _) (length_lt_of_trimStart hclose)
  exact reads_readBrackets_iff.2 ⟨_, lasting_readChoice text _ _ hinside hinner more,
    trimStart_followed_cons hclose more⟩

end Gleaner.JsonPath
