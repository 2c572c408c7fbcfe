/-
# JSON paths that are read back

What a segment selects is read up to its closing bracket: a row of items, or a condition in
parentheses. A row of segments is then read one segment after another, and a path that is written
without blanks at its ends is read as it stands.

Key definitions: `bracketed`.
Key theorems: `readChoice_written`, `readSegments_append`, `read_writtenPath`, `read_behind`,
`read_bracketed`.
-/
import Gleaner.JsonPath.Basic
import Gleaner.Proofs.JsonPath.Items

namespace Gleaner.JsonPath

open Gleaner.Text Gleaner.Number

variable {c : Char} {text more rest : List Char} (brief : Bool)

/-! ### Choices -/

/-- A condition stands in parentheses behind a question mark. -/
theorem readChoice_filter {condition : Condition}
    (h : Reads (readCondition 0 text) condition (')' :: rest)) :
    Reads (readChoice ('?' :: '(' :: text)) (.filter condition) rest := by
  have hfilter : Reads (readFilter ('(' :: text)) (.filter condition) rest :=
    reads_readFilter_iff.2 ⟨text, condition, _, trimStart_cons (by decide) text, h,
      trimStart_cons (by decide) rest, rfl⟩
  exact reads_readChoice_iff.2 (.inr (.inl ⟨_, trimStart_cons (by decide) _, hfilter⟩))

/-- What a segment selects is read up to its closing bracket. -/
theorem readChoice_written {choice : Choice} (h : choice.Legible) (rest : List Char) :
    Reads (readChoice (choice.written brief ++ ']' :: rest)) choice (']' :: rest) := by
  cases choice with
  | item single =>
    by_cases hstar : single = .wildcard
    · subst hstar
      change Reads (readChoice ('*' :: ']' :: rest)) _ _
      exact reads_readChoice_iff.2 (.inl ⟨trimStart_cons (by decide) _, rfl⟩)
    · exact readChoice_row hstar (Item.spelled_written brief h) .nil rest
  | union items =>
    obtain ⟨hlength, hstar, hitems⟩ := h
    obtain ⟨first, second, others, rfl⟩ : ∃ first second others, items = first :: second :: others := by
      rcases items with _ | ⟨first, _ | ⟨second, others⟩⟩
      · exact absurd hlength (by decide)
      · exact absurd hlength (Nat.lt_irrefl 1)
      · exact ⟨first, second, others, rfl⟩
    have hfirst : first ≠ .wildcard := by
      rintro rfl
      exact hstar rfl
    have hspelled : ∀ item ∈ first :: second :: others,
        Item.Spelled (item.written brief) item :=
      fun item hitem => Item.spelled_written brief (hitems item hitem)
    obtain ⟨hhead, htail⟩ := List.forall_mem_cons.1 hspelled
    have hothers : List.Forall₂ Item.Spelled ((second :: others).map (Item.written brief))
        (second :: others) := by
      rw [List.forall₂_map_left_iff, List.forall₂_same]
      exact htail
    rw [Choice.written, List.map_cons, intercalate_comma]
    exact readChoice_row hfirst hhead hothers rest
  | filter condition =>
    have htext : (Choice.filter condition).written brief ++ ']' :: rest =
        '?' :: '(' :: (condition.written ++ ')' :: ']' :: rest) := by
      simp [Choice.written]
    rw [htext]
    exact readChoice_filter (readCondition_written h (']' :: rest))

/-! ### Segments -/

/-- The closing bracket may have blanks in front of it. -/
theorem readBrackets_of_readChoice {choice : Choice}
    (h : ReadsTo (readChoice text) choice (']' :: rest)) :
    Reads (readBrackets text) choice rest := by
  obtain ⟨blanks, hblanks, hread⟩ := h
  exact reads_readBrackets_iff.2 ⟨_, hread, trimStart_blanks hblanks (by decide) rest⟩

/-- Where another sign comes in place of the closing bracket, reading stops. -/
theorem readBrackets_of_ne {choice : Choice} (h : ReadsTo (readChoice text) choice (c :: rest))
    (hblank : isBlank c = false) (hc : c ≠ ']') :
    readBrackets text = stopAt (c :: rest) (.expected ']') := by
  obtain ⟨blanks, hblanks, hle, hread⟩ := h
  have hclose := expect_of_ne (trimStart_blanks hblanks hblank rest) hc
  rw [readBrackets]
  simp only [hread, hclose, bind, Except.bind]
  rfl

theorem readBrackets_written {choice : Choice} (h : choice.Legible) (rest : List Char) :
    Reads (readBrackets (choice.written brief ++ ']' :: rest)) choice rest :=
  readBrackets_of_readChoice (readChoice_written brief h rest).readsTo

/-- A segment is read from its first character on. -/
theorem readSegment_written {segment : Segment} (h : segment.Legible) (rest : List Char) :
    ∃ c more, segment.written brief ++ rest = c :: more ∧ isBlank c = false ∧
      Reads (readSegment c more) segment rest := by
  cases segment with
  | child choice =>
    exact ⟨'[', choice.written brief ++ ']' :: rest, by simp [Segment.written], by decide,
      reads_readSegment_iff.2 (.inl ⟨rfl, choice, readBrackets_written brief h rest, rfl⟩)⟩
  | descendant choice =>
    have hbelow : Reads (readBelow ('[' :: (choice.written brief ++ ']' :: rest))) choice rest :=
      reads_readBelow_iff.2 (.inl ⟨_, rfl, readBrackets_written brief h rest⟩)
    exact ⟨'.', '.' :: '[' :: (choice.written brief ++ ']' :: rest), by simp [Segment.written],
      by decide, reads_readSegment_iff.2 (.inr ⟨rfl, .inl ⟨_, choice, rfl, hbelow, rfl⟩⟩)⟩

/-- The segments of a path are read one after another, and then what stands behind them. -/
theorem readSegments_append (text : List Char) : ∀ {segments : List Segment},
    (∀ segment ∈ segments, segment.Legible) →
      readSegments (segments.flatMap (Segment.written brief) ++ text) =
        (readSegments text).map (segments ++ ·)
  | [], _ => by
    rw [List.flatMap_nil, List.nil_append]
    cases readSegments text <;> rfl
  | segment :: segments, h => by
    obtain ⟨c, more, hcons, hblank, hle, hread⟩ := readSegment_written brief
      (h segment List.mem_cons_self) (segments.flatMap (Segment.written brief) ++ text)
    have hrest := readSegments_append text
      (fun s hs => h s (List.mem_cons_of_mem segment hs))
    rw [List.flatMap_cons, List.append_assoc, hcons,
      readSegments_of_trimStart (trimStart_cons hblank more), hread]
    show (readSegments (segments.flatMap (Segment.written brief) ++ text)).map (segment :: ·) = _
    rw [hrest]
    cases readSegments text <;> rfl

theorem readSegments_nil : readSegments [] = .ok [] :=
  readSegments_of_blanks rfl

theorem readSegments_written {segments : List Segment}
    (h : ∀ segment ∈ segments, segment.Legible) :
    readSegments (segments.flatMap (Segment.written brief)) = .ok segments := by
  have hread := readSegments_append brief [] h
  rwa [List.append_nil, readSegments_nil, Except.map, List.append_nil] at hread

/-- A segment in brackets is read, and then the segments behind it. -/
theorem readSegments_bracket (text : List Char) :
    readSegments ('[' :: text) =
      (readBrackets text >>= fun (choice, left) =>
        (readSegments left.val).map (.child choice :: ·)) := by
  rw [readSegments_of_trimStart (trimStart_cons (by decide) text)]
  unfold readSegment
  rw [if_pos rfl]
  cases readBrackets text <;> rfl

/-! ### Whole paths -/

theorem Segment.solid_written (segment : Segment) : Solid (segment.written brief) := by
  cases segment with
  | child choice =>
    exact ⟨⟨'[', _, rfl, by decide⟩, ⟨'[' :: choice.written brief, ']', rfl, by decide⟩⟩
  | descendant choice =>
    exact ⟨⟨'.', _, rfl, by decide⟩,
      ⟨'.' :: '.' :: '[' :: choice.written brief, ']', rfl, by decide⟩⟩

/-- There are no blanks at the ends of a path. -/
theorem solid_append_segments : ∀ {front : List Char} (_ : Solid front) (segments : List Segment),
    Solid (front ++ segments.flatMap (Segment.written brief))
  | front, h, [] => by simpa using h
  | front, h, segment :: segments => by
    rw [List.flatMap_cons, ← List.append_assoc]
    exact solid_append_segments (h.append (segment.solid_written brief)) segments

/-- A path with a dollar sign in front and no blank at its end is read as it stands. -/
theorem rootedText_dollar (h : Solid ('$' :: text)) : rootedText ('$' :: text) = '$' :: text := by
  rw [rootedText, h.trim_eq]
  rfl

/-- Behind the dollar sign stand the segments. -/
theorem readRooted_dollar (text : List Char) : readRooted ('$' :: text) = readSegments text := by
  show (expect '$' ('$' :: text) >>= fun rest => readSegments rest.val) = _
  rw [expect_self (by decide)]
  rfl

theorem rootedText_writtenPath (segments : List Segment) :
    rootedText (writtenPath brief segments) = writtenPath brief segments := by
  have hdollar : Solid ['$'] := Solid.of_forall (by simp) (by decide)
  exact rootedText_dollar (solid_append_segments brief hdollar segments)

/-- A text that writes segments is read as these. -/
theorem read_of_written {text : String} {segments : List Segment}
    (htext : String.ofList (writtenPath brief segments) = text)
    (h : ∀ segment ∈ segments, segment.Legible) : JsonPath.read text = .ok ⟨text, segments⟩ := by
  subst htext
  have hread : readRooted (writtenPath brief segments) = .ok segments :=
    (readRooted_dollar _).trans (readSegments_written brief h)
  rw [JsonPath.read]
  simp only [String.toList_ofList, rootedText_writtenPath, hread]

/-- **A path is read back as it was written.** Every row of segments that can be written is read
from its text, whether steps of one are put down or left out. -/
theorem read_writtenPath (segments : List Segment) (h : ∀ segment ∈ segments, segment.Legible) :
    JsonPath.read (String.ofList (writtenPath brief segments)) =
      .ok ⟨String.ofList (writtenPath brief segments), segments⟩ :=
  read_of_written brief rfl h

theorem rootedText_closed (text : List Char) :
    rootedText ('$' :: (text ++ [']'])) = '$' :: (text ++ [']']) :=
  rootedText_dollar ⟨⟨'$', _, rfl, by decide⟩, ⟨'$' :: text, ']', rfl, by decide⟩⟩

/-- Behind other segments, a segment in brackets is read when what stands between its brackets is. -/
theorem read_behind {front : List Segment} {choice : Choice}
    (hfront : ∀ segment ∈ front, segment.Legible)
    (h : ReadsTo (readChoice (text ++ [']'])) choice [']']) :
    JsonPath.read (String.ofList (writtenPath brief front ++ '[' :: (text ++ [']']))) =
      .ok ⟨String.ofList (writtenPath brief front ++ '[' :: (text ++ [']'])),
        front ++ [.child choice]⟩ := by
  obtain ⟨hlt, hread⟩ := readBrackets_of_readChoice h
  have htext : writtenPath brief front ++ '[' :: (text ++ [']']) =
      '$' :: ((front.flatMap (Segment.written brief) ++ '[' :: text) ++ [']']) := by
    simp [writtenPath]
  have hsegments : readSegments ((front.flatMap (Segment.written brief) ++ '[' :: text) ++ [']']) =
      .ok (front ++ [.child choice]) := by
    rw [List.append_assoc, readSegments_append brief _ hfront, List.cons_append,
      readSegments_bracket, hread]
    simp only [bind, Except.bind, readSegments_nil, Except.map]
  rw [JsonPath.read, String.toList_ofList, htext, rootedText_closed, readRooted_dollar, hsegments]

/-- A path of one segment, with brackets around a text. -/
def bracketed (text : List Char) : List Char :=
  '$' :: '[' :: (text ++ [']'])

/-- A path of one segment is read when what stands between its brackets is. -/
theorem read_bracketed {choice : Choice} (h : ReadsTo (readChoice (text ++ [']'])) choice [']']) :
    JsonPath.read (String.ofList (bracketed text)) =
      .ok ⟨String.ofList (bracketed text), [.child choice]⟩ := by
  have hfront : ∀ segment ∈ ([] : List Segment), segment.Legible :=
    fun _ hmem => absurd hmem List.not_mem_nil
  have htext : bracketed text = writtenPath true [] ++ '[' :: (text ++ [']']) := rfl
  rw [htext, read_behind true hfront h, List.nil_append]

/-- Where another sign comes in place of the closing bracket, no path of one segment is read. -/
theorem read_bracketed_of_ne {choice : Choice}
    (h : ReadsTo (readChoice (text ++ [']'])) choice (c :: rest)) (hblank : isBlank c = false)
    (hc : c ≠ ']') :
    JsonPath.read (String.ofList (bracketed text)) =
      .error (.unreadable (String.ofList (bracketed text)) (.expected ']')
        ((bracketed text).length - (c :: rest).length)) := by
  have hsegments : readSegments (('[' :: text) ++ [']']) = stopAt (c :: rest) (.expected ']') := by
    rw [List.cons_append, readSegments_bracket, readBrackets_of_ne h hblank hc]
    rfl
  have htext : bracketed text = '$' :: (('[' :: text) ++ [']']) := rfl
  rw [JsonPath.read, String.toList_ofList, htext, rootedText_closed, readRooted_dollar, hsegments]
  rfl

/-- A path with every kind of segment: names with marks in them, a union with the least index and
slices without bounds, and a condition whose parentheses are all needed. -/
def tangledPath : List Segment :=
  [.child (.item (.name "it's a \\")),
    .descendant (.union [.index (-9223372036854775808), .wildcard, .slice none (some (-1)) (-2),
      .slice (some 3) none 1, .name ""]),
    .child (.filter (.and
      (.or (.present [.name "a"]) (.not (.or (.present []) (.present [.index (-1)]))))
      (.and (.not (.not (.compare [.name "b"] .notEqual (.string "]'"))))
        (.compare [.index 0] .less (.number (.integer (-7))))))),
    .descendant (.item .wildcard)]

theorem read_tangledPath :
    writtenPath true tangledPath =
        ("$['it\\'s a \\\\']..[-9223372036854775808,*,:-1:-2,3:,'']" ++
          "[?((@['a']||!(@||@[-1]))&&(!!@['b']!=']\\''&&@[0]<-7))]..[*]").toList ∧
      (∀ segment ∈ tangledPath, segment.Legible) ∧
      JsonPath.read (String.ofList (writtenPath true tangledPath)) =
        .ok ⟨String.ofList (writtenPath true tangledPath), tangledPath⟩ := by
  have hlegible : ∀ segment ∈ tangledPath, segment.Legible := by
    simp [tangledPath, Segment.Legible, Choice.Legible, Item.Legible, Condition.Legible,
      LegibleLiteral, Key.Legible]
    decide
  exact ⟨by decide +kernel, hlegible, read_writtenPath true tangledPath hlegible⟩

end Gleaner.JsonPath
