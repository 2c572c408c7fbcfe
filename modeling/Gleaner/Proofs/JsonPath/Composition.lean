/-
# Paths written one behind the other

A name of a path goes on for as long as characters of names come, and blanks are passed over only in
front of some signs. Still nothing of a path that is read runs on into another one behind it: what
can be read behind the dollar sign begins with a sign or a blank, and neither is part of a name. So
the segments of two paths, the second without its dollar sign, are those of the first and then those
of the second, and the second selects from each value that the first selects.

Key theorems: `readSegment_append`, `readSegments_followed`, `read_joined`.
-/
import Gleaner.Proofs.JsonPath.Front
import Gleaner.Proofs.JsonPath.Whole
import Mathlib.Data.List.Permutation

namespace Gleaner.JsonPath

open Gleaner.Text

variable {c : Char} {text rest more : List Char}

/-! ### Where names end -/

theorem not_blank_of_isMemberChar (h : isMemberChar c = true) : isBlank c = false := by
  simp only [isMemberChar, Bool.or_eq_true, beq_iff_eq] at h
  rcases h with ((((h | rfl) | rfl) | rfl) | rfl) | rfl
  · exact not_blank_of_isAlphanumeric h
  all_goals decide

theorem not_isMemberChar_of_isBlank (h : isBlank c = true) : isMemberChar c = false := by
  by_contra hmember
  rw [not_blank_of_isMemberChar (by simpa using hmember)] at h
  cases h

/-- A name is not gone on with behind a text where it is not gone on with in it. -/
theorem forall_head?_followed {p : Char → Prop} (hrest : ∀ c ∈ rest.head?, p c)
    (hmore : ∀ c ∈ more.head?, p c) : ∀ c ∈ (rest ++ more).head?, p c := by
  cases rest with
  | nil => exact hmore
  | cons c rest => exact hrest

/-! ### Segments -/

section

variable (hmore : ∀ c ∈ more.head?, isMemberChar c = false)
include hmore

theorem readMember_append {choice : Choice} (h : Reads (readMember text) choice rest) :
    Reads (readMember (text ++ more)) choice (rest ++ more) := by
  rcases reads_readMember_iff.1 h with ⟨rfl, rfl⟩ | ⟨hstar, name, hname, rfl⟩
  · exact reads_readMember_iff.2 (.inl ⟨rfl, rfl⟩)
  · have hne : text ≠ [] := List.ne_nil_of_length_pos (Nat.zero_lt_of_lt hname.left)
    obtain ⟨_, _, _, hrest, _⟩ := reads_readName_iff.1 hname
    refine reads_readMember_iff.2 (.inr ⟨?_, name, ?_, rfl⟩)
    · rwa [head?_followed hne]
    · exact readName_append hname (forall_head?_followed hrest hmore)

theorem readBelow_append {choice : Choice} (h : Reads (readBelow text) choice rest) :
    Reads (readBelow (text ++ more)) choice (rest ++ more) := by
  rcases reads_readBelow_iff.1 h with ⟨tail, rfl, hinside⟩ | ⟨hbracket, hmember⟩
  · exact reads_readBelow_iff.2 (.inl ⟨tail ++ more, rfl,
      lasting_readBrackets tail _ _ hinside (Nat.zero_le _) more⟩)
  · have hne : text ≠ [] := List.ne_nil_of_length_pos (Nat.zero_lt_of_lt hmember.left)
    refine reads_readBelow_iff.2 (.inr ⟨?_, readMember_append hmore hmember⟩)
    rwa [head?_followed hne]

/-- A segment is read again in front of what goes on with no name. -/
theorem readSegment_append {segment : Segment} (h : Reads (readSegment c text) segment rest) :
    Reads (readSegment c (text ++ more)) segment (rest ++ more) := by
  rcases reads_readSegment_iff.1 h with ⟨hc, choice, hinside, rfl⟩ |
    ⟨hc, ⟨tail, choice, rfl, hbelow, rfl⟩ | ⟨hpoint, choice, hmember, rfl⟩⟩
  · exact reads_readSegment_iff.2 (.inl ⟨hc, choice,
      lasting_readBrackets text _ _ hinside (Nat.zero_le _) more, rfl⟩)
  · exact reads_readSegment_iff.2 (.inr ⟨hc, .inl ⟨tail ++ more, choice, rfl,
      readBelow_append hmore hbelow, rfl⟩⟩)
  · have hne : text ≠ [] := List.ne_nil_of_length_pos (Nat.zero_lt_of_lt hmember.left)
    refine reads_readSegment_iff.2 (.inr ⟨hc, .inr ⟨?_, choice, readMember_append hmore hmember,
      rfl⟩⟩)
    rwa [head?_followed hne]

end

/-! ### Rows of segments -/

/-- Blanks in front of segments are passed over. -/
theorem readSegments_blanks_append {before : List Char} (h : Blanks before) (text : List Char) :
    readSegments (before ++ text) = readSegments text := by
  have hstart : trimStart (before ++ text) = trimStart text := trimStart_append h text
  rcases nextSign?_cases text with ⟨c, tail, htext⟩ | htext
  · rw [readSegments_of_trimStart htext, readSegments_of_trimStart (hstart.trans htext)]
  · rw [readSegments_of_blanks htext, readSegments_of_blanks (hstart.trans htext)]

/-- Segments that are read begin with a bracket or a point, behind blanks. -/
theorem head?_of_readSegments {segments : List Segment} (h : readSegments text = .ok segments) :
    ∀ c ∈ text.head?, isMemberChar c = false := by
  obtain ⟨before, hbefore, htext⟩ := exists_trimStart text
  rw [htext]
  refine forall_head?_append hbefore (fun _ => not_isMemberChar_of_isBlank) ?_
  rcases nextSign?_cases text with ⟨c, tail, hstart⟩ | hstart
  · rw [readSegments_of_trimStart hstart] at h
    obtain ⟨⟨segment, left⟩, hsegment, -⟩ := bind_eq_ok_iff.1 h
    rw [hstart]
    rintro _ ⟨⟩
    rcases reads_readSegment_iff.1 ⟨left.property, hsegment⟩ with ⟨rfl, -⟩ | ⟨rfl, -⟩
    · decide
    · decide
  · rw [hstart]
    exact fun c hc => by cases hc

/-- **Segments that are read are read again in front of others**, and then the others are read. -/
theorem readSegments_followed {text : List Char} {segments : List Segment}
    (h : readSegments text = .ok segments) (hmore : ∀ c ∈ more.head?, isMemberChar c = false) :
    readSegments (text ++ more) = (readSegments more).map (segments ++ ·) := by
  rcases nextSign?_cases text with ⟨c, tail, htext⟩ | htext
  · rw [readSegments_of_trimStart htext] at h
    obtain ⟨⟨segment, left⟩, hsegment, h⟩ := bind_eq_ok_iff.1 h
    obtain ⟨others, hothers, rfl⟩ := map_eq_ok_iff.1 h
    have hshorter : left.val.length < text.length :=
      Nat.lt_of_le_of_lt left.property (length_lt_of_trimStart htext)
    obtain ⟨hle, hagain⟩ := readSegment_append hmore ⟨left.property, hsegment⟩
    rw [readSegments_of_trimStart (trimStart_followed_cons htext more), hagain]
    change (readSegments (left.val ++ more)).map (segment :: ·) = _
    rw [readSegments_followed hothers hmore]
    cases readSegments more <;> rfl
  · rw [readSegments_of_blanks htext] at h
    cases h
    rw [readSegments_blanks_append (List.dropWhile_eq_nil_iff.1 htext)]
    cases readSegments more <;> rfl
termination_by text.length

/-! ### Whole paths -/

/-- Behind a dollar sign in front, the segments of a path are read from its text without the blanks
at its end. -/
theorem read_dollar_eq_ok_iff {text : String} {path : JsonPath} :
    JsonPath.read ("$" ++ text) = .ok path ↔
      path.text = "$" ++ text ∧ readSegments (trimEnd text.toList) = .ok path.segments := by
  have htrim : trim ('$' :: text.toList) = '$' :: trimEnd text.toList := by
    rw [trim, trimStart_cons (by decide)]
    exact trimEnd_append_cons (by decide) [] text.toList
  have hrooted : rootedText ("$" ++ text).toList = '$' :: trimEnd text.toList := by
    rw [String.toList_append]
    change rootedText ('$' :: text.toList) = _
    rw [rootedText, htrim]
    rfl
  rw [JsonPath.read]
  simp only [hrooted, readRooted_dollar]
  cases readSegments (trimEnd text.toList) with
  | error stop => exact iff_of_false (fun h => by cases h) (fun h => by cases h.2)
  | ok segments =>
    obtain ⟨written, others⟩ := path
    simp only [Except.ok.injEq, JsonPath.mk.injEq]
    exact and_congr_left' eq_comm

/-- Segments one behind the other are read without the blanks at their end, as each row is. -/
theorem readSegments_trimEnd_append {x y : List Char} {first second : List Segment}
    (hx : readSegments (trimEnd x) = .ok first) (hy : readSegments (trimEnd y) = .ok second) :
    readSegments (trimEnd (x ++ y)) = .ok (first ++ second) := by
  obtain ⟨after, hafter, hxtext⟩ := exists_trimEnd x
  by_cases hblank : trimEnd y = []
  · -- The blanks at the end of `x` are cut off with those of `y`.
    obtain ⟨last, hlast, hytext⟩ := exists_trimEnd y
    rw [hblank, List.nil_append] at hytext
    rw [hblank, readSegments_nil] at hy
    cases hy
    rw [hytext, trimEnd_append x hlast, hx, List.append_nil]
  · have hseam : ∀ c ∈ (after ++ trimEnd y).head?, isMemberChar c = false :=
      forall_head?_append hafter (fun _ => not_isMemberChar_of_isBlank) (head?_of_readSegments hy)
    calc readSegments (trimEnd (x ++ y))
        = readSegments (trimEnd x ++ (after ++ trimEnd y)) := by
          rw [trimEnd_append_of_ne_nil x hblank, ← List.append_assoc, ← hxtext]
      _ = (readSegments (after ++ trimEnd y)).map (first ++ ·) := readSegments_followed hx hseam
      _ = .ok (first ++ second) := by
          rw [readSegments_blanks_append hafter, hy]
          rfl

/-- **A path behind another selects what it selects from each value that the other selects.** Where
two paths are read, each with a dollar sign directly in front, the path of both texts with one
dollar sign is read. It has the segments of the first and then those of the second. Its evaluation
breaks off exactly where one of these evaluations does. -/
theorem read_joined (x y : String) (first second : JsonPath)
    (hx : JsonPath.read ("$" ++ x) = .ok first) (hy : JsonPath.read ("$" ++ y) = .ok second) :
    ∃ path, JsonPath.read ("$" ++ x ++ y) = .ok path ∧
      path.segments = first.segments ++ second.segments ∧
      ∀ root, path.select? root = (first.select? root).bind (gatherEach? second.select?) := by
  obtain ⟨-, hfirst⟩ := read_dollar_eq_ok_iff.1 hx
  obtain ⟨-, hsecond⟩ := read_dollar_eq_ok_iff.1 hy
  refine ⟨⟨"$" ++ (x ++ y), first.segments ++ second.segments⟩, ?_, rfl, fun root => ?_⟩
  · rw [String.append_assoc]
    refine read_dollar_eq_ok_iff.2 ⟨rfl, ?_⟩
    rw [String.toList_append]
    exact readSegments_trimEnd_append hfirst hsecond
  · calc selectAll? (first.segments ++ second.segments) [root]
        = (first.select? root).bind (selectAll? second.segments) := selectAll?_append _ _ _
      _ = (first.select? root).bind (gatherEach? second.select?) :=
          congrArg _ (funext fun _ => selectAll?_gatherEach? _ _)

/-- The first text has blanks at its end, and the second at both ends. -/
theorem read_joined_blanks :
    ∃ first second,
      JsonPath.read ("$" ++ ".a ['b'] \t") = .ok first ∧
      JsonPath.read ("$" ++ " ..[?(@.d )].c\n") = .ok second ∧
      first.segments = [.child (.item (.name "a")), .child (.item (.name "b"))] ∧
      second.segments = [.descendant (.filter (.present [.name "d"])), .child (.item (.name "c"))] ∧
      ∃ path, JsonPath.read ("$" ++ ".a ['b'] \t" ++ " ..[?(@.d )].c\n") = .ok path ∧
        path.segments = first.segments ++ second.segments ∧
        ∀ root, path.select? root = (first.select? root).bind (gatherEach? second.select?) := by
  let first : JsonPath := ⟨"$.a ['b'] \t", [.child (.item (.name "a")), .child (.item (.name "b"))]⟩
  let second : JsonPath := ⟨"$ ..[?(@.d )].c\n", [.descendant (.filter (.present [.name "d"])),
    .child (.item (.name "c"))]⟩
  have hfirst : JsonPath.read ("$" ++ ".a ['b'] \t") = .ok first := by cbv
  have hsecond : JsonPath.read ("$" ++ " ..[?(@.d )].c\n") = .ok second := by cbv
  exact ⟨first, second, hfirst, hsecond, rfl, rfl, read_joined _ _ first second hfirst hsecond⟩

end Gleaner.JsonPath
