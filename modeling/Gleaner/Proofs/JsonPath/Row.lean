/-
# Rows of items in any order

Between brackets may stand a row of items, each written in one of its ways. It is read as the union
of the items in the order in which they stand, and selects what each item selects on its own, one
after another. A row may be put into any order, but for one thing: a star that comes first is taken
for all that stands between the brackets, and the comma behind it for a fault. Behind another item,
a star is an item like the others.

Key definitions: `rowText`.
Key theorems: `read_item`, `read_row`, `read_row_of_wildcard`, `read_row_iff`.
-/
import Gleaner.Proofs.JsonPath.Whole

namespace Gleaner.JsonPath

open Gleaner.Text Gleaner.Number

variable {text : List Char} {item : Item}

/-- An item on its own is read as it is, a star too. -/
theorem read_item (h : Item.Spelled text item) :
    ∃ path, JsonPath.read (String.ofList (bracketed text)) = .ok path ∧
      ∀ root, path.select? root = item.select? root := by
  have hread : ReadsTo (readChoice (text ++ [']'])) (.item item) [']'] := by
    by_cases hstar : item = .wildcard
    · exact hstar ▸ readChoice_wildcard (hstar ▸ h) [']']
    · exact (readChoice_row hstar h .nil []).readsTo
  exact ⟨_, read_bracketed hread, select?_single _ _⟩

/-- Texts with commas between them. -/
def rowText (row : List (List Char × Item)) : List Char :=
  List.intercalate [','] (row.map (·.1))

section

variable {first second : List Char × Item} {others : List (List Char × Item)}

theorem rowText_append (first : List Char × Item) (others : List (List Char × Item)) :
    rowText (first :: others) ++ [']'] = first.1 ++ restOfRow (others.map (·.1)) [] := by
  rw [rowText, List.map_cons, intercalate_comma]

theorem spelled_others (h : ∀ entry ∈ others, Item.Spelled entry.1 entry.2) :
    List.Forall₂ Item.Spelled (others.map (·.1)) (others.map (·.2)) := by
  rw [List.forall₂_map_left_iff, List.forall₂_map_right_iff, List.forall₂_same]
  exact h

/-- A row that does not begin with a star is the union of its items. -/
theorem read_row (hstar : first.2 ≠ .wildcard)
    (h : ∀ entry ∈ first :: second :: others, Item.Spelled entry.1 entry.2) :
    ∃ path, JsonPath.read (String.ofList (bracketed (rowText (first :: second :: others)))) =
        .ok path ∧
      path.segments = [.child (.union ((first :: second :: others).map (·.2)))] ∧
        ∀ root, path.select? root =
          gatherEach? (fun entry => entry.2.select? root) (first :: second :: others) := by
  obtain ⟨hfirst, hothers⟩ := List.forall_mem_cons.1 h
  have hrow := readChoice_row hstar hfirst (spelled_others hothers) []
  rw [← rowText_append] at hrow
  refine ⟨_, read_bracketed hrow.readsTo, rfl, fun root => (select?_single _ _ root).trans ?_⟩
  exact gatherEach?_map (Item.select? root) Prod.snd (first :: second :: others)

/-- A row that begins with a star is not read beyond it: a closing bracket is missed where the comma
stands. -/
theorem read_row_of_wildcard (hstar : first.2 = .wildcard)
    (hfirst : Item.Spelled first.1 first.2) :
    JsonPath.read (String.ofList (bracketed (rowText (first :: second :: others)))) =
      .error (.unreadable (String.ofList (bracketed (rowText (first :: second :: others))))
        (.expected ']') (2 + first.1.length)) := by
  have hcomma : restOfRow ((second :: others).map (·.1)) [] =
      ',' :: (second.1 ++ restOfRow (others.map (·.1)) []) := by
    simp [restOfRow]
  have htext := rowText_append first (second :: others)
  have hread := readChoice_wildcard (hstar ▸ hfirst) (restOfRow ((second :: others).map (·.1)) [])
  rw [← htext, hcomma] at hread
  have hlength : (bracketed (rowText (first :: second :: others))).length -
      (',' :: (second.1 ++ restOfRow (others.map (·.1)) [])).length = 2 + first.1.length := by
    have hall := congrArg List.length htext
    rw [hcomma, List.length_append, List.length_append] at hall
    rw [bracketed, List.length_cons, List.length_cons, List.length_append]
    omega
  rw [read_bracketed_of_ne hread (by decide) (by decide), hlength]

end

/-- **Rows of items in any order.** However the items of a row are written, each is read on its own;
and the row in any order is read as the union of its items in this order, and selects what each
selects on its own, one after another, exactly if it does not begin with a star. If it does, reading
stops behind the star, where a closing bracket is missed. -/
theorem read_row_iff {row : List (List Char × Item)} (hlength : 2 ≤ row.length)
    (hrow : ∀ entry ∈ row, Item.Spelled entry.1 entry.2) :
    (∀ entry ∈ row, ∃ path, JsonPath.read (String.ofList (bracketed entry.1)) = .ok path ∧
        ∀ root, path.select? root = entry.2.select? root) ∧
      ∀ first others, (first :: others).Perm row →
        (first.2 ≠ .wildcard →
          ∃ path, JsonPath.read (String.ofList (bracketed (rowText (first :: others)))) = .ok path ∧
            path.segments = [.child (.union ((first :: others).map (·.2)))] ∧
              ∀ root, path.select? root =
                gatherEach? (fun entry => entry.2.select? root) (first :: others)) ∧
        (first.2 = .wildcard →
          JsonPath.read (String.ofList (bracketed (rowText (first :: others)))) =
            .error (.unreadable (String.ofList (bracketed (rowText (first :: others))))
              (.expected ']') (2 + first.1.length))) := by
  refine ⟨fun entry hentry => read_item (hrow entry hentry), fun first others horder => ?_⟩
  have hspelled : ∀ entry ∈ first :: others, Item.Spelled entry.1 entry.2 :=
    fun entry hentry => hrow entry (horder.mem_iff.1 hentry)
  match others, horder.length_eq with
  | [], hsize =>
    rw [← hsize] at hlength
    exact absurd hlength (by simp)
  | second :: others, _ =>
    exact ⟨fun hstar => read_row hstar hspelled,
      fun hstar => read_row_of_wildcard hstar (hspelled first List.mem_cons_self)⟩

/-- A name, a star, and a slice with a blank in front of it. -/
def mixedRow : List (List Char × Item) :=
  [("'a'".toList, .name "a"), ("*".toList, .wildcard), (" 1:2".toList, .slice (some 1) (some 2) 1)]

theorem spelled_mixedRow : ∀ entry ∈ mixedRow, Item.Spelled entry.1 entry.2 := by
  have hname : Item.Spelled "'a'".toList (.name "a") :=
    @Item.spelled_written true (.name "a") trivial
  have hstar : Item.Spelled "*".toList .wildcard :=
    @Item.spelled_written true .wildcard trivial
  have hstart : SpelledBound " 1".toList (some 1) :=
    .given (by decide : Blanks [' ']) (spelledInteger_toString (by decide : IsInt64 1)) .nil
  have hstop : SpelledBound "2".toList (some 2) :=
    spelledBound_writtenInteger (by decide : IsInt64 2)
  simp only [mixedRow, List.forall_mem_cons, List.not_mem_nil, false_implies, implies_true, and_true]
  exact ⟨hname, hstar, .slice hstart hstop⟩

theorem read_row_iff_mixed :
    2 ≤ mixedRow.length ∧ (∀ entry ∈ mixedRow, Item.Spelled entry.1 entry.2) ∧
      (∃ path, JsonPath.read "$['a',*, 1:2]" = .ok path ∧
        path.segments = [.child (.union [.name "a", .wildcard, .slice (some 1) (some 2) 1])]) ∧
      JsonPath.read "$[*,'a', 1:2]" =
        .error (.unreadable "$[*,'a', 1:2]" (.expected ']') 3) := by
  have hlength : 2 ≤ mixedRow.length := by decide
  obtain ⟨-, horders⟩ := read_row_iff hlength spelled_mixedRow
  obtain ⟨hread, -⟩ := horders _ _ (.refl mixedRow)
  obtain ⟨path, hpath, hsegments, -⟩ := hread (by decide)
  obtain ⟨-, hstar⟩ := horders _ _ (.swap _ _ _)
  exact ⟨hlength, spelled_mixedRow, ⟨path, hpath, hsegments⟩, hstar rfl⟩

end Gleaner.JsonPath
