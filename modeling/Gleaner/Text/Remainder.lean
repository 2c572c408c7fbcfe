/-
# What a reading leaves

A reader that takes something from the front of a list returns the rest together with the fact
that it is shorter, so that a reading may go on with it and still come to an end.

Key definitions: `Remainder`, `Rest`, `Remainder.andThen`, `Rest.andTake`, `Leaves`, `skipWhile`,
`next?`.
Key theorems: `length_dropWhile_le`, `span_append`, `next?_of_not`, `next?_eq_some_iff`,
`next?_eq_none_iff`.
-/

namespace Gleaner.Text

universe u

variable {α : Type u}

/-- A list shorter than `whole`: what is left of it after a reading that took something. -/
abbrev Remainder (whole : List α) : Type u :=
  { rest : List α // rest.length < whole.length }

/-- A list no longer than `whole`: what is left of it after a reading that may have taken
nothing. -/
abbrev Rest (whole : List α) : Type u :=
  { rest : List α // rest.length ≤ whole.length }

/-- A list of which nothing has been taken. -/
def Rest.all (list : List α) : Rest list :=
  ⟨list, Nat.le_refl _⟩

/-- What is left behind the first member of a list. -/
def Rest.behind {list : List α} (a : α) (rest : Rest list) : Remainder (a :: list) :=
  ⟨rest.val, Nat.lt_succ_of_le rest.property⟩

/-- A remainder, without the fact that something has been taken. -/
def Remainder.toRest {whole : List α} (rest : Remainder whole) : Rest whole :=
  ⟨rest.val, Nat.le_of_lt rest.property⟩

/-- What a second reading leaves of what a first one left. -/
def Rest.andThen {whole : List α} (first : Rest whole) (second : Rest first.val) : Rest whole :=
  ⟨second.val, Nat.le_trans second.property first.property⟩

/-- What a second reading, which takes something, leaves of what a first one left. -/
def Rest.andTake {whole : List α} (first : Rest whole) (second : Remainder first.val) :
    Remainder whole :=
  ⟨second.val, Nat.lt_of_lt_of_le second.property first.property⟩

/-- What a second reading leaves of what a first one, which took something, left. -/
def Remainder.andThen {whole : List α} (first : Remainder whole) (second : Rest first.val) :
    Remainder whole :=
  ⟨second.val, Nat.lt_of_le_of_lt second.property first.property⟩

/-- A reading of a text gives something and leaves the rest. -/
def Leaves {β : Type} (read : (text : List Char) → Option (β × Remainder text)) (text : List Char)
    (b : β) (rest : List Char) : Prop :=
  ∃ h : rest.length < text.length, read text = some (b, ⟨rest, h⟩)

theorem length_dropWhile_le (p : α → Bool) (list : List α) :
    (list.dropWhile p).length ≤ list.length :=
  (List.dropWhile_sublist p).length_le

/-- Members with the property are told apart from what follows, if that does not begin with one. -/
theorem span_append {p : α → Bool} {front rest : List α} (hfront : ∀ a ∈ front, p a = true)
    (hrest : ∀ a ∈ rest.head?, p a = false) :
    (front ++ rest).takeWhile p = front ∧ (front ++ rest).dropWhile p = rest := by
  rw [List.takeWhile_append_of_pos hfront, List.dropWhile_append_of_pos hfront]
  cases rest with
  | nil => simp
  | cons a rest =>
    have ha : p a = false := hrest a rfl
    simp [ha]

/-- A list from its first member without the property. -/
def skipWhile (p : α → Bool) (list : List α) : Rest list :=
  ⟨list.dropWhile p, length_dropWhile_le p list⟩

/-- The first member without the property `skipped`, and what follows it. -/
def next? (skipped : α → Bool) : (list : List α) → Option (α × Remainder list)
  | [] => none
  | a :: rest =>
    if skipped a then
      (next? skipped rest).map fun (b, r) => (b, ⟨r.val, Nat.lt_succ_of_lt r.property⟩)
    else some (a, ⟨rest, Nat.lt_succ_self _⟩)

theorem next?_of_not {skipped : α → Bool} {a : α} (h : skipped a = false) (rest : List α) :
    next? skipped (a :: rest) = some (a, ⟨rest, Nat.lt_succ_self _⟩) := by
  simp [next?, h]

theorem next?_eq_some_iff {skipped : α → Bool} {list : List α} {a : α} {r : Remainder list} :
    next? skipped list = some (a, r) ↔ list.dropWhile skipped = a :: r.val := by
  induction list with
  | nil => simp [next?]
  | cons b rest ih =>
    by_cases hb : skipped b = true
    · simp only [next?, hb, if_true, Option.map_eq_some_iff, List.dropWhile_cons]
      constructor
      · rintro ⟨⟨c, s⟩, hs, h⟩
        cases h
        exact ih.1 hs
      · intro h
        have hlen : r.val.length < rest.length := by
          have := length_dropWhile_le skipped rest
          rw [h] at this
          exact this
        exact ⟨(a, ⟨r.val, hlen⟩), ih.2 h, rfl⟩
    · simp only [next?, hb, List.dropWhile_cons, Bool.false_eq_true, if_false, Option.some.injEq,
        Prod.mk.injEq, List.cons.injEq]
      constructor
      · rintro ⟨rfl, rfl⟩; exact ⟨rfl, rfl⟩
      · rintro ⟨rfl, h⟩; exact ⟨rfl, Subtype.ext h⟩

/-- There is no next member when all are skipped. -/
theorem next?_eq_none_iff {skipped : α → Bool} {list : List α} :
    next? skipped list = none ↔ ∀ a ∈ list, skipped a = true := by
  induction list with
  | nil => simp [next?]
  | cons b rest ih => by_cases hb : skipped b = true <;> simp [next?, hb, ih]

end Gleaner.Text
