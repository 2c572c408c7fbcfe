/-
# Sums of more than 64 bits

Where a number of a path counts from the end of an array, it is added to the length; a slice that
leads back takes one from it; and behind each position of a slice, also behind the last, the step is
added to it. The numbers of a path have 64 bits, and so has the length of an array that positions
are looked for in at all. So a sum has more only where a slice adds a positive step: nothing keeps
this from leading beyond the 64-bit integers, and there the evaluation breaks off, and nowhere else.

Key definitions: `Sum`, `Item.Adds`, `Condition.Adds`, `Applies`, `Adds`, `Oversteps`.
Key theorems: `Item.select?_eq_none_iff`, `selectAll?_eq_none_iff`, `select?_eq_none_iff`,
`evaluation_breaks_off_iff`.
-/
import Gleaner.Proofs.JsonPath.Accepted
import Gleaner.Proofs.JsonPath.Slice

namespace Gleaner.JsonPath

open Gleaner.Number

/-! ### The sums of an evaluation -/

/-- Two numbers that are added. -/
structure Sum where
  left : Int
  right : Int
  deriving DecidableEq, Repr

/-- A sum has more than 64 bits. -/
def Sum.TooLarge (sum : Sum) : Prop :=
  ¬IsInt64 (sum.left + sum.right)

/-- A number that counts from the end of an array is added to the length. -/
def CountsBack (json : Json) (index : Int) (sum : Sum) : Prop :=
  ∃ items, json = .array items ∧ (items.length : Int) ≤ greatestInt64 ∧ index < 0 ∧
    sum = ⟨items.length, index⟩

/-- A sum that an item makes of a value: for an index or a bound that counts from the end, for the
last position where a slice leads back, and behind each position of a slice. -/
def Item.Adds (json : Json) (sum : Sum) : Item → Prop
  | .name _ | .wildcard => False
  | .index i => CountsBack json i sum
  | .slice start stop step =>
    (∃ bound, (bound ∈ start ∨ bound ∈ stop) ∧ CountsBack json bound sum) ∨
    (step < 0 ∧ CountsBack json (-1) sum) ∨
    ∃ items, json = .array items ∧ (items.length : Int) ≤ greatestInt64 ∧ sum.right = step ∧
      sum.left ∈ referencePositions items.length start stop step

/-- A sum that the keys of a path in a condition make, from a value on. -/
def keysAdd (sum : Sum) : Json → List Key → Prop
  | _, [] => False
  | json, key :: rest =>
    (∃ i, key = .index i ∧ CountsBack json i sum) ∨
      ∃ found, key.lookup? json = some found ∧ keysAdd sum found rest

/-- A sum that a condition makes of a value. The right side of a connective is looked at only if
the left one leaves it open. -/
def Condition.Adds (json : Json) (sum : Sum) : Condition → Prop
  | .present path | .compare path _ _ => keysAdd sum json path
  | .not condition => condition.Adds json sum
  | .and left right => left.Adds json sum ∨ (left.accepts json = true ∧ right.Adds json sum)
  | .or left right => left.Adds json sum ∨ (left.accepts json = false ∧ right.Adds json sum)

/-- A sum that a choice makes of a value. -/
def Choice.Adds (json : Json) (sum : Sum) : Choice → Prop
  | .item single => single.Adds json sum
  | .union items => ∃ item ∈ items, item.Adds json sum
  | .filter condition => ∃ child ∈ json.children, condition.Adds child sum

/-- The values among whose children a segment selects. -/
def Segment.sources (json : Json) : Segment → List Json
  | .child _ => [json]
  | .descendant _ => json.selfAndBelow

/-- The evaluation of a path comes to a value with a choice: the choice is that of a segment, and
the segments before this one lead to the value, or to one above it if the segment goes below. -/
def Applies (path : JsonPath) (root : Json) (choice : Choice) (value : Json) : Prop :=
  ∃ front segment back values, path.segments = front ++ segment :: back ∧
    selectAll? front [root] = some values ∧
    (∃ start ∈ values, value ∈ segment.sources start) ∧ choice = segment.choice

/-- A sum that the evaluation of a path makes, as far as it comes before it breaks off. -/
def Adds (path : JsonPath) (root : Json) (sum : Sum) : Prop :=
  ∃ choice value, path.Applies root choice value ∧ choice.Adds value sum

/-- A sum of too many bits in the walk of a slice over an array: that of a position of the slice
and its positive step. -/
def Item.Oversteps (json : Json) (sum : Sum) (item : Item) : Prop :=
  ∃ items start stop, json = .array items ∧ (items.length : Int) ≤ greatestInt64 ∧
    item = .slice start stop sum.right ∧ 0 < sum.right ∧
    sum.left ∈ referencePositions items.length start stop sum.right ∧
      greatestInt64 < sum.left + sum.right

/-- A sum of too many bits that a slice of a path makes. -/
def Oversteps (path : JsonPath) (root : Json) (sum : Sum) : Prop :=
  ∃ choice value, path.Applies root choice value ∧ ∃ item ∈ choice.items, item.Oversteps value sum

/-! ### Sums that 64 bits hold -/

section

variable {json : Json} {sum : Sum}

/-- A length and a number of 64 bits that counts from the end have a sum of 64 bits. -/
theorem CountsBack.isInt64 {index : Int} (h : CountsBack json index sum) (hindex : IsInt64 index) :
    IsInt64 (sum.left + sum.right) := by
  obtain ⟨items, -, hlength, hback, rfl⟩ := h
  unfold IsInt64 greatestInt64 at *
  dsimp only
  omega

/-- A position of a slice over an array and the step have a sum of 64 bits, or the step is positive
and the sum is too large. -/
theorem isInt64_or_greatest_lt {length : Nat} {start stop : Option Int} {i step : Int}
    (hi : i ∈ referencePositions length start stop step) (hlength : (length : Int) ≤ greatestInt64)
    (hstep : IsInt64 step) : IsInt64 (i + step) ∨ 0 < step ∧ greatestInt64 < i + step := by
  have hrange := lt_of_mem_referencePositions length hi
  unfold IsInt64 greatestInt64 at *
  omega

theorem Item.Adds.isInt64_or {item : Item} (h : item.Adds json sum) (hitem : item.Legible) :
    IsInt64 (sum.left + sum.right) ∨ item.Oversteps json sum := by
  cases item with
  | name | wildcard => cases h
  | index i => exact .inl (h.isInt64 hitem)
  | slice start stop step =>
    obtain ⟨hstart, hstop, hstep, -⟩ := hitem
    rcases h with ⟨bound, hbound | hbound, h⟩ | ⟨-, h⟩ | ⟨items, hjson, hlength, rfl, hi⟩
    · exact .inl (h.isInt64 (hstart bound hbound))
    · exact .inl (h.isInt64 (hstop bound hbound))
    · exact .inl (h.isInt64 (by decide))
    · refine (isInt64_or_greatest_lt hi hlength hstep).imp_right fun hlarge => ?_
      exact ⟨items, start, stop, hjson, hlength, rfl, hlarge.1, hi, hlarge.2⟩

theorem keysAdd_isInt64 {keys : List Key} (h : keysAdd sum json keys)
    (hkeys : ∀ key ∈ keys, key.Legible) : IsInt64 (sum.left + sum.right) := by
  induction keys generalizing json with
  | nil => cases h
  | cons key rest ih =>
    obtain ⟨hkey, hrest⟩ := List.forall_mem_cons.1 hkeys
    rcases h with ⟨i, rfl, h⟩ | ⟨found, -, h⟩
    · exact h.isInt64 hkey
    · exact ih h hrest

theorem Condition.Adds.isInt64 {condition : Condition} (h : condition.Adds json sum)
    (hkeys : ∀ key ∈ condition.keys, key.Legible) : IsInt64 (sum.left + sum.right) := by
  induction condition with
  | present path => exact keysAdd_isInt64 h hkeys
  | compare path comparison literal => exact keysAdd_isInt64 h hkeys
  | not condition ih => exact ih h hkeys
  | and left right ihleft ihright =>
    obtain ⟨hleft, hright⟩ := List.forall_mem_append.1 hkeys
    exact h.elim (fun h => ihleft h hleft) (fun h => ihright h.2 hright)
  | or left right ihleft ihright =>
    obtain ⟨hleft, hright⟩ := List.forall_mem_append.1 hkeys
    exact h.elim (fun h => ihleft h hleft) (fun h => ihright h.2 hright)

theorem Choice.Adds.isInt64_or {choice : Choice} (h : choice.Adds json sum)
    (hchoice : choice.Counted) :
    IsInt64 (sum.left + sum.right) ∨ ∃ item ∈ choice.items, item.Oversteps json sum := by
  cases choice with
  | item single =>
    have hsingle := Item.Adds.isInt64_or h (hchoice.items single List.mem_cons_self)
    exact hsingle.imp_right fun hover => ⟨single, List.mem_cons_self, hover⟩
  | union items =>
    obtain ⟨item, hitem, h⟩ := h
    exact (h.isInt64_or (hchoice.items item hitem)).imp_right fun hover => ⟨item, hitem, hover⟩
  | filter condition =>
    obtain ⟨child, -, h⟩ := h
    exact .inl (h.isInt64 hchoice.keys)

/-- A sum in the walk of a slice is one of those that are made. -/
theorem Item.Oversteps.adds {item : Item} (h : item.Oversteps json sum) :
    item.Adds json sum ∧ sum.TooLarge := by
  obtain ⟨items, start, stop, hjson, hlength, rfl, -, hi, hlarge⟩ := h
  refine ⟨.inr (.inr ⟨items, hjson, hlength, rfl, hi⟩), fun hsum => ?_⟩
  unfold IsInt64 at hsum
  unfold greatestInt64 at hlarge
  omega

theorem Choice.adds_of_oversteps {choice : Choice} {item : Item} (hitem : item ∈ choice.items)
    (h : item.Oversteps json sum) : choice.Adds json sum ∧ sum.TooLarge := by
  obtain ⟨hadds, hlarge⟩ := h.adds
  refine ⟨?_, hlarge⟩
  cases choice with
  | item single => exact List.mem_singleton.1 hitem ▸ hadds
  | union items => exact ⟨item, hitem, hadds⟩
  | filter condition => cases hitem

end

/-! ### Where an evaluation breaks off -/

section

variable {json root : Json}

theorem Item.select?_eq_none_iff {item : Item} (h : item.Legible) :
    item.select? json = none ↔ ∃ sum, item.Oversteps json sum := by
  have hnever (hselect : item.select? json ≠ none)
      (hslice : ∀ start stop step items, item = .slice start stop step → json ≠ .array items) :
      item.select? json = none ↔ ∃ sum, item.Oversteps json sum := by
    refine iff_of_false hselect ?_
    rintro ⟨sum, items, start, stop, hjson, -, hitem, -⟩
    exact hslice start stop sum.right items hitem hjson
  cases item with
  | name key => exact hnever (by simp [Item.select?]) (by simp)
  | wildcard => exact hnever (by simp [Item.select?]) (by simp)
  | index i => exact hnever (by simp [Item.select?]) (by simp)
  | slice start stop step =>
    cases json with
    | array items =>
      obtain ⟨-, -, hstep, hzero⟩ := h
      have hselect : (Item.slice start stop step).select? (.array items) =
          sliceOf? items start stop step := rfl
      by_cases hlength : (items.length : Int) ≤ greatestInt64
      · rw [hselect, (sliceOf?_reference hlength start stop hzero).2]
        constructor
        · rintro ⟨i, hi, hmany⟩
          have hlarge : ¬IsInt64 (i + step) := fun hsum =>
            Bool.false_ne_true (hmany.symm.trans (fitsInt64_iff.2 hsum))
          obtain ⟨hforth, hover⟩ := (isInt64_or_greatest_lt hi hlength hstep).resolve_left hlarge
          exact ⟨⟨i, step⟩, items, start, stop, rfl, hlength, rfl, hforth, hi, hover⟩
        · rintro ⟨sum, _, _, _, hjson, -, hslice, -, hi, hover⟩
          cases hjson
          cases hslice
          refine ⟨sum.left, hi, Bool.eq_false_iff.2 fun hsum => ?_⟩
          have hsum := (fitsInt64_iff.1 hsum).2
          unfold greatestInt64 at hover
          omega
      · rw [hselect, sliceOf?, if_pos (Int.not_le.1 hlength)]
        refine iff_of_false (by simp) ?_
        rintro ⟨sum, _, _, _, hjson, hcounted, -⟩
        cases hjson
        exact hlength hcounted
    | _ => exact hnever (by simp [Item.select?]) (by simp)

theorem Choice.select?_eq_none_iff {choice : Choice} (h : choice.Counted) :
    choice.select? json = none ↔ ∃ item ∈ choice.items, ∃ sum, item.Oversteps json sum := by
  cases choice with
  | item single =>
    refine (Item.select?_eq_none_iff (h.items single List.mem_cons_self)).trans ?_
    simp [Choice.items]
  | union items =>
    refine gatherEach?_eq_none_iff.trans (exists_congr fun item => and_congr_right fun hitem => ?_)
    exact Item.select?_eq_none_iff (h.items item hitem)
  | filter condition => exact iff_of_false (by simp [Choice.select?]) (by rintro ⟨_, ⟨⟩, _⟩)

theorem Segment.select?_eq_none_iff {segment : Segment} (h : segment.choice.Counted) :
    segment.select? json = none ↔ ∃ value ∈ segment.sources json,
      ∃ item ∈ segment.choice.items, ∃ sum, item.Oversteps value sum := by
  cases segment with
  | child choice =>
    refine (Choice.select?_eq_none_iff h).trans ?_
    simp [sources, Segment.choice]
  | descendant choice =>
    refine gatherEach?_eq_none_iff.trans (exists_congr fun below => and_congr_right fun _ => ?_)
    exact Choice.select?_eq_none_iff h

/-- Segments break off at a value to which those before one of them lead. -/
theorem selectAll?_eq_none_iff : ∀ {segments : List Segment} {values : List Json},
    (∀ segment ∈ segments, segment.choice.Counted) →
      (selectAll? segments values = none ↔
        ∃ front segment back reached, segments = front ++ segment :: back ∧
          selectAll? front values = some reached ∧
          ∃ start ∈ reached, segment.select? start = none)
  | [], values, _ => iff_of_false (by simp [selectAll?]) fun ⟨_, _, _, _, h, _⟩ => by simp at h
  | segment :: rest, values, h => by
    obtain ⟨-, hrest⟩ := List.forall_mem_cons.1 h
    constructor
    · intro hnone
      cases hhere : gatherEach? (fun json => segment.select? json) values with
      | none => exact ⟨[], segment, rest, values, rfl, rfl, gatherEach?_eq_none_iff.1 hhere⟩
      | some found =>
        rw [selectAll?, hhere, Option.bind_some, selectAll?_eq_none_iff hrest] at hnone
        obtain ⟨front, later, back, reached, rfl, hreached, hstart⟩ := hnone
        refine ⟨segment :: front, later, back, reached, rfl, ?_, hstart⟩
        rw [selectAll?, hhere, Option.bind_some, hreached]
    · rintro ⟨front, later, back, reached, heq, hreached, hstart⟩
      cases front with
      | nil =>
        cases heq
        cases hreached
        rw [selectAll?, gatherEach?_eq_none_iff.2 hstart, Option.bind_none]
      | cons first front =>
        cases heq
        obtain ⟨found, hfound, hreached⟩ := Option.bind_eq_some_iff.1 hreached
        rw [selectAll?, hfound, Option.bind_some, selectAll?_eq_none_iff hrest]
        exact ⟨front, later, back, reached, rfl, hreached, hstart⟩

/-- The evaluation of a path that is read breaks off exactly if a slice on the way oversteps. -/
theorem select?_eq_none_iff {text : String} {path : JsonPath} (hread : JsonPath.read text = .ok path)
    (root : Json) : path.select? root = none ↔ ∃ sum, path.Oversteps root sum := by
  have hcounted := read_counted hread
  have hsegment {front : List Segment} {segment : Segment} {back : List Segment}
      (h : path.segments = front ++ segment :: back) : segment.choice.Counted :=
    hcounted segment (h ▸ List.mem_append_right _ List.mem_cons_self)
  rw [JsonPath.select?, selectAll?_eq_none_iff hcounted]
  constructor
  · rintro ⟨front, segment, back, values, heq, hvalues, start, hstart, hnone⟩
    obtain ⟨value, hvalue, item, hitem, sum, hover⟩ :=
      (Segment.select?_eq_none_iff (hsegment heq)).1 hnone
    exact ⟨sum, segment.choice, value,
      ⟨front, segment, back, values, heq, hvalues, ⟨start, hstart, hvalue⟩, rfl⟩,
      item, hitem, hover⟩
  · rintro ⟨sum, _, value, ⟨front, segment, back, values, heq, hvalues, ⟨start, hstart, hvalue⟩,
      rfl⟩, item, hitem, hover⟩
    exact ⟨front, segment, back, values, heq, hvalues, start, hstart,
      (Segment.select?_eq_none_iff (hsegment heq)).2 ⟨value, hvalue, item, hitem, sum, hover⟩⟩

/-- **Only the walk of a slice breaks off an evaluation.** Whatever path is read and whatever value
it starts from, its evaluation breaks off exactly if a slice on the way adds a positive step to one
of its positions and the sum has more than 64 bits. These sums are made, and each other sum that is
made has 64 bits: for an index, a bound or a key of a condition that counts from the end, for the
last position of a slice that leads back, and in its walk. -/
theorem evaluation_breaks_off_iff {text : String} {path : JsonPath}
    (hread : JsonPath.read text = .ok path) (root : Json) :
    (path.select? root = none ↔ ∃ sum, path.Oversteps root sum) ∧
      (∀ sum, path.Oversteps root sum → path.Adds root sum ∧ sum.TooLarge) ∧
      ∀ sum, path.Adds root sum → IsInt64 (sum.left + sum.right) ∨ path.Oversteps root sum := by
  refine ⟨select?_eq_none_iff hread root, ?_, ?_⟩
  · rintro sum ⟨choice, value, happlies, item, hitem, hover⟩
    obtain ⟨hadds, hlarge⟩ := Choice.adds_of_oversteps hitem hover
    exact ⟨⟨choice, value, happlies, hadds⟩, hlarge⟩
  · rintro sum ⟨_, value, ⟨front, segment, back, values, heq, hvalues, hvalue, rfl⟩, hadds⟩
    have hcounted : segment.choice.Counted :=
      read_counted hread segment (heq ▸ List.mem_append_right _ List.mem_cons_self)
    refine (hadds.isInt64_or hcounted).imp_right fun ⟨item, hitem, hover⟩ => ?_
    exact ⟨segment.choice, value, ⟨front, segment, back, values, heq, hvalues, hvalue, rfl⟩,
      item, hitem, hover⟩

end

/-- A path whose slice has the greatest step. -/
theorem read_greatestStep : JsonPath.read "$[2::9223372036854775807]" =
    .ok ⟨"$[2::9223372036854775807]",
      [.child (.item (.slice (some 2) none 9223372036854775807))]⟩ := by
  have hlegible : ∀ segment ∈ [Segment.child (.item (.slice (some 2) none 9223372036854775807))],
      segment.Legible := by
    refine List.forall_mem_singleton.2 ⟨?_, nofun, by decide, by decide⟩
    rintro _ ⟨⟩
    decide
  have htext : String.ofList (writtenPath true
      [.child (.item (.slice (some 2) none 9223372036854775807))]) = "$[2::9223372036854775807]" := by
    decide +kernel
  exact read_of_written true htext hlegible

/-- From the third position of a list, the greatest step leads beyond the 64-bit integers. -/
theorem oversteps_greatestStep :
    Oversteps ⟨"$[2::9223372036854775807]",
        [.child (.item (.slice (some 2) none 9223372036854775807))]⟩
      (.array [.null, .null, .null]) ⟨2, 9223372036854775807⟩ := by
  have hpositions : referencePositions 3 (some 2) none 9223372036854775807 = [2] := by decide
  refine ⟨_, _, ⟨[], _, [], _, rfl, rfl, ⟨_, List.mem_cons_self, List.mem_cons_self⟩, rfl⟩,
    _, List.mem_cons_self, _, some 2, none, rfl, by decide, rfl, by decide, ?_, by decide⟩
  exact hpositions ▸ List.mem_cons_self

theorem evaluation_breaks_off_greatestStep :
    ∃ path, JsonPath.read "$[2::9223372036854775807]" = .ok path ∧
      path.select? (.array [.null, .null, .null]) = none := by
  obtain ⟨hnone, -, -⟩ := evaluation_breaks_off_iff read_greatestStep (.array [.null, .null, .null])
  exact ⟨_, read_greatestStep, hnone.2 ⟨_, oversteps_greatestStep⟩⟩

end Gleaner.JsonPath
