/-
# Values selected by JSON paths

Each segment is applied to the values that the segments before it selected, in their order. Below a
value, each value comes before those that lie below it. The whole evaluation breaks off where the
walk of a slice does, and then selects nothing at all.

Key definitions: `Json.selfAndBelow`, `Condition.accepts`, `gatherEach?`, `Choice.select?`,
`selectAll?`.
Key theorems: `gatherEach?_eq_some_iff`, `gatherEach?_bind`, `selectAll?_append`,
`selectAll?_gatherEach?`.
-/
import Gleaner.JsonPath.Slice
import Gleaner.JsonPath.Syntax

namespace Gleaner

mutual

/-- A value and all that lies below it, each before what lies below it. -/
def Json.selfAndBelow : Json → List Json
  | .array items => .array items :: belowItems items
  | .object fields => .object fields :: belowFields fields
  | scalar => [scalar]

/-- The items and all that lies below them. -/
def belowItems : List Json → List Json
  | [] => []
  | item :: rest => item.selfAndBelow ++ belowItems rest

/-- The values of fields and all that lies below them. -/
def belowFields : List (String × Json) → List Json
  | [] => []
  | (_, field) :: rest => field.selfAndBelow ++ belowFields rest

end

/-- The member of an array at an index. -/
def Json.item? (index : Int) : Json → Option Json
  | .array items => JsonPath.itemAt? items index
  | _ => none

/-- How a value stands to a literal: numbers and strings have an order, other values can only be
equal. Numbers are compared as doubles. -/
def Json.orderTo? : Json → Json → Option Ordering
  | .number a, .number b => orderOfFloats? a.toFloat b.toFloat
  | .string a, .string b => some (compareOfLessAndEq a b)
  | .boolean a, .boolean b => if a = b then some .eq else none
  | .null, .null => some .eq
  | _, _ => none

namespace JsonPath

/-- What lies at a key. -/
def Key.lookup? (json : Json) : Key → Option Json
  | .name key => json.field? key
  | .index i => json.item? i

/-- What lies at a path. -/
def lookup? (json : Json) : List Key → Option Json
  | [] => some json
  | key :: rest => (key.lookup? json).bind fun json => lookup? json rest

/-- A value meets a condition. -/
def Condition.accepts (json : Json) : Condition → Bool
  | .present path => (lookup? json path).isSome
  | .compare path comparison literal =>
    (lookup? json path).any fun found => comparison.accepts (found.orderTo? literal)
  | .not condition => !condition.accepts json
  | .and left right => left.accepts json && right.accepts json
  | .or left right => left.accepts json || right.accepts json

/-! ### What members of a list lead to -/

section

universe u

variable {α β γ : Type u} {follow : α → Option (List β)} {list : List α} {found : List β}

/-- What each member of a list leads to, one after another, if none of them breaks off. -/
def gatherEach? (follow : α → Option (List β)) : List α → Option (List β)
  | [] => some []
  | a :: rest => (follow a).bind fun found => (gatherEach? follow rest).map (found ++ ·)

theorem gatherEach?_eq_some_iff : gatherEach? follow list = some found ↔
    (∀ a ∈ list, (follow a).isSome) ∧ found = list.flatMap fun a => (follow a).getD [] := by
  induction list generalizing found with
  | nil =>
    constructor
    · rintro ⟨⟩
      exact ⟨nofun, rfl⟩
    · rintro ⟨-, rfl⟩
      rfl
  | cons a rest ih =>
    simp only [gatherEach?, List.forall_mem_cons, List.flatMap_cons]
    cases h : follow a with
    | none => simp
    | some here =>
      simp only [Option.bind_some, Option.map_eq_some_iff, ih, Option.isSome_some, Option.getD_some,
        true_and]
      constructor
      · rintro ⟨more, ⟨hrest, rfl⟩, rfl⟩
        exact ⟨hrest, rfl⟩
      · rintro ⟨hrest, rfl⟩
        exact ⟨_, ⟨hrest, rfl⟩, rfl⟩

theorem gatherEach?_eq_none_iff : gatherEach? follow list = none ↔ ∃ a ∈ list, follow a = none := by
  induction list with
  | nil => exact iff_of_false nofun nofun
  | cons a rest ih =>
    rw [gatherEach?]
    cases h : follow a with
    | none => exact iff_of_true rfl ⟨a, List.mem_cons_self, h⟩
    | some here => simp [ih, h]

/-- What is gathered comes from one of the members. -/
theorem exists_of_mem_gatherEach? (h : gatherEach? follow list = some found) {b : β}
    (hb : b ∈ found) : ∃ a ∈ list, ∃ part, follow a = some part ∧ b ∈ part := by
  obtain ⟨hsome, rfl⟩ := gatherEach?_eq_some_iff.1 h
  obtain ⟨a, ha, hb⟩ := List.mem_flatMap.1 hb
  obtain ⟨part, hpart⟩ := Option.isSome_iff_exists.1 (hsome a ha)
  rw [hpart] at hb
  exact ⟨a, ha, part, hpart, hb⟩

theorem gatherEach?_congr {other : α → Option (List β)} (h : ∀ a ∈ list, follow a = other a) :
    gatherEach? follow list = gatherEach? other list := by
  induction list with
  | nil => rfl
  | cons a rest ih =>
    obtain ⟨ha, hrest⟩ := List.forall_mem_cons.1 h
    rw [gatherEach?, gatherEach?, ha, ih hrest]

/-- Where no member breaks off, all that they lead to is gathered. -/
theorem gatherEach?_some (follow : α → List β) (list : List α) :
    gatherEach? (fun a => some (follow a)) list = some (list.flatMap follow) :=
  gatherEach?_eq_some_iff.2 ⟨fun _ _ => rfl, rfl⟩

theorem gatherEach?_map (follow : β → Option (List γ)) (f : α → β) (list : List α) :
    gatherEach? follow (list.map f) = gatherEach? (fun a => follow (f a)) list := by
  induction list with
  | nil => rfl
  | cons a rest ih => rw [List.map_cons, gatherEach?, gatherEach?, ih]

theorem gatherEach?_singleton (a : α) : gatherEach? follow [a] = follow a := by
  simp [gatherEach?]

theorem gatherEach?_append (first second : List α) : gatherEach? follow (first ++ second) =
    (gatherEach? follow first).bind fun found => (gatherEach? follow second).map (found ++ ·) := by
  induction first with
  | nil => simp [gatherEach?]
  | cons a rest ih =>
    rw [List.cons_append, gatherEach?, gatherEach?, ih]
    cases follow a with
    | none => rfl
    | some here => cases gatherEach? follow rest <;> cases gatherEach? follow second <;> simp

/-- What is gathered in two turns is gathered in one: all that a member leads to in both. -/
theorem gatherEach?_bind (follow : α → Option (List β)) (next : β → Option (List γ))
    (list : List α) : (gatherEach? follow list).bind (gatherEach? next) =
      gatherEach? (fun a => (follow a).bind (gatherEach? next)) list := by
  induction list with
  | nil => rfl
  | cons a rest ih =>
    rw [gatherEach?, gatherEach?, ← ih]
    cases follow a with
    | none => rfl
    | some here =>
      cases hrest : gatherEach? follow rest with
      | none => cases hhere : gatherEach? next here <;> simp [hhere]
      | some more => simp [gatherEach?_append]

end

/-! ### Selection -/

/-- The children that an item selects. -/
def Item.select? (json : Json) : Item → Option (List Json)
  | .name key => some (json.field? key).toList
  | .wildcard => some json.children
  | .index i => some (json.item? i).toList
  | .slice start stop step =>
    match json with
    | .array items => sliceOf? items start stop step
    | _ => some []

/-- The children that a choice selects. -/
def Choice.select? (json : Json) : Choice → Option (List Json)
  | .item single => single.select? json
  | .union items => gatherEach? (fun single => single.select? json) items
  | .filter condition => some (json.children.filter condition.accepts)

/-- The values that a segment selects from a value. -/
def Segment.select? (json : Json) : Segment → Option (List Json)
  | .child choice => choice.select? json
  | .descendant choice => gatherEach? (fun below => choice.select? below) json.selfAndBelow

/-- The values that segments select from a row of values, one segment after another. -/
def selectAll? : List Segment → List Json → Option (List Json)
  | [], values => some values
  | segment :: rest, values =>
    (gatherEach? (fun json => segment.select? json) values).bind (selectAll? rest)

/-- Segments one after another select what the second select from what the first select. -/
theorem selectAll?_append (first second : List Segment) (values : List Json) :
    selectAll? (first ++ second) values = (selectAll? first values).bind (selectAll? second) := by
  induction first generalizing values with
  | nil => rfl
  | cons segment rest ih =>
    rw [List.cons_append, selectAll?, selectAll?, Option.bind_assoc]
    exact congrArg _ (funext ih)

/-- Segments select from each value on its own. -/
theorem selectAll?_gatherEach? (segments : List Segment) (values : List Json) :
    selectAll? segments values = gatherEach? (fun json => selectAll? segments [json]) values := by
  induction segments generalizing values with
  | nil =>
    refine (gatherEach?_eq_some_iff.2 ⟨fun _ _ => rfl, ?_⟩).symm
    exact (List.flatMap_singleton' values).symm
  | cons segment rest ih =>
    have hrest : selectAll? rest = gatherEach? fun json => selectAll? rest [json] := funext ih
    have hone (json : Json) : selectAll? (segment :: rest) [json] =
        (segment.select? json).bind (gatherEach? fun json => selectAll? rest [json]) := by
      rw [selectAll?, gatherEach?_singleton, ← hrest]
    rw [selectAll?, hrest, gatherEach?_bind]
    exact gatherEach?_congr fun json _ => (hone json).symm

end JsonPath
end Gleaner
