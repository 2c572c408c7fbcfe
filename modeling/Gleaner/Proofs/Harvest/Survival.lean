/-
# JSON values that a harvest keeps

A datum takes a JSON value apart as far as its arrays go; an object it holds as it is. So the
numbers inside of objects stay what they are, and so do all others but those that no datum can hold:
an integer from 2⁶³ on becomes a double. Where there are none of these outside of objects, the value
of a datum is the value from which it was made, and the values that a path selects come back from a
harvest unchanged.

Key definitions: `Json.HoldsOutside`, `Json.Numeric.Kept`, `Datum.Keeps`.
Key theorems: `Datum.toJson_ofJson_eq_iff`, `Datum.keeps_ofMatches`, `keeps_of_harvest`.
-/
import Gleaner.Proofs.Harvest.Accounting

namespace Gleaner

open Gleaner.Number

namespace Json

/-- A number lies in a value outside of all objects: it is the value, or it lies so in an item. -/
inductive HoldsOutside : Json → Numeric → Prop
  | self (n : Numeric) : HoldsOutside (.number n) n
  | item {items : List Json} {item : Json} {n : Numeric} (hitem : item ∈ items)
      (h : HoldsOutside item n) : HoldsOutside (.array items) n

/-- A number that a datum can hold as it is: an integer of 64 bits with a sign, or a double. -/
def Numeric.Kept : Numeric → Prop
  | .integer n => fitsInt64 n = true
  | .float _ => True

theorem holdsOutside_number_iff {n m : Numeric} : (number n).HoldsOutside m ↔ m = n := by
  constructor
  · rintro ⟨⟩
    rfl
  · rintro rfl
    exact .self m

theorem holdsOutside_array_iff {items : List Json} {n : Numeric} :
    (array items).HoldsOutside n ↔ ∃ item ∈ items, item.HoldsOutside n := by
  constructor
  · rintro (_ | ⟨hitem, h⟩)
    exact ⟨_, hitem, h⟩
  · rintro ⟨item, hitem, h⟩
    exact .item hitem h

end Json

namespace Datum

/-- A datum holds a row of values as they are: none is not found, a single one stands for itself,
and more are an array. -/
def Keeps (d : Datum) : List Json → Prop
  | [] => d = .notFound
  | [single] => d.toJson = single
  | selected => d.toJson = .array selected

/-- A number comes back from its datum if the datum can hold it. -/
theorem toJson_ofJson_number_eq_iff {n : Json.Numeric} (h : n.Proper) :
    (ofJson (.number n)).toJson = .number n ↔ n.Kept := by
  cases n with
  | integer n =>
    rw [ofJson, Json.Numeric.Kept]
    split
    · next hfits => exact iff_of_true rfl hfits
    · next hlarge =>
      refine iff_of_false (fun heq => ?_) hlarge
      rw [toJson] at heq
      split at heq <;> cases heq
  | float x => exact iff_of_true (if_pos h) trivial

/-- **Values that come back from their data.** A value is that of its datum exactly when the datum
can hold each number in it that is outside of objects. -/
theorem toJson_ofJson_eq_iff {json : Json} (h : json.Proper) :
    (ofJson json).toJson = json ↔ ∀ n, json.HoldsOutside n → n.Kept := by
  induction json using Json.induction_children with
  | step json ih =>
    cases json with
    | number n =>
      rw [toJson_ofJson_number_eq_iff (h n (Json.self_mem_selfAndBelow _))]
      simp only [Json.holdsOutside_number_iff, forall_eq]
    | array items =>
      have hitems : ∀ item ∈ items, ((ofJson item).toJson = item ↔
          ∀ n, item.HoldsOutside n → n.Kept) :=
        fun item hitem => ih item hitem (h.child hitem)
      calc (ofJson (.array items)).toJson = .array items
          ↔ (items.map fun item => (ofJson item).toJson) = items := by
            rw [toJson_ofJson_array, Json.array.injEq]
        _ ↔ ∀ item ∈ items, (ofJson item).toJson = item := by
            conv_lhs => rhs; rw [← List.map_id items]
            exact List.map_inj_left
        _ ↔ ∀ item ∈ items, ∀ n, item.HoldsOutside n → n.Kept := forall₂_congr hitems
        _ ↔ ∀ n, (Json.array items).HoldsOutside n → n.Kept := by
            simp only [Json.holdsOutside_array_iff, forall_exists_index, and_imp]
            exact ⟨fun hall n item hitem => hall item hitem n,
              fun hall item hitem n => hall n item hitem⟩
    | _ => exact iff_of_true rfl nofun

/-- The collapsed data of values that come back hold them as they are. -/
theorem keeps_ofMatches {selected : List Json}
    (h : ∀ json ∈ selected, (ofJson json).toJson = json) :
    (ofMatches (selected.map ofJson)).Keeps selected := by
  match selected with
  | [] => rfl
  | [single] => exact h single List.mem_cons_self
  | first :: second :: rest =>
    change (Datum.list ((first :: second :: rest).map ofJson)).toJson = .array _
    rw [toJson, toJsonItems_eq_map, List.map_map]
    exact congrArg Json.array ((List.map_congr_left h).trans (List.map_id _))

end Datum

/-- **Selected values come back unchanged.** Where the evaluation of a path does not break off and
each number in a selected value is an integer of 64 bits with a sign or a double, unless it lies in
an object of that value, the collapsed data of the path hold the selected values as they are, and so
does each harvest at each key whose selector writes the path. -/
theorem keeps_of_harvest {root : Json} (hroot : root.Proper) {text : String} {path : JsonPath}
    (hread : JsonPath.read text = .ok path) {selected : List Json}
    (hselected : path.select? root = some selected)
    (hkept : ∀ json ∈ selected, ∀ n, json.HoldsOutside n → n.Kept) :
    (∃ found, path.evaluate? root = some found ∧ (Datum.ofMatches found).Keeps selected) ∧
      ∀ selection harvest key, harvestJson root selection = .ok harvest →
        selection.get? key = some text →
        ∃ d, harvest.values.get? key = some d ∧ d.Keeps selected := by
  have hcollapsed : (Datum.ofMatches (selected.map .ofJson)).Keeps selected :=
    Datum.keeps_ofMatches fun json hjson => (Datum.toJson_ofJson_eq_iff
      (hroot.below (JsonPath.below_of_select? hselected hjson))).2 (hkept json hjson)
  refine ⟨⟨_, by rw [JsonPath.evaluate?, hselected, Option.map_some], hcollapsed⟩,
    fun selection harvest key hharvest hkey => ?_⟩
  obtain ⟨-, rfl⟩ := harvestJson_eq_ok_iff.1 hharvest
  have hfound := jsonPaths_eq_ok_iff.2 ⟨path, selected, hread, hselected, rfl⟩
  refine ⟨_, ?_, hcollapsed⟩
  rw [get?_harvestBy, hkey, Option.map_some, Strategy.datum_of_ok hfound]

/-- The least integer that a datum can hold, the greatest of JSON in an object, and a double. -/
def mixedNumbers : List Json :=
  [.array [.number (.integer (-9223372036854775808)),
    .object [("b", .number (.integer 18446744073709551615))]], .number (.float 0.5)]

theorem keeps_of_harvest_mixedNumbers :
    (Json.array mixedNumbers).Proper ∧ JsonPath.read "$[*]" =
        .ok ⟨"$[*]", [.child (.item .wildcard)]⟩ ∧
      JsonPath.select? ⟨"$[*]", [.child (.item .wildcard)]⟩ (.array mixedNumbers) =
        some mixedNumbers ∧
      (∀ json ∈ mixedNumbers, ∀ n, json.HoldsOutside n → n.Kept) ∧
      (∃ found, JsonPath.evaluate? ⟨"$[*]", [.child (.item .wildcard)]⟩ (.array mixedNumbers) =
        some found ∧ (Datum.ofMatches found).Keeps mixedNumbers) ∧
      ∀ selection harvest key, harvestJson (.array mixedNumbers) selection = .ok harvest →
        selection.get? key = some "$[*]" →
        ∃ d, harvest.values.get? key = some d ∧ d.Keeps mixedNumbers := by
  have hhalf : isFiniteFloat 0.5 = true := by decide +kernel
  have hinteger (n : Int) (h : leastInt64 ≤ n ∧ n < twoTo 64) : (Json.number (.integer n)).Proper :=
    Json.proper_number h
  have hproper : (Json.array mixedNumbers).Proper := by
    refine Json.proper_array (List.forall_mem_cons.2 ⟨Json.proper_array ?_,
      List.forall_mem_singleton.2 (Json.proper_number hhalf)⟩)
    refine List.forall_mem_cons.2 ⟨hinteger _ (by decide), List.forall_mem_singleton.2 ?_⟩
    exact Json.proper_object (List.forall_mem_singleton.2 (hinteger _ (by decide)))
  have hread : JsonPath.read "$[*]" = .ok ⟨"$[*]", [.child (.item .wildcard)]⟩ := by
    have hwritten :
        String.ofList (JsonPath.writtenPath true [.child (.item .wildcard)]) = "$[*]" := by decide
    exact JsonPath.read_of_written true hwritten (List.forall_mem_singleton.2 trivial)
  have hkept : ∀ json ∈ mixedNumbers, ∀ n, json.HoldsOutside n → n.Kept := by
    refine List.forall_mem_cons.2 ⟨?_, List.forall_mem_singleton.2 ?_⟩
    · rintro n (_ | ⟨hitem, hnumber⟩)
      rcases List.mem_pair.1 hitem with rfl | rfl
      · rw [Json.holdsOutside_number_iff.1 hnumber]
        exact (by decide : fitsInt64 (-9223372036854775808) = true)
      · cases hnumber
    · rintro n ⟨⟩
      trivial
  have hselected : JsonPath.select? ⟨"$[*]", [.child (.item .wildcard)]⟩ (.array mixedNumbers) =
      some mixedNumbers := JsonPath.select?_single _ _ _
  exact ⟨hproper, hread, hselected, hkept, keeps_of_harvest hproper hread hselected hkept⟩

end Gleaner
