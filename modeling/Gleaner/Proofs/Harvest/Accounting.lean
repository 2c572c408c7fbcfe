/-
# What a serialized harvest accounts for

Serialized, a harvest lists the keys that were found with their values, and the keys that were not.
Each key of the selection is in one of the two lists, both in ascending order, and it is in the
second when the strategy that decides on its selector selected nothing. The mark that nothing was
found is never written as null: a null stands among the values at exactly the places where the
selected JSON values hold one, and nowhere when the content is markup. No number is written as null
either, since none is infinite or no number.

Key definitions: `Json.NullAt`, `Json.gathered`, `Harvest.foundValues`, `Harvest.missingKeys`,
`Format.decider`.
Key theorems: `Datum.nullAt_toJson_ofJson`, `Format.harvest_eq_ok`, `accounts_of_harvest`.
-/
import Gleaner.Harvest.Format
import Gleaner.Proofs.Harvest.Refinement
import Gleaner.Proofs.Json.Below
import Gleaner.Proofs.JsonPath.Whole
import Gleaner.Proofs.Query.Reading

namespace Gleaner

open Gleaner.Markup

/-! ### Data as JSON values -/

/-- A null lies at a path. -/
def Json.NullAt (json : Json) (place : List JsonPath.Key) : Prop :=
  JsonPath.lookup? json place = some .null

/-- Selected values as one value: a single one stands for itself, others are an array. -/
def Json.gathered : List Json → Json
  | [single] => single
  | items => .array items

namespace Json

/-- A null lies in an object at the key of a field and, from there, in its value. -/
theorem nullAt_object_iff {fields : List (String × Json)} {place : List JsonPath.Key} :
    (object fields).NullAt place ↔
      ∃ key rest value, place = .name key :: rest ∧ fields.lookup key = some value ∧
        value.NullAt rest := by
  match place with
  | [] => exact iff_of_false (fun h => by cases h) (fun ⟨_, _, _, h, _⟩ => by cases h)
  | .index i :: rest => exact iff_of_false (fun h => by cases h) (fun ⟨_, _, _, h, _⟩ => by cases h)
  | .name key :: rest =>
    have hlookup : (object fields).NullAt (.name key :: rest) ↔
        ∃ value, fields.lookup key = some value ∧ value.NullAt rest := Option.bind_eq_some_iff
    rw [hlookup]
    constructor
    · rintro ⟨value, hvalue, hnull⟩
      exact ⟨key, rest, value, rfl, hvalue, hnull⟩
    · rintro ⟨_, _, value, heq, hvalue, hnull⟩
      cases heq
      exact ⟨value, hvalue, hnull⟩

/-- There is no null where nothing is gathered. -/
theorem ne_nil_of_nullAt_gathered {selected : List Json} {place : List JsonPath.Key}
    (h : (gathered selected).NullAt place) : selected ≠ [] := by
  rintro rfl
  match place with
  | [] => cases h
  | .name key :: rest => cases h
  | .index i :: rest =>
    have hitem : (array []).item? i = none := by
      simp [item?, JsonPath.itemAt?]
    have hbind : ((array []).item? i).bind (JsonPath.lookup? · rest) = some null := h
    rw [hitem] at hbind
    cases hbind

theorem proper_gathered {selected : List Json} (h : ∀ json ∈ selected, json.Proper) :
    (gathered selected).Proper := by
  match selected with
  | [] => exact proper_array h
  | [single] => exact h single List.mem_cons_self
  | first :: second :: rest => exact proper_array h

end Json

namespace Datum

theorem isFound_ofJson (json : Json) : (ofJson json).isFound = true := by
  cases json with
  | number n =>
    cases n with
    | integer n =>
      rw [ofJson]
      split <;> rfl
    | float x => rfl
  | _ => rfl

/-- Data of JSON values, collapsed, are the datum of the gathered values. -/
theorem ofMatches_ofJson {selected : List Json} (h : selected ≠ []) :
    ofMatches (selected.map ofJson) = ofJson (Json.gathered selected) := by
  match selected with
  | [] => exact absurd rfl h
  | [single] => rfl
  | first :: second :: rest =>
    exact congrArg Datum.list (ofJsonItems_eq_map (first :: second :: rest)).symm

/-- A proper number becomes a proper number. -/
theorem toJson_ofJson_number {n : Json.Numeric} (h : n.Proper) :
    ∃ m : Json.Numeric, (ofJson (.number n)).toJson = .number m ∧ m.Proper := by
  cases n with
  | integer n =>
    obtain ⟨hlow, hhigh⟩ := h
    rw [ofJson]
    split
    · exact ⟨.integer n, rfl, hlow, hhigh⟩
    · have hleast : Number.leastInt64 = -2 ^ 63 := rfl
      have hgreatest : (Number.twoTo 64 : Int) = 2 ^ 64 := rfl
      have hsize : n.natAbs ≤ Number.twoTo 64 := by
        show n.natAbs ≤ 2 ^ 64
        omega
      have hfinite := Number.isFiniteFloat_floatOfInt hsize
      exact ⟨.float (Number.floatOfInt n), if_pos hfinite, hfinite⟩
  | float x => exact ⟨.float x, if_pos h, h⟩

theorem toJson_ofJson_array (items : List Json) :
    (ofJson (.array items)).toJson = .array (items.map fun item => (ofJson item).toJson) := by
  rw [ofJson, toJson, ofJsonItems_eq_map, toJsonItems_eq_map, List.map_map]
  rfl

theorem proper_toJson_ofJson {json : Json} (h : json.Proper) : (ofJson json).toJson.Proper := by
  induction json using Json.induction_children with
  | step json ih =>
    cases json with
    | number n =>
      obtain ⟨m, hm, hproper⟩ := toJson_ofJson_number (h n (Json.self_mem_selfAndBelow _))
      rw [hm]
      exact Json.proper_number hproper
    | array items =>
      rw [toJson_ofJson_array]
      apply Json.proper_array
      intro item hitem
      obtain ⟨source, hsource, rfl⟩ := List.mem_map.1 hitem
      exact ih source hsource (h.child hsource)
    | object fields => exact h
    | _ => exact h

/-- A value of proper numbers has its nulls where its datum, as a value, has them. -/
theorem nullAt_toJson_ofJson {json : Json} (h : json.Proper) (place : List JsonPath.Key) :
    (ofJson json).toJson.NullAt place ↔ json.NullAt place := by
  induction place generalizing json with
  | nil =>
    show some (ofJson json).toJson = some Json.null ↔ some json = some Json.null
    rw [Option.some.injEq, Option.some.injEq]
    cases json with
    | number n =>
      obtain ⟨m, hm, -⟩ := toJson_ofJson_number (h n (Json.self_mem_selfAndBelow _))
      rw [hm]
      exact iff_of_false (fun heq => by cases heq) (fun heq => by cases heq)
    | array items =>
      rw [toJson_ofJson_array]
      exact iff_of_false (fun heq => by cases heq) (fun heq => by cases heq)
    | _ => rfl
  | cons key rest ih =>
    -- only arrays are made anew; an object is kept as it is, with all below it
    cases json with
    | number n =>
      obtain ⟨m, hm, -⟩ := toJson_ofJson_number (h n (Json.self_mem_selfAndBelow _))
      rw [hm]
      cases key <;> rfl
    | array items =>
      rw [toJson_ofJson_array]
      cases key with
      | name key => rfl
      | index i =>
        have hitem : (Json.array (items.map fun item => (ofJson item).toJson)).item? i =
            ((Json.array items).item? i).map fun item => (ofJson item).toJson := by
          simp only [Json.item?, JsonPath.itemAt?, List.length_map, List.getElem?_map]
          split <;> rfl
        show ((Json.array _).item? i).bind _ = _ ↔ ((Json.array items).item? i).bind _ = _
        rw [hitem]
        cases hsource : (Json.array items).item? i with
        | none => rfl
        | some source => exact ih (h.child (JsonPath.item?_mem_children hsource))
    | _ => rfl

/-- What lies below the value of collapsed matches lies below the value of one of them, unless it
is the array of all of them. -/
theorem below_toJson_ofMatches {found : List Datum} {below : Json} (hne : found ≠ [])
    (h : below ∈ (ofMatches found).toJson.selfAndBelow) :
    below = .array (found.map toJson) ∨ ∃ d ∈ found, below ∈ d.toJson.selfAndBelow := by
  match found with
  | [] => exact absurd rfl hne
  | [single] => exact .inr ⟨single, List.mem_cons_self, h⟩
  | first :: second :: rest =>
    have hlist : (ofMatches (first :: second :: rest)).toJson =
        .array ((first :: second :: rest).map toJson) := by
      show (Datum.list _).toJson = _
      rw [toJson, toJsonItems_eq_map]
    rw [hlist] at h
    rcases Json.mem_selfAndBelow_iff.1 h with heq | ⟨child, hchild, hbelow⟩
    · exact .inl heq
    · obtain ⟨d, hd, rfl⟩ := List.mem_map.1 hchild
      exact .inr ⟨d, hd, hbelow⟩

end Datum

/-! ### What decides on a key -/

/-- The strategy whose evaluation decides on a selector of a selection. -/
def Format.decider (format : Format) (content : String) (policy : Policy) (selection : Selection)
    (selector : String) : Strategy :=
  match format with
  | .html =>
    policy.chosen (stepwise (.ofText content)) (queried (.ofText content)) selection selector
  | .xml =>
    policy.chosen (stepwise (.ofXml content)) (queried (.ofXml content)) selection selector
  | .json => jsonPaths ((Json.read? content).getD .null)

/-- A harvest from a document holds what the strategies that the policy chooses answer. -/
theorem harvestDocument_eq_ok {d : Document} {policy : Policy} {selection : Selection}
    {harvest : Harvest} (h : harvestDocument d policy selection = .ok harvest) :
    harvest = harvestBy (policy.chosen (stepwise d) (queried d) selection) selection ∧
      ∀ e ∈ selection.entries,
        (policy.chosen (stepwise d) (queried d) selection e.2).answers e.2 = true := by
  rw [harvestDocument, outcome_gatherWith_eq_ruling] at h
  exact Policy.ruling_eq_ok h

/-- A harvest holds what the deciding strategies answer, and they answer every selector; a harvest
from JSON has a value to select from. -/
theorem Format.harvest_eq_ok {format : Format} {content : String} {policy : Policy}
    {selection : Selection} {harvest : Harvest}
    (h : format.harvest content policy selection = .ok harvest) :
    harvest = harvestBy (format.decider content policy selection) selection ∧
      (∀ e ∈ selection.entries,
        (format.decider content policy selection e.2).answers e.2 = true) ∧
      (format = .json → ∃ root, Json.read? content = some root) := by
  cases format with
  | html =>
    obtain ⟨hharvest, hanswers⟩ := harvestDocument_eq_ok h
    exact ⟨hharvest, hanswers, fun heq => by cases heq⟩
  | xml =>
    obtain ⟨hharvest, hanswers⟩ := harvestDocument_eq_ok h
    exact ⟨hharvest, hanswers, fun heq => by cases heq⟩
  | json =>
    unfold Format.harvest at h
    cases hread : Json.read? content with
    | none =>
      rw [hread] at h
      cases h
    | some root =>
      rw [hread] at h
      obtain ⟨hanswers, hharvest⟩ := harvestJson_eq_ok_iff.1 h
      have hdecider (selector : String) :
          Format.json.decider content policy selection selector = jsonPaths root := by
        rw [decider, hread]
        rfl
      refine ⟨?_, fun e he => ?_, fun _ => ⟨root, rfl⟩⟩
      · rw [hharvest]
        exact harvestBy_congr fun e _ => (hdecider e.2).symm
      · rw [hdecider]
        exact hanswers e he

/-! ### Matches of the strategies -/

theorem exists_text_of_mem_readElements {accessor : Option Selector.Accessor}
    {list : List Element} {d : Datum} (h : d ∈ Selector.readElements accessor list) :
    ∃ s, d = .text s ∨ d = .data s := by
  match accessor with
  | some .text =>
    obtain ⟨e, -, rfl⟩ := List.mem_map.1 h
    exact ⟨e.ownText, .inl rfl⟩
  | some .node =>
    obtain ⟨e, -, hd⟩ := List.mem_flatMap.1 h
    obtain ⟨s, -, rfl⟩ := List.mem_map.1 hd
    exact ⟨s, .inr rfl⟩
  | some (.attribute name) =>
    obtain ⟨e, -, hd⟩ := List.mem_filterMap.1 h
    obtain ⟨s, -, rfl⟩ := Option.map_eq_some_iff.1 hd
    exact ⟨s, .inl rfl⟩
  | none =>
    obtain ⟨e, -, hd⟩ := List.mem_flatMap.1 h
    obtain ⟨s, -, rfl⟩ := List.mem_map.1 hd
    exact ⟨s, .inl rfl⟩

theorem readElements_of_stepwise {d : Document} {text : String} {found : List Datum}
    (h : (stepwise d).evaluate text = .ok found) :
    ∃ accessor list, found = Selector.readElements accessor list := by
  have heval : Selector.evaluate d text = .ok found := mapError_eq_ok_iff.1 h
  obtain ⟨s, -, heval⟩ := bind_eq_ok_iff.1 heval
  obtain ⟨list, -, heval⟩ := bind_eq_ok_iff.1 heval
  exact ⟨s.accessor, list, (Except.ok.inj heval).symm⟩

theorem readElements_of_queried {d : Document} {text : String} {found : List Datum}
    (h : (queried d).evaluate text = .ok found) :
    ∃ accessor list, found = Selector.readElements accessor list := by
  have heval : Query.evaluate d text = .ok found := mapError_eq_ok_iff.1 h
  unfold Query.evaluate at heval
  simp only at heval
  split at heval
  · exact ⟨_, d.elements, (Except.ok.inj heval).symm⟩
  · obtain ⟨query, -, heval⟩ := bind_eq_ok_iff.1 heval
    obtain ⟨list, -, heval⟩ := bind_eq_ok_iff.1 heval
    exact ⟨_, list, (Except.ok.inj heval).symm⟩

theorem Policy.chosen_cases (policy : Policy) (first second : Strategy) (selection : Selection)
    (selector : String) :
    policy.chosen first second selection selector = first ∨
      policy.chosen first second selection selector = second := by
  cases policy with
  | disabled => exact .inl rfl
  | wholeBatch => exact ite_eq_or_eq ..
  | perKey => exact ite_eq_or_eq ..

/-- The strategies on markup yield texts and data. -/
theorem exists_text_of_decider {format : Format} (hmarkup : format ≠ .json) {content : String}
    {policy : Policy} {selection : Selection} {selector : String} {found : List Datum}
    (h : (format.decider content policy selection selector).evaluate selector = .ok found) :
    ∀ d ∈ found, ∃ s, d = .text s ∨ d = .data s := by
  have hdocument : ∃ d : Document, format.decider content policy selection selector =
      policy.chosen (stepwise d) (queried d) selection selector := by
    cases format with
    | html => exact ⟨_, rfl⟩
    | xml => exact ⟨_, rfl⟩
    | json => exact absurd rfl hmarkup
  obtain ⟨d, hd⟩ := hdocument
  rw [hd] at h
  have hread : ∃ accessor list, found = Selector.readElements accessor list := by
    rcases policy.chosen_cases (stepwise d) (queried d) selection selector with hfirst | hsecond
    · rw [hfirst] at h
      exact readElements_of_stepwise h
    · rw [hsecond] at h
      exact readElements_of_queried h
  obtain ⟨accessor, list, rfl⟩ := hread
  exact fun d hd => exists_text_of_mem_readElements hd

/-- JSON paths yield the data of the values that they select. -/
theorem exists_path_of_decider {content : String} {policy : Policy} {selection : Selection}
    {selector : String} {found : List Datum}
    (h : (Format.json.decider content policy selection selector).evaluate selector = .ok found) :
    ∃ path selected, JsonPath.read selector = .ok path ∧
      path.select? ((Json.read? content).getD .null) = some selected ∧
      found = selected.map Datum.ofJson :=
  jsonPaths_eq_ok_iff.1 h

/-- No strategy yields the mark that nothing was found. -/
theorem isFound_of_decider {format : Format} {content : String} {policy : Policy}
    {selection : Selection} {selector : String} {found : List Datum}
    (h : (format.decider content policy selection selector).evaluate selector = .ok found) :
    ∀ d ∈ found, d.isFound = true := by
  intro d hd
  by_cases hmarkup : format = .json
  · subst hmarkup
    obtain ⟨path, selected, -, -, rfl⟩ := exists_path_of_decider h
    obtain ⟨json, -, rfl⟩ := List.mem_map.1 hd
    exact Datum.isFound_ofJson json
  · obtain ⟨s, rfl | rfl⟩ := exists_text_of_decider hmarkup h d hd
    · rfl
    · rfl

/-! ### The two lists -/

namespace Harvest

/-- The keys that were found, with their values. -/
def foundValues (harvest : Harvest) : List (String × Json) :=
  (harvest.values.entries.filter fun e => e.2.isFound).map fun e => (e.1, e.2.toJson)

/-- The keys that were not found. -/
def missingKeys (harvest : Harvest) : List String :=
  (harvest.values.entries.filter fun e => !e.2.isFound).map (·.1)

theorem toJson_eq (harvest : Harvest) :
    harvest.toJson = .object [("values", .object harvest.foundValues),
      ("not_found", .array (harvest.missingKeys.map .string))] := by
  rw [toJson, missingKeys, List.map_map]
  rfl

theorem ascending_foundValues (harvest : Harvest) : Ascending harvest.foundValues :=
  List.pairwise_map.2 (harvest.values.ascending.filter _)

theorem pairwise_missingKeys (harvest : Harvest) : harvest.missingKeys.Pairwise (· < ·) :=
  List.pairwise_map.2 (harvest.values.ascending.filter _)

/-- The two lists hold each key once. -/
theorem perm_keys (harvest : Harvest) :
    (harvest.foundValues.map (·.1) ++ harvest.missingKeys).Perm harvest.values.keys := by
  have hfound : harvest.foundValues.map (·.1) =
      (harvest.values.entries.filter fun e => e.2.isFound).map (·.1) := by
    rw [foundValues, List.map_map]
    rfl
  rw [hfound, missingKeys, ← List.map_append]
  exact (List.filter_append_perm _ _).map _

theorem mem_foundValues_iff {harvest : Harvest} {key : String} {value : Json} :
    (key, value) ∈ harvest.foundValues ↔
      ∃ d, harvest.values.get? key = some d ∧ d.isFound = true ∧ value = d.toJson := by
  simp only [foundValues, List.mem_map, List.mem_filter, KeyMap.get?_eq_some_iff]
  constructor
  · rintro ⟨⟨k, d⟩, ⟨hmem, hfound⟩, heq⟩
    obtain ⟨rfl, rfl⟩ := Prod.mk.inj heq
    exact ⟨d, hmem, hfound, rfl⟩
  · rintro ⟨d, hmem, hfound, rfl⟩
    exact ⟨(key, d), ⟨hmem, hfound⟩, rfl⟩

theorem lookup_foundValues_iff {harvest : Harvest} {key : String} {value : Json} :
    harvest.foundValues.lookup key = some value ↔
      ∃ d, harvest.values.get? key = some d ∧ d.isFound = true ∧ value = d.toJson :=
  (KeyMap.get?_eq_some_iff (m := ⟨_, harvest.ascending_foundValues⟩)).trans mem_foundValues_iff

theorem mem_missingKeys_iff {harvest : Harvest} {key : String} :
    key ∈ harvest.missingKeys ↔
      ∃ d, harvest.values.get? key = some d ∧ d.isFound = false := by
  simp only [missingKeys, List.mem_map, List.mem_filter, KeyMap.get?_eq_some_iff]
  constructor
  · rintro ⟨⟨k, d⟩, ⟨hmem, hmissing⟩, rfl⟩
    exact ⟨d, hmem, by simpa using hmissing⟩
  · rintro ⟨d, hmem, hmissing⟩
    exact ⟨(key, d), ⟨hmem, by simpa using hmissing⟩, rfl⟩

end Harvest

/-! ### What a harvest holds -/

section

variable {format : Format} {content : String} {policy : Policy} {selection : Selection}
  {harvest : Harvest}

/-- At a key of the selection stands what its deciding evaluation selected. -/
theorem exists_found_of_harvest (h : format.harvest content policy selection = .ok harvest)
    {key selector : String} (hkey : selection.get? key = some selector) :
    ∃ found, (format.decider content policy selection selector).evaluate selector = .ok found ∧
      harvest.values.get? key = some (.ofMatches found) := by
  obtain ⟨rfl, hanswers, -⟩ := Format.harvest_eq_ok h
  obtain ⟨found, hfound⟩ := Strategy.answers_iff.1 (hanswers _ (KeyMap.get?_eq_some_iff.1 hkey))
  refine ⟨found, hfound, ?_⟩
  rw [get?_harvestBy, hkey, Option.map_some, Strategy.datum_of_ok hfound]

/-- What a harvest holds at a key was selected for it. -/
theorem exists_selector_of_harvest (h : format.harvest content policy selection = .ok harvest)
    {key : String} {d : Datum} (hd : harvest.values.get? key = some d) :
    ∃ selector found, selection.get? key = some selector ∧
      (format.decider content policy selection selector).evaluate selector = .ok found ∧
      d = .ofMatches found ∧ (d.isFound = true ↔ found ≠ []) := by
  have hselector : ∃ selector, selection.get? key = some selector := by
    obtain ⟨rfl, -, -⟩ := Format.harvest_eq_ok h
    rw [get?_harvestBy] at hd
    obtain ⟨selector, hselector, -⟩ := Option.map_eq_some_iff.1 hd
    exact ⟨selector, hselector⟩
  obtain ⟨selector, hselector⟩ := hselector
  obtain ⟨found, hfound, hvalue⟩ := exists_found_of_harvest h hselector
  obtain rfl : d = .ofMatches found := Option.some.inj (hd.symm.trans hvalue)
  exact ⟨selector, found, hselector, hfound, rfl,
    Datum.isFound_ofMatches (isFound_of_decider hfound)⟩

/-- A key is missing when its deciding evaluation selected nothing. -/
theorem mem_missingKeys_of_harvest (h : format.harvest content policy selection = .ok harvest)
    {key selector : String} (hkey : selection.get? key = some selector) {found : List Datum}
    (hfound : (format.decider content policy selection selector).evaluate selector = .ok found) :
    key ∈ harvest.missingKeys ↔ found = [] := by
  obtain ⟨other, hother, hvalue⟩ := exists_found_of_harvest h hkey
  obtain rfl : found = other := Except.ok.inj (hfound.symm.trans hother)
  have hcollapsed := Datum.isFound_ofMatches (isFound_of_decider hfound)
  rw [Harvest.mem_missingKeys_iff, hvalue]
  constructor
  · rintro ⟨d, hd, hmissing⟩
    obtain rfl := Option.some.inj hd
    by_contra hne
    rw [hcollapsed.2 hne] at hmissing
    cases hmissing
  · rintro rfl
    exact ⟨_, rfl, rfl⟩

/-- The matches of a key are proper values. -/
theorem proper_of_decider (hjson : format = .json → ∃ root, Json.read? content = some root)
    {selector : String} {found : List Datum}
    (h : (format.decider content policy selection selector).evaluate selector = .ok found) :
    ∀ d ∈ found, d.toJson.Proper := by
  intro d hd
  by_cases hformat : format = .json
  · obtain ⟨root, hroot⟩ := hjson hformat
    subst hformat
    obtain ⟨path, selected, -, hselected, rfl⟩ := exists_path_of_decider h
    obtain ⟨json, hmem, rfl⟩ := List.mem_map.1 hd
    rw [hroot] at hselected
    exact Datum.proper_toJson_ofJson
      ((Json.read?_proper hroot).below (JsonPath.below_of_select? hselected hmem))
  · obtain ⟨s, rfl | rfl⟩ := exists_text_of_decider hformat h d hd
    · exact Json.proper_string s
    · exact Json.proper_string s

/-- All numbers of a serialized harvest are written as numbers. -/
theorem proper_of_harvest (h : format.harvest content policy selection = .ok harvest) :
    harvest.toJson.Proper := by
  obtain ⟨-, -, hjson⟩ := Format.harvest_eq_ok h
  have hvalues : (Json.object harvest.foundValues).Proper := by
    apply Json.proper_object
    rintro ⟨key, value⟩ hmem
    obtain ⟨d, hd, hisFound, rfl⟩ := Harvest.mem_foundValues_iff.1 hmem
    obtain ⟨selector, found, -, hfound, rfl, hne⟩ := exists_selector_of_harvest h hd
    intro n hn
    rcases Datum.below_toJson_ofMatches (hne.1 hisFound) hn with heq | ⟨d, hmatch, hbelow⟩
    · cases heq
    · exact proper_of_decider hjson hfound d hmatch n hbelow
  have hmissing : (Json.array (harvest.missingKeys.map .string)).Proper := by
    apply Json.proper_array
    intro item hitem
    obtain ⟨key, -, rfl⟩ := List.mem_map.1 hitem
    exact Json.proper_string key
  rw [Harvest.toJson_eq]
  apply Json.proper_object
  intro e he
  rcases List.mem_cons.1 he with rfl | he
  · exact hvalues
  · obtain rfl := List.mem_singleton.1 he
    exact hmissing

/-- Among the values of markup there is no null. -/
theorem null_notMem_of_harvest (h : format.harvest content policy selection = .ok harvest)
    (hmarkup : format ≠ .json) : Json.null ∉ (Json.object harvest.foundValues).selfAndBelow := by
  intro hnull
  rcases Json.mem_selfAndBelow_iff.1 hnull with heq | ⟨value, hvalue, hbelow⟩
  · cases heq
  obtain ⟨⟨key, value⟩, hmem, rfl⟩ := List.mem_map.1 hvalue
  obtain ⟨d, hd, hisFound, rfl⟩ := Harvest.mem_foundValues_iff.1 hmem
  obtain ⟨selector, found, -, hfound, rfl, hne⟩ := exists_selector_of_harvest h hd
  rcases Datum.below_toJson_ofMatches (hne.1 hisFound) hbelow with heq | ⟨d, hmatch, hbelow⟩
  · cases heq
  · obtain ⟨s, rfl | rfl⟩ := exists_text_of_decider hmarkup hfound d hmatch
    · cases List.mem_singleton.1 hbelow
    · cases List.mem_singleton.1 hbelow

/-- Among the values of a JSON content a null stands where the selected values, gathered under their
key, hold one. -/
theorem nullAt_foundValues_iff (h : Format.json.harvest content policy selection = .ok harvest)
    {root : Json} (hroot : Json.read? content = some root) (place : List JsonPath.Key) :
    (Json.object harvest.foundValues).NullAt place ↔
      ∃ key rest selector path selected, place = .name key :: rest ∧
        selection.get? key = some selector ∧ JsonPath.read selector = .ok path ∧
        path.select? root = some selected ∧ (Json.gathered selected).NullAt rest := by
  have hcollapsed {path : JsonPath} {selected : List Json}
      (hselected : path.select? root = some selected) (hne : selected ≠ [])
      (rest : List JsonPath.Key) : (Datum.ofMatches (selected.map .ofJson)).toJson.NullAt rest ↔
        (Json.gathered selected).NullAt rest := by
    rw [Datum.ofMatches_ofJson hne]
    refine Datum.nullAt_toJson_ofJson (Json.proper_gathered fun json hjson => ?_) rest
    exact (Json.read?_proper hroot).below (JsonPath.below_of_select? hselected hjson)
  rw [Json.nullAt_object_iff]
  constructor
  · rintro ⟨key, rest, value, rfl, hvalue, hnull⟩
    obtain ⟨d, hd, hisFound, rfl⟩ := Harvest.lookup_foundValues_iff.1 hvalue
    obtain ⟨selector, found, hkey, hfound, rfl, hne⟩ := exists_selector_of_harvest h hd
    obtain ⟨path, selected, hpath, hselected, rfl⟩ := exists_path_of_decider hfound
    rw [hroot] at hselected
    exact ⟨key, rest, selector, path, selected, rfl, hkey, hpath, hselected,
      (hcollapsed hselected (mt List.map_eq_nil_iff.2 (hne.1 hisFound)) rest).1 hnull⟩
  · rintro ⟨key, rest, selector, path, selected, rfl, hkey, hpath, hselected, hnull⟩
    have hne := Json.ne_nil_of_nullAt_gathered hnull
    obtain ⟨found, hfound, hvalue⟩ := exists_found_of_harvest h hkey
    obtain ⟨other, others, hother, hothers, rfl⟩ := exists_path_of_decider hfound
    obtain rfl : path = other := Except.ok.inj (hpath.symm.trans hother)
    rw [hroot] at hothers
    obtain rfl : selected = others := Option.some.inj (hselected.symm.trans hothers)
    have hisFound := (Datum.isFound_ofMatches (isFound_of_decider hfound)).2
    refine ⟨key, rest, _, rfl, Harvest.lookup_foundValues_iff.2 ⟨_, hvalue, ?_, rfl⟩,
      (hcollapsed hselected hne rest).2 hnull⟩
    exact hisFound (mt List.map_eq_nil_iff.1 hne)

/-- **What a serialized harvest accounts for.** A harvest is written as the values that were found
and the keys that were not. Both lists are in ascending order of the keys, they share no key, and
together they hold each key of the selection once. A key is in the second list when its deciding
evaluation selected nothing. Every number is an integer of 64 bits or a double that is a number, so
none is written as null. Of a JSON content the values hold a null at exactly the places where the
selected values hold one; of markup they hold none. -/
theorem accounts_of_harvest (h : format.harvest content policy selection = .ok harvest) :
    harvest.toJson = .object [("values", .object harvest.foundValues),
        ("not_found", .array (harvest.missingKeys.map .string))] ∧
      Ascending harvest.foundValues ∧ harvest.missingKeys.Pairwise (· < ·) ∧
      (harvest.foundValues.map (·.1) ++ harvest.missingKeys).Perm selection.keys ∧
      (harvest.foundValues.map (·.1)).Disjoint harvest.missingKeys ∧
      (∀ key selector, selection.get? key = some selector →
        ∃ found,
          (format.decider content policy selection selector).evaluate selector = .ok found ∧
            (key ∈ harvest.missingKeys ↔ found = [])) ∧
      harvest.toJson.Proper ∧
      (format = .json → ∃ root, Json.read? content = some root ∧
        ∀ place, (Json.object harvest.foundValues).NullAt place ↔
          ∃ key rest selector path selected, place = .name key :: rest ∧
            selection.get? key = some selector ∧ JsonPath.read selector = .ok path ∧
            path.select? root = some selected ∧ (Json.gathered selected).NullAt rest) ∧
      (format ≠ .json → Json.null ∉ (Json.object harvest.foundValues).selfAndBelow) := by
  obtain ⟨hharvest, -, hjson⟩ := Format.harvest_eq_ok h
  have hkeys : harvest.values.keys = selection.keys := by
    rw [hharvest]
    exact KeyMap.keys_map _ selection
  have hperm := hkeys ▸ harvest.perm_keys
  have hnodup : (harvest.foundValues.map (·.1) ++ harvest.missingKeys).Nodup :=
    hperm.nodup_iff.2 selection.nodup_keys
  have hdisjoint : (harvest.foundValues.map (·.1)).Disjoint harvest.missingKeys :=
    fun key hfound hmissing => (List.nodup_append.1 hnodup).2.2 key hfound key hmissing rfl
  refine ⟨harvest.toJson_eq, harvest.ascending_foundValues, harvest.pairwise_missingKeys, hperm,
    hdisjoint, ?_, proper_of_harvest h, ?_, null_notMem_of_harvest h⟩
  · intro key selector hkey
    obtain ⟨found, hfound, -⟩ := exists_found_of_harvest h hkey
    exact ⟨found, hfound, mem_missingKeys_of_harvest h hkey hfound⟩
  · rintro rfl
    obtain ⟨root, hroot⟩ := hjson rfl
    exact ⟨root, hroot, nullAt_foundValues_iff h hroot⟩

end

/-- A key for the whole content and one for a field. -/
def wholeAndField : Selection :=
  .ofList [("whole", "$"), ("field", "$.x")]

theorem read_dollar : JsonPath.read "$" = .ok ⟨"$", []⟩ := by
  have hrooted : JsonPath.rootedText "$".toList = ['$'] := by rfl
  have hread : JsonPath.readRooted ['$'] = .ok [] := JsonPath.readSegments_nil
  rw [JsonPath.read, hrooted, hread]

theorem read_field :
    JsonPath.read "$.x" = .ok ⟨"$.x", [.child (.item (.name "x"))]⟩ := by
  have hsegment : JsonPath.readSegments ['.', 'x'] = .ok [.child (.item (.name "x"))] := by
    rw [JsonPath.readSegments]
    show (JsonPath.readSegments [] >>= fun _ => _) = _
    rw [JsonPath.readSegments_nil]
    rfl
  have hrooted : JsonPath.rootedText "$.x".toList = ['$', '.', 'x'] := by rfl
  have hread : JsonPath.readRooted ['$', '.', 'x'] = .ok [.child (.item (.name "x"))] := hsegment
  rw [JsonPath.read, hrooted, hread]

theorem read_listOfNull : Json.read? "[null]" = some (.array [.null]) := by
  have hwritten : Json.writtenOf? "[null]" = some (.array [.null]) := by
    show (Json.readWritten? ['[', 'n', 'u', 'l', 'l', ']']).bind _ = _
    rw [Json.readWritten?]
    show ((Json.readItems? _).bind _).bind _ = _
    rw [Json.readItems?, Json.readWritten?]
    rfl
  rw [Json.read?, hwritten]
  rfl

/-- What is found in a list of a null, which has no field. -/
def listAndNoField : Harvest :=
  .ofList [("field", .notFound), ("whole", .list [.null])]

/-- The null is found inside the list, and only there; the field is not found. -/
theorem accounts_of_listOfNull :
    Format.json.harvest "[null]" .wholeBatch wholeAndField = .ok listAndNoField ∧
      listAndNoField.toJson.Proper ∧ "field" ∈ listAndNoField.missingKeys ∧
      (Json.object listAndNoField.foundValues).NullAt [.name "whole", .index 0] ∧
      ¬(Json.object listAndNoField.foundValues).NullAt [.name "field"] := by
  have hwhole : (jsonPaths (.array [.null])).evaluate "$" = .ok [.list [.null]] :=
    jsonPaths_eq_ok_iff.2 ⟨_, _, read_dollar, rfl, rfl⟩
  have hfield : (jsonPaths (.array [.null])).evaluate "$.x" = .ok [] :=
    jsonPaths_eq_ok_iff.2 ⟨_, _, read_field, rfl, rfl⟩
  have hentries : wholeAndField.entries = [("field", "$.x"), ("whole", "$")] := rfl
  have hharvest : Format.json.harvest "[null]" .wholeBatch wholeAndField =
      .ok listAndNoField := by
    rw [Format.harvest, read_listOfNull]
    show (askAll (jsonPaths (.array [.null])) wholeAndField.entries).outcome.map _ = _
    rw [hentries]
    simp only [askAll, Run.outcome_bind, Strategy.outcome_ask, hfield, hwhole]
    rfl
  obtain ⟨-, -, -, -, -, hmissing, hproper, hnulls, -⟩ := accounts_of_harvest hharvest
  obtain ⟨root, hroot, hplaces⟩ := hnulls rfl
  obtain rfl : Json.array [.null] = root := Option.some.inj (read_listOfNull.symm.trans hroot)
  refine ⟨hharvest, hproper, ?_, ?_, ?_⟩
  · obtain ⟨found, hfound, hiff⟩ := hmissing "field" "$.x" rfl
    have hdecider :
        (Format.json.decider "[null]" .wholeBatch wholeAndField "$.x").evaluate "$.x" = .ok [] := by
      rw [Format.decider, read_listOfNull]
      exact hfield
    exact hiff.2 (Except.ok.inj (hfound.symm.trans hdecider))
  · exact (hplaces _).2 ⟨"whole", [.index 0], "$", _, _, rfl, rfl, read_dollar, rfl, rfl⟩
  · rw [hplaces]
    rintro ⟨key, rest, selector, path, selected, hplace, hkey, hpath, hselected, hnull⟩
    cases hplace
    obtain rfl : "$.x" = selector := Option.some.inj hkey
    obtain rfl := Except.ok.inj (read_field.symm.trans hpath)
    cases hselected
    cases hnull

end Gleaner
