/-
# Harvests from contents

A content is HTML, XML or JSON. Selectors on markup are read step by step first, and as path queries
where that fails; on JSON they are JSON paths.

Key definitions: `stepwise`, `queried`, `jsonPaths`, `Format`, `Format.harvest`.
Key theorems: `jsonPaths_eq_ok_iff`.
-/
import Gleaner.Harvest.Basic
import Gleaner.JsonPath.Basic
import Gleaner.Markup.Reading
import Gleaner.Query.Selecting

namespace Gleaner

open Gleaner.Markup

/-- Selectors on a document, followed step by step. -/
def stepwise (d : Document) : Strategy :=
  ⟨"css", fun text => (Selector.evaluate d text).mapError .selector⟩

/-- Selectors on a document, read as path queries. -/
def queried (d : Document) : Strategy :=
  ⟨"xpath", fun text => (Query.evaluate d text).mapError .query⟩

/-- JSON paths on a value. -/
def jsonPaths (root : Json) : Strategy :=
  ⟨"jsonpath", fun text =>
    match JsonPath.read text with
    | .ok path =>
      match path.evaluate? root with
      | some found => .ok found
      | none => .error .overflow
    | .error fault => .error (.jsonPath fault)⟩

/-- JSON paths that are read and do not break off yield the data of the values that they select. -/
theorem jsonPaths_eq_ok_iff {root : Json} {text : String} {found : List Datum} :
    (jsonPaths root).evaluate text = .ok found ↔
      ∃ path selected, JsonPath.read text = .ok path ∧ path.select? root = some selected ∧
        found = selected.map Datum.ofJson := by
  simp only [jsonPaths]
  cases JsonPath.read text with
  | error fault => exact iff_of_false (by simp) (by rintro ⟨_, _, ⟨⟩, _⟩)
  | ok path =>
    simp only [JsonPath.evaluate?, Except.ok.injEq, exists_and_left, exists_eq_left']
    cases path.select? root with
    | none => exact iff_of_false (by simp) (by rintro ⟨_, ⟨⟩, _⟩)
    | some selected => simp [eq_comm]

/-- The harvest of a selection from a document. -/
def harvestDocument (d : Document) (policy : Policy) (selection : Selection) :
    Except Failure Harvest :=
  (gatherWith (stepwise d) (queried d) policy selection).outcome

/-- The harvest of a selection from a JSON value. -/
def harvestJson (root : Json) (selection : Selection) : Except Failure Harvest :=
  (askAll (jsonPaths root) selection.entries).outcome.map Harvest.ofList

/-- The form of a content. -/
inductive Format where
  | html
  | xml
  | json
  deriving DecidableEq, Repr

/-- The harvest of a selection from a content. What is called HTML may be XML that says so. -/
def Format.harvest (format : Format) (content : String) (policy : Policy)
    (selection : Selection) : Except Failure Harvest :=
  match format with
  | .html => harvestDocument (.ofText content) policy selection
  | .xml => harvestDocument (.ofXml content) policy selection
  | .json =>
    match Json.read? content with
    | some root => harvestJson root selection
    | none => .error .notJson

end Gleaner
