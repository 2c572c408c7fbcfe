/-
# Harvests

A harvest holds one datum for each key of a selection. Two strategies gather it: the first is asked
for every key and stops at a failure of the grammar; on other failures the policy decides for which
keys the second is asked.

Key definitions: `Harvest`, `askAll`, `FirstPass`, `firstPass`, `gatherWith`, `Harvest.toJson`.
-/
import Gleaner.Harvest.Policy
import Gleaner.Harvest.Run

namespace Gleaner

/-- One datum for each key. -/
structure Harvest where
  values : KeyMap Datum

namespace Harvest

/-- The harvest of a row of keys and data; of two with one key the later stays. -/
def ofList (entries : List (String × Datum)) : Harvest :=
  ⟨KeyMap.ofList entries⟩

/-- A harvest as a JSON value: the values that were found, and the keys of those that were not. -/
def toJson (harvest : Harvest) : Json :=
  let found := harvest.values.entries.filter fun e => e.2.isFound
  let missing := harvest.values.entries.filter fun e => !e.2.isFound
  .object [
    ("values", .object (found.map fun e => (e.1, e.2.toJson))),
    ("not_found", .array (missing.map fun e => .string e.1))]

/-- A harvest as JSON text. -/
def write (harvest : Harvest) : String :=
  Json.write harvest.toJson

end Harvest

/-- A strategy is asked for each entry of a selection, up to the first failure. -/
def askAll (strategy : Strategy) : List (String × String) → Run (List (String × Datum))
  | [] => pure []
  | (key, selector) :: rest => do
    let found ← strategy.ask selector
    let others ← askAll strategy rest
    pure ((key, Datum.ofMatches found) :: others)

/-- What the first strategy yields: the data it found, and the entries on which it failed. -/
structure FirstPass where
  found : List (String × Datum)
  failed : List ((String × String) × Failure)

/-- A strategy is asked for each entry of a selection, up to the first failure of the grammar. -/
def firstPass (strategy : Strategy) : List (String × String) → Run FirstPass
  | [] => pure ⟨[], []⟩
  | (key, selector) :: rest => do
    match ← (strategy.ask selector).attempt with
    | .ok found =>
      let pass ← firstPass strategy rest
      pure ⟨(key, Datum.ofMatches found) :: pass.found, pass.failed⟩
    | .error failure =>
      if failure.isGrammar then Run.fail failure
      else
        let pass ← firstPass strategy rest
        pure ⟨pass.found, ((key, selector), failure) :: pass.failed⟩

/-- The harvest of a selection by two strategies. -/
def gatherWith (first second : Strategy) (policy : Policy) (selection : Selection) :
    Run Harvest := do
  let pass ← firstPass first selection.entries
  match pass.failed with
  | [] => pure (.ofList pass.found)
  | (_, failure) :: _ =>
    match policy with
    | .disabled => Run.fail failure
    | .wholeBatch =>
      let found ← askAll second selection.entries
      pure (.ofList found)
    | .perKey =>
      let found ← askAll second (pass.failed.map (·.1))
      pure (.ofList (pass.found ++ found))

end Gleaner
