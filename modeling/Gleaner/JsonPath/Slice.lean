/-
# Positions and slices of a list

A negative position counts from the end. A slice starts at a position and goes on by its step, which
may lead back, until it meets its stop; bounds outside of the list are drawn to its ends. Positions
have 64 bits: behind each position of the walk the step is added to it, and the walk breaks off
where that sum has more. A list that 64 bits cannot count has no positions.

Key definitions: `fromEnd`, `clamp`, `walk?`, `slicePositions?`, `sliceOf?`.
-/
import Gleaner.Number.Binary64

namespace Gleaner.JsonPath

open Gleaner.Number

universe u

variable {α : Type u}

/-- The position in a list of a length that an index names. -/
def fromEnd (length : Nat) (index : Int) : Int :=
  if index < 0 then length + index else index

/-- The member at an index. -/
def itemAt? (list : List α) (index : Int) : Option α :=
  let i := fromEnd list.length index
  if greatestInt64 < list.length ∨ i < 0 then none else list[i.toNat]?

/-- A number drawn between two bounds. -/
def clamp (low high i : Int) : Int :=
  if i < low then low else if high < i then high else i

/-- The numbers from `i` on by a step, before the stop is met or passed. The step is added behind
each of them, also behind the last; nothing comes of the walk if such a sum has more than 64 bits. -/
def walk? (step stop i : Int) : Option (List Int) :=
  if (0 < step ∧ i < stop) ∨ (step < 0 ∧ stop < i) then
    if fitsInt64 (i + step) then (walk? step stop (i + step)).map (i :: ·) else none
  else some []
termination_by if 0 < step then (stop - i).toNat else (i - stop).toNat
decreasing_by grind

/-- The positions of a slice of a list of a length. -/
def slicePositions? (length : Nat) (start stop : Option Int) (step : Int) : Option (List Int) :=
  let (low, high) : Int × Int := if 0 < step then (0, length) else (-1, length - 1)
  let (first, last) := if 0 < step then (low, high) else (high, low)
  let bound (b : Option Int) (default : Int) : Int :=
    match b with
    | some b => clamp low high (fromEnd length b)
    | none => default
  walk? step (bound stop last) (bound start first)

/-- The members of a list at the positions of a slice. -/
def sliceOf? (list : List α) (start stop : Option Int) (step : Int) : Option (List α) :=
  if greatestInt64 < list.length then some []
  else
    let members := list.toArray
    (slicePositions? list.length start stop step).map fun positions =>
      positions.filterMap fun i => members[i.toNat]?

end Gleaner.JsonPath
