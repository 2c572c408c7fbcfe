/-
# Selections and options

A selection gives a selector for each key. When the first strategy fails on some selector, a policy
decides what the second one does.

Key definitions: `Selection`, `Policy`, `Options`.
-/
import Gleaner.KeyMap

namespace Gleaner

/-- A selector for each key. -/
abbrev Selection := KeyMap String

/-- What happens when the first strategy fails on a selector. -/
inductive Policy where
  /-- The second strategy answers for every key. -/
  | wholeBatch
  /-- The second strategy answers for the keys on which the first failed. -/
  | perKey
  /-- The failure is reported. -/
  | disabled
  deriving DecidableEq, Repr

instance : Inhabited Policy := ⟨.wholeBatch⟩

/-- The name of a policy. -/
def Policy.name : Policy → String
  | .wholeBatch => "whole_batch"
  | .perKey => "per_key"
  | .disabled => "disabled"

/-- The policy of a name. -/
def Policy.ofName? (name : String) : Option Policy :=
  if name = "whole_batch" then some .wholeBatch
  else if name = "per_key" then some .perKey
  else if name = "disabled" then some .disabled
  else none

theorem Policy.ofName?_name (policy : Policy) : Policy.ofName? policy.name = some policy := by
  cases policy <;> rfl

/-- How a selection is worked on. -/
structure Options where
  fallback : Policy := .wholeBatch
  /-- How many files are worked on at once, if that is bounded. -/
  workers : Option Nat := none
  deriving DecidableEq, Repr

/-- The bound on the files worked on at once; none and zero leave it to the machine. -/
def Options.workerBound? (options : Options) : Option Nat :=
  options.workers.filter fun n => decide (0 < n)

end Gleaner
