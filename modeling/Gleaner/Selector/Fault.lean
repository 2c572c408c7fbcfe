/-
# What may be wrong with a selector

A filter of no known form is a fault of the selector's grammar. Any other fault only says that the
stepwise reading cannot use the selector, so that another reading may be tried.

Key definitions: `Reason`, `Fault`, `Fault.isGrammar`, `Fault.message`.
-/

namespace Gleaner.Selector

/-- Why the stepwise reading cannot use a selector or one of its steps. -/
inductive Reason where
  /-- There is no step. -/
  | empty
  /-- Something stands after the filters of a step. -/
  | afterFilter (c : Char)
  /-- The step takes no filters. -/
  | filtersNotAllowed
  | unsupportedAxis (name : String)
  /-- A value accessor stands before the last step. -/
  | accessorNotLast (text : String)
  /-- The element test of a step is no CSS selector. -/
  | invalidCompound (css : String)
  /-- A reason in the words of a reading of one's own. -/
  | stated (text : String)
  deriving DecidableEq, Repr

/-- The wording of a reason. -/
def Reason.message : Reason → String
  | .empty => "empty selector"
  | .afterFilter c => s!"unexpected `{c}` after filter"
  | .filtersNotAllowed => "filters are not allowed on this step"
  | .unsupportedAxis name => s!"unsupported axis `{name}`"
  | .accessorNotLast text => s!"value accessor `{text}` must be the last step"
  | .invalidCompound css => s!"`{css}`"
  | .stated text => text

/-- What is wrong with a selector. -/
inductive Fault where
  /-- A filter of a step has none of the known forms. -/
  | unknownFilter (step filter : String)
  /-- The stepwise reading cannot use the selector, or a step of it. -/
  | unusable (selector : String) (reason : Reason)
  deriving DecidableEq, Repr

/-- The fault is one of the grammar, which no other reading can mend. -/
def Fault.isGrammar : Fault → Bool
  | .unknownFilter .. => true
  | .unusable .. => false

/-- The wording of a fault. -/
def Fault.message : Fault → String
  | .unknownFilter step filter => s!"no transformation for filter `[{filter}]` in step `{step}`"
  | .unusable selector reason => s!"CSS evaluation of `{selector}` failed: {reason.message}"

end Gleaner.Selector
