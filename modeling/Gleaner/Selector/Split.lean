/-
# Splitting a selector into steps

A slash separates steps, but not inside a literal between single quotation marks. A step keeps the
slashes in front of it, and slashes that no step follows are dropped.

Key definitions: `stepsFrom`, `splitSteps`, `splitLast`.
-/
import Gleaner.Text.Search

namespace Gleaner.Selector

/-- A step has begun: not only slashes have been read. -/
def hasBody (step : List Char) : Bool :=
  step.any (· != '/')

/-- The steps of a text that continues the step `current`; `quoted` says that a literal is open. -/
def stepsFrom (current : List Char) (quoted : Bool) : List Char → List (List Char)
  | [] => if hasBody current then [current] else []
  | c :: rest =>
    if c = '\'' then stepsFrom (current ++ [c]) (!quoted) rest
    else if c = '/' && !quoted && hasBody current then current :: stepsFrom ['/'] quoted rest
    else stepsFrom (current ++ [c]) quoted rest

/-- The steps of a selector, each with the slashes in front of it. -/
def splitSteps (text : List Char) : List (List Char) :=
  stepsFrom [] false text

/-- The two sides of the last separating slash; `quoted` says that a literal is open. -/
def splitLast? (quoted : Bool) : List Char → Option (List Char × List Char)
  | [] => none
  | c :: rest =>
    match splitLast? (if c = '\'' then !quoted else quoted) rest with
    | some (before, last) => some (c :: before, last)
    | none => if c = '/' && !quoted then some ([], rest) else none

/-- What stands before the last separating slash, and what follows it; without one, all follows. -/
def splitLast (text : List Char) : List Char × List Char :=
  (splitLast? false text).getD ([], text)

/-- The slash lies between the two sides. -/
theorem eq_of_splitLast? {quoted : Bool} {text before last : List Char}
    (h : splitLast? quoted text = some (before, last)) : text = before ++ '/' :: last := by
  induction text generalizing quoted before with
  | nil => simp [splitLast?] at h
  | cons c rest ih =>
    rw [splitLast?] at h
    split at h
    · next b l hb =>
      obtain ⟨rfl, rfl⟩ := Prod.mk.injEq .. ▸ Option.some.injEq .. ▸ h
      simp [ih hb]
    · split at h
      · next hc =>
        obtain ⟨rfl, rfl⟩ := Prod.mk.injEq .. ▸ Option.some.injEq .. ▸ h
        simp only [Bool.and_eq_true, decide_eq_true_eq] at hc
        simp [hc.1]
      · simp at h

end Gleaner.Selector
