/-
# Selectors

A selector is a path of steps to elements, and perhaps a value accessor at its end. A fault of the
grammar anywhere in it is reported before any other.

Key definitions: `Selector`, `Selector.read`.
-/
import Gleaner.Selector.Split
import Gleaner.Selector.Step

namespace Gleaner

open Gleaner.Selector

/-- A selector taken apart. -/
structure Selector where
  /-- The selector as it is written. -/
  text : String
  /-- The steps to elements. -/
  path : List Selector.Step
  accessor : Option Selector.Accessor
  deriving DecidableEq, Repr

namespace Selector

/-- The fault of the first text that is no step because of its grammar. -/
def firstGrammarFault? (read : List (Except Fault Step)) : Option Fault :=
  read.findSome? fun
    | .error f => if f.isGrammar then some f else none
    | .ok _ => none

/-- All steps, or the first fault. -/
def allSteps : List (Except Fault Step) → Except Fault (List Step)
  | [] => .ok []
  | .error f :: _ => .error f
  | .ok s :: rest => (allSteps rest).map (s :: ·)

/-- The accessor at the end of a row of steps, and the steps before it. -/
def splitAccessor (steps : List Step) : List Step × Option Accessor :=
  match steps.getLast?.bind Step.accessor? with
  | some a => (steps.dropLast, some a)
  | none => (steps, none)

/-- The selector of a row of steps, where only the last may be an accessor. -/
def ofSteps (text : String) (steps : List Step) : Except Fault Selector :=
  let (path, accessor) := splitAccessor steps
  match path.find? fun s => s.accessor?.isSome with
  | some s =>
    .error (.unusable text (.accessorNotLast
      (String.ofList (s.raw.toList.dropWhile (· == '/')))))
  | none => .ok ⟨text, path, accessor⟩

/-- The selector that a text writes. -/
def read (text : String) : Except Fault Selector :=
  match splitSteps text.toList with
  | [] => .error (.unusable text .empty)
  | texts =>
    let read := texts.map Step.read
    match firstGrammarFault? read with
    | some f => .error f
    | none => (allSteps read).bind (ofSteps text)

end Selector
end Gleaner
