/-
# Selectors as path queries

A selector is also read as a path query to elements with a value accessor behind the last slash.
Where the accessor follows a double slash, it is applied to the elements and to all below them.
A selector that is an accessor alone is applied to every element.

Key definitions: `splitAccessor`, `Query.evaluate`.
-/
import Gleaner.Query.Basic
import Gleaner.Selector.Selecting

namespace Gleaner.Query

open Gleaner.Text Gleaner.Markup Gleaner.Selector

/-- A selector's query to elements, and its accessor. -/
def splitAccessor (text : List Char) : List Char × Option Accessor :=
  let (before, last) := splitLast text
  match Accessor.read? last with
  | none => (text, none)
  | some accessor =>
    if before.getLast? = some '/' then (before ++ "descendant-or-self::*".toList, some accessor)
    else (before, some accessor)

/-- The values that a selector yields on a document when it is read as a path query. -/
def evaluate (d : Document) (text : String) : Except Fault (List Datum) := do
  let (query, accessor) := splitAccessor text.toList
  if query.all isBlank then pure (readElements accessor d.elements)
  else
    let query ← read (String.ofList query)
    let list ← query.elements d
    pure (readElements accessor list)

end Gleaner.Query
