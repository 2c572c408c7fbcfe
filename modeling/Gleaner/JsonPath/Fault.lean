/-
# What may be wrong with a JSON path

A path is read from its front, and a fault names the number of characters before the place where
reading stopped. Readers know what is left of the text; how far that is from the front is told in
the end.

Key definitions: `Reason`, `Stop`, `Fault`, `Fault.message`.
-/

namespace Gleaner.JsonPath

/-- Why a text is no JSON path. -/
inductive Reason where
  | expected (c : Char)
  | unexpected (c : Char)
  | missingMember
  | missingItem
  | zeroStep
  | invalidInteger (text : String)
  | unterminatedString
  | missingTerm
  | missingIndex
  | missingLiteral
  deriving DecidableEq, Repr

/-- The wording of a reason. -/
def Reason.message : Reason → String
  | .expected c => s!"expected `{c}`"
  | .unexpected c => s!"unexpected `{c}`"
  | .missingMember => "expected a member name"
  | .missingItem => "expected an index, name or slice"
  | .zeroStep => "slice step cannot be zero"
  | .invalidInteger text => s!"invalid integer `{text}`"
  | .unterminatedString => "unterminated string"
  | .missingTerm => "filter terms must start with `@`"
  | .missingIndex => "expected an index"
  | .missingLiteral => "expected a literal"

/-- Where a reading stopped for a reason: so many characters are left. -/
structure Stop where
  reason : Reason
  left : Nat
  deriving DecidableEq, Repr

/-- What is wrong with a JSON path. -/
inductive Fault where
  /-- The path cannot be read beyond a number of characters. -/
  | unreadable (path : String) (reason : Reason) (offset : Nat)
  /-- A fault in the words of a reading of one's own. -/
  | stated (path : String) (text : String)
  deriving DecidableEq, Repr

/-- The fault of a path whose reading stopped. -/
def Stop.fault (path : List Char) (stop : Stop) : Fault :=
  .unreadable (String.ofList path) stop.reason (path.length - stop.left)

/-- The wording of a fault. -/
def Fault.message : Fault → String
  | .unreadable path reason offset =>
    s!"invalid JSON path `{path}`: {reason.message} at offset {offset}"
  | .stated path text => s!"invalid JSON path `{path}`: {text}"

end Gleaner.JsonPath
