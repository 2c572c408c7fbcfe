/-
# Failures

What may go wrong on the way from a content to the values that a caller reads. A failure of the
grammar says that a selector can never be used, whatever the document and the reading. All failures
but one are answers that are handed on; where a sum of positions has too many bits, no answer comes.

Key definitions: `Failure`, `Failure.isGrammar`, `Failure.message`.
-/
import Gleaner.Datum
import Gleaner.JsonPath.Fault
import Gleaner.Query.Basic
import Gleaner.Selector.Fault

namespace Gleaner

/-- Why a file cannot be read. -/
inductive FileFault where
  | missing
  | isDirectory
  /-- A part of the path that should be a directory is a file. -/
  | notDirectory
  | notUtf8
  deriving DecidableEq, Repr

/-- The wording of a fault, with the number that the system gives it. -/
def FileFault.message : FileFault → String
  | .missing => "No such file or directory (os error 2)"
  | .isDirectory => "Is a directory (os error 21)"
  | .notDirectory => "Not a directory (os error 20)"
  | .notUtf8 => "stream did not contain valid UTF-8"

/-- What a caller wants to read a value as. -/
inductive Wanted where
  | string
  | integer
  | float
  | boolean
  | found
  | list
  deriving DecidableEq, Repr

/-- The name of what is wanted. -/
def Wanted.name : Wanted → String
  | .string => "string"
  | .integer => "int"
  | .float => "float"
  | .boolean => "bool"
  | .found => "value"
  | .list => "list"

/-- What may go wrong. -/
inductive Failure where
  | selector (fault : Selector.Fault)
  | query (fault : Query.Fault)
  | jsonPath (fault : JsonPath.Fault)
  /-- The evaluation of a path broke off at a sum of more than 64 bits. It takes with it whatever
  waited for its answer. -/
  | overflow
  /-- The content is no JSON text. -/
  | notJson
  | missingKey (key : String)
  /-- The value at a key is of a kind that is not read as what is wanted. -/
  | wrongKind (key : String) (wanted : Wanted) (found : Datum.Kind)
  /-- A text at a key is refused by the reading of a type, for a reason in its own words. -/
  | unreadableText (key type text reason : String)
  /-- A path is neither a file nor a directory. -/
  | noSuchPath (path : String)
  | unreadableFile (path : String) (fault : FileFault)
  /-- The task of a file broke off without an answer, which the system that runs tasks tells in words
  of its own. -/
  | task (reason : String)

namespace Failure

/-- The selector can never be used. -/
def isGrammar : Failure → Bool
  | .selector fault => fault.isGrammar
  | .jsonPath _ => true
  | _ => false

/-- The wording of a failure. -/
def message : Failure → String
  | .selector fault => fault.message
  | .query fault => fault.message
  | .jsonPath fault => fault.message
  | .overflow => "attempt to add with overflow"
  | .notJson => "JSON parse error"
  | .missingKey key => s!"key `{key}` is not present in the extraction result"
  | .wrongKind key wanted found => s!"cannot read `{key}` as {wanted.name}: found {found.name}"
  | .unreadableText key type text reason =>
    s!"cannot read `{key}` as {type}: found `{text}` ({reason})"
  | .noSuchPath path => s!"`{path}` is neither an existing file nor a directory"
  | .unreadableFile path fault => s!"failed to read `{path}`: {fault.message}"
  | .task reason => s!"extraction task failed: {reason}"

end Failure
end Gleaner
