/-
# Document types

An HTML text may begin with a declaration of its document type: a name, which should be `html`, and
after it a public and a system identifier, each between quotation marks. A document without a
well-formed declaration, one of another type, and one whose identifiers are those of an early
edition of HTML are read by the old rules. Letters of either case are alike.

Key definitions: `Doctype`, `Doctype.ofText?`, `Doctype.isEarly`, `asksForOldRules`.
-/
import Gleaner.Text.Search

namespace Gleaner.Markup

open Gleaner.Text

/-- The blanks inside a tag or a declaration. -/
def isTagSpace (c : Char) : Bool :=
  c == ' ' || c == '\t' || c == '\n' || c == '\x0c'

/-- A document type as it is declared, in small letters. -/
structure Doctype where
  name : String
  publicId : Option String := none
  systemId : Option String := none
  deriving DecidableEq, Repr

namespace Doctype

/-- An identifier, which stands between quotation marks after blanks, and what follows it. -/
def identifier? (text : List Char) : Option (String × List Char) :=
  match text.dropWhile isTagSpace with
  | [] => none
  | quote :: rest =>
    if quote = '"' ∨ quote = '\'' then
      match rest.dropWhile (· != quote) with
      | [] => none
      | _ :: after => some (String.ofList (rest.takeWhile (· != quote)), after)
    else none

/-- The system identifier completes a document type; what follows it is not looked at. -/
def withSystemId? (type : Doctype) (text : List Char) : Option Doctype :=
  (identifier? text).map fun (id, _) => { type with systemId := some id }

/-- The public identifier completes a document type, and a system identifier may follow it. -/
def withPublicId? (type : Doctype) (text : List Char) : Option Doctype :=
  match identifier? text with
  | none => none
  | some (id, rest) =>
    let type := { type with publicId := some id }
    if rest.all isTagSpace then some type else type.withSystemId? rest

/-- The document type of a declaration, where the text stands between its keyword and its closing
angle bracket. -/
def ofText? (text : List Char) : Option Doctype :=
  let text := (text.dropWhile isTagSpace).map lowerChar
  let type : Doctype := { name := String.ofList (text.takeWhile fun c => !isTagSpace c) }
  let rest := (text.dropWhile fun c => !isTagSpace c).dropWhile isTagSpace
  if rest.isEmpty then some type
  else
    match stripStart? "public".toList rest, stripStart? "system".toList rest with
    | some ids, _ => type.withPublicId? ids
    | _, some id => type.withSystemId? id
    | none, none => none

/-- The public identifiers of early editions. -/
def earlyPublicIds : List String := [
  "html", "-/w3c/dtd html 4.0 transitional/en", "-//w3o//dtd w3 html strict 3.0//en//"]

/-- The beginnings of other public identifiers of early editions. -/
def earlyPublicStarts : List String := [
  "+//silmaril//dtd html pro v0r11 19970101//",
  "-//advasoft ltd//dtd html 3.0 aswedit + extensions//",
  "-//as//dtd html 3.0 aswedit + extensions//", "-//ietf//dtd html 2.0 level 1//",
  "-//ietf//dtd html 2.0 level 2//", "-//ietf//dtd html 2.0 strict level 1//",
  "-//ietf//dtd html 2.0 strict level 2//", "-//ietf//dtd html 2.0 strict//",
  "-//ietf//dtd html 2.0//", "-//ietf//dtd html 2.1e//", "-//ietf//dtd html 3.0//",
  "-//ietf//dtd html 3.2 final//", "-//ietf//dtd html 3.2//", "-//ietf//dtd html 3//",
  "-//ietf//dtd html level 0//", "-//ietf//dtd html level 1//", "-//ietf//dtd html level 2//",
  "-//ietf//dtd html level 3//", "-//ietf//dtd html strict level 0//",
  "-//ietf//dtd html strict level 1//", "-//ietf//dtd html strict level 2//",
  "-//ietf//dtd html strict level 3//", "-//ietf//dtd html strict//", "-//ietf//dtd html//",
  "-//metrius//dtd metrius presentational//",
  "-//microsoft//dtd internet explorer 2.0 html strict//",
  "-//microsoft//dtd internet explorer 2.0 html//",
  "-//microsoft//dtd internet explorer 2.0 tables//",
  "-//microsoft//dtd internet explorer 3.0 html strict//",
  "-//microsoft//dtd internet explorer 3.0 html//",
  "-//microsoft//dtd internet explorer 3.0 tables//", "-//netscape comm. corp.//dtd html//",
  "-//netscape comm. corp.//dtd strict html//", "-//o'reilly and associates//dtd html 2.0//",
  "-//o'reilly and associates//dtd html extended 1.0//",
  "-//o'reilly and associates//dtd html extended relaxed 1.0//",
  "-//softquad software//dtd hotmetal pro 6.0::19990601::extensions to html 4.0//",
  "-//softquad//dtd hotmetal pro 4.0::19971010::extensions to html 4.0//",
  "-//spyglass//dtd html 2.0 extended//", "-//sq//dtd html 2.0 hotmetal + extensions//",
  "-//sun microsystems corp.//dtd hotjava html//",
  "-//sun microsystems corp.//dtd hotjava strict html//", "-//w3c//dtd html 3 1995-03-24//",
  "-//w3c//dtd html 3.2 draft//", "-//w3c//dtd html 3.2 final//", "-//w3c//dtd html 3.2//",
  "-//w3c//dtd html 3.2s draft//", "-//w3c//dtd html 4.0 frameset//",
  "-//w3c//dtd html 4.0 transitional//", "-//w3c//dtd html experimental 19960712//",
  "-//w3c//dtd html experimental 970421//", "-//w3c//dtd w3 html//", "-//w3o//dtd w3 html 3.0//",
  "-//webtechs//dtd mozilla html 2.0//", "-//webtechs//dtd mozilla html//"]

/-- The beginnings of public identifiers that stand for an early edition where no system identifier
goes with them. -/
def earlyAloneStarts : List String := [
  "-//w3c//dtd html 4.01 frameset//", "-//w3c//dtd html 4.01 transitional//"]

/-- The system identifier of an early edition. -/
def earlySystemId : String :=
  "http:" ++ "//www.ibm.com/data/dtd/v11/ibmxhtml1-transitional.dtd"

/-- One of the beginnings stands at the front of an identifier. -/
def beginsWithAny (starts : List String) (id : String) : Bool :=
  starts.any fun start => start.toList.isPrefixOf id.toList

/-- The identifiers are those of an early edition of HTML. -/
def isEarly (type : Doctype) : Bool :=
  type.systemId == some earlySystemId ||
  type.publicId.any fun id =>
    id ∈ earlyPublicIds || beginsWithAny earlyPublicStarts id ||
      (type.systemId.isNone && beginsWithAny earlyAloneStarts id)

end Doctype

/-- A document without a well-formed type, of another type than HTML or of an early edition is read
by the old rules. -/
def asksForOldRules (type : Option Doctype) : Bool :=
  type.all fun d => d.name != "html" || d.isEarly

end Gleaner.Markup
