/-
# Documents from text

HTML text is read as it is, XML text once it is put into HTML, or as it is where that fails. Text of
unknown kind is XML when it begins with an XML declaration.

Key definitions: `unifyLines`, `Document.ofHtml`, `Document.ofXml`, `Document.ofText`.
-/
import Gleaner.Markup.Builder
import Gleaner.Markup.Xml
import Gleaner.Text.Blank

namespace Gleaner.Markup

open Gleaner.Text

/-- A text whose lines all end in a single line feed. -/
def unifyLines : List Char → List Char
  | '\r' :: '\n' :: rest => '\n' :: unifyLines rest
  | '\r' :: rest => '\n' :: unifyLines rest
  | c :: rest => c :: unifyLines rest
  | [] => []

/-- The document of HTML text; a byte order mark in front is left out. -/
def Document.ofHtmlChars (text : List Char) : Document :=
  .ofMarkup (unifyLines (withoutMark text))

/-- The document of HTML text. -/
def Document.ofHtml (text : String) : Document :=
  .ofHtmlChars text.toList

/-- The document of XML text; faulty XML is read as HTML. -/
def Document.ofXml (text : String) : Document :=
  match Xml.htmlOf? text.toList with
  | some html => .ofHtmlChars html
  | none => .ofHtml text

/-- The text begins with an XML declaration, after byte order marks and blanks. -/
def isXml (text : String) : Bool :=
  (stripStart? "<?xml".toList
    (trimStart (text.toList.dropWhile (· == '\uFEFF')))).isSome

/-- The document of text that may be XML or HTML. -/
def Document.ofText (text : String) : Document :=
  if isXml text then .ofXml text else .ofHtml text

end Gleaner.Markup
