/-
# XML as HTML text

XML is read by the rules of HTML once three things are changed: an element written as an empty
tag gets an end tag, unless HTML knows it as an element without content; a CDATA section becomes
text with references; and the declaration, the document type, comments and processing instructions
are left out. A text whose tags do not fit together, or whose markup is cut off, has no HTML text.

Key definitions: `escapeChar`, `tagContent?`, `untilClosed?`, `htmlFrom?`, `htmlOf?`.
-/
import Gleaner.Text.Remainder
import Gleaner.Text.Search

namespace Gleaner.Markup.Xml

open Gleaner.Text

/-- The elements that keep their empty tag. -/
def keptEmpty : List String :=
  ["area", "base", "br", "col", "embed", "hr", "img", "input", "link", "meta", "source", "track",
    "wbr"]

/-- The blanks of XML. -/
def isSpace (c : Char) : Bool :=
  c == ' ' || c == '\t' || c == '\n' || c == '\r'

/-- A character as text, where markup would read it otherwise. -/
def escapeChar (c : Char) : List Char :=
  if c = '<' then "&lt;".toList
  else if c = '>' then "&gt;".toList
  else if c = '&' then "&amp;".toList
  else if c = '\'' then "&apos;".toList
  else if c = '"' then "&quot;".toList
  else [c]

/-- A text as it is written between tags. -/
def escape (text : List Char) : List Char :=
  text.flatMap escapeChar

/-- The content of a tag up to the closing bracket that stands outside of quotation marks, and
what follows it. `quote` is the mark that is open. -/
def tagContent? (quote : Option Char) : (text : List Char) → Option (List Char × Remainder text)
  | [] => none
  | c :: rest =>
    match quote with
    | none =>
      if c = '>' then some ([], ⟨rest, Nat.lt_succ_self _⟩)
      else
        (tagContent? (if c = '\'' ∨ c = '"' then some c else none) rest).map fun (content, left) =>
          (c :: content, ⟨left.val, Nat.lt_succ_of_lt left.property⟩)
    | some q =>
      (tagContent? (if c = q then none else some q) rest).map fun (content, left) =>
        (c :: content, ⟨left.val, Nat.lt_succ_of_lt left.property⟩)

/-- The content of a piece of markup up to the first closing bracket before which the content is
complete, and what follows it. `before` is the content so far, last character first. -/
def untilClosed? (complete : List Char → Bool) (before : List Char) :
    (text : List Char) → Option (List Char × Remainder text)
  | [] => none
  | c :: rest =>
    if c = '>' ∧ complete before then some (before.reverse, ⟨rest, Nat.lt_succ_self _⟩)
    else
      (untilClosed? complete (c :: before) rest).map fun (content, left) =>
        (content, ⟨left.val, Nat.lt_succ_of_lt left.property⟩)

/-- As many opening as closing brackets. -/
def isBalanced (text : List Char) : Bool :=
  text.count '<' == text.count '>'

/-- What stands for a comment, a CDATA section or a document type, where the text begins with the
exclamation mark; and what follows it. -/
def declaration? (text : List Char) : Option (List Char × Remainder text) :=
  match text[1]? with
  | some '[' =>
    match untilClosed? (fun before => (stripStart? [']', ']'] before).isSome) [] text with
    | some (content, left) =>
      (stripStart? "![CDATA[".toList content).map fun inner =>
        (escape (inner.take (inner.length - 2)), left)
    | none => none
  | some '-' =>
    match untilClosed? (fun before => decide (4 < before.length) &&
        (stripStart? ['-', '-'] before).isSome) [] text with
    | some (content, left) => (stripStart? "!--".toList content).map fun _ => ([], left)
    | none => none
  | some c =>
    if c = 'D' ∨ c = 'd' then
      match untilClosed? isBalanced [] text with
      | some (content, left) =>
        if (content.take 8).map lowerChar = "!doctype".toList ∧
            (content.drop 8).any (fun d => !isSpace d) then some ([], left)
        else none
      | none => none
    else none
  | none => none

/-- The rest of a processing instruction, where the text begins with its question mark. -/
def afterInstruction? (text : List Char) : Option (Remainder text) :=
  match untilClosed? (fun before => before.head? == some '?') [] text with
  | some (content, left) => if 1 < content.length then some left else none
  | none => none

/-- The name of an end tag, without the blanks after it. -/
def endName (content : List Char) : List Char :=
  if content.all isSpace then content else (content.reverse.dropWhile isSpace).reverse

/-- The name at the front of a tag. -/
def tagName (content : List Char) : List Char :=
  content.takeWhile fun c => !isSpace c

/-- A tag that is opened and closed at once: the name of HTML's elements without content stays an
empty tag. -/
def writeEmpty (content : List Char) : List Char :=
  let name := tagName content
  if lowerAscii (String.ofList name) ∈ keptEmpty then '<' :: content ++ ['/', '>']
  else '<' :: content ++ ['>', '<', '/'] ++ name ++ ['>']

/-- The HTML text for the rest of a text, where the elements of the given names are open, the
innermost first. -/
def htmlFrom? (opened : List (List Char)) (text : List Char) : Option (List Char) :=
  match text with
  | [] => some []
  | '<' :: markup =>
    match markup.head? with
    | none => none
    | some '!' =>
      match declaration? markup with
      | some (shown, ⟨left, _⟩) => (htmlFrom? opened left).map (shown ++ ·)
      | none => none
    | some '?' =>
      match afterInstruction? markup with
      | some ⟨left, _⟩ => htmlFrom? opened left
      | none => none
    | some '/' =>
      match tagContent? none markup with
      | some (content, ⟨left, _⟩) =>
        let name := endName (content.drop 1)
        match opened with
        | [] => none
        | expected :: outer =>
          if name = expected then
            (htmlFrom? outer left).map fun rest => '<' :: '/' :: name ++ '>' :: rest
          else none
      | none => none
    | some _ =>
      match tagContent? none markup with
      | some (content, ⟨left, _⟩) =>
        if content.getLast? = some '/' then
          (htmlFrom? opened left).map (writeEmpty content.dropLast ++ ·)
        else
          (htmlFrom? (tagName content :: opened) left).map fun rest =>
            '<' :: content ++ '>' :: rest
      | none => none
  | c :: rest =>
    (htmlFrom? opened (rest.dropWhile (· != '<'))).map fun more =>
      c :: rest.takeWhile (· != '<') ++ more
termination_by text.length
decreasing_by all_goals grind [length_dropWhile_le]

/-- An XML text as HTML text, unless its markup is faulty. A byte order mark in front is left
out. -/
def htmlOf? (text : List Char) : Option (List Char) :=
  match text with
  | '\uFEFF' :: rest => htmlFrom? [] rest
  | text => htmlFrom? [] text

end Gleaner.Markup.Xml
