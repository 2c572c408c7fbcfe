/-
# Markup taken apart

HTML text is read into characters, comments, start and end tags, and the document type. An element
whose content is no markup, such as a script, is one token with its content. Names are in small
letters, references are resolved, of two attributes of one name the first counts, and a tag that
the end of the text cuts off is dropped.

A text is read piece by piece, since the open elements have a say in it: inside a choice most
elements are no elements at all, and what would be their content is markup.

Key definitions: `Token`, `RawKind`, `readAttributes?`, `untilEndTag`, `scan`.
Key theorems: `length_scan_lt`.
-/
import Gleaner.KeyMap
import Gleaner.Markup.Doctype
import Gleaner.Markup.Reference
import Gleaner.Text.Remainder

namespace Gleaner.Markup

open Gleaner.Text

/-- A piece of markup. -/
inductive Token where
  /-- The document type, if its declaration is well formed. -/
  | doctype (type : Option Doctype)
  | comment
  | start (name : String) (attributes : KeyMap String)
  | finish (name : String)
  | char (c : Char)
  /-- An element with its whole content, which is no markup. -/
  | raw (name : String) (attributes : KeyMap String) (content : String)

/-- The end of a tag's or an attribute's name. -/
def endsName (c : Char) : Bool :=
  isTagSpace c || c == '/' || c == '>'

/-- A character as it stands in names, values and raw content, where NUL has no place. -/
def kept (c : Char) : Char :=
  if c = '\x00' then replacementChar else c

/-- A name in small letters. -/
def nameOf (chars : List Char) : String :=
  String.ofList (chars.map fun c => kept (lowerChar c))

/-- The value that is written for an attribute. -/
def valueOf (chars : List Char) : String :=
  String.ofList ((resolve true chars).map kept)

/-- What stands up to the mark, and what follows the mark. -/
def untilMark? (mark : Char) : (text : List Char) → Option (List Char × Remainder text)
  | [] => none
  | c :: rest =>
    if c = mark then some ([], ⟨rest, Nat.lt_succ_self _⟩)
    else (untilMark? mark rest).map fun (before, left) =>
      (c :: before, ⟨left.val, Nat.lt_succ_of_lt left.property⟩)

/-- An attribute's value, where the text follows the equals sign; what is left begins with the next
attribute or ends the tag. -/
def readValue? (text : List Char) :
    Option (String × { left : List Char // left.length ≤ text.length }) :=
  match next? isTagSpace text with
  | none => none
  | some (c, ⟨rest, h⟩) =>
    if c = '"' ∨ c = '\'' then
      (untilMark? c rest).map fun (value, left) =>
        (valueOf value, ⟨left.val, by have := left.property; omega⟩)
    else if c = '>' then some ("", ⟨'>' :: rest, h⟩)
    else
      let stops := fun d => isTagSpace d || d == '>'
      some (valueOf (c :: rest.takeWhile fun d => !stops d),
        ⟨rest.dropWhile fun d => !stops d, by
          have := length_dropWhile_le (fun d => !stops d) rest
          omega⟩)

/-- The attributes of a tag as they are written, and what follows the tag. -/
def readAttributes? (text : List Char) : Option (List (String × String) × Remainder text) := do
  let (c, ⟨rest, h⟩) ← next? (fun d => isTagSpace d || d == '/') text
  if c = '>' then pure ([], ⟨rest, h⟩)
  else
    let stops := fun d => endsName d || d == '='
    let name := nameOf (c :: rest.takeWhile fun d => !stops d)
    have h₁ := length_dropWhile_le (fun d => !stops d) rest
    match next? isTagSpace (rest.dropWhile fun d => !stops d) with
    | none => none
    | some ('=', ⟨value, h₂⟩) =>
      let (value, ⟨rest, h₃⟩) ← readValue? value
      let (others, ⟨left, h₄⟩) ← readAttributes? rest
      pure ((name, value) :: others, ⟨left, by omega⟩)
    | some (d, ⟨more, h₂⟩) =>
      let (others, ⟨left, h₃⟩) ← readAttributes? (d :: more)
      pure ((name, "") :: others, ⟨left, by simp at h₃; omega⟩)
termination_by text.length
decreasing_by
  · omega
  · simp only [List.length_cons]; omega

/-- The attributes of a tag: of two of one name the first counts. -/
def attributesOf (written : List (String × String)) : KeyMap String :=
  written.foldr (fun a attributes => attributes.insert a.1 a.2) .empty

/-- How the content of an element that holds no markup is read. -/
inductive RawKind where
  /-- References are resolved. -/
  | resolved
  /-- All stands for itself. -/
  | plain
  /-- All stands for itself, and comments hide the tags of nested scripts. -/
  | script
  /-- The content goes on to the end of the text. -/
  | endless
  deriving DecidableEq, Repr

/-- The elements whose content is no markup. Inside a choice there are only two of them. -/
def rawKind? (inChoice : Bool) (name : String) : Option RawKind :=
  if inChoice ∧ name ≠ "script" ∧ name ≠ "textarea" then none
  else if name = "title" ∨ name = "textarea" then some .resolved
  else if name ∈ ["style", "xmp", "iframe", "noembed", "noframes", "noscript"] then some .plain
  else if name = "script" then some .script
  else if name = "plaintext" then some .endless
  else none

/-- The text begins with the name, in letters of any case, and the name ends there. -/
def namedHere (name text : List Char) : Bool :=
  (text.take name.length).map lowerChar == name && (text.drop name.length).head?.any endsName

/-- The text begins with an end tag of the name. -/
def endsHere (name : List Char) : List Char → Bool
  | '<' :: '/' :: rest => namedHere name rest
  | _ => false

/-- The content of an element up to its end tag, and the text from there. -/
def untilEndTag (name : List Char) : List Char → List Char × List Char
  | [] => ([], [])
  | c :: rest =>
    if endsHere name (c :: rest) then ([], c :: rest)
    else
      let (content, left) := untilEndTag name rest
      (c :: content, left)

/-- How far a script has gone into a comment. -/
inductive ScriptLevel where
  | outside
  | comment
  /-- Inside a comment, after a start tag of a script: an end tag belongs to that one. -/
  | nested
  deriving DecidableEq, Repr

/-- The level after the character at the front of a text. -/
def ScriptLevel.next (level : ScriptLevel) (text : List Char) : ScriptLevel :=
  match level with
  | .outside => if (stripStart? "<!--".toList text).isSome then .comment else .outside
  | .comment =>
    if (stripStart? "-->".toList text).isSome then .outside
    else if text.head? = some '<' && namedHere "script".toList text.tail then .nested
    else .comment
  | .nested =>
    if (stripStart? "-->".toList text).isSome then .outside
    else if endsHere "script".toList text then .comment
    else .nested

/-- The content of a script up to its end tag, and the text from there. -/
def untilScriptEnd (level : ScriptLevel) : List Char → List Char × List Char
  | [] => ([], [])
  | c :: rest =>
    if level != .nested && endsHere "script".toList (c :: rest) then ([], c :: rest)
    else
      let (content, left) := untilScriptEnd (level.next (c :: rest)) rest
      (c :: content, left)

/-- A text without the line feed at its front. A reference to one counts if it has its
semicolon. -/
def withoutLine : List Char → List Char
  | '\n' :: rest => rest
  | '&' :: rest =>
    match reference? false rest with
    | some ('\n', width) => if rest[width - 1]? = some ';' then rest.drop width else '&' :: rest
    | _ => '&' :: rest
  | text => text

/-- A text without the byte order mark at its front. -/
def withoutMark : List Char → List Char
  | '\uFEFF' :: rest => rest
  | text => text

/-- What follows an end tag, where the text follows its name. -/
def afterTag (text : List Char) : List Char :=
  match readAttributes? text with
  | some (_, rest) => rest.val
  | none => []

/-- The content of an element that holds no markup, and what follows its end tag. The end of the
text also ends it. A line feed at the front of a text area is dropped, and so is a byte order mark
behind a script, where the reading begins anew. -/
def rawContent (kind : RawKind) (name : String) (text : List Char) : String × List Char :=
  let ofChars := fun content => String.ofList (content.map kept)
  match kind with
  | .endless => (ofChars text, [])
  | .script =>
    let (content, left) := untilScriptEnd .outside text
    (ofChars content, withoutMark (afterTag (left.drop (name.length + 2))))
  | .plain =>
    let (content, left) := untilEndTag name.toList text
    (ofChars content, afterTag (left.drop (name.length + 2)))
  | .resolved =>
    let (content, left) := untilEndTag name.toList text
    let content := if name = "textarea" then withoutLine content else content
    (ofChars (resolve false content), afterTag (left.drop (name.length + 2)))

theorem length_untilEndTag_le (name text : List Char) :
    (untilEndTag name text).2.length ≤ text.length := by
  induction text with
  | nil => simp [untilEndTag]
  | cons c rest ih =>
    rw [untilEndTag]
    split
    · simp
    · simpa using Nat.le_succ_of_le ih

theorem length_untilScriptEnd_le (level : ScriptLevel) (text : List Char) :
    (untilScriptEnd level text).2.length ≤ text.length := by
  induction text generalizing level with
  | nil => simp [untilScriptEnd]
  | cons c rest ih =>
    rw [untilScriptEnd]
    split
    · simp
    · simpa using Nat.le_succ_of_le (ih _)

theorem length_withoutLine_le (text : List Char) : (withoutLine text).length ≤ text.length := by
  unfold withoutLine
  split
  · simp
  · split
    · split
      · simp only [List.length_drop, List.length_cons]; omega
      · simp
    · simp
  · simp

theorem length_withoutMark_le (text : List Char) : (withoutMark text).length ≤ text.length := by
  unfold withoutMark
  split <;> simp

theorem length_afterTag_le (text : List Char) : (afterTag text).length ≤ text.length := by
  unfold afterTag
  split
  · next rest _ => exact Nat.le_of_lt rest.property
  · simp

/-- What follows a raw element is no longer than the text. -/
theorem length_rawContent_le (kind : RawKind) (name : String) (text : List Char) :
    (rawContent kind name text).2.length ≤ text.length := by
  have behind (left : List Char) (h : left.length ≤ text.length) :
      (afterTag (left.drop (name.length + 2))).length ≤ text.length := by
    have := length_afterTag_le (left.drop (name.length + 2))
    simp only [List.length_drop] at this
    omega
  cases kind with
  | endless => simp [rawContent]
  | script =>
    exact Nat.le_trans (length_withoutMark_le _)
      (behind _ (length_untilScriptEnd_le .outside text))
  | resolved => exact behind _ (length_untilEndTag_le _ text)
  | plain => exact behind _ (length_untilEndTag_le _ text)

/-- What follows a comment, where the text follows its opening. -/
def afterComment : List Char → List Char
  | [] => []
  | c :: rest =>
    if (stripStart? "-->".toList (c :: rest)).isSome then rest.drop 2
    else if (stripStart? "--!>".toList (c :: rest)).isSome then rest.drop 3
    else afterComment rest

theorem length_afterComment_le (text : List Char) : (afterComment text).length ≤ text.length := by
  induction text with
  | nil => simp [afterComment]
  | cons c rest ih =>
    rw [afterComment]
    split
    · simp only [List.length_drop, List.length_cons]; omega
    · split
      · simp only [List.length_drop, List.length_cons]; omega
      · simpa using Nat.le_succ_of_le ih

/-- What follows the next closing angle bracket. -/
def afterBracket (text : List Char) : List Char :=
  (text.dropWhile (· != '>')).drop 1

/-- A comment, a document type or what is taken for a comment, where the text follows the opening
`<!`; and what follows it. -/
def declaration (text : List Char) : Token × List Char :=
  match stripStart? "--".toList text with
  | some ('>' :: rest) => (.comment, rest)
  | some ('-' :: '>' :: rest) => (.comment, rest)
  | some rest => (.comment, afterComment rest)
  | none =>
    if (text.take 7).map lowerChar = "doctype".toList then
      let body := text.drop 7
      let type := if '>' ∈ body then Doctype.ofText? (body.takeWhile (· != '>')) else none
      (.doctype type, afterBracket body)
    else (.comment, afterBracket text)

theorem length_afterBracket_le (text : List Char) : (afterBracket text).length ≤ text.length := by
  have := length_dropWhile_le (· != '>') text
  simp only [afterBracket, List.length_drop]
  omega

theorem length_declaration_le (text : List Char) :
    (declaration text).2.length ≤ text.length := by
  rw [declaration]
  split
  · next rest h =>
    have := congrArg List.length (stripStart?_eq_some_iff.1 h)
    simp at this ⊢; omega
  · next rest h =>
    have := congrArg List.length (stripStart?_eq_some_iff.1 h)
    simp at this ⊢; omega
  · next rest _ _ h =>
    have := congrArg List.length (stripStart?_eq_some_iff.1 h)
    have := length_afterComment_le rest
    simp at *; omega
  · split
    · have := length_afterBracket_le (text.drop 7)
      simp at this ⊢; omega
    · exact length_afterBracket_le text

/-- What an end tag makes, where the text follows its opening, and what follows it. -/
def scanEndTag (text : List Char) : List Token × List Char :=
  match text with
  | [] => ([.char '<', .char '/'], [])
  | '>' :: rest => ([], rest)
  | c :: _ =>
    if isAsciiLetter c then
      let name := nameOf (text.takeWhile fun d => !endsName d)
      match readAttributes? (text.dropWhile fun d => !endsName d) with
      | some (_, left) => ([.finish name], left.val)
      | none => ([], [])
    else ([.comment], afterBracket text)

/-- What a start tag makes, where the text begins with its name, and what follows it. A line feed
right behind the start of preformatted text is dropped. -/
def scanStartTag (inChoice : Bool) (text : List Char) : List Token × List Char :=
  let name := nameOf (text.takeWhile fun d => !endsName d)
  match readAttributes? (text.dropWhile fun d => !endsName d) with
  | some (written, left) =>
    let attributes := attributesOf written
    match rawKind? inChoice name with
    | some kind =>
      let (content, rest) := rawContent kind name left
      ([.raw name attributes content], rest)
    | none =>
      let dropsLine := !inChoice && (name == "pre" || name == "listing")
      ([.start name attributes], if dropsLine then withoutLine left else left)
  | none => ([], [])

/-- The first tag, comment or row of characters of a text, and what follows it. -/
def scan (inChoice : Bool) : List Char → List Token × List Char
  | [] => ([], [])
  | '<' :: '!' :: text =>
    let (token, rest) := declaration text
    ([token], rest)
  | '<' :: '?' :: text => ([.comment], afterBracket text)
  | '<' :: '/' :: text => scanEndTag text
  | '<' :: text =>
    if text.head?.any isAsciiLetter then scanStartTag inChoice text else ([.char '<'], text)
  | c :: text =>
    ((resolve false (c :: text.takeWhile (· != '<'))).map .char, text.dropWhile (· != '<'))

theorem length_scanEndTag_le (text : List Char) :
    (scanEndTag text).2.length ≤ text.length := by
  unfold scanEndTag
  split
  · simp
  · simp
  · next c rest _ =>
    split
    · split
      · next left _ =>
        have := left.property
        have := length_dropWhile_le (fun d => !endsName d) (c :: rest)
        simp only at *; omega
      · simp
    · exact length_afterBracket_le _

theorem length_scanStartTag_le (inChoice : Bool) (text : List Char) :
    (scanStartTag inChoice text).2.length ≤ text.length := by
  unfold scanStartTag
  split
  · next left _ =>
    have := left.property
    have := length_dropWhile_le (fun d => !endsName d) text
    generalize nameOf (text.takeWhile fun d => !endsName d) = name
    cases h : rawKind? inChoice name with
    | some kind =>
      have := length_rawContent_le kind name left.val
      simp only [h]; omega
    | none =>
      have := length_withoutLine_le left.val
      simp only [h]
      split <;> omega
  · simp

/-- A reading takes something from a text that is not empty. -/
theorem length_scan_lt (inChoice : Bool) {text : List Char} (h : text ≠ []) :
    (scan inChoice text).2.length < text.length := by
  unfold scan
  split
  · exact absurd rfl h
  · next text => have := length_declaration_le text; simp only [List.length_cons]; omega
  · next text => have := length_afterBracket_le text; simp only [List.length_cons]; omega
  · next text => have := length_scanEndTag_le text; simp only [List.length_cons]; omega
  · next text _ _ _ =>
    split
    · have := length_scanStartTag_le inChoice text; simp only [List.length_cons]; omega
    · simp
  · next c text _ _ _ _ =>
    have := length_dropWhile_le (· != '<') text
    simp only [List.length_cons]; omega

end Gleaner.Markup
