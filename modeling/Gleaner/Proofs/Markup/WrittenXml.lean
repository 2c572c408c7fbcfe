/-
# XML as it is written

What stands between two tags is a row of texts, CDATA sections, comments, processing instructions and
elements. A text may be put down with more references than it needs, and an element without content
as one tag or as two. Pieces of text that follow each other, with nothing but comments and
instructions between them, are one text of the document. Around the outermost element stand blanks,
comments, instructions (the XML declaration is written as one) and the document type.

Key definitions: `writtenText`, `WrittenAttribute`, `Content`, `Content.written`, `Content.trees`,
`Content.Legible`, `Content.Ordinary`, `Misc`, `Page`, `Page.text`, `Page.tree`.
Key theorems: `mem_writtenText`, `textCharsOf_trees`, `joined_trees`.
-/
import Gleaner.Markup.Xml
import Gleaner.Proofs.Markup.Ordinary

namespace Gleaner.Markup.Xml

open Gleaner.Text

/-! ### Texts and tags -/

/-- A character between tags or in an attribute: a reference where it has to be one or is marked. -/
def writtenChar (marked : Char → Bool) (c : Char) : List Char :=
  if c = '<' ∨ c = '&' ∨ marked c = true then escapeChar c else [c]

def writtenText (marked : Char → Bool) (text : List Char) : List Char :=
  text.flatMap (writtenChar marked)

/-- A CDATA section is shown with all references it can have. -/
theorem escape_eq_writtenText (text : List Char) :
    escape text = writtenText (fun _ => true) text := by
  unfold escape writtenText
  congr 1
  funext c
  simp [writtenChar]

/-- The characters that references are made of. -/
def referenceChars : List Char :=
  ['&', 'l', 't', 'g', 'a', 'm', 'p', 'o', 's', 'q', 'u', ';']

theorem mem_escapeChar {c d : Char} (h : d ∈ escapeChar c) :
    (d = c ∧ c ≠ '<' ∧ c ≠ '"') ∨ d ∈ referenceChars := by
  have hreference {reference : String} (hmem : d ∈ reference.toList)
      (hall : ∀ e ∈ reference.toList, e ∈ referenceChars) : d ∈ referenceChars :=
    hall d hmem
  unfold escapeChar at h
  split at h
  · exact .inr (hreference h (by decide))
  split at h
  · exact .inr (hreference h (by decide))
  split at h
  · exact .inr (hreference h (by decide))
  split at h
  · exact .inr (hreference h (by decide))
  split at h
  · exact .inr (hreference h (by decide))
  · next hless _ _ _ hquote => exact .inl ⟨List.mem_singleton.1 h, hless, hquote⟩

/-- A character of a written text is one of the text where it needs no reference, or part of a
reference. -/
theorem mem_writtenText {marked : Char → Bool} {text : List Char} {d : Char}
    (h : d ∈ writtenText marked text) :
    (d ∈ text ∧ d ≠ '<' ∧ (marked '"' = true → d ≠ '"')) ∨ d ∈ referenceChars := by
  obtain ⟨c, hc, hd⟩ := List.mem_flatMap.1 h
  unfold writtenChar at hd
  split at hd
  · rcases mem_escapeChar hd with ⟨rfl, hless, hquote⟩ | href
    · exact .inl ⟨hc, hless, fun _ => hquote⟩
    · exact .inr href
  · next hplain =>
    obtain rfl := List.mem_singleton.1 hd
    obtain ⟨hless, -, hmarked⟩ : d ≠ '<' ∧ d ≠ '&' ∧ marked d ≠ true := by simpa using hplain
    refine .inl ⟨hc, hless, ?_⟩
    rintro hquote rfl
    exact hmarked hquote

/-- An attribute; the marked characters of its value are written as references. -/
structure WrittenAttribute where
  name : String
  value : String
  marked : Char → Bool := fun _ => false

/-- The value stands between quotation marks, so one inside is a reference. -/
def WrittenAttribute.writtenValue (a : WrittenAttribute) : List Char :=
  writtenText (fun c => c == '"' || a.marked c) a.value.toList

def WrittenAttribute.written (a : WrittenAttribute) : List Char :=
  ' ' :: (a.name.toList ++ '=' :: '"' :: (a.writtenValue ++ ['"']))

/-- What stands in a start tag. -/
def writtenTag (name : String) (attributes : List WrittenAttribute) : List Char :=
  name.toList ++ attributes.flatMap WrittenAttribute.written

def writtenEnd (name : String) : List Char :=
  '<' :: '/' :: (name.toList ++ ['>'])

theorem writtenEnd_append (name : String) (rest : List Char) :
    writtenEnd name ++ rest = '<' :: '/' :: (name.toList ++ '>' :: rest) := by
  simp [writtenEnd]

def writtenCdata (text : List Char) : List Char :=
  ['<', '!', '[', 'C', 'D', 'A', 'T', 'A', '['] ++ (text ++ [']', ']', '>'])

def writtenComment (text : List Char) : List Char :=
  ['<', '!', '-', '-'] ++ (text ++ ['-', '-', '>'])

def writtenInstruction (text : List Char) : List Char :=
  ['<', '?'] ++ (text ++ ['?', '>'])

def writtenDoctype (text : List Char) : List Char :=
  ['<', '!', 'D', 'O', 'C', 'T', 'Y', 'P', 'E'] ++ (text ++ ['>'])

/-- The attributes that are meant, named in small letters. -/
def namedValues (attributes : List WrittenAttribute) : KeyMap String :=
  .ofList (attributes.map fun a => (lowerAscii a.name, a.value))

/-! ### Contents -/

/-- What stands between two tags, from its first piece on. -/
inductive Content where
  | nil
  /-- A text, of which the marked characters are written as references. -/
  | text (text : String) (marked : Char → Bool) (rest : Content)
  | cdata (text : String) (rest : Content)
  | comment (text : String) (rest : Content)
  | instruction (text : String) (rest : Content)
  /-- An element without content, as one tag. -/
  | emptyTag (name : String) (attributes : List WrittenAttribute) (rest : Content)
  | element (name : String) (attributes : List WrittenAttribute) (content rest : Content)

namespace Content

def written : Content → List Char
  | .nil => []
  | .text s marked rest => writtenText marked s.toList ++ rest.written
  | .cdata s rest => writtenCdata s.toList ++ rest.written
  | .comment s rest => writtenComment s.toList ++ rest.written
  | .instruction s rest => writtenInstruction s.toList ++ rest.written
  | .emptyTag name attributes rest =>
    '<' :: (writtenTag name attributes ++ '/' :: '>' :: rest.written)
  | .element name attributes content rest =>
    '<' :: (writtenTag name attributes ++
      '>' :: (content.written ++ (writtenEnd name ++ rest.written)))

/-- The text that has been read without a node for it yet, as a node. -/
def textNode (pending : List Char) : List Tree :=
  if pending.isEmpty then [] else [.text (String.ofList pending)]

/-- The nodes that are meant, where some text has come before. -/
def trees : Content → (pending : List Char) → List Tree
  | .nil, pending => textNode pending
  | .text s _ rest, pending | .cdata s rest, pending => rest.trees (pending ++ s.toList)
  | .comment _ rest, pending | .instruction _ rest, pending => rest.trees pending
  | .emptyTag name attributes rest, pending =>
    textNode pending ++ .element (lowerAscii name) (namedValues attributes) [] :: rest.trees []
  | .element name attributes content rest, pending =>
    textNode pending ++
      .element (lowerAscii name) (namedValues attributes) (content.trees []) :: rest.trees []

end Content

/-! ### What is meant -/

theorem textCharsOf_textNode (pending : List Char) :
    textCharsOf (Content.textNode pending) = pending := by
  cases pending with
  | nil => rfl
  | cons c pending => simp [Content.textNode, textCharsOf, Tree.textChars]

theorem textCharsOf_append : ∀ first second : List Tree,
    textCharsOf (first ++ second) = textCharsOf first ++ textCharsOf second
  | [], _ => rfl
  | tree :: first, second => by
    rw [List.cons_append, textCharsOf, textCharsOf_append first second, textCharsOf,
      List.append_assoc]

namespace Content

/-- The texts and the CDATA sections of a content one after another. -/
def chars : Content → List Char
  | .nil => []
  | .text s _ rest | .cdata s rest => s.toList ++ rest.chars
  | .comment _ rest | .instruction _ rest | .emptyTag _ _ rest => rest.chars
  | .element _ _ content rest => content.chars ++ rest.chars

/-- No text is lost, and none comes twice. -/
theorem textCharsOf_trees (content : Content) (pending : List Char) :
    textCharsOf (content.trees pending) = pending ++ content.chars := by
  induction content generalizing pending with
  | nil => rw [trees, textCharsOf_textNode, chars, List.append_nil]
  | text s _ rest ih => rw [trees, ih, List.append_assoc]; rfl
  | cdata s rest ih => rw [trees, ih, List.append_assoc]; rfl
  | comment _ rest ih => rw [trees, ih]; rfl
  | instruction _ rest ih => rw [trees, ih]; rfl
  | emptyTag _ _ rest ih =>
    rw [trees, textCharsOf_append, textCharsOf_textNode, textCharsOf, ih]
    rfl
  | element _ _ content rest ihcontent ihrest =>
    rw [trees, textCharsOf_append, textCharsOf_textNode, textCharsOf, Tree.textChars, ihcontent,
      ihrest]
    rfl

/-- A text is not empty, and no other text follows it. -/
def Joined : List Tree → Prop
  | .text s :: rest => s ≠ "" ∧ (∀ other more, rest ≠ .text other :: more) ∧ Joined rest
  | _ :: rest => Joined rest
  | [] => True

theorem joined_textNode_append (pending : List Char) {rest : List Tree}
    (hrest : ∀ other more, rest ≠ .text other :: more) (h : Joined rest) :
    Joined (textNode pending ++ rest) := by
  cases pending with
  | nil => exact h
  | cons c pending =>
    have hne : String.ofList (c :: pending) ≠ "" := by
      intro hempty
      have hlist := congrArg String.toList hempty
      rw [String.toList_ofList] at hlist
      cases hlist
    exact ⟨hne, hrest, h⟩

/-- Pieces of text with nothing but comments and instructions between them are one text. -/
theorem joined_trees (content : Content) (pending : List Char) :
    Joined (content.trees pending) := by
  induction content generalizing pending with
  | nil =>
    rw [trees, ← List.append_nil (textNode pending)]
    exact joined_textNode_append pending nofun trivial
  | text s _ rest ih => exact ih _
  | cdata s rest ih => exact ih _
  | comment _ rest ih => exact ih _
  | instruction _ rest ih => exact ih _
  | emptyTag _ _ rest ih => exact joined_textNode_append pending nofun (ih [])
  | element _ _ _ rest _ ih => exact joined_textNode_append pending nofun (ih [])

end Content

/-! ### What can be written -/

/-- A text that is read as it stands. -/
def IsPlainText (text : String) : Prop :=
  ∀ c ∈ text.toList, c ≠ '\r' ∧ c ≠ '\x00'

instance (text : String) : Decidable (IsPlainText text) :=
  inferInstanceAs (Decidable (∀ c ∈ text.toList, c ≠ '\r' ∧ c ≠ '\x00'))

/-- A character that can stand in a name. -/
def isNameChar (c : Char) : Bool :=
  !(isTagSpace c || c ∈ ['\r', '\x00', '/', '<', '>', '=', '"', '\'', '&'])

theorem ne_of_isNameChar {c d : Char} (hc : isNameChar c = true) (hd : isNameChar d = false) :
    c ≠ d := by
  rintro rfl
  rw [hc] at hd
  cases hd

theorem isSpace_of_isNameChar {c : Char} (h : isNameChar c = true) : isSpace c = false := by
  have hne {d : Char} (hd : isNameChar d = false) : c ≠ d := ne_of_isNameChar h hd
  simp [isSpace, hne (by decide : isNameChar ' ' = false),
    hne (by decide : isNameChar '\t' = false), hne (by decide : isNameChar '\n' = false),
    hne (by decide : isNameChar '\r' = false)]

structure WrittenAttribute.Legible (a : WrittenAttribute) : Prop where
  named : a.name.toList ≠ []
  name : ∀ c ∈ a.name.toList, isNameChar c = true
  value : IsPlainText a.value

instance (a : WrittenAttribute) : Decidable a.Legible :=
  decidable_of_iff
    (a.name.toList ≠ [] ∧ (∀ c ∈ a.name.toList, isNameChar c = true) ∧ IsPlainText a.value)
    ⟨fun h => ⟨h.1, h.2.1, h.2.2⟩, fun h => ⟨h.named, h.name, h.value⟩⟩

/-- The tag has a name that begins with a letter, without which HTML takes it for a text, and
attributes of different names. -/
structure LegibleTag (name : String) (attributes : List WrittenAttribute) : Prop where
  letter : name.toList.head?.any isAsciiLetter = true
  name : ∀ c ∈ name.toList, isNameChar c = true
  legible : ∀ a ∈ attributes, a.Legible
  distinct : (attributes.map fun a => lowerAscii a.name).Nodup

theorem legibleTag_iff {name : String} {attributes : List WrittenAttribute} :
    LegibleTag name attributes ↔
      name.toList.head?.any isAsciiLetter = true ∧ (∀ c ∈ name.toList, isNameChar c = true) ∧
        (∀ a ∈ attributes, a.Legible) ∧ (attributes.map fun a => lowerAscii a.name).Nodup :=
  ⟨fun h => ⟨h.letter, h.name, h.legible, h.distinct⟩, fun h => ⟨h.1, h.2.1, h.2.2.1, h.2.2.2⟩⟩

instance (name : String) (attributes : List WrittenAttribute) :
    Decidable (LegibleTag name attributes) :=
  decidable_of_iff' _ legibleTag_iff

namespace Content

/-- No piece holds what would end it. -/
def Legible : Content → Prop
  | .nil => True
  | .text s _ rest => IsPlainText s ∧ rest.Legible
  | .cdata s rest =>
    IsPlainText s ∧ occursIn [']', ']', '>'] s.toList = false ∧ rest.Legible
  | .comment s rest => occursIn ['-', '-', '>'] s.toList = false ∧ rest.Legible
  | .instruction s rest => occursIn ['?', '>'] ('?' :: s.toList) = false ∧ rest.Legible
  | .emptyTag name attributes rest => LegibleTag name attributes ∧ rest.Legible
  | .element name attributes content rest =>
    LegibleTag name attributes ∧ content.Legible ∧ rest.Legible

instance decidableLegible : (content : Content) → Decidable content.Legible
  | .nil => .isTrue trivial
  | .text s _ rest =>
    have := rest.decidableLegible
    inferInstanceAs (Decidable (IsPlainText s ∧ rest.Legible))
  | .cdata s rest =>
    have := rest.decidableLegible
    inferInstanceAs (Decidable
      (IsPlainText s ∧ occursIn [']', ']', '>'] s.toList = false ∧ rest.Legible))
  | .comment s rest =>
    have := rest.decidableLegible
    inferInstanceAs (Decidable (occursIn ['-', '-', '>'] s.toList = false ∧ rest.Legible))
  | .instruction s rest =>
    have := rest.decidableLegible
    inferInstanceAs (Decidable (occursIn ['?', '>'] ('?' :: s.toList) = false ∧ rest.Legible))
  | .emptyTag name attributes rest =>
    have := rest.decidableLegible
    inferInstanceAs (Decidable (LegibleTag name attributes ∧ rest.Legible))
  | .element name attributes content rest =>
    have := content.decidableLegible
    have := rest.decidableLegible
    inferInstanceAs (Decidable (LegibleTag name attributes ∧ content.Legible ∧ rest.Legible))

/-- The elements have ordinary names. -/
def Ordinary : Content → Prop
  | .nil => True
  | .text _ _ rest | .cdata _ rest | .comment _ rest | .instruction _ rest => rest.Ordinary
  | .emptyTag name _ rest => IsOrdinary (lowerAscii name) ∧ rest.Ordinary
  | .element name _ content rest =>
    IsOrdinary (lowerAscii name) ∧ content.Ordinary ∧ rest.Ordinary

instance decidableOrdinary : (content : Content) → Decidable content.Ordinary
  | .nil => .isTrue trivial
  | .text _ _ rest | .cdata _ rest | .comment _ rest | .instruction _ rest =>
    rest.decidableOrdinary
  | .emptyTag name _ rest =>
    have := rest.decidableOrdinary
    inferInstanceAs (Decidable (IsOrdinary (lowerAscii name) ∧ rest.Ordinary))
  | .element name _ content rest =>
    have := content.decidableOrdinary
    have := rest.decidableOrdinary
    inferInstanceAs (Decidable (IsOrdinary (lowerAscii name) ∧ content.Ordinary ∧ rest.Ordinary))

end Content

/-! ### Pages -/

/-- What may stand in front of the outermost element and behind it. -/
inductive Misc where
  | blanks (text : String)
  | comment (text : String)
  | instruction (text : String)
  | doctype (text : String)

def Misc.written : Misc → List Char
  | .blanks text => text.toList
  | .comment text => writtenComment text.toList
  | .instruction text => writtenInstruction text.toList
  | .doctype text => writtenDoctype text.toList

/-- Each closing angle bracket closes one that stands open, of which there are so many, and none is
left open. -/
def bracketsMatch : (depth : Nat) → List Char → Bool
  | depth, [] => depth == 0
  | depth, c :: rest =>
    if c = '<' then bracketsMatch (depth + 1) rest
    else if c = '>' then depth != 0 && bracketsMatch (depth - 1) rest
    else bracketsMatch depth rest

def Misc.Legible : Misc → Prop
  | .blanks text => ∀ c ∈ text.toList, c ∈ [' ', '\t', '\n']
  | .comment text => occursIn ['-', '-', '>'] text.toList = false
  | .instruction text => occursIn ['?', '>'] ('?' :: text.toList) = false
  | .doctype text =>
    bracketsMatch 0 text.toList = true ∧ text.toList.any (fun c => !isSpace c) = true

instance : (piece : Misc) → Decidable piece.Legible
  | .blanks text => inferInstanceAs (Decidable (∀ c ∈ text.toList, c ∈ [' ', '\t', '\n']))
  | .comment text => inferInstanceAs (Decidable (occursIn ['-', '-', '>'] text.toList = false))
  | .instruction text =>
    inferInstanceAs (Decidable (occursIn ['?', '>'] ('?' :: text.toList) = false))
  | .doctype text =>
    inferInstanceAs (Decidable
      (bracketsMatch 0 text.toList = true ∧ text.toList.any (fun c => !isSpace c) = true))

/-- A whole XML text; without content the outermost element is one tag. -/
structure Page where
  prolog : List Misc
  name : String
  attributes : List WrittenAttribute
  content : Option Content
  epilog : List Misc

namespace Page

/-- The outermost element alone. -/
def root (page : Page) : Content :=
  match page.content with
  | none => .emptyTag page.name page.attributes .nil
  | some content => .element page.name page.attributes content .nil

def written (page : Page) : List Char :=
  page.prolog.flatMap Misc.written ++ (page.root.written ++ page.epilog.flatMap Misc.written)

def text (page : Page) : String :=
  String.ofList page.written

/-- The element that is meant. -/
def tree (page : Page) : Tree :=
  .element (lowerAscii page.name) (namedValues page.attributes)
    (match page.content with
      | none => []
      | some content => content.trees [])

structure Legible (page : Page) : Prop where
  prolog : ∀ piece ∈ page.prolog, piece.Legible
  root : page.root.Legible
  epilog : ∀ piece ∈ page.epilog, piece.Legible

instance (page : Page) : Decidable page.Legible :=
  decidable_of_iff
    ((∀ piece ∈ page.prolog, piece.Legible) ∧ page.root.Legible ∧
      ∀ piece ∈ page.epilog, piece.Legible)
    ⟨fun h => ⟨h.1, h.2.1, h.2.2⟩, fun h => ⟨h.prolog, h.root, h.epilog⟩⟩

end Page

end Gleaner.Markup.Xml
