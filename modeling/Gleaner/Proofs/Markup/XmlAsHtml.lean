/-
# Written XML put into HTML

An XML text that can be written is put into HTML piece by piece: texts stay as they are, CDATA
sections become texts all of whose special characters are references, comments and instructions
vanish, and an element keeps its tags. What comes out has no carriage return and no byte order mark,
so it is read as it stands.

Key definitions: `Content.html`, `Page.html`.
Key theorems: `htmlFrom?_content`, `htmlFrom?_page`, `ofXml_text`.
-/
import Gleaner.Markup.Reading
import Gleaner.Proofs.Markup.XmlPieces

namespace Gleaner.Markup.Xml

open Gleaner.Text

/-! ### The HTML that is meant -/

/-- A content in HTML. -/
def Content.html : Content → List Char
  | .nil => []
  | .text s marked rest => writtenText marked s.toList ++ rest.html
  | .cdata s rest => escape s.toList ++ rest.html
  | .comment _ rest | .instruction _ rest => rest.html
  | .emptyTag name attributes rest => writeEmpty (writtenTag name attributes) ++ rest.html
  | .element name attributes content rest =>
    '<' :: (writtenTag name attributes ++
      '>' :: (content.html ++ (writtenEnd name ++ rest.html)))

/-- What is left of a piece outside of the outermost element. -/
def Misc.html : Misc → List Char
  | .blanks text => text.toList
  | .comment _ | .instruction _ | .doctype _ => []

def Page.html (page : Page) : List Char :=
  page.prolog.flatMap Misc.html ++ (page.root.html ++ page.epilog.flatMap Misc.html)

variable {text rest : List Char} {opened : List (List Char)} {name : String}
  {attributes : List WrittenAttribute}

/-! ### Contents and pages -/

/-- A run of characters up to the next tag stays. -/
theorem htmlFrom?_run (text : List Char) :
    htmlFrom? opened text =
      (htmlFrom? opened (text.dropWhile (· != '<'))).map (text.takeWhile (· != '<') ++ ·) := by
  cases text with
  | nil => simp [htmlFrom?]
  | cons c text =>
    by_cases hc : c = '<'
    · subst hc
      simp
    · rw [htmlFrom?]
      · simp [hc]
      · exact hc

/-- A text without tags stays, and the reading goes on behind it. -/
theorem htmlFrom?_append (h : '<' ∉ text) :
    htmlFrom? opened (text ++ rest) = (htmlFrom? opened rest).map (text ++ ·) := by
  have hrun : ∀ c ∈ text, (c != '<') = true := by
    intro c hc
    rw [bne_iff_ne]
    rintro rfl
    exact h hc
  rw [htmlFrom?_run, htmlFrom?_run rest, List.takeWhile_append_of_pos hrun,
    List.dropWhile_append_of_pos hrun, Option.map_map]
  congr 1
  funext more
  exact List.append_assoc _ _ _

theorem less_not_mem_writtenText (marked : Char → Bool) (text : List Char) :
    '<' ∉ writtenText marked text := by
  intro hmem
  rcases mem_writtenText hmem with ⟨-, hless, -⟩ | href
  · exact hless rfl
  · revert href
    decide

/-- A content is put into HTML whatever follows it. -/
theorem htmlFrom?_content {content : Content} (h : content.Legible) :
    htmlFrom? opened (content.written ++ rest) =
      (htmlFrom? opened rest).map (content.html ++ ·) := by
  -- inside an element its name lies on the names that are open, and its end tag takes it off
  induction content generalizing opened rest with
  | nil => simp [Content.written, Content.html]
  | text s marked more ih =>
    rw [Content.written, Content.html, List.append_assoc,
      htmlFrom?_append (less_not_mem_writtenText marked _), ih h.2, Option.map_map]
    simp [Function.comp_def]
  | cdata s more ih =>
    obtain ⟨-, hend, hmore⟩ := h
    rw [Content.written, List.append_assoc, htmlFrom?_cdata hend, ih hmore, Option.map_map]
    simp [Function.comp_def, Content.html]
  | comment s more ih =>
    rw [Content.written, List.append_assoc, htmlFrom?_comment h.1, ih h.2]
    rfl
  | instruction s more ih =>
    rw [Content.written, List.append_assoc, htmlFrom?_instruction h.1, ih h.2]
    rfl
  | emptyTag name attributes more ih =>
    rw [Content.written, List.cons_append, List.append_assoc, List.cons_append, List.cons_append,
      htmlFrom?_empty h.1, ih h.2, Option.map_map]
    simp [Function.comp_def, Content.html]
  | element name attributes content more ihcontent ihmore =>
    obtain ⟨htag, hcontent, hmore⟩ := h
    rw [Content.written, List.cons_append, List.append_assoc, List.cons_append, List.append_assoc,
      List.append_assoc, htmlFrom?_start htag, ihcontent hcontent, htmlFrom?_end htag.name,
      ihmore hmore]
    simp [Function.comp_def, Content.html]

/-- Around the outermost element only blanks stay. -/
theorem htmlFrom?_misc {pieces : List Misc} (h : ∀ piece ∈ pieces, piece.Legible) :
    htmlFrom? opened (pieces.flatMap Misc.written ++ rest) =
      (htmlFrom? opened rest).map (pieces.flatMap Misc.html ++ ·) := by
  induction pieces with
  | nil => simp
  | cons piece pieces ih =>
    obtain ⟨hpiece, hpieces⟩ := List.forall_mem_cons.1 h
    rw [List.flatMap_cons, List.flatMap_cons, List.append_assoc]
    cases piece with
    | blanks s =>
      have hless : '<' ∉ s.toList := fun hmem => absurd (hpiece '<' hmem) (by decide)
      rw [Misc.written, htmlFrom?_append hless, ih hpieces, Option.map_map]
      simp [Function.comp_def, Misc.html]
    | comment s =>
      rw [Misc.written, htmlFrom?_comment hpiece, ih hpieces]
      rfl
    | instruction s =>
      rw [Misc.written, htmlFrom?_instruction hpiece, ih hpieces]
      rfl
    | doctype s =>
      rw [Misc.written, htmlFrom?_doctype hpiece.1 hpiece.2, ih hpieces]
      rfl

/-- The text of a page is put into HTML. -/
theorem htmlFrom?_page {page : Page} (h : page.Legible) :
    htmlFrom? [] page.written = some page.html := by
  have hepilog : htmlFrom? [] (page.epilog.flatMap Misc.written ++ []) =
      (htmlFrom? [] []).map (page.epilog.flatMap Misc.html ++ ·) := htmlFrom?_misc h.epilog
  rw [List.append_nil] at hepilog
  rw [Page.written, htmlFrom?_misc h.prolog, htmlFrom?_content h.root, hepilog]
  simp [htmlFrom?, Page.html]

/-! ### Line ends and marks -/

theorem unifyLines_of_not_mem : ∀ {text : List Char}, '\r' ∉ text → unifyLines text = text
  | [], _ => by simp [unifyLines]
  | c :: text, h => by
    obtain ⟨hc, htext⟩ := List.ne_and_not_mem_of_not_mem_cons h
    rw [unifyLines, unifyLines_of_not_mem htext]
    · rintro more rfl
      exact absurd rfl hc
    · rintro rfl
      exact hc rfl

theorem not_mem_writtenText {marked : Char → Bool} {c : Char} (hc : c ∉ text)
    (href : c ∉ referenceChars) : c ∉ writtenText marked text := by
  intro hmem
  rcases mem_writtenText hmem with ⟨htext, -, -⟩ | hreference
  · exact hc htext
  · exact href hreference

theorem return_not_mem_writtenText {marked : Char → Bool} (h : '\r' ∉ text) :
    '\r' ∉ writtenText marked text :=
  not_mem_writtenText h (by decide)

theorem IsPlainText.return_not_mem {text : String} (h : IsPlainText text) : '\r' ∉ text.toList :=
  fun hr => (h '\r' hr).1 rfl

theorem IsPlainText.null_not_mem {text : String} (h : IsPlainText text) : '\x00' ∉ text.toList :=
  fun hnull => (h '\x00' hnull).2 rfl

theorem return_not_mem_writtenTag (h : LegibleTag name attributes) :
    '\r' ∉ writtenTag name attributes := by
  have hname {chars : List Char} (hchars : ∀ c ∈ chars, isNameChar c = true) : '\r' ∉ chars :=
    fun hr => absurd (hchars '\r' hr) (by decide)
  have hattribute : ∀ a ∈ attributes, '\r' ∉ a.written := by
    intro a ha
    have hlegible := h.legible a ha
    have hvalue : '\r' ∉ a.writtenValue := return_not_mem_writtenText hlegible.value.return_not_mem
    simp [WrittenAttribute.written, hname hlegible.name, hvalue]
  simpa [writtenTag, hname h.name] using hattribute

/-- No content in HTML has a carriage return. -/
theorem return_not_mem_html {content : Content} (h : content.Legible) : '\r' ∉ content.html := by
  induction content with
  | nil => simp [Content.html]
  | text s marked more ih =>
    have htext : '\r' ∉ writtenText marked s.toList := return_not_mem_writtenText h.1.return_not_mem
    simp [Content.html, htext, ih h.2]
  | cdata s more ih =>
    have htext : '\r' ∉ escape s.toList := by
      rw [escape_eq_writtenText]
      exact return_not_mem_writtenText h.1.return_not_mem
    simp [Content.html, htext, ih h.2.2]
  | comment s more ih => exact ih h.2
  | instruction s more ih => exact ih h.2
  | emptyTag name attributes more ih =>
    have htag := return_not_mem_writtenTag h.1
    have hname : '\r' ∉ name.toList := fun hr => absurd (h.1.name '\r' hr) (by decide)
    have hempty : '\r' ∉ writeEmpty (writtenTag name attributes) := by
      unfold writeEmpty
      rw [tagName_writtenTag h.1]
      dsimp only
      split <;> simp [htag, hname]
    simp [Content.html, hempty, ih h.2]
  | element name attributes content more ihcontent ihmore =>
    obtain ⟨htag, hcontent, hmore⟩ := h
    have hend : '\r' ∉ writtenEnd name := by
      have hname : '\r' ∉ name.toList := fun hr => absurd (htag.name '\r' hr) (by decide)
      simp [writtenEnd, hname]
    simp [Content.html, return_not_mem_writtenTag htag, hend, ihcontent hcontent, ihmore hmore]

/-- Around the outermost element only blanks are left. -/
theorem mem_html_misc {pieces : List Misc} (h : ∀ piece ∈ pieces, piece.Legible) {c : Char}
    (hc : c ∈ pieces.flatMap Misc.html) : c ∈ [' ', '\t', '\n'] := by
  obtain ⟨piece, hpiece, hc⟩ := List.mem_flatMap.1 hc
  cases piece with
  | blanks s => exact h _ hpiece c hc
  | comment s => cases hc
  | instruction s => cases hc
  | doctype s => cases hc

/-- Nor has a page. -/
theorem Page.return_not_mem_html {page : Page} (h : page.Legible) : '\r' ∉ page.html := by
  have hmisc {pieces : List Misc} (hpieces : ∀ piece ∈ pieces, piece.Legible) :
      '\r' ∉ pieces.flatMap Misc.html :=
    fun hr => absurd (mem_html_misc hpieces hr) (by decide)
  simp only [Page.html, List.mem_append, not_or]
  exact ⟨hmisc h.prolog, Xml.return_not_mem_html h.root, hmisc h.epilog⟩

/-- Rows of which none begins with a mark do not begin with it one after another. -/
theorem head?_flatMap_ne {α : Type} {f : α → List Char} {m : Char} {tail : List Char}
    (htail : tail.head? ≠ some m) : ∀ {list : List α}, (∀ a ∈ list, (f a).head? ≠ some m) →
      (list.flatMap f ++ tail).head? ≠ some m
  | [], _ => htail
  | a :: list, h => by
    obtain ⟨ha, hlist⟩ := List.forall_mem_cons.1 h
    rw [List.flatMap_cons, List.append_assoc]
    cases hfirst : f a with
    | nil => exact head?_flatMap_ne htail hlist
    | cons c chars => rwa [hfirst] at ha

theorem Misc.head?_ne_mark {piece : Misc} (h : piece.Legible) :
    piece.written.head? ≠ some '\uFEFF' ∧ piece.html.head? ≠ some '\uFEFF' := by
  have hless : some '<' ≠ some '\uFEFF' := by decide
  cases piece with
  | blanks s =>
    have hhead : s.toList.head? ≠ some '\uFEFF' := by
      intro hhead
      exact absurd (h '\uFEFF' (List.mem_of_head? hhead)) (by decide)
    exact ⟨hhead, hhead⟩
  | comment s => exact ⟨hless, nofun⟩
  | instruction s => exact ⟨hless, nofun⟩
  | doctype s => exact ⟨hless, nofun⟩

/-- A page begins with no byte order mark, and neither does its HTML. -/
theorem Page.head?_ne_mark {page : Page} (h : page.Legible) :
    page.written.head? ≠ some '\uFEFF' ∧ page.html.head? ≠ some '\uFEFF' := by
  have hless : some '<' ≠ some '\uFEFF' := by decide
  have hroot (after : List Char) : (page.root.written ++ after).head? = some '<' ∧
      (page.root.html ++ after).head? = some '<' := by
    unfold Page.root
    split
    · refine ⟨rfl, ?_⟩
      rw [Content.html, writeEmpty]
      split <;> rfl
    · exact ⟨rfl, rfl⟩
  rw [Page.written, Page.html]
  constructor
  · apply head?_flatMap_ne
    · rw [(hroot _).1]
      exact hless
    · exact fun piece hpiece => (Misc.head?_ne_mark (h.prolog piece hpiece)).1
  · apply head?_flatMap_ne
    · rw [(hroot _).2]
      exact hless
    · exact fun piece hpiece => (Misc.head?_ne_mark (h.prolog piece hpiece)).2

theorem htmlOf?_of_head?_ne (h : text.head? ≠ some '\uFEFF') :
    htmlOf? text = htmlFrom? [] text := by
  unfold htmlOf?
  split
  · exact absurd rfl h
  · rfl

theorem withoutMark_of_head?_ne (h : text.head? ≠ some '\uFEFF') : withoutMark text = text := by
  unfold withoutMark
  split
  · exact absurd rfl h
  · rfl

/-- **A written page is read as its HTML.** -/
theorem ofXml_text {page : Page} (h : page.Legible) :
    Document.ofXml page.text = Document.ofMarkup page.html := by
  obtain ⟨hwritten, hhtml⟩ := Page.head?_ne_mark h
  have hof : htmlOf? page.text.toList = some page.html := by
    rw [Page.text, String.toList_ofList, htmlOf?_of_head?_ne hwritten, htmlFrom?_page h]
  rw [Document.ofXml, hof]
  dsimp only
  rw [Document.ofHtmlChars, withoutMark_of_head?_ne hhtml,
    unifyLines_of_not_mem (Page.return_not_mem_html h)]

end Gleaner.Markup.Xml
