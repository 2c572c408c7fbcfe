/-
# How the body grows

While XML put into HTML is read, the open elements are those of the tags read so far, and the
innermost one holds its nodes so far, the text that has come last among them. Each piece of the
content adds what it means: a text goes on with the last text, and an element is opened, filled and
put behind it. So a whole content adds the nodes that it means, whatever stands around it, and a
whole page becomes a body with one element.

Key definitions: `Builder.inside`, `NoTextLast`, `bodyFrame`.
Key theorems: `read_text`, `read_element`, `read_content`, `read_first`, `ofMarkup_html`.
-/
import Gleaner.Proofs.Markup.Tags

namespace Gleaner.Markup

open Gleaner.Text Xml
open Xml.Content (textNode)

variable {b : Builder} {f : Frame} {outer : OpenElements} {base : List Tree}

/-! ### The innermost element -/

/-- The body is read, with an element open that holds these nodes, last first, inside of others. -/
def Builder.inside (b : Builder) (f : Frame) (outer : OpenElements) (children : List Tree) :
    Builder :=
  { b with phase := .inBody, stack := { f with children := children } :: outer }

theorem Builder.step_inside (children : List Tree) (t : Token) :
    (b.inside f outer children).step t = (b.inside f outer children).inBody t := rfl

namespace OpenElements

theorem Plain.inside (h : Plain (f :: outer)) (children : List Tree) :
    (b.inside f outer children).stack.Plain := by
  obtain ⟨hf, houter⟩ := List.forall_mem_cons.1 h
  exact List.forall_mem_cons.2 ⟨hf, houter⟩

theorem Plain.push {name : String} (h : Plain outer) (hname : IsOrdinary name)
    (attributes : KeyMap String) : Plain (outer.push name attributes) :=
  List.forall_mem_cons.2 ⟨⟨rfl, .inr hname⟩, h⟩

end OpenElements

/-! ### Texts -/

/-- The last node is no text, so that a text after it is a node of its own. -/
def NoTextLast (children : List Tree) : Prop :=
  ∀ content rest, children ≠ .text content :: rest

theorem noTextLast_nil : NoTextLast [] :=
  fun _ _ h => nomatch h

theorem noTextLast_element (name : String) (attributes : KeyMap String)
    (children rest : List Tree) : NoTextLast (.element name attributes children :: rest) :=
  fun _ _ h => nomatch (List.cons.inj h).1

/-- A character goes on with the text that has come last. -/
theorem appendChar_textNode (hbase : NoTextLast base) (c : Char) (pending : List Char) :
    appendChar c (textNode pending ++ base) = textNode (pending ++ [c]) ++ base := by
  cases pending with
  | nil =>
    have hnew : appendChar c base = .text (String.singleton c) :: base := by
      unfold appendChar
      split
      · exact absurd rfl (hbase _ _)
      · rfl
    exact hnew
  | cons d pending =>
    have hpush : (String.ofList (d :: pending)).push c = String.ofList (d :: pending ++ [c]) := by
      apply String.toList_injective
      simp
    show Tree.text ((String.ofList (d :: pending)).push c) :: base = _
    rw [hpush]
    rfl

/-- The characters of a text go on with the text that has come last in the innermost element. -/
theorem step_chars (hplain : OpenElements.Plain (f :: outer)) (hbase : NoTextLast base)
    {text : List Char} (htext : '\x00' ∉ text) (pending : List Char) :
    (text.map Token.char).foldl Builder.step (b.inside f outer (textNode pending ++ base)) =
      b.inside f outer (textNode (pending ++ text) ++ base) := by
  induction text generalizing pending with
  | nil => simp
  | cons c text ih =>
    obtain ⟨hc, htext⟩ := List.ne_and_not_mem_of_not_mem_cons htext
    have hstep : (b.inside f outer (textNode pending ++ base)).step (.char c) =
        b.inside f outer (textNode (pending ++ [c]) ++ base) := by
      rw [Builder.step_inside, Builder.inBody_char hc.symm (hplain.inside _),
        ← appendChar_textNode hbase]
      rfl
    rw [List.map_cons, List.foldl_cons, hstep, ih htext, List.append_assoc]
    rfl

/-- A written text is read into the innermost element. -/
theorem read_text (hplain : OpenElements.Plain (f :: outer)) (hbase : NoTextLast base)
    {text : String} (htext : IsPlainText text) (marked : Char → Bool) (pending rest : List Char) :
    (b.inside f outer (textNode pending ++ base)).read (writtenText marked text.toList ++ rest) =
      (b.inside f outer (textNode (pending ++ text.toList) ++ base)).read rest := by
  rw [read_writtenText, step_chars hplain hbase htext.null_not_mem]

/-! ### Elements -/

variable {name : String} {attributes : List WrittenAttribute}

/-- An element is put into HTML as what stands between its tags. -/
theorem html_element (content more : Content) (rest : List Char) :
    (Content.element name attributes content more).html ++ rest =
      '<' :: (writtenTag name attributes ++
        '>' :: (content.html ++ (writtenEnd name ++ (more.html ++ rest)))) := by
  simp [Content.html]

/-- Without content an element of an ordinary name is put into HTML as two tags. -/
theorem html_emptyTag (htag : LegibleTag name attributes) (hname : IsOrdinary (lowerAscii name))
    (more : Content) :
    (Content.emptyTag name attributes more).html =
      (Content.element name attributes .nil more).html := by
  have hkept : lowerAscii name ∉ keptEmpty := hname.not_mem (by decide)
  rw [Content.html, writeEmpty, tagName_writtenTag htag, String.ofList_toList, if_neg hkept]
  simp [Content.html, writtenEnd]

/-- An element before anything is put into it. -/
def Frame.empty (name : String) (attributes : KeyMap String) : Frame where
  name := name
  attributes := attributes
  children := []

/-- A start tag opens an element in the innermost one. -/
theorem read_open (htag : LegibleTag name attributes) (hname : IsOrdinary (lowerAscii name))
    (hplain : OpenElements.Plain (f :: outer)) (children : List Tree) (rest : List Char) :
    (b.inside f outer children).read ('<' :: (writtenTag name attributes ++ '>' :: rest)) =
      (b.inside (.empty (lowerAscii name) (namedValues attributes))
        ({ f with children := children } :: outer) []).read rest := by
  rw [read_start htag hname.rawKind? (hname.not_mem (by decide)), Builder.step_inside,
    Builder.inBody_start hname (hplain.inside children)]
  rfl

/-- An end tag puts the innermost element into the next outer one. -/
theorem read_close (htag : LegibleTag name attributes) (hname : IsOrdinary (lowerAscii name))
    (hplain : OpenElements.Plain (f :: outer)) (children inner : List Tree) (rest : List Char) :
    (b.inside (.empty (lowerAscii name) (namedValues attributes))
        ({ f with children := children } :: outer) inner).read (writtenEnd name ++ rest) =
      (b.inside f outer
        (.element (lowerAscii name) (namedValues attributes) inner.reverse :: children)).read
        rest := by
  have hopen : OpenElements.Plain (.empty (lowerAscii name) (namedValues attributes) ::
      { f with children := children } :: outer) :=
    OpenElements.Plain.push (hplain.inside (b := b) children) hname _
  have hclose := Builder.inBody_finish (b := b.inside (.empty _ _) _ inner) rfl hname
    (hopen.inside inner)
  rw [read_finish htag, Builder.step_inside]
  exact congrArg (Builder.read · rest) hclose

/-- An element of which the content adds its nodes is itself added. -/
theorem read_element (htag : LegibleTag name attributes) (hname : IsOrdinary (lowerAscii name))
    (hplain : OpenElements.Plain (f :: outer)) {content : Content}
    (hcontent : ∀ {outer : OpenElements} (rest : List Char),
      OpenElements.Plain (.empty (lowerAscii name) (namedValues attributes) :: outer) →
      (b.inside (.empty (lowerAscii name) (namedValues attributes)) outer []).read
          (content.html ++ rest) =
        (b.inside (.empty (lowerAscii name) (namedValues attributes)) outer
          (content.trees []).reverse).read rest)
    (children : List Tree) (rest : List Char) :
    (b.inside f outer children).read ('<' :: (writtenTag name attributes ++
        '>' :: (content.html ++ (writtenEnd name ++ rest)))) =
      (b.inside f outer
        (.element (lowerAscii name) (namedValues attributes) (content.trees []) :: children)).read
        rest := by
  have hopen : OpenElements.Plain (.empty (lowerAscii name) (namedValues attributes) ::
      { f with children := children } :: outer) :=
    OpenElements.Plain.push (hplain.inside (b := b) children) hname _
  rw [read_open htag hname hplain, hcontent _ hopen, read_close htag hname hplain,
    List.reverse_reverse]

/-! ### Contents -/

theorem reverse_textNode (pending : List Char) : (textNode pending).reverse = textNode pending := by
  unfold textNode
  split <;> rfl

/-- **A content adds the nodes that it means to the innermost element.** -/
theorem read_content {content : Content} (hlegible : content.Legible)
    (hordinary : content.Ordinary) (hplain : OpenElements.Plain (f :: outer))
    (hbase : NoTextLast base) (pending rest : List Char) :
    (b.inside f outer (textNode pending ++ base)).read (content.html ++ rest) =
      (b.inside f outer ((content.trees pending).reverse ++ base)).read rest := by
  -- an element's content is read in a frame of its own, so what is open varies with the piece
  induction content generalizing f outer base pending rest with
  | nil => rw [Content.trees, reverse_textNode]; rfl
  | text s marked more ih =>
    rw [Content.html, List.append_assoc, read_text hplain hbase hlegible.1]
    exact ih hlegible.2 hordinary hplain hbase _ rest
  | cdata s more ih =>
    rw [Content.html, List.append_assoc, escape_eq_writtenText, read_text hplain hbase hlegible.1]
    exact ih hlegible.2.2 hordinary hplain hbase _ rest
  | comment s more ih => exact ih hlegible.2 hordinary hplain hbase pending rest
  | instruction s more ih => exact ih hlegible.2 hordinary hplain hbase pending rest
  | emptyTag name attributes more ih =>
    obtain ⟨htag, hmore⟩ := hlegible
    obtain ⟨hname, hmore'⟩ := hordinary
    have htrees : ((Content.emptyTag name attributes more).trees pending).reverse ++ base =
        (more.trees []).reverse ++
          .element (lowerAscii name) (namedValues attributes) [] :: (textNode pending ++ base) := by
      simp [Content.trees, reverse_textNode]
    rw [html_emptyTag htag hname, html_element, read_element htag hname hplain fun _ _ => rfl,
      htrees]
    exact ih hmore hmore' hplain (noTextLast_element _ _ _ _) [] rest
  | element name attributes content more ihcontent ihmore =>
    obtain ⟨htag, hcontent, hmore⟩ := hlegible
    obtain ⟨hname, hcontent', hmore'⟩ := hordinary
    have htrees : ((Content.element name attributes content more).trees pending).reverse ++ base =
        (more.trees []).reverse ++
          .element (lowerAscii name) (namedValues attributes) (content.trees []) ::
            (textNode pending ++ base) := by
      simp [Content.trees, reverse_textNode]
    rw [html_element, htrees, read_element htag hname hplain fun rest hopen => by
      rw [← List.append_nil (List.reverse _)]
      exact ihcontent hcontent hcontent' hopen noTextLast_nil [] rest]
    exact ihmore hmore hmore' hplain (noTextLast_element _ _ _ _) [] rest

/-! ### Pages -/

/-- The body before anything is put into it. -/
def bodyFrame : Frame := .empty "body" .empty

theorem plain_bodyFrame : OpenElements.Plain [bodyFrame] := by
  intro f hf
  obtain rfl := List.mem_singleton.1 hf
  exact ⟨rfl, .inl rfl⟩

/-- The start tag of the outermost element opens the body. -/
theorem read_first (htag : LegibleTag name attributes) (hname : IsOrdinary (lowerAscii name))
    (rest : List Char) :
    Builder.start.read ('<' :: (writtenTag name attributes ++ '>' :: rest)) =
      (Builder.start.inside bodyFrame [] []).read
        ('<' :: (writtenTag name attributes ++ '>' :: rest)) := by
  rw [read_open htag hname plain_bodyFrame,
    read_start htag hname.rawKind? (hname.not_mem (by decide)), Builder.step_first hname]
  rfl

variable {text : List Char}

/-- A text whose characters stand for themselves is written as it is. -/
theorem writtenText_eq_self {marked : Char → Bool} : ∀ {text : List Char},
    (∀ c ∈ text, writtenChar marked c = [c]) → writtenText marked text = text
  | [], _ => rfl
  | c :: text, h => by
    obtain ⟨hc, htext⟩ := List.forall_mem_cons.1 h
    have hmore := writtenText_eq_self htext
    rw [writtenText] at hmore ⊢
    rw [List.flatMap_cons, hc, hmore]
    rfl

theorem writtenText_blanks (h : ∀ c ∈ text, c ∈ [' ', '\t', '\n']) :
    writtenText (fun _ => false) text = text := by
  apply writtenText_eq_self
  intro c hc
  have hne {d : Char} (hd : d ∉ [' ', '\t', '\n']) : c ≠ d := by
    rintro rfl
    exact hd (h c hc)
  simp [writtenChar, hne (by decide : '<' ∉ [' ', '\t', '\n']),
    hne (by decide : '&' ∉ [' ', '\t', '\n'])]

/-- Blanks in front of the outermost element are dropped. -/
theorem read_blanks (h : ∀ c ∈ text, c ∈ [' ', '\t', '\n']) (rest : List Char) :
    Builder.start.read (text ++ rest) = Builder.start.read rest := by
  have hsteps : (text.map Token.char).foldl Builder.step Builder.start = Builder.start := by
    rw [List.foldl_map]
    refine List.foldlRecOn text _ (motive := (· = Builder.start)) rfl ?_
    rintro b rfl c hc
    apply Builder.step_blank
    have hblank := h c hc
    simp only [List.mem_cons, List.not_mem_nil, or_false] at hblank
    rcases hblank with rfl | rfl | rfl
    all_goals decide
  have hread := read_writtenText Builder.start (fun _ => false) text rest
  rwa [writtenText_blanks h, hsteps] at hread

/-- Blanks behind it are a text of the body. -/
theorem read_blanks_behind (h : ∀ c ∈ text, c ∈ [' ', '\t', '\n'])
    (hplain : OpenElements.Plain (f :: outer)) (hbase : NoTextLast base) :
    (b.inside f outer base).read text = b.inside f outer (textNode text ++ base) := by
  have hnull : '\x00' ∉ text := fun hmem => absurd (h _ hmem) (by decide)
  have hread := read_writtenText (b.inside f outer (textNode [] ++ base)) (fun _ => false) text []
  rwa [writtenText_blanks h, step_chars hplain hbase hnull, List.append_nil, read_nil] at hread

theorem document_inside (children : List Tree) :
    (Builder.start.inside bodyFrame [] children).document =
      ⟨[.element "html" .empty
        [.element "head" .empty [], .element "body" .empty children.reverse]]⟩ := rfl

/-- The outermost element stands between two tags. -/
theorem html_root {page : Page} (h : page.root.Legible) (hordinary : page.root.Ordinary) :
    ∃ content, page.root.html = (Content.element page.name page.attributes content .nil).html ∧
      LegibleTag page.name page.attributes ∧ IsOrdinary (lowerAscii page.name) := by
  revert h hordinary
  unfold Page.root
  split
  · exact fun h hordinary => ⟨.nil, html_emptyTag h.1 hordinary.1 _, h.1, hordinary.1⟩
  · next content _ => exact fun h hordinary => ⟨content, rfl, h.1, hordinary.1⟩

theorem trees_root (page : Page) : page.root.trees [] = [page.tree] := by
  unfold Page.root Page.tree
  split
  · rfl
  · rfl

/-- **A page becomes a body with the outermost element.** -/
theorem ofMarkup_html {page : Page} (h : page.Legible) (hordinary : page.root.Ordinary) :
    Document.ofMarkup page.html =
      ⟨[.element "html" .empty
        [.element "head" .empty [],
          .element "body" .empty (page.tree :: textNode (page.epilog.flatMap Misc.html))]]⟩ := by
  have hprolog := fun c => mem_html_misc h.prolog (c := c)
  have hepilog := fun c => mem_html_misc h.epilog (c := c)
  have hopened (rest : List Char) : Builder.start.read (page.root.html ++ rest) =
      (Builder.start.inside bodyFrame [] (textNode [] ++ [])).read (page.root.html ++ rest) := by
    obtain ⟨content, hhtml, htag, hname⟩ := html_root h.root hordinary
    rw [hhtml, html_element, read_first htag hname]
    rfl
  have hroot (rest : List Char) : Builder.start.read (page.root.html ++ rest) =
      (Builder.start.inside bodyFrame [] [page.tree]).read rest := by
    rw [hopened, read_content h.root hordinary plain_bodyFrame noTextLast_nil, trees_root]
    rfl
  have hlast : NoTextLast [page.tree] := noTextLast_element _ _ _ _
  rw [Document.ofMarkup, Page.html, read_blanks hprolog, hroot,
    read_blanks_behind hepilog plain_bodyFrame hlast, document_inside, List.reverse_append,
    reverse_textNode]
  rfl

end Gleaner.Markup
