/-
# XML texts that leave their element

A text that stands alone in an element of XML is the element's text if the element's name is
ordinary. If HTML knows the name as that of an element without content, the text is left to the
element around it, and the element has none. In a script or a style sheet the text is that of its
HTML: references stay in it, those of a CDATA section among them.

Key definitions: `Content.alone`, `Page.oneText`, `Document.HasText`.
Key theorems: `ofXml_feed`, `ofXml_void`, `ofXml_raw`, `ofXml_ordinary`, `hasText_ofXml_oneText_iff`.
-/
import Gleaner.Proofs.Markup.VoidAndRaw

namespace Gleaner.Markup

open Gleaner.Text Xml
open Xml.Content (textNode)

variable {name text : String}

/-! ### Texts that are written as they are -/

theorem writtenChar_ne_nil (marked : Char → Bool) (c : Char) : writtenChar marked c ≠ [] := by
  unfold writtenChar
  split
  · rcases escapeChar_cases c with ⟨hself, -⟩ | ⟨name, hname, -⟩
    · rw [hself]
      exact List.cons_ne_nil c []
    · rw [hname]
      exact List.cons_ne_nil '&' name
  · exact List.cons_ne_nil c []

theorem length_writtenText_le {m : Char → Bool} : ∀ text : List Char,
    text.length ≤ (writtenText m text).length
  | [] => Nat.le_refl _
  | c :: text => by
    have hchar := List.length_pos_iff.2 (writtenChar_ne_nil m c)
    have hmore := length_writtenText_le (m := m) text
    rw [writtenText] at hmore ⊢
    rw [List.flatMap_cons, List.length_append, List.length_cons]
    omega

/-- A text is written as it is just if its characters stand for themselves. -/
theorem writtenText_eq_self_iff {marked : Char → Bool} {text : List Char} :
    writtenText marked text = text ↔ ∀ c ∈ text, writtenChar marked c = [c] := by
  refine ⟨fun h => ?_, writtenText_eq_self⟩
  induction text with
  | nil => nofun
  | cons c text ih =>
    -- the rest is written no shorter than it is, so one place is left for the character
    have hchar := List.length_pos_iff.2 (writtenChar_ne_nil marked c)
    have hmore := length_writtenText_le (m := marked) text
    rw [writtenText] at h hmore
    rw [List.flatMap_cons] at h
    have hlength := congrArg List.length h
    rw [List.length_append, List.length_cons] at hlength
    obtain ⟨d, hd⟩ := List.length_eq_one_iff.1 (by omega : (writtenChar marked c).length = 1)
    rw [hd] at h
    obtain ⟨rfl, htext⟩ := List.cons.inj h
    exact List.forall_mem_cons.2 ⟨hd, ih htext⟩

/-! ### A text in one element -/

/-- A text alone between two tags, written with references for the marked characters or as a CDATA
section. -/
def Xml.Content.alone (text : String) : (marked : Option (Char → Bool)) → Content
  | some marked => .text text marked .nil
  | none => .cdata text .nil

/-- A feed of this content. -/
def Xml.Page.feed (content : Content) : Page where
  prolog := []
  name := "feed"
  attributes := []
  content := some content
  epilog := []

/-- A feed with a text in one element: `<feed><name>text</name></feed>`. -/
def Xml.Page.oneText (name text : String) (marked : Option (Char → Bool)) : Page :=
  .feed (.element name [] (.alone text marked) .nil)

theorem html_alone (text : String) (marked : Option (Char → Bool)) :
    (Content.alone text marked).html =
      writtenText (marked.getD fun _ => true) text.toList := by
  cases marked with
  | none => rw [Content.alone, Content.html, escape_eq_writtenText]; exact List.append_nil _
  | some marked => exact List.append_nil _

theorem trees_alone (text : String) (marked : Option (Char → Bool)) :
    (Content.alone text marked).trees [] = textNode text.toList := by
  cases marked with
  | none => rfl
  | some marked => rfl

theorem legible_alone (htext : IsPlainText text)
    (hend : occursIn [']', ']', '>'] text.toList = false) (marked : Option (Char → Bool)) :
    (Content.alone text marked).Legible := by
  cases marked with
  | none => exact ⟨htext, hend, trivial⟩
  | some marked => exact ⟨htext, trivial⟩

/-- The document of a feed with these nodes. -/
def feedDocument (children : List Tree) : Document :=
  ⟨[.element "html" .empty
    [.element "head" .empty [], .element "body" .empty [.element "feed" .empty children]]]⟩

theorem legibleTag_feed : LegibleTag "feed" [] := by decide

theorem isOrdinary_feed : IsOrdinary (lowerAscii "feed") := by decide

theorem legible_feed {content : Content} (h : content.Legible) : (Page.feed content).Legible where
  prolog := nofun
  root := ⟨legibleTag_feed, h, trivial⟩
  epilog := nofun

theorem html_feed (content : Content) :
    (Page.feed content).html =
      '<' :: (writtenTag "feed" [] ++ '>' :: (content.html ++ writtenEnd "feed")) := by
  have hroot : (Page.feed content).html =
      (Content.element "feed" [] content .nil).html ++ [] := rfl
  rw [hroot, html_element, Content.html, List.nil_append, List.append_nil]

/-- The feed that is open around its content. -/
def feedFrame : Frame := .empty "feed" .empty

theorem plain_feedFrame : OpenElements.Plain [feedFrame, bodyFrame] :=
  plain_bodyFrame.push isOrdinary_feed .empty

/-- A feed is read as its content is. -/
theorem ofXml_feed {content : Content} {children : List Tree} (h : content.Legible)
    (hcontent :
      (Builder.start.inside feedFrame [bodyFrame] []).read (content.html ++ writtenEnd "feed") =
        (Builder.start.inside feedFrame [bodyFrame] children).read (writtenEnd "feed")) :
    Document.ofXml (Page.feed content).text = feedDocument children.reverse := by
  have hopened (rest : List Char) :
      Builder.start.read ('<' :: (writtenTag "feed" [] ++ '>' :: rest)) =
        (Builder.start.inside feedFrame [bodyFrame] []).read rest := by
    rw [read_first legibleTag_feed isOrdinary_feed,
      read_open legibleTag_feed isOrdinary_feed plain_bodyFrame]
    rfl
  have hclosed : (Builder.start.inside feedFrame [bodyFrame] children).read (writtenEnd "feed") =
      Builder.start.inside bodyFrame [] [.element "feed" .empty children.reverse] := by
    have hread := read_close (b := Builder.start) legibleTag_feed isOrdinary_feed plain_bodyFrame []
      children []
    rw [List.append_nil, read_nil] at hread
    exact hread
  rw [ofXml_text (legible_feed h), html_feed, Document.ofMarkup, hopened, hcontent, hclosed]
  rfl

section

variable (htag : LegibleTag name []) (htext : IsPlainText text)
  (hend : occursIn [']', ']', '>'] text.toList = false) (marked : Option (Char → Bool))

include htag htext hend

theorem legible_oneText : (Content.element name [] (.alone text marked) .nil).Legible :=
  ⟨htag, legible_alone htext hend marked, trivial⟩

/-- An element without content leaves its text to the feed. -/
theorem ofXml_void (h : isVoid (lowerAscii name) = true) :
    ∃ before after, AllEmpty before ∧ AllEmpty after ∧
      Document.ofXml (Page.oneText name text marked).text =
        feedDocument (after ++ (textNode text.toList ++ before)).reverse := by
  obtain ⟨before, hbefore, hstart⟩ := step_startVoid (b := .start) h plain_feedFrame .empty []
  rw [List.append_nil] at hstart
  obtain ⟨after, hafter, hfinish⟩ := step_finishVoid (b := .start) h plain_feedFrame
    (textNode text.toList ++ before)
  refine ⟨before, after, hbefore, hafter, ofXml_feed (legible_oneText htag htext hend marked) ?_⟩
  have hread := read_text (b := .start) plain_feedFrame hbefore.noTextLast htext
    (marked.getD fun _ => true) [] (writtenEnd name ++ writtenEnd "feed")
  have hnone : namedValues [] = .empty := rfl
  rw [html_element, read_start htag (rawKind?_of_isVoid h) (not_mem_of_isVoid h (by decide)), hnone,
    hstart, html_alone, Content.html, List.nil_append]
  refine hread.trans ?_
  rw [read_finish htag, List.nil_append, hfinish]

/-- A script or a style sheet keeps its text as it is written in HTML. -/
theorem ofXml_raw (h : lowerAscii name ∈ ["script", "style"]) :
    Document.ofXml (Page.oneText name text marked).text =
      feedDocument [rawTree (lowerAscii name) .empty
        (String.ofList (writtenText (marked.getD fun _ => true) text.toList))] := by
  have hmark : (writtenEnd "feed").head? ≠ some '\uFEFF' := by decide
  rw [← List.reverse_singleton]
  refine ofXml_feed (legible_oneText htag htext hend marked) ?_
  rw [html_element, html_alone, Content.html, List.nil_append,
    read_raw htag h plain_feedFrame (less_not_mem_writtenText _ _)
      (not_mem_writtenText htext.null_not_mem (by decide)) hmark []]
  rfl

/-- An element of an ordinary name keeps its text. -/
theorem ofXml_ordinary (h : IsOrdinary (lowerAscii name)) :
    Document.ofXml (Page.oneText name text marked).text =
      feedDocument [.element (lowerAscii name) .empty (textNode text.toList)] := by
  have hlegible : (Page.oneText name text marked).Legible :=
    legible_feed (legible_oneText htag htext hend marked)
  have hordinary : (Page.oneText name text marked).root.Ordinary := by
    refine ⟨isOrdinary_feed, ⟨h, ?_, trivial⟩, trivial⟩
    cases marked with
    | none => trivial
    | some marked => trivial
  have htree : (Page.oneText name text marked).tree =
      .element "feed" .empty [.element (lowerAscii name) .empty (textNode text.toList)] := by
    have hfeed : lowerAscii "feed" = "feed" := by decide
    have hnone : namedValues [] = .empty := rfl
    simp [Page.tree, Page.oneText, Page.feed, Content.trees, trees_alone, hfeed, hnone, textNode]
  rw [ofXml_text hlegible, ofMarkup_html hlegible hordinary, htree]
  rfl

end

/-! ### The elements of a feed -/

variable {children : List Tree} {e : Element}

/-- The elements of a feed are the four around its content and those of the content. -/
theorem elements_feedDocument (children : List Tree) :
    ∃ around : List Element, (∀ e ∈ around, e.name ∈ ["html", "head", "body", "feed"]) ∧
      (feedDocument children).elements = around ++ elementsBelow [0, 1, 0] 0 children := by
  let feed := Tree.element "feed" .empty children
  let body := Tree.element "body" .empty [feed]
  refine ⟨[⟨[0], "html", .empty, [.element "head" .empty [], body], .html⟩,
    ⟨[0, 0], "head", .empty, [], .html⟩, ⟨[0, 1], "body", .empty, [feed], .html⟩,
    ⟨[0, 1, 0], "feed", .empty, children, .html⟩], by simp, ?_⟩
  simp [feedDocument, Document.elements, elementsBelow, Tree.elementsAt, feed, body]

/-- Nodes that hold nothing, and texts, have no element with a text. -/
theorem children_eq_nil_of_mem {trees : List Tree}
    (h : ∀ tree ∈ trees, (∃ content, tree = .text content) ∨
      ∃ name attributes, tree = .element name attributes []) {place : Place} {i : Nat}
    (he : e ∈ elementsBelow place i trees) : e.children = [] := by
  induction trees generalizing i with
  | nil => cases he
  | cons tree trees ih =>
    obtain ⟨htree, htrees⟩ := List.forall_mem_cons.1 h
    rw [elementsBelow, List.mem_append] at he
    rcases he with he | he
    · rcases htree with ⟨content, rfl⟩ | ⟨name, attributes, rfl⟩
      · cases he
      · simp only [Tree.elementsAt, elementsBelow, List.mem_singleton] at he
        rw [he]
    · exact ih htrees he

theorem textCharsOf_rawTree (content : String) :
    textCharsOf (if content.isEmpty then [] else [.text content]) = content.toList := by
  split
  · next hempty =>
    rw [String.isEmpty_iff.1 hempty]
    rfl
  · simp [textCharsOf, Tree.textChars]

/-- In the content of a feed an element of another name is met. -/
theorem mem_elements_feedDocument (hname : e.name ∉ ["html", "head", "body", "feed"]) :
    e ∈ (feedDocument children).elements ↔ e ∈ elementsBelow [0, 1, 0] 0 children := by
  obtain ⟨around, haround, helements⟩ := elements_feedDocument children
  rw [helements, List.mem_append]
  exact or_iff_right fun he => hname (haround e he)

/-- Some element of the name has the text. -/
def Document.HasText (d : Document) (name text : String) : Prop :=
  ∃ e ∈ d.elements, e.name = name ∧ e.stringValue = text

/-- The only element of a feed has its text. -/
theorem hasText_feedDocument (name : String) (children : List Tree) :
    (feedDocument [.element name .empty children]).HasText name
      (String.ofList (textCharsOf children)) := by
  obtain ⟨around, -, helements⟩ := elements_feedDocument [.element name .empty children]
  rw [Document.HasText, helements]
  refine ⟨⟨[0, 1, 0, 0], name, .empty, children, .html⟩, ?_, rfl, rfl⟩
  simp [elementsBelow, Tree.elementsAt]

/-- Empty elements around a text have none. -/
theorem not_hasText_void {before after : List Tree} (hbefore : AllEmpty before)
    (hafter : AllEmpty after) (hname : name ∉ ["html", "head", "body", "feed"]) (hne : text ≠ "")
    (pending : List Char) :
    ¬ (feedDocument (after ++ (textNode pending ++ before)).reverse).HasText name text := by
  rintro ⟨e, he, rfl, hvalue⟩
  rw [mem_elements_feedDocument hname] at he
  have hchildren : e.children = [] := by
    refine children_eq_nil_of_mem (fun tree htree => ?_) he
    simp only [List.mem_reverse, List.mem_append] at htree
    rcases htree with htree | htree | htree
    · exact .inr (hafter tree htree)
    · unfold textNode at htree
      split at htree
      · cases htree
      · exact .inl ⟨_, List.mem_singleton.1 htree⟩
    · exact .inr (hbefore tree htree)
  refine hne ?_
  rw [← hvalue, Element.stringValue, hchildren]
  rfl

theorem hasText_rawTree_iff (hname : name ∉ ["html", "head", "body", "feed"]) (content : String) :
    (feedDocument [rawTree name .empty content]).HasText name text ↔ content = text := by
  have hvalue : String.ofList (textCharsOf (if content.isEmpty then [] else [.text content])) =
      content := by
    rw [textCharsOf_rawTree, String.ofList_toList]
  constructor
  · rintro ⟨e, he, hmet, rfl⟩
    rw [mem_elements_feedDocument (hmet ▸ hname), rawTree] at he
    have hchildren : e = ⟨[0, 1, 0, 0], name, .empty,
        if content.isEmpty then [] else [.text content], .html⟩ := by
      split at he
      · next hempty => simpa [elementsBelow, Tree.elementsAt, hempty] using he
      · next hempty => simpa [elementsBelow, Tree.elementsAt, hempty] using he
    rw [hchildren, Element.stringValue, hvalue]
  · rintro rfl
    have hfeed := hasText_feedDocument name (if content.isEmpty then [] else [.text content])
    rwa [hvalue] at hfeed

theorem ofList_writtenText_eq_iff {marked : Char → Bool} :
    String.ofList (writtenText marked text.toList) = text ↔
      ∀ c ∈ text.toList, writtenChar marked c = [c] := by
  rw [← writtenText_eq_self_iff]
  constructor
  · intro heq
    have hlist := congrArg String.toList heq
    rwa [String.toList_ofList] at hlist
  · intro heq
    rw [heq, String.ofList_toList]

/-- **Where a text of XML stays in its element.** It does so in every element of an ordinary name
and in no element without content; in a script or a style sheet it does if no character of it is
written as a reference, where a CDATA section has all references that there are. -/
theorem hasText_ofXml_oneText_iff
    (hname : IsOrdinary (lowerAscii name) ∨ isVoid (lowerAscii name) = true ∨
      lowerAscii name ∈ ["script", "style"])
    (htag : LegibleTag name []) (htext : IsPlainText text) (hne : text ≠ "")
    (hend : occursIn [']', ']', '>'] text.toList = false) (marked : Option (Char → Bool)) :
    (Document.ofXml (Page.oneText name text marked).text).HasText (lowerAscii name) text ↔
      IsOrdinary (lowerAscii name) ∨
        lowerAscii name ∈ ["script", "style"] ∧
          ∀ c ∈ text.toList, writtenChar (marked.getD fun _ => true) c = [c] := by
  rcases hname with hordinary | hvoid | hraw
  · have htextMet := hasText_feedDocument (lowerAscii name) (textNode text.toList)
    rw [textCharsOf_textNode, String.ofList_toList] at htextMet
    rw [ofXml_ordinary htag htext hend marked hordinary]
    exact iff_of_true htextMet (.inl hordinary)
  · obtain ⟨before, after, hbefore, hafter, hdocument⟩ := ofXml_void htag htext hend marked hvoid
    have hother : lowerAscii name ∉ ["html", "head", "body", "feed"] :=
      not_mem_of_isVoid hvoid (by decide)
    rw [hdocument]
    refine iff_of_false (not_hasText_void hbefore hafter hother hne _) ?_
    rintro (hordinary | ⟨hraw, -⟩)
    · exact ne_of_isVoid hvoid hordinary.isVoid rfl
    · exact not_mem_of_isVoid hvoid (by decide) hraw
  · have hspecial : ¬ IsOrdinary (lowerAscii name) :=
      fun hordinary => hordinary.not_mem (by decide) hraw
    have hother : lowerAscii name ∉ ["html", "head", "body", "feed"] := by
      intro hmem
      have hboth : ∀ other ∈ ["script", "style"], other ∉ ["html", "head", "body", "feed"] := by
        decide
      exact hboth _ hraw hmem
    rw [ofXml_raw htag htext hend marked hraw, hasText_rawTree_iff hother,
      ofList_writtenText_eq_iff, or_iff_right hspecial, and_iff_right hraw]

theorem hasText_ofXml_names :
    ¬ (Document.ofXml "<feed><Link>u</Link></feed>").HasText "link" "u" ∧
      ¬ (Document.ofXml "<feed><script><![CDATA[a<b]]></script></feed>").HasText "script" "a<b" ∧
      (Document.ofXml "<feed><style>p > b</style></feed>").HasText "style" "p > b" ∧
      (Document.ofXml "<feed><guid><![CDATA[a<b]]></guid></feed>").HasText "guid" "a<b" := by
  have hlink := hasText_ofXml_oneText_iff (.inr (.inl (by decide)))
    (by decide : LegibleTag "Link" []) (by decide : IsPlainText "u") (by decide) (by decide)
    (some fun _ => false)
  have hscript := hasText_ofXml_oneText_iff (.inr (.inr (by decide)))
    (by decide : LegibleTag "script" []) (by decide : IsPlainText "a<b") (by decide) (by decide)
    none
  have hstyle := hasText_ofXml_oneText_iff (.inr (.inr (by decide)))
    (by decide : LegibleTag "style" []) (by decide : IsPlainText "p > b") (by decide) (by decide)
    (some fun _ => false)
  have hguid := hasText_ofXml_oneText_iff (.inl (by decide)) (by decide : LegibleTag "guid" [])
    (by decide : IsPlainText "a<b") (by decide) (by decide) none
  exact ⟨(not_congr hlink).2 (by decide), (not_congr hscript).2 (by decide), hstyle.2 (by decide),
    hguid.2 (by decide)⟩

end Gleaner.Markup
