/-
# XML keeps its tree

An XML text whose elements have ordinary names is read as the tree that it means, however it is
written: empty elements as one tag or as two, texts with more references than they need or as CDATA
sections in any pieces, comments and instructions anywhere between, a declaration and a document
type in front. The tree is the only element of the body; only blanks that stand behind it follow it.
Every tree of ordinary names whose texts are whole is the tree of such a text.

Key definitions: `Meant`, `contentOf`.
Key theorems: `ofXml_tree`, `trees_contentOf`, `exists_page_tree_eq`.
-/
import Gleaner.Proofs.Markup.Growth

namespace Gleaner.Markup.Xml

open Gleaner.Text

/-- **XML keeps its tree.** The body of the document has one element, that of the tree; a text of
blanks may follow it. By `joined_trees` the tree has no two texts side by side, and by
`textCharsOf_trees` an element's text is all that is written in it. -/
theorem ofXml_tree {page : Page} (hlegible : page.Legible) (hordinary : page.root.Ordinary) :
    Document.ofXml page.text =
      ⟨[.element "html" .empty
        [.element "head" .empty [],
          .element "body" .empty
            (page.tree :: Content.textNode (page.epilog.flatMap Misc.html))]]⟩ := by
  rw [ofXml_text hlegible, ofMarkup_html hlegible hordinary]

/-- A page with all that may stand in one. -/
def feedPage : Page where
  prolog :=
    [.instruction "xml version=\"1.0\"", .blanks "\n", .doctype " Feed [<!ENTITY x \"y\">]",
      .comment " a > b "]
  name := "Feed"
  attributes := [{ name := "Kind", value := "\"a\" & b" }]
  content := some <|
    .text "\n1 < 2 " (fun _ => false) <| .cdata "<i>&amp;</i>" <| .comment " - -" <|
    .text ">" (fun c => c == '>') <| .emptyTag "dc:Creator" [{ name := "as", value := "" }] <|
    .instruction "go 'x>'" <|
    .element "item" [] (.element "guid" [] .nil <| .text "x" (fun _ => false) .nil) <|
    .emptyTag "item" [] .nil
  epilog := [.blanks "\n", .comment "", .blanks " "]

theorem ofXml_tree_feedPage :
    feedPage.text = "<?xml version=\"1.0\"?>\n<!DOCTYPE Feed [<!ENTITY x \"y\">]><!-- a > b -->" ++
      "<Feed Kind=\"&quot;a&quot; &amp; b\">\n1 &lt; 2 <![CDATA[<i>&amp;</i>]]><!-- - --->&gt;" ++
      "<dc:Creator as=\"\"/><?go 'x>'?><item><guid></guid>x</item><item/></Feed>\n<!----> " ∧
    Document.ofXml feedPage.text =
      ⟨[.element "html" .empty
        [.element "head" .empty [],
          .element "body" .empty
            [.element "feed" (.ofList [("kind", "\"a\" & b")])
              [.text "\n1 < 2 <i>&amp;</i>>",
                .element "dc:creator" (.ofList [("as", "")]) [],
                .element "item" .empty [.element "guid" .empty [], .text "x"],
                .element "item" .empty []],
              .text "\n "]]]⟩ := by
  constructor
  · decide +kernel
  · refine (ofXml_tree ?_ ?_).trans ?_
    · decide +kernel
    · decide +kernel
    · rfl

/-! ### Every tree can be written -/

/-- The attributes of an element, as they are written. -/
def writtenAttributes (attributes : KeyMap String) : List WrittenAttribute :=
  attributes.entries.map fun e => { name := e.1, value := e.2 }

/-- A tree that XML can mean: its elements are read as ones of HTML and have ordinary names, and its
texts are whole. -/
inductive Meant : Tree → Prop
  | text {s : String} : IsPlainText s → Meant (.text s)
  | element {name : String} {attributes : KeyMap String} {children : List Tree} :
      lowerAscii name = name → IsOrdinary name →
      LegibleTag name (writtenAttributes attributes) →
      (∀ e ∈ attributes.entries, lowerAscii e.1 = e.1) → Content.Joined children →
      (∀ tree ∈ children, Meant tree) → Meant (.element name attributes children)

mutual

/-- A tree written in front of a content, in the plainest way. -/
def writtenBefore (rest : Content) : Tree → Content
  | .text s => .text s (fun _ => false) rest
  | .comment | .fragment _ => rest
  | .element name attributes children _ =>
    .element name (writtenAttributes attributes) (contentOf children) rest

def contentOf : List Tree → Content
  | [] => .nil
  | tree :: rest => writtenBefore (contentOf rest) tree

end

theorem namedValues_writtenAttributes {attributes : KeyMap String}
    (h : ∀ e ∈ attributes.entries, lowerAscii e.1 = e.1) :
    namedValues (writtenAttributes attributes) = attributes := by
  have hself : (writtenAttributes attributes).map (fun a => (lowerAscii a.name, a.value)) =
      attributes.entries := by
    rw [writtenAttributes, List.map_map]
    refine (List.map_congr_left fun e he => ?_).trans (List.map_id' _)
    exact Prod.ext (h e he) rfl
  rw [namedValues, hself]
  exact KeyMap.ofList_eq_of_perm (List.Perm.refl _)

/-- A text that no other follows is a node of its own. -/
theorem trees_contentOf_pending {trees : List Tree} (hmeant : ∀ tree ∈ trees, Meant tree)
    (hfirst : ∀ s more, trees ≠ .text s :: more) (pending : List Char) :
    (contentOf trees).trees pending =
      Content.textNode pending ++ (contentOf trees).trees [] := by
  match trees with
  | [] => exact (List.append_nil _).symm
  | .text s :: more => exact absurd rfl (hfirst s more)
  | .comment :: more | .fragment _ :: more => nomatch hmeant _ List.mem_cons_self
  | .element name attributes children vocabulary :: more => rfl

theorem textNode_toList {s : String} (h : s ≠ "") :
    Content.textNode s.toList = [.text s] := by
  have hempty : s.toList.isEmpty = false := by
    rw [List.isEmpty_eq_false_iff]
    exact fun hnil => h (String.toList_injective hnil)
  rw [Content.textNode, hempty, if_neg Bool.false_ne_true, String.ofList_toList]

/-- What is written for a row of trees means them again. -/
theorem trees_contentOf : ∀ {trees : List Tree}, Content.Joined trees →
    (∀ tree ∈ trees, Meant tree) →
    (contentOf trees).Legible ∧ (contentOf trees).Ordinary ∧ (contentOf trees).trees [] = trees
  | [], _, _ => ⟨trivial, trivial, rfl⟩
  | .text s :: more, hjoined, hmeant => by
    obtain ⟨htext, hmore⟩ := List.forall_mem_cons.1 hmeant
    obtain ⟨hne, hfirst, hjoined⟩ := hjoined
    obtain ⟨hlegible, hordinary, htrees⟩ := trees_contentOf hjoined hmore
    cases htext with
    | text hplain =>
      refine ⟨⟨hplain, hlegible⟩, hordinary, ?_⟩
      show (contentOf more).trees ([] ++ s.toList) = _
      rw [List.nil_append, trees_contentOf_pending hmore hfirst, htrees, textNode_toList hne]
      rfl
  | .comment :: more, _, hmeant | .fragment _ :: more, _, hmeant =>
    nomatch hmeant _ List.mem_cons_self
  | .element name attributes children vocabulary :: more, hjoined, hmeant => by
    obtain ⟨helement, hmore⟩ := List.forall_mem_cons.1 hmeant
    have hrest : Content.Joined more := hjoined
    obtain ⟨hlegible, hordinary, htrees⟩ := trees_contentOf hrest hmore
    cases helement with
    | element hlower hname htag hkeys hinside hchildren =>
      obtain ⟨hlegible', hordinary', htrees'⟩ := trees_contentOf hinside hchildren
      refine ⟨⟨htag, hlegible', hlegible⟩, ⟨hlower.symm ▸ hname, hordinary', hordinary⟩, ?_⟩
      show Content.textNode [] ++ Tree.element (lowerAscii name)
        (namedValues (writtenAttributes attributes)) ((contentOf children).trees []) ::
          (contentOf more).trees [] = _
      rw [hlower, namedValues_writtenAttributes hkeys, htrees, htrees']
      rfl

/-- Every tree that XML can mean is that of a page. -/
theorem exists_page_tree_eq {name : String} {attributes : KeyMap String} {children : List Tree}
    (h : Meant (.element name attributes children)) :
    ∃ page : Page, page.Legible ∧ page.root.Ordinary ∧
      page.tree = .element name attributes children := by
  cases h with
  | element hlower hname htag hkeys hinside hchildren =>
    obtain ⟨hlegible, hordinary, htrees⟩ := trees_contentOf hinside hchildren
    refine ⟨⟨[], name, writtenAttributes attributes, some (contentOf children), []⟩,
      ⟨nofun, ⟨htag, hlegible, trivial⟩, nofun⟩, ⟨hlower.symm ▸ hname, hordinary, trivial⟩, ?_⟩
    show Tree.element (lowerAscii name) (namedValues (writtenAttributes attributes))
      ((contentOf children).trees []) = _
    rw [hlower, namedValues_writtenAttributes hkeys, htrees]

end Gleaner.Markup.Xml
