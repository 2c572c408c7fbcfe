/-
# Documents

A document is a row of trees of elements, texts and comments. What a template holds stands in a node
of its own, which is no element: it is passed by whoever goes through all that lies below an element,
and met by whoever looks right below the template or right above what it holds. An element is met
together with its place, the positions of the children that lead down to it, so that elements of
equal content at different places stay apart. Document order is the order of the places: an element
comes before what it holds, and that before its later siblings.

Key definitions: `Vocabulary`, `Tree`, `Document`, `Element`, `Document.elements`,
`Document.inOrder`, `Element.allAttributes`, `Element.ownText`, `Element.stringValue`.
Key theorems: `elements_pairwise`, `mem_inOrder_iff`.
-/
import Gleaner.KeyMap
import Gleaner.Text.Blank

namespace Gleaner.Markup

open Gleaner.Text

/-- The language that an element is of. Outside of HTML, attributes may have a namespace; their names
in it and their values are kept here. -/
inductive Vocabulary where
  | html
  | foreign (namespaced : List (String × String))
  deriving DecidableEq, Repr

/-- The attributes that have a namespace. -/
def Vocabulary.namespaced : Vocabulary → List (String × String)
  | .html => []
  | .foreign namespaced => namespaced

/-- A node of a document. The attributes of an element without a namespace are in the order of their
names. -/
inductive Tree where
  | text (content : String)
  | comment
  | element (name : String) (attributes : KeyMap String) (children : List Tree)
      (vocabulary : Vocabulary := .html)
  /-- What a template holds. -/
  | fragment (children : List Tree)

/-- A document: its nodes outside of any other. -/
structure Document where
  children : List Tree

/-- A place in a document: the positions of the children that lead to it from the top. -/
abbrev Place := List Nat

/-- An element at its place. -/
structure Element where
  place : Place
  name : String
  attributes : KeyMap String
  children : List Tree
  vocabulary : Vocabulary := .html

mutual

/-- The elements of a tree at a place, each before what it holds. -/
def Tree.elementsAt (place : Place) : Tree → List Element
  | .text _ | .comment => []
  | .element name attributes children vocabulary =>
    ⟨place, name, attributes, children, vocabulary⟩ :: elementsBelow place 0 children
  | .fragment children => elementsBelow place 0 children

/-- The elements of the children of a place from the `i`-th on. -/
def elementsBelow (place : Place) (i : Nat) : List Tree → List Element
  | [] => []
  | tree :: rest => tree.elementsAt (place ++ [i]) ++ elementsBelow place (i + 1) rest

end

/-- The elements of a document, in document order. -/
def Document.elements (d : Document) : List Element :=
  elementsBelow [] 0 d.children

/-- The elements of a document that stand in a list, in document order and each once. -/
def Document.inOrder (d : Document) (list : List Element) : List Element :=
  d.elements.filter fun e => list.any fun f => f.place == e.place

/-- The first element outside of any other. -/
def Document.root? (d : Document) : Option Element :=
  d.elements.find? fun e => e.place.length == 1

mutual

/-- The text of a tree, the texts of all its nodes one after another. -/
def Tree.textChars : Tree → List Char
  | .text content => content.toList
  | .comment => []
  | .element _ _ children _ | .fragment children => textCharsOf children

/-- The texts of a row of trees one after another. -/
def textCharsOf : List Tree → List Char
  | [] => []
  | tree :: rest => tree.textChars ++ textCharsOf rest

end

namespace Element

/-- The element is one of HTML. -/
def isHtml (e : Element) : Bool :=
  e.vocabulary == .html

/-- The attributes of an element, those without a namespace first. -/
def allAttributes (e : Element) : List (String × String) :=
  e.attributes.entries ++ e.vocabulary.namespaced

theorem allAttributes_of_isHtml {e : Element} (h : e.isHtml = true) :
    e.allAttributes = e.attributes.entries := by
  rw [allAttributes, eq_of_beq h]
  exact List.append_nil _

/-- The texts right below an element. -/
def texts (e : Element) : List String :=
  e.children.filterMap fun
    | .text content => some content
    | _ => none

/-- The text of an element and of all that it holds. -/
def stringValue (e : Element) : String :=
  String.ofList (textCharsOf e.children)

/-- The text right below an element, its words joined by single spaces. -/
def ownText (e : Element) : String :=
  normalizeBlanks (String.join e.texts)

/-- The texts right below an element, each without the blanks around it; blank ones are left
out. -/
def directTexts (e : Element) : List String :=
  (e.texts.map trimmed).filter fun t => !t.isEmpty

/-- The texts of an element whose content is no markup, each without the blanks around it. -/
def dataNodes (e : Element) : List String :=
  if e.name = "script" ∨ e.name = "style" then e.texts.map trimmed else []

/-- The value of the attribute of exactly this name that has no namespace. -/
def attribute? (e : Element) (name : String) : Option String :=
  e.attributes.get? name

end Element

/-! ### Document order -/

mutual

theorem prefix_of_mem_elementsAt {place : Place} {e : Element} :
    (tree : Tree) → e ∈ tree.elementsAt place → place <+: e.place
  | .text _, h | .comment, h => by simp [Tree.elementsAt] at h
  | .element _ _ children _, h => by
    rw [Tree.elementsAt, List.mem_cons] at h
    rcases h with rfl | h
    · exact List.prefix_rfl
    · obtain ⟨j, _, hj⟩ := place_of_mem_elementsBelow children h
      exact (List.prefix_append place [j]).trans hj
  | .fragment children, h => by
    obtain ⟨j, _, hj⟩ := place_of_mem_elementsBelow children h
    exact (List.prefix_append place [j]).trans hj

/-- An element below a place lies under one of the children. -/
theorem place_of_mem_elementsBelow {place : Place} {i : Nat} {e : Element} :
    (trees : List Tree) → e ∈ elementsBelow place i trees → ∃ j, i ≤ j ∧ place ++ [j] <+: e.place
  | [], h => by simp [elementsBelow] at h
  | tree :: rest, h => by
    rw [elementsBelow, List.mem_append] at h
    rcases h with h | h
    · exact ⟨i, Nat.le_refl i, prefix_of_mem_elementsAt tree h⟩
    · obtain ⟨j, hj, hp⟩ := place_of_mem_elementsBelow rest h
      exact ⟨j, Nat.le_of_succ_le hj, hp⟩

end

/-- A place comes before every place below it. -/
theorem lt_of_append_singleton_prefix {p q : Place} {j : Nat} (h : p ++ [j] <+: q) : p < q := by
  obtain ⟨t, rfl⟩ := h
  induction p with
  | nil => simp
  | cons a as ih => simpa using ih

/-- Places under different children are in the order of the children. -/
theorem lt_of_branches {p a b : Place} {i j : Nat} (h : i < j) (ha : p ++ [i] <+: a)
    (hb : p ++ [j] <+: b) : a < b := by
  obtain ⟨s, rfl⟩ := ha
  obtain ⟨t, rfl⟩ := hb
  induction p with
  | nil => simpa using List.cons_lt_cons_iff.2 (.inl h)
  | cons c cs ih => simpa using ih

mutual

theorem elementsAt_pairwise (place : Place) :
    (tree : Tree) → (tree.elementsAt place).Pairwise fun a b => a.place < b.place
  | .text _ | .comment => by simp [Tree.elementsAt]
  | .element name attributes children _ => by
    rw [Tree.elementsAt, List.pairwise_cons]
    refine ⟨fun e he => ?_, elementsBelow_pairwise place 0 children⟩
    obtain ⟨j, _, hj⟩ := place_of_mem_elementsBelow children he
    exact lt_of_append_singleton_prefix hj
  | .fragment children => elementsBelow_pairwise place 0 children

theorem elementsBelow_pairwise (place : Place) (i : Nat) :
    (trees : List Tree) → (elementsBelow place i trees).Pairwise fun a b => a.place < b.place
  | [] => by simp [elementsBelow]
  | tree :: rest => by
    rw [elementsBelow, List.pairwise_append]
    refine ⟨elementsAt_pairwise _ tree, elementsBelow_pairwise place (i + 1) rest, ?_⟩
    intro a ha b hb
    obtain ⟨j, hj, hb⟩ := place_of_mem_elementsBelow rest hb
    exact lt_of_branches hj (prefix_of_mem_elementsAt tree ha) hb

end

/-- The elements of a document are in strictly ascending order of their places. -/
theorem elements_pairwise (d : Document) : d.elements.Pairwise fun a b => a.place < b.place :=
  elementsBelow_pairwise [] 0 d.children

/-- An element of the document stands in the ordered list when its place occurs in the list. -/
theorem mem_inOrder_iff {d : Document} {list : List Element} {e : Element} :
    e ∈ d.inOrder list ↔ e ∈ d.elements ∧ ∃ f ∈ list, f.place = e.place := by
  simp [Document.inOrder]

end Gleaner.Markup
