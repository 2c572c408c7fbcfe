/-
# What lies below an element

An element carries its own content, and stands at a place of the document. The elements of the
document below that place are those of the content, in the same order; its children are those among
the trees of the content that are elements, whatever texts and comments stand between them.

Key definitions: `childElements`.
Key theorems: `filter_isAbove_elementsBelow`, `along_descendant_of_mem`, `filter_isParentOf`,
`along_child`.
-/
import Gleaner.Proofs.Markup.Place

namespace Gleaner.Markup

variable {d : Document} {e : Element} {place : Place}

/-! ### Places in branches -/

/-- What lies below a place is reached through one of its children. -/
theorem isAbove_of_mem_elementsBelow {i : Nat} {trees : List Tree}
    (he : e ∈ elementsBelow place i trees) : Place.isAbove place e.place = true := by
  obtain ⟨j, -, hj⟩ := place_of_mem_elementsBelow trees he
  have hlength := hj.length_le
  rw [List.length_append, List.length_singleton] at hlength
  exact isAbove_iff.2 ⟨(List.prefix_append place [j]).trans hj, by omega⟩

/-- A place comes before all that lies below it. -/
theorem lt_of_isAbove {p q : Place} (h : Place.isAbove p q = true) : p < q := by
  obtain ⟨⟨t, rfl⟩, hlength⟩ := isAbove_iff.1 h
  cases t with
  | nil => simp at hlength
  | cons j t => exact lt_of_append_singleton_prefix (j := j) ⟨t, by simp⟩

theorem not_isAbove_of_isAbove {p q : Place} (h : Place.isAbove p q = true) :
    Place.isAbove q p = false := by
  rw [Bool.eq_false_iff]
  intro hback
  have hlength := (isAbove_iff.1 h).2
  have hlength' := (isAbove_iff.1 hback).2
  omega

theorem not_isAbove_self (p : Place) : Place.isAbove p p = false := by
  rw [Bool.eq_false_iff]
  exact fun h => Nat.lt_irrefl _ (isAbove_iff.1 h).2

/-- Nothing in one branch lies below anything in another. -/
theorem not_isAbove_of_branches {p a b : Place} {i j : Nat} (hne : i ≠ j) (ha : p ++ [i] <+: a)
    (hb : p ++ [j] <+: b) : Place.isAbove a b = false := by
  rw [Bool.eq_false_iff]
  intro h
  have hsame := List.prefix_of_prefix_length_le (ha.trans (isAbove_iff.1 h).1) hb (by simp)
  have hlast := hsame.eq_of_length (by simp)
  simp [hne] at hlast

/-! ### All that lies below -/

mutual

theorem filter_isAbove_elementsAt (place : Place) :
    (tree : Tree) → e ∈ tree.elementsAt place →
      (tree.elementsAt place).filter (fun f => Place.isAbove e.place f.place) =
        elementsBelow e.place 0 e.children
  | .text _, h | .comment, h => by simp [Tree.elementsAt] at h
  | .fragment children, h => filter_isAbove_elementsBelow place 0 children h
  | .element name attributes children vocabulary, h => by
    rw [Tree.elementsAt, List.mem_cons] at h
    rw [Tree.elementsAt]
    rcases h with rfl | h
    · rw [List.filter_cons_of_neg (by simp [not_isAbove_self])]
      exact List.filter_eq_self.2 fun f hf => isAbove_of_mem_elementsBelow hf
    · have hback := not_isAbove_of_isAbove (isAbove_of_mem_elementsBelow h)
      rw [List.filter_cons_of_neg (by simp [hback])]
      exact filter_isAbove_elementsBelow place 0 children h

/-- Among the elements below a place, those below one of them are those of its own content. -/
theorem filter_isAbove_elementsBelow (place : Place) (i : Nat) :
    (trees : List Tree) → e ∈ elementsBelow place i trees →
      (elementsBelow place i trees).filter (fun f => Place.isAbove e.place f.place) =
        elementsBelow e.place 0 e.children
  | [], h => by simp [elementsBelow] at h
  | tree :: rest, h => by
    rw [elementsBelow, List.mem_append] at h
    rw [elementsBelow, List.filter_append]
    rcases h with h | h
    · have hrest : (elementsBelow place (i + 1) rest).filter
          (fun f => Place.isAbove e.place f.place) = [] := by
        refine List.filter_eq_nil_iff.2 fun f hf => ?_
        obtain ⟨j, hj, hplace⟩ := place_of_mem_elementsBelow rest hf
        have hne : i ≠ j := by omega
        simp [not_isAbove_of_branches hne (prefix_of_mem_elementsAt tree h) hplace]
      rw [hrest, List.append_nil]
      exact filter_isAbove_elementsAt (place ++ [i]) tree h
    · have hfirst : (tree.elementsAt (place ++ [i])).filter
          (fun f => Place.isAbove e.place f.place) = [] := by
        refine List.filter_eq_nil_iff.2 fun f hf => ?_
        obtain ⟨j, hj, hplace⟩ := place_of_mem_elementsBelow rest h
        have hne : j ≠ i := by omega
        simp [not_isAbove_of_branches hne hplace (prefix_of_mem_elementsAt tree hf)]
      rw [hfirst, List.nil_append]
      exact filter_isAbove_elementsBelow place (i + 1) rest h

end

theorem along_descendant_of_mem (he : e ∈ d.elements) :
    d.along .descendant e.place = elementsBelow e.place 0 e.children :=
  filter_isAbove_elementsBelow [] 0 d.children he

/-- What lies below the document is all that it holds. -/
theorem along_descendant_document (d : Document) : d.along .descendant [] = d.elements :=
  List.filter_eq_self.2 fun _ he => isAbove_of_mem_elementsBelow he

/-! ### Children -/

/-- The elements among the trees right below a place, of which the first is its `i`-th. -/
def childElements (place : Place) (i : Nat) : List Tree → List Element
  | [] => []
  | .element name attributes children vocabulary :: rest =>
    ⟨place ++ [i], name, attributes, children, vocabulary⟩ :: childElements place (i + 1) rest
  | .text _ :: rest | .comment :: rest | .fragment _ :: rest => childElements place (i + 1) rest

/-- What lies below a further place is no child of the place above that. -/
theorem filter_isParentOf_deeper (place : Place) (i : Nat) (children : List Tree) :
    (elementsBelow (place ++ [i]) 0 children).filter
      (fun f => Place.isParentOf place f.place) = [] := by
  refine List.filter_eq_nil_iff.2 fun f hf hparent => ?_
  have hlength := (isAbove_iff.1 (isAbove_of_mem_elementsBelow hf)).2
  rw [(isParentOf_iff.1 hparent).2, List.length_append, List.length_dropLast] at hlength
  simp at hlength
  omega

/-- Of the elements below a place, its children are those of the trees there. -/
theorem filter_isParentOf (place : Place) : ∀ (i : Nat) (trees : List Tree),
    (elementsBelow place i trees).filter (fun f => Place.isParentOf place f.place) =
      childElements place i trees
  | _, [] => by simp [elementsBelow, childElements]
  | i, .text _ :: rest | i, .comment :: rest => by
    rw [elementsBelow, Tree.elementsAt, List.nil_append, childElements]
    exact filter_isParentOf place (i + 1) rest
  | i, .fragment children :: rest => by
    rw [elementsBelow, Tree.elementsAt, List.filter_append, filter_isParentOf_deeper,
      List.nil_append, childElements]
    exact filter_isParentOf place (i + 1) rest
  | i, .element name attributes children vocabulary :: rest => by
    have hchild : Place.isParentOf place (place ++ [i]) = true :=
      isParentOf_iff.2 ⟨by simp, by simp⟩
    rw [elementsBelow, Tree.elementsAt, List.filter_append, filter_isParentOf place (i + 1) rest,
      childElements, List.filter_cons, if_pos hchild, filter_isParentOf_deeper]
    rfl

/-- A child lies below its parent. -/
theorem isAbove_of_isParentOf {p q : Place} (h : Place.isParentOf p q = true) :
    Place.isAbove p q = true := by
  obtain ⟨hne, rfl⟩ := isParentOf_iff.1 h
  exact isAbove_iff_prefix_dropLast.2 ⟨hne, List.prefix_rfl⟩

/-- The places beside a child are those of the children of its parent. -/
theorem beside_iff {p a b : Place} (ha : Place.isParentOf p a = true) :
    b.dropLast = a.dropLast ∧ b.length = a.length ↔ Place.isParentOf p b = true := by
  obtain ⟨hne, rfl⟩ := isParentOf_iff.1 ha
  have hpos := List.length_pos_iff.2 hne
  rw [isParentOf_iff]
  constructor
  · rintro ⟨hparent, hlength⟩
    exact ⟨List.length_pos_iff.1 (by omega), hparent.symm⟩
  · rintro ⟨hne', hparent⟩
    have hpos' := List.length_pos_iff.2 hne'
    have hlength := congrArg List.length hparent
    rw [List.length_dropLast, List.length_dropLast] at hlength
    exact ⟨hparent.symm, by omega⟩

/-- Nothing stands beside the document. -/
theorem not_isEarlierSiblingOf_nil (p : Place) :
    Place.isEarlierSiblingOf [] p = false ∧ Place.isEarlierSiblingOf p [] = false := by
  cases p <;> simp [Place.isEarlierSiblingOf]

/-- The children of a place are found among all that lies below it. -/
theorem along_child (d : Document) (place : Place) :
    d.along .child place =
      (d.along .descendant place).filter fun f => Place.isParentOf place f.place := by
  rw [Document.along, Document.along, List.filter_filter]
  refine List.filter_congr fun f _ => Bool.eq_iff_iff.2 ?_
  rw [Bool.and_eq_true]
  exact ⟨fun h => ⟨h, isAbove_of_isParentOf h⟩, And.left⟩

end Gleaner.Markup
