/-
# The axes of a path query

The nodes of a document are the document itself and its elements. A node lies along an axis from
another exactly when the other lies along the converse axis from it, so the document is met exactly
by what leads up to it, and by itself. No axis lists a node twice; an axis that leads down or on
lists its nodes in document order, one that leads up or back in the reverse of it.

A template breaks this on the way up. What it holds stands right in a node that is no element, and
the way up takes that node for the document. So the document is the parent of a loose element and
none of them its child, and it is listed once more for each template around.

All of that would hold of axes that list nothing. What they list is told from the tree: the children
of a node are the elements right in its content, its descendants all elements of it; what lies
beside a child is the rest of the children of its parent, and what lies above it is the parent and
what lies above that.

Key definitions: `Node.trees`, `Ascending`, `Rooted`, `Node.Surrounded`.
Key theorems: `nodesAlong_forward`, `nodesAlong_ancestor`, `nodup_ancestor_iff`, `surrounded`,
`axes_dual`.
-/
import Gleaner.Proofs.Markup.Subtree
import Gleaner.Proofs.Query.Following
import Mathlib.Data.List.Nodup

namespace Gleaner.Query

open Gleaner.Markup

variable {d : Document} {x y : Node}

/-! ### Nodes in document order -/

/-- Each node stands before those that follow it in the list. -/
def Ascending (nodes : List Node) : Prop :=
  nodes.Pairwise fun a b => a.place < b.place

theorem ascending_allNodes (d : Document) : Ascending (allNodes d) := by
  refine List.pairwise_cons.2 ⟨fun n hn => ?_, List.pairwise_map.2 (elements_pairwise d)⟩
  obtain ⟨e, he, rfl⟩ := List.mem_map.1 hn
  exact lt_of_isAbove (isAbove_of_mem_elementsBelow he)

theorem Ascending.nodup {nodes : List Node} (h : Ascending nodes) : nodes.Nodup := by
  refine h.imp fun {a b} hlt heq => ?_
  rw [heq] at hlt
  exact List.lt_irrefl _ hlt

/-- A list in document order is known by its members. -/
theorem Ascending.ext {nodes others : List Node} (h : Ascending nodes) (hothers : Ascending others)
    (hmem : ∀ n, n ∈ nodes ↔ n ∈ others) : nodes = others := by
  have hperm : nodes.Perm others := (List.perm_ext_iff_of_nodup h.nodup hothers.nodup).2 hmem
  refine hperm.eq_of_pairwise (fun a b _ _ hab hba => ?_) h hothers
  exact absurd (List.lt_trans hab hba) (List.lt_irrefl _)

/-- A node of a document is known by its place. -/
theorem node_eq_of_place_eq (hx : x ∈ allNodes d) (hy : y ∈ allNodes d) (h : x.place = y.place) :
    x = y := by
  cases x with
  | document => cases y with
    | document => rfl
    | element f => exact absurd h.symm (place_ne_nil (element_mem_allNodes.1 hy))
  | element e => cases y with
    | document => exact absurd h (place_ne_nil (element_mem_allNodes.1 hx))
    | element f =>
      exact congrArg _ (eq_of_place_eq (element_mem_allNodes.1 hx) (element_mem_allNodes.1 hy) h)

/-! ### Axes as lists -/

/-- The nodes that an axis comes to from a place, in document order. -/
def reached (d : Document) (axis : Axis) (place : Place) : List Node :=
  (allNodes d).filter fun n => axis.reaches place n.place

/-- An axis that leads down or on lists what it comes to. -/
theorem nodesAlong_forward {axis : Axis} (h : axis.isReverse = false) (place : Place) :
    nodesAlong d axis place = reached d axis place := by
  have hreached : reached d axis place =
      if axis.reaches place [] then .document :: (d.along axis place).map .element
      else (d.along axis place).map .element := by
    rw [reached, allNodes, List.filter_cons, List.filter_map]
    rfl
  rw [hreached]
  cases axis with
  | child | descendant | followingSibling =>
    exact (if_neg (by simp [Axis.reaches, Place.isParentOf, Place.isAbove,
      Place.isEarlierSiblingOf])).symm
  | self | descendantOrSelf =>
    cases place with
    | nil => rfl
    | cons i rest => simp [nodesAlong, Axis.reaches, Place.isAbove]
  | parent | ancestor | ancestorOrSelf | precedingSibling => cases h

theorem nodesAlong_precedingSibling (d : Document) (place : Place) :
    nodesAlong d .precedingSibling place = (reached d .precedingSibling place).reverse := by
  have hroot : ¬Axis.precedingSibling.reaches place Node.document.place = true := by
    cases place <;> simp [Node.place, Axis.reaches, Place.isEarlierSiblingOf]
  rw [reached, allNodes, List.filter_cons, if_neg hroot, List.filter_map]
  rfl

theorem reached_sublist (d : Document) (axis : Axis) (place : Place) :
    (reached d axis place).Sublist (allNodes d) :=
  List.filter_sublist

theorem ascending_reached (d : Document) (axis : Axis) (place : Place) :
    Ascending (reached d axis place) :=
  (ascending_allNodes d).sublist (reached_sublist d axis place)

theorem mem_reached {axis : Axis} {place : Place} :
    y ∈ reached d axis place ↔ y ∈ allNodes d ∧ axis.reaches place y.place = true :=
  List.mem_filter

theorem reached_eq_nil {axis : Axis} {place : Place} (h : ∀ q, axis.reaches place q = false) :
    reached d axis place = [] :=
  List.filter_eq_nil_iff.2 fun n _ => by simp [h]

/-- An axis that comes to one node alone. -/
theorem reached_eq_singleton {axis : Axis} {place : Place} (hx : x ∈ allNodes d)
    (h : ∀ q, axis.reaches place q = true ↔ q = x.place) : reached d axis place = [x] := by
  refine (ascending_reached d axis place).ext (List.pairwise_singleton _ _) fun n => ?_
  rw [mem_reached, h, List.mem_singleton]
  constructor
  · rintro ⟨hn, hplace⟩
    exact node_eq_of_place_eq hn hx hplace
  · rintro rfl
    exact ⟨hx, rfl⟩

/-! ### What lies below -/

/-- The trees right in a node. -/
def Node.trees (d : Document) : Node → List Tree
  | .document => d.children
  | .element e => e.children

theorem along_descendant_node (hx : x ∈ allNodes d) :
    d.along .descendant x.place = elementsBelow x.place 0 (x.trees d) := by
  cases x with
  | document => exact along_descendant_document d
  | element e => exact along_descendant_of_mem (element_mem_allNodes.1 hx)

theorem nodesAlong_descendant (hx : x ∈ allNodes d) :
    nodesAlong d .descendant x.place =
      (elementsBelow x.place 0 (x.trees d)).map Node.element := by
  rw [← along_descendant_node hx, nodesAlong]

theorem nodesAlong_child (hx : x ∈ allNodes d) :
    nodesAlong d .child x.place =
      (childElements x.place 0 (x.trees d)).map Node.element := by
  rw [← filter_isParentOf, ← along_descendant_node hx, ← along_child, nodesAlong]

theorem reached_descendantOrSelf (hx : x ∈ allNodes d) :
    reached d .descendantOrSelf x.place = x :: reached d .descendant x.place := by
  have hbelow : ∀ n ∈ reached d .descendant x.place, x.place < n.place :=
    fun n hn => lt_of_isAbove (mem_reached.1 hn).2
  refine (ascending_reached d _ _).ext
    (List.pairwise_cons.2 ⟨hbelow, ascending_reached d _ _⟩) fun n => ?_
  rw [List.mem_cons, mem_reached, mem_reached]
  simp only [Axis.reaches, Bool.or_eq_true, beq_iff_eq]
  constructor
  · rintro ⟨hn, hplace | habove⟩
    · exact .inl (node_eq_of_place_eq hn hx hplace.symm)
    · exact .inr ⟨hn, habove⟩
  · rintro (rfl | ⟨hn, habove⟩)
    · exact ⟨hx, .inl rfl⟩
    · exact ⟨hn, .inr habove⟩

/-! ### What lies above -/

/-- Each place above another comes before it. -/
theorem above_pairwise (place : Place) : (Place.above place).Pairwise fun p q => q < p := by
  induction place with
  | nil => exact .nil
  | cons i rest ih =>
    refine List.pairwise_append.2 ⟨List.pairwise_map.2 (ih.imp fun h => ?_),
      List.pairwise_singleton _ _, fun p hp q hq => ?_⟩
    · exact List.cons_lt_cons_iff.2 (.inr ⟨rfl, h⟩)
    · obtain ⟨r, -, rfl⟩ := List.mem_map.1 hp
      rw [List.mem_singleton.1 hq]
      exact List.nil_lt_cons ..

/-- Whatever lies above a place is the document or an element. -/
def Rooted (d : Document) (place : Place) : Prop :=
  ∀ p ∈ Place.above place, p = [] ∨ d.holds p = true

instance (d : Document) (place : Place) : Decidable (Rooted d place) :=
  inferInstanceAs (Decidable (∀ p ∈ Place.above place, _))

theorem nodeAt_nil (d : Document) : nodeAt d [] = .document :=
  nodeAt_eq_document_iff.2 (holds_nil d)

theorem nodeAt_place (hx : x ∈ allNodes d) : nodeAt d x.place = x := by
  cases x with
  | document => exact nodeAt_nil d
  | element e => exact nodeAt_eq_element_iff.2 ⟨element_mem_allNodes.1 hx, rfl⟩

theorem place_nodeAt {place : Place} (h : place = [] ∨ d.holds place = true) :
    (nodeAt d place).place = place := by
  rcases h with rfl | h
  · rw [nodeAt_nil, Node.place]
  · obtain ⟨e, he, rfl⟩ := Document.holds_iff.1 h
    rw [nodeAt_eq_element_iff.2 ⟨he, rfl⟩, Node.place]

/-- Where only elements and the document lie above, they are listed in the reverse of document
order. -/
theorem nodesAlong_ancestor {place : Place} (h : Rooted d place) :
    nodesAlong d .ancestor place = (reached d .ancestor place).reverse := by
  rw [← List.reverse_eq_iff]
  refine Ascending.ext ?_ (ascending_reached d _ _) fun n => ?_
  · rw [Ascending, List.pairwise_reverse, nodesAlong, List.pairwise_map]
    refine (above_pairwise place).imp_of_mem fun hp hq hlt => ?_
    rwa [place_nodeAt (h _ hp), place_nodeAt (h _ hq)]
  · rw [List.mem_reverse, mem_nodesAlong_iff, mem_reached, comesTo_of_ne_parent (by decide)]

theorem reached_ancestorOrSelf (hx : x ∈ allNodes d) :
    reached d .ancestorOrSelf x.place = reached d .ancestor x.place ++ [x] := by
  have habove : ∀ n ∈ reached d .ancestor x.place, ∀ m ∈ [x], n.place < m.place := by
    intro n hn m hm
    rw [List.mem_singleton.1 hm]
    exact lt_of_isAbove (mem_reached.1 hn).2
  refine (ascending_reached d _ _).ext (List.pairwise_append.2
    ⟨ascending_reached d _ _, List.pairwise_singleton _ _, habove⟩) fun n => ?_
  rw [List.mem_append, List.mem_singleton, mem_reached, mem_reached]
  simp only [Axis.reaches, Bool.or_eq_true, beq_iff_eq]
  constructor
  · rintro ⟨hn, hplace | habove⟩
    · exact .inr (node_eq_of_place_eq hn hx hplace)
    · exact .inl ⟨hn, habove⟩
  · rintro (⟨hn, habove⟩ | rfl)
    · exact ⟨hn, .inr habove⟩
    · exact ⟨hx, .inl rfl⟩

theorem nodesAlong_ancestorOrSelf (hx : x ∈ allNodes d) :
    nodesAlong d .ancestorOrSelf x.place = x :: nodesAlong d .ancestor x.place := by
  have hmap : nodesAlong d .ancestorOrSelf x.place =
      nodeAt d x.place :: nodesAlong d .ancestor x.place := rfl
  rw [hmap, nodeAt_place hx]

/-- The document comes up once more for each place above at which there is no element. -/
theorem nodup_ancestor_iff (d : Document) (place : Place) :
    (nodesAlong d .ancestor place).Nodup ↔ Rooted d place := by
  constructor
  · intro h p hp
    by_cases hheld : d.holds p = true
    · exact .inr hheld
    · left
      have hnil : [] ∈ Place.above place :=
        mem_above_iff.2 (isAbove_iff.2 ⟨List.nil_prefix,
          Nat.zero_lt_of_lt (isAbove_iff.1 (mem_above_iff.1 hp)).2⟩)
      have hsame : nodeAt d p = nodeAt d [] := by
        rw [nodeAt_nil, nodeAt_eq_document_iff]
        exact Bool.eq_false_iff.2 hheld
      have hnodup : ((Place.above place).map (nodeAt d)).Nodup := h
      exact List.inj_on_of_nodup_map hnodup hp hnil hsame
  · intro h
    rw [nodesAlong_ancestor h]
    exact (List.reverse_perm _).nodup_iff.2 (ascending_reached d _ _).nodup

/-- A node is none of those above it. -/
theorem not_mem_ancestor (h : Rooted d x.place) : x ∉ nodesAlong d .ancestor x.place := by
  rw [nodesAlong_ancestor h, List.mem_reverse, mem_reached]
  exact fun hmem => absurd hmem.2 (Bool.eq_false_iff.1 (not_isAbove_self x.place))

/-! ### What lies beside -/

/-- From a child, the siblings that come later and those that come before are children of its
parent. -/
theorem reached_siblings {place : Place} (h : Place.isParentOf place y.place = true) :
    reached d .followingSibling y.place =
        (reached d .child place).filter (fun n => decide (y.place < n.place)) ∧
      reached d .precedingSibling y.place =
        (reached d .child place).filter (fun n => decide (n.place < y.place)) := by
  simp only [reached, List.filter_filter]
  constructor
  · refine List.filter_congr fun n _ => Bool.eq_iff_iff.2 ?_
    simp only [Axis.reaches, Place.isEarlierSiblingOf, Bool.and_eq_true, beq_iff_eq,
      decide_eq_true_eq]
    rw [← beside_iff h, and_comm, eq_comm, eq_comm (a := n.place.length)]
  · refine List.filter_congr fun n _ => Bool.eq_iff_iff.2 ?_
    simp only [Axis.reaches, Place.isEarlierSiblingOf, Bool.and_eq_true, beq_iff_eq,
      decide_eq_true_eq]
    rw [← beside_iff h, and_comm]

/-- A list in document order is cut at one of its nodes into those before and those behind. -/
theorem Ascending.filter_place {before after : List Node} (h : Ascending (before ++ y :: after)) :
    ((before ++ y :: after).filter fun n => decide (y.place < n.place)) = after ∧
      ((before ++ y :: after).filter fun n => decide (n.place < y.place)) = before := by
  obtain ⟨-, hafter, hbefore⟩ := List.pairwise_append.1 h
  rw [List.pairwise_cons] at hafter
  have hfront : ∀ n ∈ before, n.place < y.place := fun n hn => hbefore n hn y List.mem_cons_self
  have hback : ∀ n ∈ after, y.place < n.place := hafter.1
  have hnot {a b : Place} (hlt : a < b) : decide (b < a) = false :=
    decide_eq_false fun hgt => List.lt_irrefl _ (List.lt_trans hlt hgt)
  have hself : decide (y.place < y.place) = false := decide_eq_false (List.lt_irrefl _)
  simp only [List.filter_append, List.filter_cons, hself, Bool.false_eq_true, if_false]
  constructor
  · have hnone : before.filter (fun n => decide (y.place < n.place)) = [] :=
      List.filter_eq_nil_iff.2 fun n hn => by simp [hnot (hfront n hn)]
    rw [hnone, List.nil_append]
    exact List.filter_eq_self.2 fun n hn => decide_eq_true (hback n hn)
  · have hnone : after.filter (fun n => decide (n.place < y.place)) = [] :=
      List.filter_eq_nil_iff.2 fun n hn => by simp [hnot (hback n hn)]
    rw [hnone, List.append_nil]
    exact List.filter_eq_self.2 fun n hn => decide_eq_true (hfront n hn)

/-! ### All around a node -/

/-- What lies along the axes from a node is told from the tree: from the content of the node, and
from the place right above it if there is one. -/
structure Node.Surrounded (d : Document) (x : Node) : Prop where
  self : nodesAlong d .self x.place = [x]
  child : nodesAlong d .child x.place = (childElements x.place 0 (x.trees d)).map .element
  descendant : nodesAlong d .descendant x.place = (elementsBelow x.place 0 (x.trees d)).map .element
  descendantOrSelf :
    nodesAlong d .descendantOrSelf x.place = x :: nodesAlong d .descendant x.place
  ancestorOrSelf : nodesAlong d .ancestorOrSelf x.place = x :: nodesAlong d .ancestor x.place
  outside : (x = .document ∧
      ∀ axis ∈ [Axis.parent, .ancestor, .followingSibling, .precedingSibling],
        nodesAlong d axis x.place = []) ∨
    ∃ p before after, Place.isParentOf p x.place = true ∧
      nodesAlong d .child p = before ++ x :: after ∧
      nodesAlong d .parent x.place = [nodeAt d p] ∧
      nodesAlong d .ancestor x.place = nodesAlong d .ancestorOrSelf p ∧
      nodesAlong d .followingSibling x.place = after ∧
      nodesAlong d .precedingSibling x.place = before.reverse

/-- Nothing lies above or beside the document. -/
theorem nodesAlong_document {axis : Axis}
    (h : axis ∈ [Axis.parent, .ancestor, .followingSibling, .precedingSibling]) :
    nodesAlong d axis [] = [] := by
  simp only [List.mem_cons, List.not_mem_nil, or_false] at h
  rcases h with rfl | rfl | rfl | rfl
  · rfl
  · rfl
  · rw [nodesAlong_forward rfl]
    exact reached_eq_nil fun q => (not_isEarlierSiblingOf_nil q).1
  · have hnone : reached d .precedingSibling [] = [] :=
      reached_eq_nil fun q => (not_isEarlierSiblingOf_nil q).2
    rw [nodesAlong_precedingSibling, hnone, List.reverse_nil]

/-- Around a child lie what is right above it, what lies above that, and the other children. -/
theorem outside_of_isParentOf {p : Place} (hx : x ∈ allNodes d)
    (h : Place.isParentOf p x.place = true) :
    ∃ before after, nodesAlong d .child p = before ++ x :: after ∧
      nodesAlong d .parent x.place = [nodeAt d p] ∧
      nodesAlong d .ancestor x.place = nodesAlong d .ancestorOrSelf p ∧
      nodesAlong d .followingSibling x.place = after ∧
      nodesAlong d .precedingSibling x.place = before.reverse := by
  obtain ⟨hne, hplace⟩ := isParentOf_iff.1 h
  have hchild : x ∈ reached d .child p := mem_reached.2 ⟨hx, h⟩
  obtain ⟨before, after, hsplit⟩ := List.append_of_mem hchild
  have habove : Place.above x.place = p :: Place.above p := by
    have hconcat := above_concat x.place.dropLast (x.place.getLast hne)
    rwa [List.dropLast_concat_getLast, ← hplace] at hconcat
  have hcut : Ascending (before ++ x :: after) := hsplit ▸ ascending_reached d .child p
  obtain ⟨hfollowing, hpreceding⟩ := reached_siblings (d := d) h
  rw [hsplit, hcut.filter_place.1] at hfollowing
  rw [hsplit, hcut.filter_place.2] at hpreceding
  refine ⟨before, after, ?_, ?_, ?_, ?_, ?_⟩
  · rw [nodesAlong_forward rfl, hsplit]
  · rw [nodesAlong_parent, if_neg hne, ← hplace]
  · rw [nodesAlong, habove, nodesAlong]
  · rw [nodesAlong_forward rfl, hfollowing]
  · rw [nodesAlong_precedingSibling, hpreceding]

theorem surrounded (hx : x ∈ allNodes d) : x.Surrounded d := by
  refine ⟨?_, nodesAlong_child hx, nodesAlong_descendant hx, ?_, nodesAlong_ancestorOrSelf hx, ?_⟩
  · rw [nodesAlong_forward rfl]
    exact reached_eq_singleton hx fun q => beq_iff_eq.trans eq_comm
  · rw [nodesAlong_forward rfl, nodesAlong_forward rfl]
    exact reached_descendantOrSelf hx
  · cases x with
    | document => exact .inl ⟨rfl, fun axis h => nodesAlong_document h⟩
    | element e =>
      have hparent : Place.isParentOf e.place.dropLast e.place = true :=
        isParentOf_iff.2 ⟨place_ne_nil (element_mem_allNodes.1 hx), rfl⟩
      obtain ⟨before, after, houtside⟩ := outside_of_isParentOf hx hparent
      exact .inr ⟨e.place.dropLast, before, after, hparent, houtside⟩

/-! ### Order and converses -/

/-- The parent comes alone, and what lies beside a child in the reverse of document order. -/
theorem nodup_back {axis : Axis} (h : axis = .parent ∨ axis = .precedingSibling) (place : Place) :
    (nodesAlong d axis place).Nodup ∧
      (nodesAlong d axis place).reverse.Sublist (allNodes d) := by
  rcases h with rfl | rfl
  · have hmem : ∀ n ∈ nodesAlong d .parent place, n ∈ allNodes d :=
      fun n hn => (mem_nodesAlong_iff.1 hn).1
    rw [nodesAlong_parent] at hmem ⊢
    split at hmem
    · next hplace => simp [hplace]
    · next hplace =>
      rw [if_neg hplace, List.reverse_singleton, List.singleton_sublist]
      exact ⟨List.pairwise_singleton _ _, List.forall_mem_singleton.1 hmem⟩
  · rw [nodesAlong_precedingSibling, List.reverse_reverse]
    exact ⟨(List.reverse_perm _).nodup_iff.2 (ascending_reached d _ _).nodup,
      reached_sublist d _ place⟩

/-- Above a node the same is listed with it and without it, once or more often. -/
theorem nodup_up {axis : Axis} (h : axis = .ancestor ∨ axis = .ancestorOrSelf)
    (hx : x ∈ allNodes d) :
    ((nodesAlong d axis x.place).Nodup ↔ Rooted d x.place) ∧
      (Rooted d x.place → (nodesAlong d axis x.place).reverse.Sublist (allNodes d)) := by
  rcases h with rfl | rfl
  · refine ⟨nodup_ancestor_iff d x.place, fun hrooted => ?_⟩
    rw [nodesAlong_ancestor hrooted, List.reverse_reverse]
    exact reached_sublist d _ _
  · rw [nodesAlong_ancestorOrSelf hx, List.nodup_cons]
    constructor
    · rw [nodup_ancestor_iff]
      exact ⟨And.right, fun hrooted => ⟨not_mem_ancestor hrooted, hrooted⟩⟩
    · intro hrooted
      have hup : (x :: nodesAlong d .ancestor x.place).reverse =
          reached d .ancestorOrSelf x.place := by
        rw [reached_ancestorOrSelf hx, nodesAlong_ancestor hrooted, List.reverse_cons,
          List.reverse_reverse]
      rw [hup]
      exact reached_sublist d _ _

theorem place_eq_nil_iff (hx : x ∈ allNodes d) : x.place = [] ↔ x = .document := by
  cases x with
  | document => exact iff_of_true rfl rfl
  | element e => exact iff_of_false (place_ne_nil (element_mem_allNodes.1 hx)) nofun

/-- The document is the parent of its children and of all loose elements. -/
theorem mem_parent_iff (hx : x ∈ allNodes d) (hy : y ∈ allNodes d) :
    x ∈ nodesAlong d .parent y.place ↔
      y ∈ nodesAlong d .child x.place ∨ x = .document ∧ d.isLoose y.place = true := by
  rw [mem_nodesAlong_iff, mem_nodesAlong_iff, and_iff_right hx, and_iff_right hy,
    comesTo_of_ne_parent (by decide : Axis.child ≠ .parent), comesTo, Bool.or_eq_true,
    ← place_eq_nil_iff hx, Bool.and_eq_true, Bool.and_eq_true, List.isEmpty_iff]
  simp [Axis.reaches]

/-- No node has a loose element for its child. -/
theorem not_mem_child (hx : x ∈ allNodes d) (h : d.isLoose y.place = true) :
    y ∉ nodesAlong d .child x.place := by
  rw [mem_nodesAlong_iff, comesTo_of_ne_parent (by decide)]
  rintro ⟨-, hparent⟩
  obtain ⟨-, hplace⟩ := isParentOf_iff.1 hparent
  obtain ⟨hlength, hnone⟩ := Document.isLoose_iff.1 h
  cases x with
  | document =>
    have htop := congrArg List.length hplace
    rw [Node.place, List.length_nil, List.length_dropLast] at htop
    omega
  | element e => exact hnone e (element_mem_allNodes.1 hx) hplace

/-- **Axes are dual, but for templates.** Of the nodes of a document, one lies along an axis from
another exactly when the other lies along the converse axis from it, except that the document is the
parent of the loose elements and they are not its children. Each axis lists nodes of the document in
document order or, where it leads up or back, in the reverse of it, and none twice, except that the
document comes up once more on the way up from what is in a template. What is listed from a node is
what the tree has there. -/
theorem axes_dual (d : Document) :
    (∀ axis : Axis, axis ≠ .child → axis ≠ .parent → ∀ x ∈ allNodes d, ∀ y ∈ allNodes d,
      y ∈ nodesAlong d axis x.place ↔ x ∈ nodesAlong d axis.converse y.place) ∧
    (∀ x ∈ allNodes d, ∀ y ∈ allNodes d,
      (y ∈ nodesAlong d .child x.place ↔ x ∈ nodesAlong d .parent y.place) ↔
        ¬(x = .document ∧ d.isLoose y.place = true)) ∧
    (∀ x ∈ allNodes d,
      (∀ axis : Axis, axis.isReverse = false →
        (nodesAlong d axis x.place).Nodup ∧ (nodesAlong d axis x.place).Sublist (allNodes d)) ∧
      (∀ axis : Axis, axis = .parent ∨ axis = .precedingSibling →
        (nodesAlong d axis x.place).Nodup ∧
          (nodesAlong d axis x.place).reverse.Sublist (allNodes d)) ∧
      (∀ axis : Axis, axis = .ancestor ∨ axis = .ancestorOrSelf →
        ((nodesAlong d axis x.place).Nodup ↔ Rooted d x.place) ∧
          (Rooted d x.place → (nodesAlong d axis x.place).reverse.Sublist (allNodes d)))) ∧
    ∀ x ∈ allNodes d, x.Surrounded d := by
  refine ⟨fun axis hchild hparent x hx y hy => ?_, fun x hx y hy => ?_,
    fun x hx => ⟨fun axis h => ?_, fun axis h => nodup_back h x.place,
      fun axis h => nodup_up h hx⟩, fun x hx => surrounded hx⟩
  · have hback : axis.converse ≠ .parent := by
      cases axis with
      | child => exact absurd rfl hchild
      | _ => decide
    rw [mem_nodesAlong_iff, mem_nodesAlong_iff, and_iff_right hx, and_iff_right hy,
      comesTo_of_ne_parent hparent, comesTo_of_ne_parent hback, Axis.reaches_converse]
  · rw [mem_parent_iff hx hy]
    by_cases hloose : d.isLoose y.place = true
    · simp [hloose, not_mem_child hx hloose]
    · simp [hloose]
  · rw [nodesAlong_forward h]
    exact ⟨(ascending_reached d axis x.place).nodup, reached_sublist d axis x.place⟩

/-- The last child of `mixedTree`'s outer element. -/
def lastChild : Element :=
  ⟨[1, 3], "c", .empty, [.text "y"], .html⟩

/-- The first element that the outer element of `mixedTree` holds. -/
def firstChild : Element :=
  ⟨[1, 1], "b", .empty, [], .html⟩

/-- What the template of `mixedTree` holds. -/
def looseChild : Element :=
  ⟨[2, 0, 0], "d", .empty, [], .html⟩

/-- Elements with a comment in front of them, and with a text and a comment between them, and a
template with an element in it. -/
def mixedTree : Document :=
  ⟨[.comment, .element "a" .empty
    [.text "x", .element "b" .empty [], .comment, .element "c" .empty [.text "y"]],
    .element "template" .empty [.fragment [.element "d" .empty []]]]⟩

theorem axes_dual_mixedTree :
    Node.element firstChild ∈ allNodes mixedTree ∧ Node.element lastChild ∈ allNodes mixedTree ∧
      Node.element looseChild ∈ allNodes mixedTree ∧
      nodesAlong mixedTree .precedingSibling lastChild.place = [.element firstChild] ∧
      (Node.element firstChild ∈ nodesAlong mixedTree .precedingSibling lastChild.place ↔
        Node.element lastChild ∈ nodesAlong mixedTree .followingSibling firstChild.place) ∧
      (nodesAlong mixedTree .ancestor lastChild.place).reverse.Sublist (allNodes mixedTree) ∧
      nodesAlong mixedTree .ancestorOrSelf lastChild.place =
        .element lastChild :: nodesAlong mixedTree .ancestor lastChild.place ∧
      ¬(Node.element looseChild ∈ nodesAlong mixedTree .child [] ↔
        Node.document ∈ nodesAlong mixedTree .parent looseChild.place) ∧
      ¬(nodesAlong mixedTree .ancestor looseChild.place).Nodup := by
  obtain ⟨hdual, hparent, horder, haround⟩ := axes_dual mixedTree
  have hfirst : Node.element firstChild ∈ allNodes mixedTree :=
    .tail _ (.tail _ (.head _))
  have hlast : Node.element lastChild ∈ allNodes mixedTree :=
    .tail _ (.tail _ (.tail _ (.head _)))
  have hloose : Node.element looseChild ∈ allNodes mixedTree :=
    .tail _ (.tail _ (.tail _ (.tail _ (.tail _ (.head _)))))
  have hback := hparent _ (document_mem_allNodes mixedTree) _ hloose
  exact ⟨hfirst, hlast, hloose, rfl, hdual .precedingSibling (by decide) (by decide) _ hlast _ hfirst,
    ((horder _ hlast).2.2 .ancestor (.inl rfl)).2 (by decide), (haround _ hlast).ancestorOrSelf,
    fun hsame => hback.1 hsame ⟨rfl, by decide⟩,
    fun hnodup => absurd (((horder _ hloose).2.2 .ancestor (.inl rfl)).1.1 hnodup) (by decide)⟩

end Gleaner.Query
