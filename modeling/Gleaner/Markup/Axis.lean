/-
# Axes

The ways from a place of a document to others. Each is a relation on places; the elements along an
axis are those of the document that the relation reaches, in document order. The place without
positions is that of the document itself. Other places may have no element, too: what a template
holds has the place of the node that holds it right above.

Key definitions: `Axis`, `Axis.reaches`, `Axis.converse`, `Document.along`, `Document.alongAny`,
`Place.above`, `Document.isLoose`.
Key theorems: `Axis.reaches_converse`, `Document.mem_alongAny_iff`, `mem_above_iff`.
-/
import Gleaner.Markup.Tree

namespace Gleaner.Markup

/-- A way from one place of a document to others. -/
inductive Axis where
  | child
  | descendant
  | descendantOrSelf
  | self
  | parent
  | ancestor
  | ancestorOrSelf
  | followingSibling
  | precedingSibling
  deriving DecidableEq, Repr

/-- The second place lies properly below the first. -/
def Place.isAbove (p q : Place) : Bool :=
  p.isPrefixOf q && decide (p.length < q.length)

/-- The second place is that of a child of the first. -/
def Place.isParentOf (p q : Place) : Bool :=
  p.isPrefixOf q && p.length + 1 == q.length

/-- The second place is that of a later child of the same parent. -/
def Place.isEarlierSiblingOf (p q : Place) : Bool :=
  p.dropLast == q.dropLast && p.length == q.length && decide (p < q)

/-- The axis leads from the first place to the second. -/
def Axis.reaches (axis : Axis) (p q : Place) : Bool :=
  match axis with
  | .child => Place.isParentOf p q
  | .descendant => Place.isAbove p q
  | .descendantOrSelf => p == q || Place.isAbove p q
  | .self => p == q
  | .parent => Place.isParentOf q p
  | .ancestor => Place.isAbove q p
  | .ancestorOrSelf => q == p || Place.isAbove q p
  | .followingSibling => Place.isEarlierSiblingOf p q
  | .precedingSibling => Place.isEarlierSiblingOf q p

/-- The axis that leads back. -/
def Axis.converse : Axis → Axis
  | .child => .parent
  | .descendant => .ancestor
  | .descendantOrSelf => .ancestorOrSelf
  | .self => .self
  | .parent => .child
  | .ancestor => .descendant
  | .ancestorOrSelf => .descendantOrSelf
  | .followingSibling => .precedingSibling
  | .precedingSibling => .followingSibling

/-- An axis leads from one place to another when its converse leads back. -/
theorem Axis.reaches_converse (axis : Axis) (p q : Place) :
    axis.converse.reaches q p = axis.reaches p q := by
  cases axis with
  | self => exact Bool.beq_comm
  | _ => rfl

/-- The axis leads up or back, so that its nearest nodes come last in document order. -/
def Axis.isReverse : Axis → Bool
  | .parent | .ancestor | .ancestorOrSelf | .precedingSibling => true
  | _ => false

/-- The elements of a document along an axis from a place, in document order. -/
def Document.along (d : Document) (axis : Axis) (place : Place) : List Element :=
  d.elements.filter fun e => axis.reaches place e.place

/-- The elements of a document along an axis from any of some places, in document order and each
once. -/
def Document.alongAny (d : Document) (axis : Axis) (places : List Place) : List Element :=
  d.elements.filter fun e => places.any fun p => axis.reaches p e.place

/-- An element lies along an axis from some places when it does from one of them. -/
theorem Document.mem_alongAny_iff {d : Document} {axis : Axis} {places : List Place} {e : Element} :
    e ∈ d.alongAny axis places ↔ ∃ p ∈ places, e ∈ d.along axis p := by
  simp only [alongAny, along, List.mem_filter, List.any_eq_true]
  exact ⟨fun ⟨he, p, hp, h⟩ => ⟨p, hp, he, h⟩, fun ⟨p, hp, he, h⟩ => ⟨he, p, hp, h⟩⟩

/-! ### Places above -/

/-- The places above a place, the nearest first. -/
def Place.above : Place → List Place
  | [] => []
  | i :: rest => (Place.above rest).map (i :: ·) ++ [[]]

theorem above_concat (p : Place) (i : Nat) : Place.above (p ++ [i]) = p :: Place.above p := by
  induction p with
  | nil => rfl
  | cons j p ih =>
    rw [List.cons_append, Place.above, ih, Place.above, List.map_cons, List.cons_append]

theorem mem_above_iff {p q : Place} : q ∈ Place.above p ↔ Place.isAbove q p = true := by
  induction p generalizing q with
  | nil => cases q <;> simp [Place.above, Place.isAbove]
  | cons i p ih =>
    cases q with
    | nil => simp [Place.above, Place.isAbove]
    | cons j q =>
      have hmem : j :: q ∈ Place.above (i :: p) ↔ j = i ∧ q ∈ Place.above p := by
        rw [Place.above, List.mem_append, List.mem_map]
        constructor
        · rintro (⟨_, hq, heq⟩ | hnil)
          · cases heq
            exact ⟨rfl, hq⟩
          · cases List.mem_singleton.1 hnil
        · rintro ⟨rfl, hq⟩
          exact .inl ⟨q, hq, rfl⟩
      rw [hmem, ih]
      simp [Place.isAbove, and_assoc]

/-- An element of the document has the place. -/
def Document.holds (d : Document) (p : Place) : Bool :=
  d.elements.any fun e => e.place == p

/-- What has the place lies in a node that is neither the document nor an element. -/
def Document.isLoose (d : Document) (p : Place) : Bool :=
  decide (1 < p.length) && !d.holds p.dropLast

theorem Document.holds_iff {d : Document} {p : Place} :
    d.holds p = true ↔ ∃ e ∈ d.elements, e.place = p := by
  simp [holds]

theorem Document.isLoose_iff {d : Document} {p : Place} :
    d.isLoose p = true ↔ 1 < p.length ∧ ∀ e ∈ d.elements, e.place ≠ p.dropLast := by
  simp [isLoose, holds]

end Gleaner.Markup
