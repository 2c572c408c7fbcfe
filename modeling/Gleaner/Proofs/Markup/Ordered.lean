/-
# Lists in document order

A list of elements is in document order, each element once, when their places ascend strictly. Such
a list is known by its members, so what a list is put in order to depends on its members only, and
a list in order stays as it is when it is put in order again.

Key definitions: `Document.Ordered`.
Key theorems: `Ordered.ext`, `ordered_inOrder`, `mem_inOrder_of_inside`, `inOrder_eq_self`,
`inOrder_congr`.
-/
import Gleaner.Proofs.Markup.Place

namespace Gleaner.Markup

/-- The list holds elements of the document, in document order and each once. -/
structure Document.Ordered (d : Document) (list : List Element) : Prop where
  ascending : list.Pairwise fun a b => a.place < b.place
  inside : ∀ e ∈ list, e ∈ d.elements

variable {d : Document} {list other : List Element} {e : Element}

theorem ordered_elements (d : Document) : d.Ordered d.elements :=
  ⟨elements_pairwise d, fun _ he => he⟩

/-- What is picked from a list in order is in order. -/
theorem Document.Ordered.sublist (h : d.Ordered list) (hsub : other.Sublist list) :
    d.Ordered other :=
  ⟨h.ascending.sublist hsub, fun e he => h.inside e (hsub.subset he)⟩

theorem Document.Ordered.nodup (h : d.Ordered list) : list.Nodup := by
  refine h.ascending.imp fun {a b} hlt heq => ?_
  rw [heq] at hlt
  exact List.lt_irrefl _ hlt

/-- A list in order is known by its members. -/
theorem Document.Ordered.ext (h : d.Ordered list) (hother : d.Ordered other)
    (hmem : ∀ e, e ∈ list ↔ e ∈ other) : list = other := by
  have hperm : list.Perm other := (List.perm_ext_iff_of_nodup h.nodup hother.nodup).2 hmem
  refine hperm.eq_of_pairwise (fun a b _ _ hab hba => ?_) h.ascending hother.ascending
  exact absurd (List.lt_trans hab hba) (List.lt_irrefl _)

theorem ordered_alongAny (d : Document) (axis : Axis) (places : List Place) :
    d.Ordered (d.alongAny axis places) :=
  (ordered_elements d).sublist List.filter_sublist

/-! ### Putting a list in order -/

theorem ordered_inOrder (d : Document) (list : List Element) : d.Ordered (d.inOrder list) :=
  (ordered_elements d).sublist List.filter_sublist

/-- Elements of the document are kept when they are put in order, and no others come in. -/
theorem mem_inOrder_of_inside (h : ∀ e ∈ list, e ∈ d.elements) :
    e ∈ d.inOrder list ↔ e ∈ list := by
  rw [mem_inOrder_iff]
  constructor
  · rintro ⟨he, f, hf, hplace⟩
    rwa [← eq_of_place_eq (h f hf) he hplace]
  · intro he
    exact ⟨h e he, e, he, rfl⟩

/-- A list in order stays as it is; so does every list of at most one element. -/
theorem inOrder_eq_self (h : d.Ordered list) : d.inOrder list = list :=
  (ordered_inOrder d list).ext h fun _ => mem_inOrder_of_inside h.inside

/-- Lists of the same members are put in order to the same list. -/
theorem inOrder_congr (h : ∀ e, e ∈ list ↔ e ∈ other) : d.inOrder list = d.inOrder other := by
  refine List.filter_congr fun e _ => Bool.eq_iff_iff.2 ?_
  simp only [List.any_eq_true, h]

end Gleaner.Markup
