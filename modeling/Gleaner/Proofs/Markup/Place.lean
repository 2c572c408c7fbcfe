/-
# Places and the elements that stand at them

Every element of a document has a place of its own, which is not that of the document. So a list of
elements is put in order by asking each element of the document whether it belongs to the list. The
place right above an element that is not loose is that of another element or of the document, and
without templates no element is loose. What lies below a place lies right below it or below anything
there.

Key definitions: `Tree.isUnbroken`.
Key theorems: `eq_of_place_eq`, `isLoose_eq_false_iff`, `isLoose_eq_false`, `inOrder_eq_filter`,
`isParentOf_iff`, `isAbove_iff_prefix_dropLast`, `selfOrBelow_iff`.
-/
import Gleaner.Markup.Axis
import Mathlib.Data.List.Pairwise

namespace Gleaner.Markup

/-! ### The elements of a document -/

/-- No element stands at the place of the document itself. -/
theorem place_ne_nil {d : Document} {e : Element} (he : e ∈ d.elements) : e.place ≠ [] := by
  obtain ⟨j, _, hj⟩ := place_of_mem_elementsBelow d.children he
  exact fun h => by simp [h] at hj

/-- An element of a document is known by its place. -/
theorem eq_of_place_eq {d : Document} {e f : Element} (he : e ∈ d.elements) (hf : f ∈ d.elements)
    (h : e.place = f.place) : e = f := by
  have hne : d.elements.Pairwise fun a b => a.place ≠ b.place := by
    refine (elements_pairwise d).imp fun {a b} hlt heq => ?_
    rw [heq] at hlt
    exact List.lt_irrefl _ hlt
  have : Std.Symm fun a b : Element => a.place ≠ b.place := ⟨fun _ _ => Ne.symm⟩
  by_contra hef
  exact hne.forall he hf hef h

/-- What is not loose stands right in the document or in an element. -/
theorem isLoose_eq_false_iff {d : Document} {p : Place} :
    d.isLoose p = false ↔ p.dropLast = [] ∨ ∃ f ∈ d.elements, f.place = p.dropLast := by
  have hshort : p.dropLast = [] ↔ ¬1 < p.length := by
    rw [← List.length_eq_zero_iff, List.length_dropLast]
    omega
  rw [Document.isLoose, Bool.and_eq_false_iff, decide_eq_false_iff_not, Bool.not_eq_false',
    Document.holds_iff, hshort]

/-! ### Documents without templates -/

mutual

/-- The tree has no node that holds what is in a template. -/
def Tree.isUnbroken : Tree → Bool
  | .text _ | .comment => true
  | .element _ _ children _ => areUnbroken children
  | .fragment _ => false

/-- None of the trees has such a node. -/
def areUnbroken : List Tree → Bool
  | [] => true
  | tree :: rest => tree.isUnbroken && areUnbroken rest

end

mutual

theorem above_of_mem_elementsAt {place : Place} {e : Element} :
    (tree : Tree) → tree.isUnbroken = true → e ∈ tree.elementsAt place →
      e.place = place ∨ ∃ f ∈ tree.elementsAt place, f.place = e.place.dropLast
  | .text _, _, h | .comment, _, h => by simp [Tree.elementsAt] at h
  | .fragment _, hwhole, _ => by cases hwhole
  | .element _ _ children _, hwhole, h => by
    unfold Tree.elementsAt at h
    rw [List.mem_cons] at h
    rcases h with rfl | h
    · exact .inl rfl
    · right
      rcases above_of_mem_elementsBelow children hwhole h with habove | ⟨f, hf, hplace⟩
      · exact ⟨_, by rw [Tree.elementsAt]; exact List.mem_cons_self, habove.symm⟩
      · exact ⟨f, by rw [Tree.elementsAt]; exact List.mem_cons_of_mem _ hf, hplace⟩

/-- Above an element below a place stands that place, or another element below it. -/
theorem above_of_mem_elementsBelow {place : Place} {i : Nat} {e : Element} :
    (trees : List Tree) → areUnbroken trees = true → e ∈ elementsBelow place i trees →
      e.place.dropLast = place ∨ ∃ f ∈ elementsBelow place i trees, f.place = e.place.dropLast
  | [], _, h => by simp [elementsBelow] at h
  | tree :: rest, hwhole, h => by
    unfold areUnbroken at hwhole
    obtain ⟨htree, hrest⟩ := Bool.and_eq_true_iff.1 hwhole
    unfold elementsBelow at h
    rw [List.mem_append] at h
    rcases h with h | h
    · rcases above_of_mem_elementsAt tree htree h with hplace | ⟨f, hf, hplace⟩
      · exact .inl (by rw [hplace, List.dropLast_concat])
      · exact .inr ⟨f, by rw [elementsBelow]; exact List.mem_append_left _ hf, hplace⟩
    · rcases above_of_mem_elementsBelow rest hrest h with hplace | ⟨f, hf, hplace⟩
      · exact .inl hplace
      · exact .inr ⟨f, by rw [elementsBelow]; exact List.mem_append_right _ hf, hplace⟩

end

/-- No element is loose in a document without templates. -/
theorem isLoose_eq_false {d : Document} (h : areUnbroken d.children = true) {e : Element}
    (he : e ∈ d.elements) : d.isLoose e.place = false :=
  isLoose_eq_false_iff.2 (above_of_mem_elementsBelow d.children h he)

/-- A list is put in order by asking each element of the document whether its place occurs there. -/
theorem inOrder_eq_filter {d : Document} {list : List Element} {p : Element → Bool}
    (h : ∀ e ∈ d.elements, (∃ f ∈ list, f.place = e.place) ↔ p e = true) :
    d.inOrder list = d.elements.filter p := by
  refine List.filter_congr fun e he => Bool.eq_iff_iff.2 ?_
  rw [← h e he, List.any_eq_true]
  simp only [beq_iff_eq]

/-! ### Axes between places -/

theorem isParentOf_iff {p q : Place} :
    Place.isParentOf p q = true ↔ q ≠ [] ∧ p = q.dropLast := by
  unfold Place.isParentOf
  rw [Bool.and_eq_true, List.isPrefixOf_iff_prefix, beq_iff_eq]
  constructor
  · rintro ⟨⟨t, rfl⟩, hlength⟩
    rw [List.length_append, Nat.add_left_cancel_iff] at hlength
    obtain ⟨i, rfl⟩ := List.length_eq_one_iff.1 hlength.symm
    exact ⟨by simp, by simp⟩
  · rintro ⟨hne, rfl⟩
    refine ⟨List.dropLast_prefix q, ?_⟩
    rw [List.length_dropLast]
    have := List.length_pos_iff.2 hne
    omega

theorem isAbove_iff {p q : Place} :
    Place.isAbove p q = true ↔ p <+: q ∧ p.length < q.length := by
  unfold Place.isAbove
  rw [Bool.and_eq_true, List.isPrefixOf_iff_prefix, decide_eq_true_eq]

/-- A place lies below another when the place right above it is the other or lies below it. -/
theorem isAbove_iff_prefix_dropLast {p q : Place} :
    Place.isAbove p q = true ↔ q ≠ [] ∧ p <+: q.dropLast := by
  rw [isAbove_iff]
  constructor
  · rintro ⟨⟨t, rfl⟩, hlength⟩
    have ht : t ≠ [] := fun h => by simp [h] at hlength
    exact ⟨by simp [ht], by rw [List.dropLast_append_of_ne_nil ht]; exact List.prefix_append ..⟩
  · rintro ⟨hne, hstart⟩
    have := List.length_pos_iff.2 hne
    have hle := hstart.length_le
    rw [List.length_dropLast] at hle
    exact ⟨hstart.trans (List.dropLast_prefix q), by omega⟩

theorem selfOrBelow_iff {p q : Place} :
    Axis.descendantOrSelf.reaches p q = true ↔ p <+: q := by
  unfold Axis.reaches
  rw [Bool.or_eq_true, beq_iff_eq, isAbove_iff]
  constructor
  · rintro (rfl | h)
    · exact List.prefix_rfl
    · exact h.1
  · intro h
    rcases Nat.lt_or_eq_of_le h.length_le with hlt | heq
    · exact .inr ⟨h, hlt⟩
    · exact .inl (h.eq_of_length heq)

end Gleaner.Markup
