/-
# The two readings of a trail

Read step by step or as a path query, a selector that writes a trail, with or without an accessor
behind it, yields what the accessor reads from the elements of the trail, in document order. Among
elements of HTML the path query comes to no others than the stepwise reading, so the two yield the
same values exactly when nothing is read from what only the second comes to. Without templates that
is nothing.

Key definitions: `Trail.text`.
Key theorems: `flatMap_filter_eq_iff`, `readElements_eq_iff_of_subset`, `Selector.evaluate_text`,
`Query.evaluate_text`, `evaluate_trail`.
-/
import Gleaner.Proofs.Agreement.Queried
import Gleaner.Proofs.Agreement.Stepwise
import Gleaner.Proofs.Agreement.Whole
import Mathlib.Data.List.Flatten

namespace Gleaner

open Gleaner.Text Gleaner.Markup Gleaner.Selector

variable {d : Document}

/-! ### What is read from more elements -/

/-- What is gathered from fewer members of a list is no longer than what is gathered from more. -/
theorem length_flatMap_filter_le {α β : Type} {p q : α → Bool} (f : α → List β) {list : List α}
    (h : ∀ a ∈ list, p a = true → q a = true) :
    ((list.filter p).flatMap f).length ≤ ((list.filter q).flatMap f).length := by
  have hfewer : list.filter p = (list.filter q).filter p := by
    rw [List.filter_filter]
    refine List.filter_congr fun a ha => Bool.eq_iff_iff.2 ?_
    rw [Bool.and_eq_true]
    constructor
    · intro hp
      exact ⟨hp, h a ha hp⟩
    · intro hpq
      exact hpq.1
  rw [hfewer]
  exact (List.filter_sublist.flatMap f).length_le

/-- The same is gathered from fewer members of a list as from more exactly when nothing is gathered
from the members that are left out. -/
theorem flatMap_filter_eq_iff {α β : Type} {p q : α → Bool} (f : α → List β) : ∀ {list : List α},
    (∀ a ∈ list, p a = true → q a = true) →
      ((list.filter p).flatMap f = (list.filter q).flatMap f ↔
        ∀ a ∈ list, q a = true → p a = false → f a = [])
  | [], _ => by simp
  | a :: list, h => by
    have ih := flatMap_filter_eq_iff f fun b hb => h b (List.mem_cons_of_mem a hb)
    have hlength := length_flatMap_filter_le f fun b hb => h b (List.mem_cons_of_mem a hb)
    have ha := h a List.mem_cons_self
    rw [List.forall_mem_cons, ← ih]
    by_cases hp : p a = true
    · simp [hp, ha hp]
    · by_cases hq : q a = true
      · rw [List.filter_cons, List.filter_cons, if_neg hp, if_pos hq, List.flatMap_cons]
        constructor
        · intro heq
          have hnil : f a = [] := by
            have := congrArg List.length heq
            rw [List.length_append] at this
            exact List.length_eq_zero_iff.1 (by omega)
          rw [hnil, List.nil_append] at heq
          exact ⟨fun _ _ => hnil, heq⟩
        · rintro ⟨hnil, heq⟩
          rw [hnil hq (Bool.eq_false_iff.2 hp), List.nil_append]
          exact heq
      · simp [hp, hq]

theorem readElements_append (a b : List Element) : ∀ accessor : Option Accessor,
    readElements accessor (a ++ b) = readElements accessor a ++ readElements accessor b
  | none => List.flatMap_append
  | some .text => List.map_append
  | some .node => List.flatMap_append
  | some (.attribute _) => List.filterMap_append

/-- Values are read from each element on its own. -/
theorem readElements_eq_flatMap (accessor : Option Accessor) : ∀ list : List Element,
    readElements accessor list = list.flatMap fun e => readElements accessor [e]
  | [] =>
    match accessor with
    | none | some .text | some .node | some (.attribute _) => rfl
  | e :: list => by
    rw [List.flatMap_cons, ← readElements_eq_flatMap accessor list, ← readElements_append]
    rfl

theorem readElements_filter_eq_iff {p q : Element → Bool} {list : List Element}
    (h : ∀ e ∈ list, p e = true → q e = true) (accessor : Option Accessor) :
    readElements accessor (list.filter p) = readElements accessor (list.filter q) ↔
      ∀ e ∈ list.filter q, e ∉ list.filter p → readElements accessor [e] = [] := by
  rw [readElements_eq_flatMap accessor (list.filter p),
    readElements_eq_flatMap accessor (list.filter q), flatMap_filter_eq_iff _ h]
  constructor
  · intro hnil e hq hp
    obtain ⟨he, hq⟩ := List.mem_filter.1 hq
    refine hnil e he hq (Bool.eq_false_iff.2 fun hpe => hp (List.mem_filter.2 ⟨he, hpe⟩))
  · intro hnil e he hq hp
    refine hnil e (List.mem_filter.2 ⟨he, hq⟩) fun hmem => ?_
    rw [(List.mem_filter.1 hmem).2] at hp
    cases hp

/-- The same is read from some of the elements as from all of them exactly when nothing is read from
those that are left out. -/
theorem readElements_eq_iff_of_subset {few many : List Element} (hfew : d.inOrder few = few)
    (hmany : d.inOrder many = many) (h : ∀ e ∈ few, e ∈ many) (accessor : Option Accessor) :
    readElements accessor few = readElements accessor many ↔
      ∀ e ∈ many, e ∉ few → readElements accessor [e] = [] := by
  have hplaces : ∀ e ∈ d.elements, (few.any fun f => f.place == e.place) = true →
      (many.any fun f => f.place == e.place) = true := by
    intro e _ hany
    obtain ⟨f, hf, hplace⟩ := List.any_eq_true.1 hany
    exact List.any_eq_true.2 ⟨f, h f hf, hplace⟩
  have hread : readElements accessor (d.inOrder few) = readElements accessor (d.inOrder many) ↔
      ∀ e ∈ d.inOrder many, e ∉ d.inOrder few → readElements accessor [e] = [] :=
    readElements_filter_eq_iff hplaces accessor
  rwa [hfew, hmany] at hread

/-! ### Trails as they are written -/

/-- A trail as it is written, with an accessor behind one slash if there is one. -/
def Selector.Trail.text (t : Trail) (accessor : Option Accessor) : String :=
  String.ofList (written (t.legs ++ accessor.toList.map fun a => ⟨1, .accessor a⟩))

theorem Query.filterMap_element? (list : List Element) :
    (list.map Query.Node.element).filterMap Query.Node.element? = list := by
  have hsome : Query.Node.element? ∘ Query.Node.element = some := rfl
  rw [List.filterMap_map, hsome, List.filterMap_some]

/-- A selector whose query goes on behind a trail yields what its accessor reads from the elements
that the query goes on to. -/
theorem Query.evaluate_of_trail (t : Trail) (hinside : t.StaysInside d) {text : List Char}
    {accessor : Option Accessor} {more : List Query.Segment}
    (hrow : Query.Row (Query.segmentOf t.first) (t.later.map Query.segmentOf ++ more))
    (hsplit : Query.splitAccessor text =
      (written t.legs ++ more.flatMap Query.Segment.written, accessor)) {nodes : List Query.Node}
    (hmore : Query.followSteps d (more.flatMap Query.Segment.steps)
      ((t.selected .query d).map Query.Node.element) = .ok nodes) :
    Query.evaluate d (String.ofList text) =
      .ok (readElements accessor (nodes.filterMap Query.Node.element?)) := by
  have hlegs : Query.segmentOf t.first :: (t.later.map Query.segmentOf ++ more) =
      t.legs.map Query.segmentOf ++ more := rfl
  have hblank := Query.not_blank_written t.shared (more.flatMap Query.Segment.written)
  have hsteps := (Query.followSteps_trail t hinside _).trans hmore
  rw [← List.flatMap_append] at hsteps
  refine Query.evaluate_of_row hrow ?_ ?_ hsteps
  · rw [hlegs, List.flatMap_append, Query.written_segments]
    exact hsplit
  · rw [hlegs, List.flatMap_append, Query.written_segments]
    exact hblank

/-- As a path query, a trail yields what its accessor reads from its elements. -/
theorem Query.evaluate_text (t : Trail) (hinside : t.StaysInside d) {accessor : Option Accessor}
    (haccessor : ∀ a ∈ accessor, (Target.accessor a).Legible) :
    Query.evaluate d (t.text accessor) = .ok (readElements accessor (t.selected .query d)) := by
  have hsplit : Query.splitAccessor
      (written (t.legs ++ accessor.toList.map fun a => ⟨1, .accessor a⟩)) =
      (written t.legs ++ ([] : List Query.Segment).flatMap Query.Segment.written, accessor) := by
    rw [List.flatMap_nil, List.append_nil]
    cases accessor with
    | none =>
      rw [Option.toList_none, List.map_nil, List.append_nil]
      exact Query.splitAccessor_written t.shared
    | some a => exact Query.splitAccessor_accessor t.shared (haccessor a rfl)
  have hrow := Query.row_of_shared t.shared
  rw [← List.append_nil (t.later.map Query.segmentOf)] at hrow
  have hevaluate := Query.evaluate_of_trail t hinside hrow hsplit rfl
  rwa [Query.filterMap_element?] at hevaluate

/-- Step by step, a trail yields what its accessor reads from its elements. -/
theorem Selector.evaluate_text (t : Trail) {accessor : Option Accessor}
    (haccessor : ∀ a ∈ accessor, (Target.accessor a).Legible) :
    Selector.evaluate d (t.text accessor) =
      .ok (readElements accessor (t.selected .stepwise d)) := by
  unfold Trail.text
  cases accessor with
  | none =>
    rw [Option.toList_none, List.map_nil, List.append_nil]
    exact Selector.evaluate_written t.shared
  | some a => exact Selector.evaluate_written_accessor t.shared Nat.one_pos (haccessor a rfl)

/-- **Where the two readings agree.** Both readings of a trail yield what the accessor reads from the
elements that they come to, in document order; as a path query it must not leave the elements on the
way up. Among elements of HTML the two yield the same values exactly when nothing is read from what
only the stepwise reading comes to, which is nothing where no element stands right in a template.
What is asked of the names of attributes holds of each document that is read from a text, by
`namesApart_ofText`. -/
theorem evaluate_trail (t : Trail) {accessor : Option Accessor}
    (haccessor : ∀ a ∈ accessor, (Target.accessor a).Legible) :
    Selector.evaluate d (t.text accessor) =
        .ok (readElements accessor (t.selected .stepwise d)) ∧
      (t.StaysInside d →
        Query.evaluate d (t.text accessor) = .ok (readElements accessor (t.selected .query d)) ∧
        (NamesApart d → OfHtml d →
          ((∃ values, Selector.evaluate d (t.text accessor) = .ok values ∧
              Query.evaluate d (t.text accessor) = .ok values) ↔
            ∀ e ∈ t.selected .stepwise d, e ∉ t.selected .query d →
              readElements accessor [e] = []) ∧
          ((∀ e ∈ d.elements, d.isLoose e.place = false) →
            t.selected .stepwise d = t.selected .query d))) := by
  have hstepwise := Selector.evaluate_text (d := d) t haccessor
  refine ⟨hstepwise, fun hinside => ?_⟩
  have hquery := Query.evaluate_text t hinside haccessor
  refine ⟨hquery, fun hd hhtml => ⟨?_, fun hloose => selected_eq_of_attached hd hhtml hloose t⟩⟩
  have hread := readElements_eq_iff_of_subset (inOrder_selected t .query d)
    (inOrder_selected t .stepwise d) (mem_selected_of_query hd hhtml t) accessor
  rw [← hread, hstepwise, hquery]
  constructor
  · rintro ⟨values, hvalues, hvalues'⟩
    rw [Except.ok.inj hvalues, Except.ok.inj hvalues']
  · exact fun heq => ⟨_, rfl, by rw [heq]⟩

/-- A section that holds a paragraph, and one in a template:
`<div class="x"><p id="a">x</p></div><template><div class="y"><p id="a">y</p></div></template>`. -/
def sectionAround : Document :=
  ⟨[.element "div" (.ofList [("class", "x")])
      [.element "p" (.ofList [("id", "a")]) [.text "x"]],
    .element "template" .empty [.fragment [.element "div" (.ofList [("class", "y")])
      [.element "p" (.ofList [("id", "a")]) [.text "y"]]]]]⟩

/-- The sections at their places. -/
def outerSection : Element :=
  ⟨[0], "div", .ofList [("class", "x")], [.element "p" (.ofList [("id", "a")]) [.text "x"]], .html⟩

@[inherit_doc outerSection]
def heldSection : Element :=
  ⟨[1, 0, 0], "div", .ofList [("class", "y")], [.element "p" (.ofList [("id", "a")]) [.text "y"]],
    .html⟩

/-- Down to the paragraph and back up to its section: `//div/p[@id='a']/..`. -/
def backToSection : Trail where
  first := ⟨2, .element "div" []⟩
  later := [⟨1, .element "p" [.attributeIs "id" "a"]⟩, ⟨1, .parent⟩]
  shared := ⟨by decide, rfl, by decide, by decide⟩
  single := by decide

theorem evaluate_backToSection :
    Selector.evaluate sectionAround "//div/p[@id='a']/../@class" = .ok [.text "x", .text "y"] ∧
      Query.evaluate sectionAround "//div/p[@id='a']/../@class" = .ok [.text "x"] ∧
      ¬∃ values, Selector.evaluate sectionAround "//div/p[@id='a']/../@class" = .ok values ∧
        Query.evaluate sectionAround "//div/p[@id='a']/../@class" = .ok values := by
  have htext : backToSection.text (some (.attribute "class")) = "//div/p[@id='a']/../@class" := by
    decide
  have hlegible : ∀ a ∈ some (Accessor.attribute "class"), (Target.accessor a).Legible := by
    rintro _ ⟨⟩
    exact plain_of_identifier (by decide)
  obtain ⟨hstepwise, hqueried⟩ := evaluate_trail (d := sectionAround) backToSection hlegible
  obtain ⟨hquery, hagree⟩ := hqueried (by decide)
  obtain ⟨hexact, -⟩ := hagree (by decide) (by decide)
  rw [htext] at hstepwise hquery hexact
  have houter : backToSection.selected .query sectionAround = [outerSection] := rfl
  have hboth : backToSection.selected .stepwise sectionAround = [outerSection, heldSection] := rfl
  refine ⟨hstepwise, hquery, fun hsame => ?_⟩
  have hmissed : heldSection ∉ backToSection.selected .query sectionAround := fun hmem => by
    rw [houter, List.mem_singleton] at hmem
    exact absurd (congrArg Element.place hmem) (by decide)
  have hnothing := hexact.1 hsame heldSection (hboth ▸ .tail _ (.head _)) hmissed
  cases hnothing

end Gleaner
