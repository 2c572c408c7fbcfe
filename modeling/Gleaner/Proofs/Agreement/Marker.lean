/-
# A double slash in front of the last step

In front of a step to elements of a name, a double slash leads to all below, and both readings take
it so. In front of values, later siblings, the parent or the element itself they part: the stepwise
reading goes on from the elements before it and does not look at the slashes, while the path query
goes on from these and from all below them. Where both find the same elements before the last step,
the second finds what the first finds behind it, and the two yield the same values exactly when
nothing is read from what only the second finds.

Key definitions: `Target.IsTail`, `Trail.markedText`, `Trail.near`, `Trail.far`.
Key theorems: `Selector.evaluate_markedText`, `Query.evaluate_markedText`, `mem_far_of_mem_near`.
-/
import Gleaner.Proofs.Agreement.Answers

namespace Gleaner

open Gleaner.Text Gleaner.Markup Gleaner.Selector

variable {d : Document}

/-! ### The last step -/

/-- A step that goes to no elements of a name: to values, later siblings, the parent or the element
itself. -/
def Selector.Target.IsTail : Target → Prop
  | .element .. => False
  | .accessor a => (Target.accessor a).Legible
  | t => t.IsShared

/-- The elements that a last step leads to, read step by step, from those of a trail. -/
def Selector.Trail.near (t : Trail) (d : Document) (tail : Target) : List Element :=
  Leg.reached .stepwise d ((t.selected .stepwise d).map (·.place)) ⟨2, tail⟩

/-- The elements that a last step of a path query leads to from those of a trail and from all below
them. -/
def Selector.Trail.far (t : Trail) (d : Document) (tail : Target) : List Element :=
  Leg.reached .query d ((andBelow d (t.selected .query d)).map (·.place)) ⟨2, tail⟩

/-- A trail as it is written, with a last step behind two slashes. -/
def Selector.Trail.markedText (t : Trail) (tail : Target) : String :=
  String.ofList (written (t.legs ++ [⟨2, tail⟩]))

/-- A last step to values stays with the elements before it. -/
theorem reached_accessor (r : Reading) {list : List Element} (h : d.inOrder list = list)
    (a : Accessor) : Leg.reached r d (list.map (·.place)) ⟨2, .accessor a⟩ = list := by
  rw [Leg.reached_of_all _ rfl fun _ => rfl, Target.axis, alongAny_self, h]

/-- A last step that both readings know may stand behind a trail. -/
theorem shared_concat (t : Trail) {tail : Target} (htail : tail.IsShared) :
    Shared t.first (t.later ++ [⟨2, tail⟩]) := by
  have hshared : ∀ l ∈ (t.first :: t.later) ++ [⟨2, tail⟩], l.target.IsShared :=
    List.forall_mem_append.2 ⟨t.shared.shared, List.forall_mem_singleton.2 htail⟩
  have hslashes : ∀ l ∈ t.later ++ [⟨2, tail⟩], l.slashes = 1 ∨ l.slashes = 2 :=
    List.forall_mem_append.2 ⟨t.shared.later_slashes, List.forall_mem_singleton.2 (.inr rfl)⟩
  exact ⟨hshared, t.shared.first_element, t.shared.first_slashes, hslashes⟩

/-- Read step by step, the last step goes on from the elements of the trail alone. -/
theorem Selector.evaluate_markedText (t : Trail) {tail : Target} (htail : tail.IsTail) :
    Selector.evaluate d (t.markedText tail) =
      .ok (readElements tail.accessor? (t.near d tail)) := by
  have hshared (h : tail.IsShared) : Selector.evaluate d (t.markedText tail) =
      .ok (readElements none (t.near d tail)) := by
    have hevaluate := evaluate_written (d := d) (shared_concat t h)
    rwa [selected, follow_concat] at hevaluate
  cases tail with
  | element name filters => exact htail.elim
  | accessor a =>
    rw [Trail.near, reached_accessor .stepwise (inOrder_selected t .stepwise d)]
    exact evaluate_written_accessor t.shared Nat.two_pos htail
  | sibling name filters => exact hshared htail
  | parent => exact hshared htail
  | self => exact hshared htail

/-- The step that is put behind a query leads from elements to themselves and all below them. -/
theorem Query.followSteps_selfSegment {list : List Element} (h : ∀ e ∈ list, e ∈ d.elements) :
    Query.followSteps d selfSegment.steps (list.map Node.element) =
      .ok ((andBelow d list).map Node.element) := by
  have hconditions : ∀ f ∈ ([] : List Filter), (filterExpr f).DecidedBy d (filterHolds f) := by
    simp
  have hdecided := Step.decidedBy_of_conditions hconditions .descendantOrSelf .anyElement
  have hbelow : nodesAlongAny d .descendantOrSelf ((list.map Node.element).map Node.place) =
      (andBelow d list).map Node.element := by
    rw [map_place_element]
    exact nodesAlongAny_selfAndBelow h
  have hsteps : selfSegment.steps =
      [⟨.descendantOrSelf, .anyElement, ([] : List Filter).map filterExpr⟩] := rfl
  rw [hsteps, followSteps_cons hdecided, followSteps, hbelow, List.filter_map]
  refine congrArg (fun nodes => Except.ok (List.map Node.element nodes)) ?_
  exact List.filter_eq_self.2 fun _ _ => rfl

/-- As a path query, a last step to elements goes on from those of the trail and all below them. -/
theorem Query.evaluate_markedText_of_shared (t : Trail)
    (hinside : t.StaysInside d) {tail : Target}
    (h : tail.IsShared) (helement : tail.isElement = false) :
    Query.evaluate d (t.markedText tail) = .ok (readElements none (t.far d tail)) := by
  have hlast : (Leg.mk 2 tail).target.IsShared := h
  have hslashes : (Leg.mk 2 tail).slashes ≠ 1 := by simp
  have hmem : ∀ e ∈ t.selected .query d, e ∈ d.elements := fun _ => Trail.mem_elements
  obtain ⟨nodes, hnodes, hfar⟩ := followSteps_marked hlast hslashes helement hmem
  have hwritten : written (t.legs ++ [⟨2, tail⟩]) =
      written t.legs ++ [segmentOf ⟨2, tail⟩].flatMap Segment.written := by
    simp [written, Segment.written, segmentOf, Leg.written]
  have hsplit : splitAccessor (written (t.legs ++ [⟨2, tail⟩])) =
      (written (t.legs ++ [⟨2, tail⟩]), none) := splitAccessor_written (shared_concat t h)
  have hrow := row_of_shared (shared_concat t h)
  have hmore : followSteps d ([segmentOf ⟨2, tail⟩].flatMap Segment.steps)
      ((t.selected .query d).map Node.element) = .ok nodes := by
    rw [List.flatMap_singleton]
    exact hnodes
  rw [hwritten] at hsplit
  rw [List.map_append] at hrow
  rw [Trail.far, ← hfar, Trail.markedText, hwritten]
  exact evaluate_of_trail t hinside hrow hsplit hmore

/-- As a path query, a last step to values reads those of the elements of the trail and all below
them. -/
theorem Query.evaluate_markedText_accessor (t : Trail)
    (hinside : t.StaysInside d) {a : Accessor}
    (ha : (Target.accessor a).Legible) :
    Query.evaluate d (t.markedText (.accessor a)) =
      .ok (readElements (some a) (t.far d (.accessor a))) := by
  have hrow := (row_of_shared t.shared).concat faithful_selfSegment (by decide)
  have hsplit : splitAccessor (written (t.legs ++ [⟨2, .accessor a⟩])) =
      (written t.legs ++ [selfSegment].flatMap Segment.written, some a) :=
    splitAccessor_marked t.shared ha
  have hmore : followSteps d ([selfSegment].flatMap Segment.steps)
      ((t.selected .query d).map Node.element) =
        .ok ((andBelow d (t.selected .query d)).map Node.element) :=
    followSteps_selfSegment fun _ => Trail.mem_elements
  have hevaluate := evaluate_of_trail t hinside hrow hsplit hmore
  rw [Trail.far, reached_accessor .query (inOrder_andBelow d _)]
  rwa [filterMap_element?] at hevaluate

/-- As a path query, the last step goes on from the elements of the trail and all below them. -/
theorem Query.evaluate_markedText (t : Trail)
    (hinside : t.StaysInside d) {tail : Target}
    (htail : tail.IsTail) : Query.evaluate d (t.markedText tail) =
      .ok (readElements tail.accessor? (t.far d tail)) := by
  cases tail with
  | element name filters => exact htail.elim
  | accessor a => exact evaluate_markedText_accessor t hinside htail
  | sibling name filters => exact evaluate_markedText_of_shared t hinside htail rfl
  | parent => exact evaluate_markedText_of_shared t hinside htail rfl
  | self => exact evaluate_markedText_of_shared t hinside htail rfl

/-- Some elements are among themselves and all below them. -/
theorem mem_andBelow {list : List Element} {e : Element} (hmem : e ∈ d.elements) (he : e ∈ list) :
    e ∈ andBelow d list := by
  refine List.mem_filter.2 ⟨hmem, List.any_eq_true.2 ⟨e.place, List.mem_map_of_mem he, ?_⟩⟩
  exact selfOrBelow_iff.2 List.prefix_rfl

/-- Where a trail leads to no more elements step by step than as a path query, neither does a last
step behind it. -/
theorem mem_far_of_mem_near (hd : NamesApart d) (hhtml : OfHtml d) (t : Trail)
    (hselected : ∀ e ∈ t.selected .stepwise d, e ∈ t.selected .query d) {tail : Target}
    (htail : tail.isElement = false) : ∀ e ∈ t.near d tail, e ∈ t.far d tail := by
  intro e he
  obtain ⟨hmem, ⟨p, hp, hreach⟩, hmeets⟩ := mem_reached_iff.1 he
  obtain ⟨f, hf, rfl⟩ := List.mem_map.1 hp
  have hbelow : f ∈ andBelow d (t.selected .query d) :=
    mem_andBelow (Trail.mem_elements hf) (hselected f hf)
  refine mem_reached_iff.2 ⟨hmem, ⟨_, List.mem_map_of_mem hbelow, hreach⟩, ?_⟩
  have hdescends : (Leg.mk 2 tail).descends = false := by rw [Leg.descends, htail, Bool.false_and]
  rw [Leg.meets_of_not_descends hdescends, Target.accepts_eq (hhtml e hmem) (hd e hmem)] at hmeets
  rwa [Leg.meets_of_not_descends hdescends]

theorem Selector.Target.IsTail.isElement {tail : Target} (h : tail.IsTail) :
    tail.isElement = false := by
  cases tail with
  | element name filters => exact h.elim
  | _ => rfl

/-- **What a double slash in front of the last step does.** Where a path of steps to elements goes
on with a last step of another kind behind two slashes, the stepwise reading takes that step from
the elements that it comes to on the path only, and the path query from those that it comes to and
from all below them. Among elements of HTML, where both come to the same on the path, the two yield
the same values exactly when nothing is read from the elements that only the path query comes
to. -/
theorem evaluate_marked (t : Trail) (helements : ∀ l ∈ t.later, l.target.isElement = true)
    {tail : Target} (htail : tail.IsTail) :
    Selector.evaluate d (t.markedText tail) =
        .ok (readElements tail.accessor? (t.near d tail)) ∧
      Query.evaluate d (t.markedText tail) =
        .ok (readElements tail.accessor? (t.far d tail)) ∧
      (NamesApart d → OfHtml d →
        (∀ e ∈ t.selected .stepwise d, e ∈ t.selected .query d) →
          ((∃ values, Selector.evaluate d (t.markedText tail) = .ok values ∧
              Query.evaluate d (t.markedText tail) = .ok values) ↔
            ∀ e ∈ t.far d tail, e ∉ t.near d tail → readElements tail.accessor? [e] = [])) := by
  have hnear := Selector.evaluate_markedText (d := d) t htail
  have hfar := Query.evaluate_markedText t (staysInside_of_isElement d _ helements) htail
  refine ⟨hnear, hfar, fun hd hhtml hselected => ?_⟩
  have hread : readElements tail.accessor? (t.near d tail) =
      readElements tail.accessor? (t.far d tail) ↔
        ∀ e ∈ t.far d tail, e ∉ t.near d tail → readElements tail.accessor? [e] = [] :=
    readElements_eq_iff_of_subset (inOrder_reached .stepwise d _ _) (inOrder_reached .query d _ _)
      (mem_far_of_mem_near hd hhtml t hselected htail.isElement) tail.accessor?
  rw [← hread, hnear, hfar]
  constructor
  · rintro ⟨values, hvalues, hvalues'⟩
    rw [Except.ok.inj hvalues, Except.ok.inj hvalues']
  · intro heq
    exact ⟨_, rfl, by rw [heq]⟩

/-- Two elements, one in the other, with an attribute of the same name:
`<div a="1"><p a="2">x</p></div>`. -/
def nestedValues : Document :=
  ⟨[.element "div" (.ofList [("a", "1")]) [.element "p" (.ofList [("a", "2")]) [.text "x"]]]⟩

/-- The trail of a single step, `//div`. -/
def anySection : Trail where
  first := ⟨2, .element "div" []⟩
  later := []
  shared := ⟨by decide, rfl, by decide, by decide⟩
  single := by decide

/-- A case in which they part. -/
theorem evaluate_nestedValues :
    Selector.evaluate nestedValues "//div//@a" = .ok [.text "1"] ∧
      Query.evaluate nestedValues "//div//@a" = .ok [.text "1", .text "2"] ∧
      ¬∀ e ∈ anySection.far nestedValues (.accessor (.attribute "a")),
        e ∉ anySection.near nestedValues (.accessor (.attribute "a")) →
          readElements (some (.attribute "a")) [e] = [] := by
  have htext : anySection.markedText (.accessor (.attribute "a")) = "//div//@a" := by decide
  have hnear : readElements (some (.attribute "a"))
      (anySection.near nestedValues (.accessor (.attribute "a"))) = [.text "1"] := rfl
  have hfar : readElements (some (.attribute "a"))
      (anySection.far nestedValues (.accessor (.attribute "a"))) = [.text "1", .text "2"] := rfl
  have htail : (Target.accessor (.attribute "a")).IsTail := plain_of_identifier (by decide)
  have hselected : anySection.selected .stepwise nestedValues =
      anySection.selected .query nestedValues := rfl
  obtain ⟨hstepwise, hqueried, hexact⟩ :=
    evaluate_marked (d := nestedValues) anySection (by decide) htail
  have hagree := hexact (by decide) (by decide) fun e he => hselected ▸ he
  rw [htext, Target.accessor?, hnear] at hstepwise
  rw [htext, Target.accessor?, hfar] at hqueried
  rw [htext, hstepwise, hqueried, Target.accessor?] at hagree
  refine ⟨hstepwise, hqueried, fun hnothing => ?_⟩
  obtain ⟨values, hvalues, hvalues'⟩ := hagree.2 hnothing
  cases hvalues
  cases hvalues'

end Gleaner
