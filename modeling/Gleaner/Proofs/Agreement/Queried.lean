/-
# Trails read as path queries

The conditions of a trail look at nothing but the attributes of the node that they are asked of. So
each of its steps leads from some elements to the elements that the trail says; a pair of slashes in
front of a step to elements is a step to all below, and children of those are what is attached there.

Key definitions: `nodeValues`, `filterHolds`, `targetAccepts`.
Key theorems: `filterExpr_decidedBy`, `targetStep_decidedBy`, `followSteps_segment`,
`followSteps_trail`.
-/
import Gleaner.Proofs.Agreement.Spelled
import Gleaner.Proofs.Query.Following

namespace Gleaner.Query

open Gleaner.Text Gleaner.Markup Gleaner.Selector

variable {d : Document}

/-! ### Conditions -/

/-- The values of the attributes of a name at a node. -/
def nodeValues (name : String) : Node → List String
  | .document => []
  | .element e => Reading.query.values e name

/-- A node passes a filter; the document has no attributes. -/
def filterHolds (f : Filter) : Node → Bool
  | .document => false
  | .element e => f.holds .query e

theorem eval_attributePath (d : Document) (c : Context) (name : String) :
    (Expr.path (attributePath name)).eval d c = .ok (.strings (nodeValues name c.node)) := by
  unfold Expr.eval
  rw [attributePath, Path.eval, followSteps]
  cases c.node with
  | document => rfl
  | element e =>
    have hread : [e].flatMap (ValueStep.attribute (some name)).read =
        Reading.query.values e name := List.append_nil _
    exact congrArg (fun strings => Except.ok (Value.strings strings)) hread

/-- A comparison of strings with a text asks whether one of them is the text. -/
theorem compare_strings (d : Document) (strings : List String) (text : String) :
    (Value.strings strings).compare d .equal (.scalar (.text text)) = strings.any (· == text) := by
  unfold Value.compare Value.operands textsAgainst
  simp [List.any_map, Scalar.compare, Scalar.agrees, Function.comp_def]

/-- The condition of a filter holds of the nodes that pass the filter, at whatever position. -/
theorem filterExpr_decidedBy {f : Filter} (h : f.IsShared) :
    (filterExpr f).DecidedBy d (filterHolds f) := by
  intro c
  cases f with
  | attributeIs name value =>
    refine ⟨.scalar (.boolean ((nodeValues name c.node).any (· == value))), ?_, ?_⟩
    · rw [filterExpr, Expr.eval, eval_attributePath, Expr.eval]
      simp only [bind, Except.bind, pure, Except.pure, compare_strings]
    · cases c.node <;> rfl
  | attributeHolds name value =>
    let first := ((nodeValues name c.node).headD "").toList
    refine ⟨.scalar (.boolean (occursIn value.toList first)), ?_, ?_⟩
    · rw [filterExpr, Expr.eval, evalAll, eval_attributePath, evalAll, Expr.eval, evalAll]
      rfl
    · have hempty : occursIn value.toList [] = false := by
        simpa [occursIn] using h.2.2
      change occursIn value.toList first = filterHolds (.attributeHolds name value) c.node
      cases hnode : c.node with
      | document =>
        have hfirst : first = [] := by simp [first, hnode, nodeValues]
        rw [hfirst]
        exact hempty
      | element e =>
        have hfirst : first = ((Reading.query.values e name).headD "").toList := by
          rw [← show nodeValues name (.element e) = Reading.query.values e name from rfl, ← hnode]
        rw [hfirst, filterHolds, Filter.holds]
        cases Reading.query.values e name with
        | nil => exact hempty
        | cons v rest => rfl
  | hasAttribute name =>
    refine ⟨_, eval_attributePath d c name, ?_⟩
    cases c.node <;> rfl
  | textHolds value => exact h.elim
  | index n => exact h.elim

/-! ### Steps -/

/-- A node passes a step that both readings know. -/
def targetAccepts (t : Target) (n : Node) : Bool :=
  (targetStep t).test.accepts n && t.filters.all (filterHolds · n)

/-- A step keeps the nodes along its axis that pass it. -/
theorem targetStep_decidedBy {t : Target} (h : t.IsShared) :
    (targetStep t).DecidedBy d (targetAccepts t) := by
  have hconditions : ∀ f ∈ t.filters, (filterExpr f).DecidedBy d (filterHolds f) := by
    intro f hf
    cases t with
    | element name filters => exact filterExpr_decidedBy (h.2 f hf)
    | sibling name filters => exact filterExpr_decidedBy (h.2 f hf)
    | _ => cases hf
  have hstep : targetStep t =
      ⟨(targetStep t).axis, (targetStep t).test, t.filters.map filterExpr⟩ := by
    cases t <;> rfl
  rw [hstep]
  exact Step.decidedBy_of_conditions hconditions _ _

/-- An element passes a step of a query when it passes the step of the trail. -/
theorem targetAccepts_element {t : Target} (e : Element) :
    targetAccepts t (.element e) = t.accepts .query e := by
  have hname (name : String) : (nodeTest name).accepts (.element e) =
      (name == "*" || Reading.query.names e name) := by
    unfold nodeTest
    by_cases hstar : name = "*"
    · simp [hstar, NodeTest.accepts]
    · rw [if_neg hstar, NodeTest.accepts, sameName_comm, beq_false_of_ne hstar, Bool.false_or]
      rfl
  cases t with
  | element name filters => exact congrArg (· && _) (hname name)
  | sibling name filters => exact congrArg (· && _) (hname name)
  | _ => rfl

/-- The elements among the nodes that a step leads to. -/
theorem elements_nodesAlongAny (axis : Axis) (places : List Place) (t : Target) :
    ((nodesAlongAny d axis places).filter (targetAccepts t)).filterMap Node.element? =
      (d.alongAny axis places).filter fun e => t.accepts .query e := by
  rw [filterMap_element?_nodesAlongAny]
  exact List.filter_congr fun e _ => targetAccepts_element e

/-- Along an axis that does not come to the document, elements are kept. -/
theorem filter_nodesAlongAny {axis : Axis} {places : List Place}
    (h : ∀ p ∈ places, comesTo d axis p [] = false) {keep : Node → Bool} {keeps : Element → Bool}
    (hkeep : ∀ e, keep (.element e) = keeps e) :
    (nodesAlongAny d axis places).filter keep =
      ((d.alongAny axis places).filter keeps).map Node.element := by
  rw [nodesAlongAny_of_inside h, List.filter_map]
  exact congrArg _ (List.filter_congr fun e _ => hkeep e)

theorem axis_targetStep (t : Target) : (targetStep t).axis = t.axis .child := by
  cases t <;> rfl

/-- Of the steps of a trail only one to the parent of an element that has none among the elements
comes to the document. -/
theorem comesTo_document {t : Target} {reach : Reach} {p : Place} (h : t.isElement = true ∨ p ≠ [])
    (hparent : t = .parent → d.holds p.dropLast = true) :
    comesTo d (t.axis reach) p [] = false := by
  have hself (hne : p ≠ []) : comesTo d .self p [] = false := by
    rw [comesTo_of_ne_parent (by decide)]
    exact beq_false_of_ne hne
  cases t with
  | element name filters => cases reach <;> simp [Target.axis, comesTo, Axis.reaches,
      Place.isParentOf, Place.isAbove]
  | sibling name filters => simp [Target.axis, comesTo, Axis.reaches, Place.isEarlierSiblingOf]
  | parent =>
    have hheld := hparent rfl
    have hroot : Place.isParentOf [] p = false := by
      rw [Bool.eq_false_iff]
      intro htop
      rw [← (isParentOf_iff.1 htop).2, holds_nil] at hheld
      cases hheld
    have hattached : d.isLoose p = false := by
      rw [Document.isLoose, hheld, Bool.not_true, Bool.and_false]
    rw [Target.axis, comesTo, Axis.reaches, hroot, hattached, Bool.and_false, Bool.or_false]
  | self => exact hself (h.resolve_left (by simp [Target.isElement]))
  | accessor a => exact hself (h.resolve_left (by simp [Target.isElement]))

/-- A step of a trail leads from nodes to the elements that the trail says. -/
theorem followSteps_segment {l : Leg} (h : l.target.IsShared)
    (hsingle : l.slashes = 1 ∨ l.target.isElement = true) {nodes : List Node}
    (hdocument : ∀ p ∈ nodes.map Node.place, comesTo d (l.target.axis l.reach) p [] = false)
    (rest : List Step) :
    followSteps d ((segmentOf l).steps ++ rest) nodes =
      followSteps d rest ((l.reached .query d (nodes.map Node.place)).map Node.element) := by
  have hstep : (segmentOf l).step = targetStep l.target := rfl
  by_cases hn : l.slashes = 1
  · have hreach : l.reach = .child := if_pos hn
    have hmeets (e : Element) : targetAccepts l.target (.element e) = l.meets .query d e := by
      rw [Leg.meets_of_not_descends (by rw [Leg.descends, hreach]; simp), targetAccepts_element]
    rw [Segment.steps_one hn, hstep, List.singleton_append,
      followSteps_cons (targetStep_decidedBy h), Leg.reached, ← filter_nodesAlongAny hdocument hmeets,
      hreach, ← axis_targetStep]
  · have hreach : l.reach = .below := if_neg hn
    have helement := hsingle.resolve_left hn
    have haxis : (targetStep l.target).axis = .child ∧ l.target.axis l.reach = .descendant := by
      cases ht : l.target with
      | element name filters => exact ⟨rfl, by rw [hreach]; rfl⟩
      | _ => rw [ht] at helement; cases helement
    have hmeets (e : Element) : (targetAccepts l.target (.element e) &&
        Node.isAttached d (.element e)) = l.meets .query d e := by
      rw [Leg.meets, Leg.descends, helement, hreach, targetAccepts_element]
      rfl
    rw [haxis.2] at hdocument
    rw [Segment.steps_other hn, hstep, List.cons_append, List.singleton_append,
      followSteps_selfAndBelow, followSteps_cons (targetStep_decidedBy h), haxis.1,
      along_selfOrBelow_child, List.filter_filter, Leg.reached, haxis.2,
      filter_nodesAlongAny hdocument hmeets]

theorem map_place_element (list : List Element) :
    (list.map Node.element).map Node.place = list.map (·.place) := by
  rw [List.map_map]
  rfl

/-- Steps of a trail lead from elements to the elements that the trail says. -/
theorem followSteps_legs : ∀ {legs : List Leg} {list : List Element},
    (∀ e ∈ list, e ∈ d.elements) → (∀ l ∈ legs, l.target.IsShared) →
      (∀ l ∈ legs, l.slashes = 1 ∨ l.target.isElement = true) → StaysInside d list legs →
      ∀ rest, followSteps d ((legs.map segmentOf).flatMap Segment.steps ++ rest)
          (list.map Node.element) =
        followSteps d rest ((follow .query d list legs).map Node.element)
  | [], _, _, _, _, _, _ => rfl
  | l :: legs, list, hlist, hshared, hsingle, hinside, rest => by
    have hdocument : ∀ p ∈ (list.map Node.element).map Node.place,
        comesTo d (l.target.axis l.reach) p [] = false := by
      intro p hp
      rw [map_place_element] at hp
      obtain ⟨e, he, rfl⟩ := List.mem_map.1 hp
      exact comesTo_document (.inr (place_ne_nil (hlist e he))) fun ht => hinside.1 ht e he
    have hstep := followSteps_segment (d := d) (hshared l List.mem_cons_self)
      (hsingle l List.mem_cons_self) hdocument
    rw [List.map_cons, List.flatMap_cons, List.append_assoc, hstep, map_place_element]
    exact followSteps_legs (fun _ he => (mem_reached_iff.1 he).1)
      (fun m hm => hshared m (List.mem_cons_of_mem _ hm))
      (fun m hm => hsingle m (List.mem_cons_of_mem _ hm)) hinside.2 rest

/-- A trail leads from the document to its elements. -/
theorem followSteps_trail (t : Trail) (hinside : t.StaysInside d) (rest : List Step) :
    followSteps d ((t.legs.map segmentOf).flatMap Segment.steps ++ rest) [.document] =
      followSteps d rest ((t.selected .query d).map Node.element) := by
  have hdocument : ∀ p ∈ [Node.document].map Node.place,
      comesTo d (t.first.target.axis t.first.reach) p [] = false := by
    intro p _
    refine comesTo_document (.inl t.shared.first_element) fun ht => ?_
    have helement := t.shared.first_element
    rw [ht] at helement
    cases helement
  have hfirst := followSteps_segment (d := d) (t.shared.shared _ List.mem_cons_self)
    (.inr t.shared.first_element) hdocument
  rw [Trail.legs, List.map_cons, List.flatMap_cons, List.append_assoc, hfirst]
  exact followSteps_legs (fun _ he => (mem_reached_iff.1 he).1)
    (fun l hl => t.shared.shared l (List.mem_cons_of_mem _ hl)) t.single hinside rest

/-- What a double slash stands for leads from elements to them and to all below them. -/
theorem nodesAlongAny_selfAndBelow {list : List Element} (hlist : ∀ e ∈ list, e ∈ d.elements) :
    nodesAlongAny d .descendantOrSelf (list.map (·.place)) =
      (andBelow d list).map Node.element := by
  refine nodesAlongAny_of_inside fun p hp => ?_
  obtain ⟨e, he, rfl⟩ := List.mem_map.1 hp
  rw [comesTo_of_ne_parent (by decide), Bool.eq_false_iff]
  intro hreach
  exact place_ne_nil (hlist e he) (List.prefix_nil.1 (selfOrBelow_iff.1 hreach))

/-- A step that goes to no elements of a name, behind two slashes, leads from elements and all below
them. -/
theorem followSteps_marked {l : Leg} (h : l.target.IsShared) (hn : l.slashes ≠ 1)
    (helement : l.target.isElement = false) {list : List Element}
    (hlist : ∀ e ∈ list, e ∈ d.elements) :
    ∃ nodes, followSteps d (segmentOf l).steps (list.map Node.element) = .ok nodes ∧
      nodes.filterMap Node.element? = l.reached .query d ((andBelow d list).map (·.place)) := by
  have hstep : (segmentOf l).step = targetStep l.target := rfl
  have haxis : (targetStep l.target).axis = l.target.axis l.reach := by
    rw [axis_targetStep]
    cases ht : l.target with
    | element name filters => rw [ht] at helement; cases helement
    | _ => rfl
  rw [Segment.steps_other hn, hstep, followSteps_selfAndBelow, map_place_element,
    nodesAlongAny_selfAndBelow hlist, followSteps_cons (targetStep_decidedBy h), followSteps,
    map_place_element, haxis]
  refine ⟨_, rfl, (elements_nodesAlongAny _ _ _).trans (List.filter_congr fun e _ => ?_)⟩
  rw [Leg.meets_of_not_descends (by rw [Leg.descends, helement, Bool.false_and])]

end Gleaner.Query
