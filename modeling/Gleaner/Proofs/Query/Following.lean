/-
# Following steps from many nodes at once

A step is followed from each node on its own, and what is found is put in document order. Where the
conditions of the step have a verdict on each node by itself, this comes to one question asked of
each node of the document: does it lie along the axis from one of the nodes, and does it pass the
test and the conditions?

Key definitions: `allNodes`, `comesTo`, `nodesAlongAny`, `Expr.DecidedBy`, `Step.DecidedBy`,
`Step.JudgedBy`.
Key theorems: `nodesInOrder_flatMap`, `along_selfOrBelow_child`, `Step.judgedBy_of_conditions`,
`followSteps_cons_eq_ok_iff`, `followSteps_cons`, `elementsOf_path_eq_ok_iff`,
`followSteps_selfAndBelow`.
-/
import Gleaner.Proofs.Markup.Place
import Gleaner.Proofs.Query.Verdict
import Gleaner.Query.Basic

namespace Gleaner.Query

open Gleaner.Markup

/-! ### Nodes along an axis -/

/-- The nodes of a document, in document order. -/
def allNodes (d : Document) : List Node :=
  .document :: d.elements.map Node.element

/-- From one place of a document, an axis comes to another: the axis reaches it, or it is that of the
document and the node right above the first is no element, which counts as the document. -/
def comesTo (d : Document) (axis : Axis) (p q : Place) : Bool :=
  axis.reaches p q || (axis == .parent && q.isEmpty && d.isLoose p)

/-- The nodes along an axis from any of some places, in document order and each once. -/
def nodesAlongAny (d : Document) (axis : Axis) (places : List Place) : List Node :=
  (allNodes d).filter fun n => places.any fun p => comesTo d axis p n.place

theorem document_mem_allNodes (d : Document) : Node.document ∈ allNodes d :=
  List.mem_cons_self

theorem element_mem_allNodes {d : Document} {e : Element} :
    Node.element e ∈ allNodes d ↔ e ∈ d.elements := by
  simp [allNodes]

/-- To an element an axis comes where it reaches its place. -/
theorem comesTo_of_ne_nil {d : Document} {q : Place} (h : q ≠ []) (axis : Axis) (p : Place) :
    comesTo d axis p q = axis.reaches p q := by
  have hnil : q.isEmpty = false := by simpa using h
  rw [comesTo, hnil, Bool.and_false, Bool.false_and, Bool.or_false]

theorem comesTo_of_ne_parent {d : Document} {axis : Axis} (h : axis ≠ .parent) (p q : Place) :
    comesTo d axis p q = axis.reaches p q := by
  rw [comesTo, beq_false_of_ne h, Bool.false_and, Bool.false_and, Bool.or_false]

theorem nodeAt_eq_element_iff {d : Document} {place : Place} {e : Element} :
    nodeAt d place = .element e ↔ e ∈ d.elements ∧ e.place = place := by
  unfold nodeAt
  constructor
  · intro h
    split at h
    · next f hf =>
      cases h
      have hplace := List.find?_some hf
      exact ⟨List.mem_of_find?_eq_some hf, eq_of_beq hplace⟩
    · cases h
  · rintro ⟨he, rfl⟩
    split
    · next f hf =>
      have hplace := List.find?_some hf
      exact congrArg _ (eq_of_place_eq (List.mem_of_find?_eq_some hf) he (eq_of_beq hplace))
    · next hnone => exact absurd (beq_self_eq_true e.place) (List.find?_eq_none.1 hnone e he)

theorem nodeAt_eq_document_iff {d : Document} {place : Place} :
    nodeAt d place = .document ↔ d.holds place = false := by
  rw [Document.holds, List.any_eq_false]
  cases hnode : nodeAt d place with
  | document =>
    refine iff_of_true rfl fun e he hplace => ?_
    have helement := nodeAt_eq_element_iff.2 ⟨he, eq_of_beq hplace⟩
    rw [hnode] at helement
    cases helement
  | element e =>
    obtain ⟨he, hplace⟩ := nodeAt_eq_element_iff.1 hnode
    exact iff_of_false (by simp) fun hno => hno e he (beq_iff_eq.2 hplace)

/-- The nearest place above one is that of its parent. -/
theorem take_one_above (place : Place) :
    (Place.above place).take 1 = if place = [] then [] else [place.dropLast] := by
  by_cases hplace : place = []
  · rw [hplace]
    rfl
  · have habove := above_concat place.dropLast (place.getLast hplace)
    rw [List.dropLast_concat_getLast hplace] at habove
    rw [if_neg hplace, habove]
    rfl

/-- The node right above a place is an element if one is there, and else the document. -/
theorem nodesAlong_parent (d : Document) (place : Place) :
    nodesAlong d .parent place = if place = [] then [] else [nodeAt d place.dropLast] := by
  rw [nodesAlong, take_one_above]
  split <;> rfl

/-- No element stands at the place of the document. -/
theorem holds_nil (d : Document) : d.holds [] = false := by
  rw [Document.holds, List.any_eq_false]
  exact fun e he hplace => place_ne_nil he (eq_of_beq hplace)

theorem document_mem_nodesAlong {d : Document} {axis : Axis} {place : Place} :
    Node.document ∈ nodesAlong d axis place ↔ comesTo d axis place [] = true := by
  have helements : Node.document ∉ (d.along axis place).map Node.element := by simp
  have habove : Node.document ∈ (Place.above place).map (nodeAt d) ↔
      Place.isAbove [] place = true := by
    rw [← mem_above_iff, List.mem_map]
    constructor
    · rintro ⟨q, hq, -⟩
      rw [mem_above_iff] at hq ⊢
      exact isAbove_iff.2 ⟨List.nil_prefix, Nat.zero_lt_of_lt (isAbove_iff.1 hq).2⟩
    · exact fun h => ⟨[], h, nodeAt_eq_document_iff.2 (holds_nil d)⟩
  cases axis with
  | parent =>
    rw [nodesAlong_parent, comesTo]
    by_cases hplace : place = []
    · simp [hplace, Document.isLoose, Axis.reaches, Place.isParentOf]
    · have hloose : d.holds place.dropLast = false ↔
          place.dropLast = [] ∨ d.isLoose place = true := by
        have hnot : d.isLoose place = true ↔ ¬d.isLoose place = false := by simp
        rw [hnot, isLoose_eq_false_iff, ← Document.holds_iff]
        by_cases htop : place.dropLast = []
        · simp [htop, holds_nil]
        · simp [htop]
      have hreaches : Axis.parent.reaches place [] = true ↔ place.dropLast = [] :=
        isParentOf_iff.trans (by rw [and_iff_right hplace, eq_comm])
      rw [if_neg hplace, List.mem_singleton, eq_comm, nodeAt_eq_document_iff, hloose,
        Bool.or_eq_true, hreaches]
      simp
  | ancestor => rw [comesTo_of_ne_parent (by decide)]; exact habove
  | ancestorOrSelf =>
    rw [comesTo_of_ne_parent (by decide), nodesAlong, List.map_cons, List.mem_cons, habove]
    cases place with
    | nil => simp [Axis.reaches, (nodeAt_eq_document_iff.2 (holds_nil d)).symm]
    | cons i rest => simp [Axis.reaches, Place.isAbove]
  | self | descendantOrSelf =>
    rw [comesTo_of_ne_parent (by decide), nodesAlong]
    cases place with
    | nil => simp [Axis.reaches]
    | cons i rest => simp [Axis.reaches, Place.isAbove]
  | precedingSibling =>
    rw [comesTo_of_ne_parent (by decide), nodesAlong, List.mem_reverse]
    exact iff_of_false helements (by cases place <;> simp [Axis.reaches, Place.isEarlierSiblingOf])
  | child | descendant | followingSibling =>
    rw [comesTo_of_ne_parent (by decide)]
    exact iff_of_false helements (by
      simp [Axis.reaches, Place.isParentOf, Place.isAbove, Place.isEarlierSiblingOf])

theorem element_mem_nodesAlong {d : Document} {axis : Axis} {place : Place} {e : Element} :
    Node.element e ∈ nodesAlong d axis place ↔
      e ∈ d.elements ∧ axis.reaches place e.place = true := by
  have helements : Node.element e ∈ (d.along axis place).map Node.element ↔
      e ∈ d.elements ∧ axis.reaches place e.place = true := by
    simp [Document.along]
  have hnodes (places : List Place) : Node.element e ∈ places.map (nodeAt d) ↔
      e ∈ d.elements ∧ e.place ∈ places := by
    rw [List.mem_map]
    constructor
    · rintro ⟨q, hq, hnode⟩
      obtain ⟨he, rfl⟩ := nodeAt_eq_element_iff.1 hnode
      exact ⟨he, hq⟩
    · rintro ⟨he, hq⟩
      exact ⟨e.place, hq, nodeAt_eq_element_iff.2 ⟨he, rfl⟩⟩
  cases axis with
  | parent =>
    rw [nodesAlong, hnodes, take_one_above]
    refine and_congr_right fun _ => ?_
    by_cases hplace : place = []
    · simp [hplace, Axis.reaches, Place.isParentOf]
    · have hreaches : Axis.parent.reaches place e.place = true ↔ e.place = place.dropLast :=
        isParentOf_iff.trans (and_iff_right hplace)
      rw [if_neg hplace, List.mem_singleton, hreaches]
  | ancestor =>
    rw [nodesAlong, hnodes, mem_above_iff]
    exact Iff.rfl
  | ancestorOrSelf =>
    rw [nodesAlong, hnodes, List.mem_cons, mem_above_iff]
    simp [Axis.reaches]
  | self | descendantOrSelf =>
    rw [nodesAlong]
    split
    · rw [List.mem_cons, or_iff_right (by simp)]
      exact helements
    · exact helements
  | precedingSibling =>
    rw [nodesAlong, List.mem_reverse]
    exact helements
  | child | descendant | followingSibling => exact helements

theorem mem_nodesAlong_iff {d : Document} {axis : Axis} {place : Place} {n : Node} :
    n ∈ nodesAlong d axis place ↔ n ∈ allNodes d ∧ comesTo d axis place n.place = true := by
  cases n with
  | document =>
    rw [document_mem_nodesAlong]
    exact (and_iff_right (document_mem_allNodes d)).symm
  | element e =>
    rw [element_mem_nodesAlong, element_mem_allNodes]
    exact and_congr_right fun he => by rw [Node.place, comesTo_of_ne_nil (place_ne_nil he)]

/-- A list that holds the nodes of a document which pass a test is put in order by asking each node
of the document. -/
theorem nodesInOrder_eq_filter {d : Document} {found : List Node} {keep : Node → Bool}
    (h : ∀ n, n ∈ found ↔ n ∈ allNodes d ∧ keep n = true) :
    nodesInOrder d found = (allNodes d).filter keep := by
  have helements : d.inOrder (found.filterMap Node.element?) =
      d.elements.filter fun e => keep (.element e) := by
    refine inOrder_eq_filter fun e he => ?_
    constructor
    · rintro ⟨f, hf, hplace⟩
      obtain ⟨n, hn, hnf⟩ := List.mem_filterMap.1 hf
      cases n with
      | document => cases hnf
      | element g =>
        cases hnf
        obtain ⟨hmem, hkeep⟩ := (h _).1 hn
        rwa [← eq_of_place_eq (element_mem_allNodes.1 hmem) he hplace]
    · intro hkeep
      have hn : Node.element e ∈ found := (h _).2 ⟨element_mem_allNodes.2 he, hkeep⟩
      exact ⟨e, List.mem_filterMap.2 ⟨_, hn, rfl⟩, rfl⟩
  have hdocument : (found.any fun n => n.element?.isNone) = keep .document := by
    refine Bool.eq_iff_iff.2 ?_
    rw [List.any_eq_true]
    constructor
    · rintro ⟨n, hn, hnone⟩
      cases n with
      | document => exact ((h _).1 hn).2
      | element e => cases hnone
    · intro hkeep
      exact ⟨.document, (h _).2 ⟨document_mem_allNodes d, hkeep⟩, rfl⟩
  rw [nodesInOrder, helements, hdocument, allNodes, List.filter_cons, List.filter_map]
  rfl

/-- Nodes are found along an axis from some nodes that are along it from any of their places. -/
theorem mem_flatMap_nodesAlong {d : Document} {axis : Axis} {nodes : List Node} {n : Node} :
    n ∈ (nodes.flatMap fun m => nodesAlong d axis m.place) ↔
      n ∈ nodesAlongAny d axis (nodes.map Node.place) := by
  simp only [nodesAlongAny, List.mem_flatMap, List.mem_filter, mem_nodesAlong_iff, List.any_map,
    List.any_eq_true, Function.comp_apply]
  constructor
  · rintro ⟨m, hm, hn, hreach⟩
    exact ⟨hn, m, hm, hreach⟩
  · rintro ⟨hn, m, hm, hreach⟩
    exact ⟨m, hm, hn, hreach⟩

/-- What is kept of the nodes found along an axis from some nodes is, put in order, what is kept of
those along the axis from any of the nodes' places. -/
theorem nodesInOrder_flatMap (d : Document) (axis : Axis) (accepts : Node → Bool)
    (nodes : List Node) :
    nodesInOrder d ((nodes.flatMap fun n => nodesAlong d axis n.place).filter accepts) =
      (nodesAlongAny d axis (nodes.map Node.place)).filter accepts := by
  have hfilter : (nodesAlongAny d axis (nodes.map Node.place)).filter accepts =
      (allNodes d).filter fun n =>
        accepts n && (nodes.map Node.place).any fun p => comesTo d axis p n.place :=
    List.filter_filter
  rw [hfilter]
  refine nodesInOrder_eq_filter fun n => ?_
  rw [List.mem_filter, mem_flatMap_nodesAlong, ← List.mem_filter, hfilter, List.mem_filter]

/-- The elements along an axis among the nodes there. -/
theorem filterMap_element?_nodesAlongAny (d : Document) (axis : Axis) (places : List Place)
    (keep : Node → Bool) :
    ((nodesAlongAny d axis places).filter keep).filterMap Node.element? =
      (d.alongAny axis places).filter fun e => keep (.element e) := by
  have hsome : Node.element? ∘ Node.element = some := rfl
  have helements (p : Node → Bool) : ((d.elements.map Node.element).filter p).filterMap
      Node.element? = d.elements.filter fun e => p (.element e) := by
    rw [List.filter_map, List.filterMap_map, hsome, List.filterMap_some]
    rfl
  have hreached : (d.elements.filter fun e =>
        keep (.element e) && places.any fun p => comesTo d axis p e.place) =
      d.elements.filter fun e =>
        keep (.element e) && places.any fun p => axis.reaches p e.place :=
    List.filter_congr fun e he => by simp only [comesTo_of_ne_nil (place_ne_nil he)]
  rw [nodesAlongAny, Document.alongAny, List.filter_filter, List.filter_filter, allNodes,
    List.filter_cons, ← hreached]
  split
  · exact helements _
  · exact helements _

/-- Along an axis that does not come to the document there are elements only. -/
theorem nodesAlongAny_of_inside {d : Document} {axis : Axis} {places : List Place}
    (h : ∀ p ∈ places, comesTo d axis p [] = false) :
    nodesAlongAny d axis places = (d.alongAny axis places).map Node.element := by
  have hroot : ¬(places.any fun p => comesTo d axis p Node.document.place) = true := by
    rw [List.any_eq_true]
    rintro ⟨p, hp, hreach⟩
    rw [Node.place, h p hp] at hreach
    cases hreach
  have hreached : (d.elements.filter fun e => places.any fun p => comesTo d axis p e.place) =
      d.alongAny axis places :=
    List.filter_congr fun e he => by simp only [comesTo_of_ne_nil (place_ne_nil he)]
  rw [nodesAlongAny, allNodes, List.filter_cons, if_neg hroot, List.filter_map, ← hreached]
  rfl

/-- A place is that of a node along an axis from some places. -/
theorem mem_places_nodesAlongAny {d : Document} {axis : Axis} {places : List Place} {q : Place} :
    q ∈ (nodesAlongAny d axis places).map Node.place ↔
      (q = [] ∨ ∃ e ∈ d.elements, e.place = q) ∧ ∃ p ∈ places, comesTo d axis p q = true := by
  simp only [nodesAlongAny, allNodes, List.mem_map, List.mem_filter, List.any_eq_true,
    List.mem_cons]
  constructor
  · rintro ⟨_, ⟨rfl | ⟨e, he, rfl⟩, hreach⟩, rfl⟩
    · exact ⟨.inl rfl, hreach⟩
    · exact ⟨.inr ⟨e, he, rfl⟩, hreach⟩
  · rintro ⟨rfl | ⟨e, he, rfl⟩, hreach⟩
    · exact ⟨.document, ⟨.inl rfl, hreach⟩, rfl⟩
    · exact ⟨.element e, ⟨.inr ⟨e, he, rfl⟩, hreach⟩, rfl⟩

/-- The node stands right in the document or in an element. -/
def Node.isAttached (d : Document) (n : Node) : Bool :=
  !d.isLoose n.place

/-- The children of some places and of all below them are what lies below those places, but for what
is loose. -/
theorem along_selfOrBelow_child (d : Document) (places : List Place) :
    nodesAlongAny d .child ((nodesAlongAny d .descendantOrSelf places).map Node.place) =
      (nodesAlongAny d .descendant places).filter (·.isAttached d) := by
  have hchild (p : Place) : comesTo d .child p [] = false := by
    simp [comesTo, Axis.reaches, Place.isParentOf]
  have hdescendant (p : Place) : comesTo d .descendant p [] = false := by
    simp [comesTo, Axis.reaches, Place.isAbove]
  rw [nodesAlongAny_of_inside fun p _ => hchild p,
    nodesAlongAny_of_inside fun p _ => hdescendant p, List.filter_map, Document.alongAny,
    Document.alongAny, List.filter_filter]
  refine congrArg _ (List.filter_congr fun e he => Bool.eq_iff_iff.2 ?_)
  have hattached : Node.isAttached d (.element e) = true ↔
      e.place.dropLast = [] ∨ ∃ f ∈ d.elements, f.place = e.place.dropLast := by
    rw [← isLoose_eq_false_iff, Node.isAttached, Bool.not_eq_true', Node.place]
  rw [List.any_eq_true, Bool.and_eq_true, List.any_eq_true, Function.comp_apply, hattached]
  constructor
  · rintro ⟨q, hq, hparent⟩
    obtain ⟨hheld, p, hp, hreach⟩ := mem_places_nodesAlongAny.1 hq
    rw [comesTo_of_ne_parent (by decide)] at hreach
    obtain ⟨hne, rfl⟩ := isParentOf_iff.1 hparent
    exact ⟨hheld, p, hp, isAbove_iff_prefix_dropLast.2 ⟨hne, selfOrBelow_iff.1 hreach⟩⟩
  · rintro ⟨hheld, p, hp, hbelow⟩
    obtain ⟨hne, hstart⟩ := isAbove_iff_prefix_dropLast.1 hbelow
    refine ⟨e.place.dropLast, mem_places_nodesAlongAny.2 ⟨hheld, p, hp, ?_⟩, ?_⟩
    · rw [comesTo_of_ne_parent (by decide)]
      exact selfOrBelow_iff.2 hstart
    · exact isParentOf_iff.2 ⟨hne, rfl⟩

/-! ### Conditions that look at their node only -/

/-- The condition does not fail, and whether it holds is decided by the node it is asked of. -/
def Expr.DecidedBy (d : Document) (condition : Expr) (holds : Node → Bool) : Prop :=
  ∀ c : Context, ∃ value, condition.eval d c = .ok value ∧
    holdsAt c.position value = holds c.node

/-- The step does not fail, and keeps the nodes along its axis that pass. -/
def Step.DecidedBy (d : Document) (step : Step) (accepts : Node → Bool) : Prop :=
  ∀ node, step.follow d node = .ok ((nodesAlong d step.axis node.place).filter accepts)

/-- The step keeps, of the nodes along its axis, what the verdict keeps. -/
def Step.JudgedBy (d : Document) (step : Step) (judge : Node → Option Bool) : Prop :=
  ∀ node found, step.follow d node = .ok found ↔
    Kept judge (nodesAlong d step.axis node.place) found

theorem Expr.DecidedBy.hasVerdict {d : Document} {condition : Expr} {holds : Node → Bool}
    (h : condition.DecidedBy d holds) :
    HasVerdict (fun c => condition.eval d c) fun n => some (holds n) := by
  intro c
  obtain ⟨value, hvalue, hholds⟩ := h c
  simp only [hvalue, Except.toOption, Option.map_some, hholds]

theorem Step.DecidedBy.judgedBy {d : Document} {step : Step} {accepts : Node → Bool}
    (h : step.DecidedBy d accepts) : step.JudgedBy d fun n => some (accepts n) := by
  intro node found
  rw [h node, kept_some_iff, Except.ok.injEq]
  exact eq_comm

/-- A step whose conditions have verdicts has the verdict of its test, and then of these. -/
theorem Step.judgedBy_of_conditions {α : Type} {d : Document} {expr : α → Expr}
    {judge : α → Node → Option Bool} {conditions : List α}
    (h : ∀ a ∈ conditions, HasVerdict (fun c => (expr a).eval d c) (judge a)) (axis : Axis)
    (test : NodeTest) :
    Step.JudgedBy d ⟨axis, test, conditions.map expr⟩
      (andThen (fun n => some (test.accepts n)) (judgeAll (conditions.map judge))) := by
  intro node found
  rw [Step.follow, keepAll_eq_ok_iff h, kept_andThen_iff]
  constructor
  · exact fun hfound => ⟨_, kept_some_iff.2 rfl, hfound⟩
  · rintro ⟨_, htest, hfound⟩
    rwa [← kept_some_iff.1 htest]

/-- A step whose conditions look at their node only is decided by its test and its conditions. -/
theorem Step.decidedBy_of_conditions {α : Type} {d : Document} {expr : α → Expr}
    {holds : α → Node → Bool} {conditions : List α}
    (h : ∀ a ∈ conditions, (expr a).DecidedBy d (holds a)) (axis : Axis) (test : NodeTest) :
    Step.DecidedBy d ⟨axis, test, conditions.map expr⟩ fun n =>
      test.accepts n && conditions.all (holds · n) := by
  intro node
  refine (Step.judgedBy_of_conditions (fun a ha => (h a ha).hasVerdict) axis test node _).2 ?_
  have hjudge (n : Node) : andThen (fun n => some (test.accepts n))
      (judgeAll (conditions.map fun a n => some (holds a n))) n =
        some (test.accepts n && conditions.all (holds · n)) := by
    rw [andThen, judgeAll_some]
    cases test.accepts n <;> rfl
  exact (Kept.congr fun n _ => hjudge n).2 (kept_some_iff.2 rfl)

/-- A step with a verdict leads on to what this keeps of the nodes along its axis from any of those
before. -/
theorem followSteps_cons_eq_ok_iff {d : Document} {step : Step} {judge : Node → Option Bool}
    (h : step.JudgedBy d judge) {rest : List Step} {nodes found : List Node} :
    followSteps d (step :: rest) nodes = .ok found ↔
      ∃ kept, Kept judge (nodesAlongAny d step.axis (nodes.map Node.place)) kept ∧
        followSteps d rest kept = .ok found := by
  rw [followSteps, bind_eq_ok_iff]
  constructor
  · rintro ⟨gathered, hgathered, hfound⟩
    obtain ⟨hall, rfl⟩ := (gather_eq_ok_iff h).1 hgathered
    rw [nodesInOrder_flatMap] at hfound
    exact ⟨_, ⟨fun n hn => hall n (mem_flatMap_nodesAlong.2 hn), rfl⟩, hfound⟩
  · rintro ⟨_, ⟨hall, rfl⟩, hfound⟩
    refine ⟨_, (gather_eq_ok_iff h).2 ⟨fun n hn => hall n (mem_flatMap_nodesAlong.1 hn), rfl⟩, ?_⟩
    rwa [nodesInOrder_flatMap]

theorem followSteps_singleton_eq_ok_iff {d : Document} {step : Step} {judge : Node → Option Bool}
    (h : step.JudgedBy d judge) {nodes found : List Node} :
    followSteps d [step] nodes = .ok found ↔
      Kept judge (nodesAlongAny d step.axis (nodes.map Node.place)) found := by
  rw [followSteps_cons_eq_ok_iff h]
  constructor
  · rintro ⟨kept, hkept, hfound⟩
    rw [followSteps, Except.ok.injEq] at hfound
    rwa [← hfound]
  · exact fun hfound => ⟨found, hfound, by rw [followSteps]⟩

/-- A step decided by its nodes leads on to the nodes along its axis from any of those before. -/
theorem followSteps_cons {d : Document} {step : Step} {accepts : Node → Bool}
    (h : step.DecidedBy d accepts) (rest : List Step) (nodes : List Node) :
    followSteps d (step :: rest) nodes =
      followSteps d rest ((nodesAlongAny d step.axis (nodes.map Node.place)).filter accepts) := by
  rw [followSteps, (gather_eq_ok_iff h.judgedBy).2 (kept_some_iff.2 rfl), ← nodesInOrder_flatMap]
  rfl

/-- A path selects the elements among its nodes, if it does not end in values. -/
theorem elementsOf_path_eq_ok_iff {d : Document} {path : Path} {found : List Element} :
    elementsOf d (.path path) = .ok found ↔
      path.value = none ∧ ∃ nodes, path.nodes d .document = .ok nodes ∧
        nodes.filterMap Node.element? = found := by
  obtain ⟨absolute, steps, value⟩ := path
  rw [elementsOf, Expr.eval, Path.eval, Path.nodes]
  cases followSteps d steps [if absolute then .document else .document] with
  | error reason => cases value <;> simp [bind, Except.bind]
  | ok nodes => cases value <;> simp [bind, Except.bind, pure, Except.pure]

/-- The step to a node itself and to all below it takes all that lies there. -/
theorem followSteps_selfAndBelow (d : Document) (rest : List Step) (nodes : List Node) :
    followSteps d (.selfAndBelow :: rest) nodes =
      followSteps d rest (nodesAlongAny d .descendantOrSelf (nodes.map Node.place)) := by
  have hdecided : Step.selfAndBelow.DecidedBy d fun _ => true := by
    intro node
    rw [Step.selfAndBelow, Step.follow, keepAll]
    rfl
  have hall (nodes : List Node) : (nodes.filter fun _ => true) = nodes :=
    List.filter_eq_self.2 fun _ _ => rfl
  rw [followSteps_cons hdecided, hall]
  rfl

end Gleaner.Query
