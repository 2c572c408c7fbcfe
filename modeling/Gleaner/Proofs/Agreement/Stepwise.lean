/-
# Trails read step by step

The element test of each step of a trail can be written in CSS, and passes the elements that the
step passes. So every step of the stepwise reading comes about, and what it puts in document order
are the elements that the step leads to; by induction the reading as a whole comes to the elements
of the trail.

Key theorems: `Compound.accepts_of_shared`, `applyStep_of_shared`, `applySteps_follow`,
`evaluate_written`, `evaluate_written_accessor`.
-/
import Gleaner.Proofs.Agreement.Trail
import Gleaner.Proofs.Selector.Counting

namespace Gleaner.Selector

open Gleaner.Text Gleaner.Markup

variable {d : Document}

/-! ### The test of a step -/

theorem Filter.isWritable_of_shared {f : Filter} (h : f.IsShared) : f.isWritable = true := by
  cases f with
  | attributeIs name value =>
    simp only [isWritable, isCssName_of_identifier h.1.1, isCssValue_of_value h.2, Bool.and_self]
  | attributeHolds name value =>
    simp only [isWritable, isCssName_of_identifier h.1.1, isCssValue_of_value h.2.1, Bool.and_self]
  | hasAttribute name => exact isCssName_of_identifier h.1
  | textHolds value => rfl
  | index n => rfl

/-- A step of a trail has an element test. -/
theorem Compound.ofStep?_of_shared {name : String} {filters : List Filter}
    (hname : IsElementTest name) (hfilters : ∀ f ∈ filters, f.IsShared) :
    Compound.ofStep? name filters =
      some ⟨if name = "*" then none else some name, filters.filterMap Filter.test?⟩ := by
  have hwritable : filters.all Filter.isWritable = true :=
    List.all_eq_true.2 fun f hf => Filter.isWritable_of_shared (hfilters f hf)
  rw [ofStep?, hwritable, Bool.and_true]
  rcases hname with rfl | hname
  · rfl
  · rw [isCssName_of_identifier hname, cssRead_identifier hname, Bool.or_true]
    rfl

/-- The test of a filter passes the elements that the filter passes. -/
theorem Filter.accepts_test (e : Element) {f : Filter} (h : f.IsShared) :
    ∃ test, f.test? = some test ∧ test.accepts e = f.holds .stepwise e := by
  have hcompared {name : String} (hname : IsAttribute name) (value : String) :
      comparedValue e name value = value := if_neg fun hmem => hname.2 hmem.2
  cases f with
  | attributeIs name value =>
    refine ⟨_, rfl, ?_⟩
    rw [cssRead_identifier h.1.1, cssRead_value h.2, AttributeTest.accepts, Filter.holds,
      Reading.values]
    simp only [hcompared h.1]
    cases valueFor? e name <;> simp
  | attributeHolds name value =>
    have hne : value.isEmpty = false := by
      rw [Bool.eq_false_iff, ne_eq, String.isEmpty_iff]
      exact h.2.2
    refine ⟨_, rfl, ?_⟩
    rw [cssRead_identifier h.1.1, cssRead_value h.2.1, AttributeTest.accepts, Filter.holds,
      Reading.values, hne]
    simp only [hcompared h.1, Bool.not_false, Bool.true_and]
    cases valueFor? e name <;> simp
  | hasAttribute name =>
    refine ⟨_, rfl, ?_⟩
    rw [cssRead_identifier h.1, AttributeTest.accepts, Filter.holds, Reading.values]
    cases valueFor? e name <;> rfl
  | textHolds value => exact h.elim
  | index n => exact h.elim

theorem accepts_tests (e : Element) : ∀ {filters : List Filter}, (∀ f ∈ filters, f.IsShared) →
    (filters.filterMap Filter.test?).all (·.accepts e) = filters.all (·.holds .stepwise e)
  | [], _ => rfl
  | f :: rest, h => by
    obtain ⟨test, htest, haccepts⟩ := Filter.accepts_test e (h f List.mem_cons_self)
    rw [List.filterMap_cons, htest, List.all_cons, List.all_cons, haccepts,
      accepts_tests e fun g hg => h g (List.mem_cons_of_mem _ hg)]

/-- The element test of a step passes the elements that the step passes. -/
theorem Compound.accepts_of_shared (e : Element) {name : String} {filters : List Filter}
    (hfilters : ∀ f ∈ filters, f.IsShared) :
    Compound.accepts ⟨if name = "*" then none else some name, filters.filterMap Filter.test?⟩ e =
      ((name == "*" || Reading.stepwise.names e name) &&
        filters.all (·.holds .stepwise e)) := by
  unfold Compound.accepts
  rw [accepts_tests e hfilters]
  by_cases hname : name = "*"
  · simp [hname]
  · have hstar : (name == "*") = false := beq_false_of_ne hname
    rw [if_neg hname, hstar, Bool.false_or]
    rfl

/-- Filters on attributes have been decided by the test. -/
theorem applyFilters_of_shared (perParent : Bool) : ∀ {filters : List Filter},
    (∀ f ∈ filters, f.IsShared) → ∀ group, applyFilters perParent filters group = group
  | [], _, _ => rfl
  | f :: rest, h, group => by
    have hf : applyFilter perParent group f = group := by
      have hshared := h f List.mem_cons_self
      cases f with
      | textHolds value => exact hshared.elim
      | index n => exact hshared.elim
      | _ => rfl
    unfold applyFilters at *
    rw [List.foldl_cons, hf]
    exact applyFilters_of_shared perParent (fun g hg => h g (List.mem_cons_of_mem _ hg)) group

/-! ### The candidates of a step -/

/-- Groups that together hold what lies along an axis come, in document order, to what passes
there. -/
theorem inOrder_groups {groups : List (List Element)} {axis : Axis} {places : List Place}
    (h : ∀ e, (∃ group ∈ groups, e ∈ group) ↔ e ∈ d.alongAny axis places) (p : Element → Bool) :
    d.inOrder (groups.flatMap fun group => group.filter p) = (d.alongAny axis places).filter p := by
  have hmem : ∀ e, e ∈ (groups.flatMap fun group => group.filter p) ↔
      e ∈ (d.alongAny axis places).filter p := by
    intro e
    rw [List.mem_flatMap, List.mem_filter, ← h e]
    constructor
    · rintro ⟨group, hgroup, he⟩
      obtain ⟨he, hp⟩ := List.mem_filter.1 he
      exact ⟨⟨group, hgroup, he⟩, hp⟩
    · rintro ⟨⟨group, hgroup, he⟩, hp⟩
      exact ⟨group, hgroup, List.mem_filter.2 ⟨he, hp⟩⟩
  rw [Document.alongAny, List.filter_filter] at hmem ⊢
  refine inOrder_eq_filter fun e he => ?_
  constructor
  · rintro ⟨f, hf, hplace⟩
    obtain ⟨hf, hp⟩ := List.mem_filter.1 ((hmem f).1 hf)
    rwa [← eq_of_place_eq hf he hplace]
  · intro hp
    exact ⟨e, (hmem e).2 (List.mem_filter.2 ⟨he, hp⟩), rfl⟩

/-- The groups along an axis, one for each element of a list, hold what lies along it. -/
theorem mem_groups_along (axis : Axis) (list : List Element) (e : Element) :
    (∃ group ∈ list.map fun f => d.along axis f.place, e ∈ group) ↔
      e ∈ d.alongAny axis (list.map (·.place)) := by
  rw [Document.mem_alongAny_iff]
  constructor
  · rintro ⟨_, hgroup, he⟩
    obtain ⟨f, hf, rfl⟩ := List.mem_map.1 hgroup
    exact ⟨f.place, List.mem_map_of_mem hf, he⟩
  · rintro ⟨_, hplace, he⟩
    obtain ⟨f, hf, rfl⟩ := List.mem_map.1 hplace
    exact ⟨_, List.mem_map_of_mem hf, he⟩

/-- The groups of a step to elements hold what lies along its axis. -/
theorem groupsOf_element (reach : Reach) (name : String) (filters : List Filter) (scope : Scope)
    (e : Element) : (∃ group ∈ groupsOf d false reach scope, e ∈ group) ↔
      e ∈ d.alongAny ((Target.element name filters).axis reach) scope.places := by
  cases scope with
  | document =>
    rw [Document.mem_alongAny_iff]
    cases reach with
    | child => simp [groupsOf, Scope.places, Target.axis]
    | below =>
      have habove : e ∈ d.along .descendant [] ↔ e ∈ d.elements := by
        unfold Document.along
        rw [List.mem_filter]
        refine and_iff_left_of_imp fun he => ?_
        exact isAbove_iff_prefix_dropLast.2 ⟨place_ne_nil he, List.nil_prefix⟩
      simp [groupsOf, Scope.places, Target.axis, habove]
  | elements list =>
    cases reach with
    | child => exact mem_groups_along .child list e
    | below => simp [groupsOf, Scope.places, Target.axis]

/-- A step to elements, or to later siblings, comes to the elements that it leads to. -/
theorem selectNamed_of_shared {sibling : Bool} {reach : Reach} {name : String}
    {filters : List Filter} {scope : Scope} {axis : Axis} (hname : IsElementTest name)
    (hfilters : ∀ f ∈ filters, f.IsShared)
    (hgroups : ∀ e, (∃ group ∈ groupsOf d sibling reach scope, e ∈ group) ↔
      e ∈ d.alongAny axis scope.places) :
    ∃ list, selectNamed d sibling reach name filters scope = .ok list ∧
      d.inOrder list = (d.alongAny axis scope.places).filter fun e =>
        (name == "*" || Reading.stepwise.names e name) && filters.all (·.holds .stepwise e) := by
  unfold selectNamed
  rw [Compound.ofStep?_of_shared hname hfilters]
  simp only [applyFilters_of_shared _ hfilters]
  refine ⟨_, rfl, ?_⟩
  rw [inOrder_groups hgroups]
  exact List.filter_congr fun e _ => Compound.accepts_of_shared e hfilters

/-! ### Steps -/

/-- A step to elements leads to them from the document as well as from elements. -/
theorem applyStep_element {slashes : Nat} {name : String}
    {filters : List Filter} (h : (Target.element name filters).IsShared) (scope : Scope) :
    applyStep d scope (Leg.step ⟨slashes, .element name filters⟩) =
      .ok (.elements (Leg.reached .stepwise d scope.places ⟨slashes, .element name filters⟩)) := by
  obtain ⟨found, hfound, horder⟩ := selectNamed_of_shared h.1 h.2
    (groupsOf_element (Leg.reach ⟨slashes, .element name filters⟩) name filters scope)
  unfold applyStep
  simp only [Leg.step]
  rw [hfound, Except.map, horder]
  rfl

/-- The first step of a trail leads from the document to elements. -/
theorem applyStep_first : ∀ {l : Leg}, l.target.IsShared →
    l.target.isElement = true →
      applyStep d .document l.step = .ok (.elements (l.reached .stepwise d [[]]))
  | ⟨_, .element _ _⟩, h, _ => applyStep_element h .document

/-- A step leads from elements to elements. -/
theorem applyStep_of_shared {l : Leg} (h : l.target.IsShared)
    {list : List Element} (hlist : d.inOrder list = list) :
    applyStep d (.elements list) l.step =
      .ok (.elements (l.reached .stepwise d (list.map (·.place)))) := by
  obtain ⟨slashes, target⟩ := l
  cases target with
  | element name filters => exact applyStep_element h (.elements list)
  | sibling name filters =>
    have hgroups : ∀ e, (∃ group ∈ groupsOf d true (Leg.reach ⟨slashes, .sibling name filters⟩)
        (.elements list), e ∈ group) ↔
        e ∈ d.alongAny .followingSibling (Scope.elements list).places :=
      mem_groups_along .followingSibling list
    obtain ⟨found, hfound, horder⟩ := selectNamed_of_shared h.1 h.2 hgroups
    unfold applyStep
    simp only [Leg.step]
    rw [hfound, Except.map, horder]
    rfl
  | parent =>
    rw [Leg.reached_parent]
    rfl
  | self =>
    rw [Leg.reached_self, alongAny_self, hlist]
    rfl
  | accessor a => exact h.elim

/-- Steps lead from elements to what they are followed to. -/
theorem applySteps_follow : ∀ {legs : List Leg} {list : List Element},
    (∀ l ∈ legs, l.target.IsShared) → d.inOrder list = list →
      applySteps d (.elements list) (legs.map Leg.step) =
        .ok (.elements (follow .stepwise d list legs))
  | [], _, _, _ => rfl
  | l :: rest, list, h, hlist => by
    rw [List.map_cons, applySteps, applyStep_of_shared (h l List.mem_cons_self) hlist]
    exact applySteps_follow (fun m hm => h m (List.mem_cons_of_mem _ hm))
      (inOrder_reached .stepwise d _ l)

/-! ### Whole selectors -/

variable {first : Leg} {later : List Leg}

/-- Steps that both readings know come to what they lead to from the document. -/
theorem applySteps_selected (h : Shared first later) :
    applySteps d .document ((first :: later).map Leg.step) =
      .ok (.elements (selected .stepwise d first later)) := by
  have hfirst := applyStep_first (d := d) (h.shared first List.mem_cons_self) h.first_element
  rw [List.map_cons, applySteps, hfirst]
  exact applySteps_follow (fun l hl => h.shared l (List.mem_cons_of_mem _ hl))
    (inOrder_reached .stepwise d _ first)

theorem accessor?_of_shared {l : Leg} (h : l.target.IsShared) : l.step.accessor? = none := by
  unfold Leg.step Step.accessor?
  cases ht : l.target with
  | accessor a =>
    rw [ht] at h
    exact h.elim
  | _ => rfl

theorem evaluate_of_read {text : String} {path : List Step} {accessor : Option Accessor}
    {list : List Element} (hread : read text = .ok ⟨text, path, accessor⟩)
    (hsteps : applySteps d .document path = .ok (.elements list)) :
    evaluate d text = .ok (readElements accessor list) := by
  unfold evaluate elements
  rw [hread]
  simp only [bind, Except.bind, hsteps, Scope.toList]
  rfl

/-- Read step by step, a selector without an accessor yields the texts right below the elements that
it leads to. -/
theorem evaluate_written (h : Shared first later) :
    evaluate d (String.ofList (written (first :: later))) =
      .ok (readElements none (selected .stepwise d first later)) := by
  have hnone : ∀ s ∈ (first :: later).map Leg.step, s.accessor? = none := by
    intro s hs
    obtain ⟨l, hl, rfl⟩ := List.mem_map.1 hs
    exact accessor?_of_shared (h.shared l hl)
  refine evaluate_of_read ?_ (applySteps_selected h)
  rw [read_written h.written, ofSteps_path _ hnone]

/-- Read step by step, an accessor reads from the elements that the steps before it lead to, behind
however many slashes it stands. -/
theorem evaluate_written_accessor (h : Shared first later) {slashes : Nat}
    (hslashes : 0 < slashes) {a : Accessor} (ha : (Target.accessor a).Legible) :
    evaluate d (String.ofList (written (first :: later ++ [⟨slashes, .accessor a⟩]))) =
      .ok (readElements (some a) (selected .stepwise d first later)) := by
  have hnone : ∀ s ∈ (first :: later).map Leg.step, s.accessor? = none := by
    intro s hs
    obtain ⟨l, hl, rfl⟩ := List.mem_map.1 hs
    exact accessor?_of_shared (h.shared l hl)
  have hwritten : Written first (later ++ [⟨slashes, .accessor a⟩]) := by
    have hlegible : ∀ l ∈ (first :: later) ++ [⟨slashes, .accessor a⟩], l.target.Legible :=
      List.forall_mem_append.2 ⟨h.written.legible, List.forall_mem_singleton.2 ha⟩
    have hapart : ∀ l ∈ later ++ [⟨slashes, .accessor a⟩], 0 < l.slashes :=
      List.forall_mem_append.2 ⟨h.written.apart, List.forall_mem_singleton.2 hslashes⟩
    exact ⟨hlegible, hapart⟩
  refine evaluate_of_read ?_ (applySteps_selected h)
  rw [List.cons_append, read_written hwritten, ← List.cons_append, List.map_append]
  exact ofSteps_accessor _ hnone rfl

end Gleaner.Selector
