/-
# Where positions are counted

A step to children takes the children of each element that it starts from as a group of its own. A
step to anything below takes all candidates at once and counts a position among those of one parent.
The two countings come to the same: what is left of the children of one parent is what is left when
they are a group, whatever filters stand before and after a position. So a step to anything below
is a step to children from more elements, and a step from several elements selects what it selects
from each of them; no position is counted across parents or across the elements of a scope. What
stands right in a template has no element for its parent, and makes a group of its own for a step to
anything below only.

Key definitions: `childrenAt`, `Scope.places`, `templatePlaces`, `countingPlaces`, `countingGroups`,
`selectedFrom`, `Scope.union`.
Key theorems: `childrenAt_nthOfParent`, `childrenAt_applyFilters`, `mem_groups_iff`,
`applyStep_below`.
-/
import Gleaner.Proofs.Markup.Ordered
import Gleaner.Selector.Selecting
import Mathlib.Data.List.Basic

namespace Gleaner.Selector

open Gleaner.Text Gleaner.Markup

variable {d : Document} {e : Element}

/-! ### The children of one parent in a group -/

/-- The elements of a group whose parent is at a place. -/
def childrenAt (p : Place) (group : List Element) : List Element :=
  group.filter fun e => parentPlace e == p

theorem mem_childrenAt {p : Place} {group : List Element} :
    e ∈ childrenAt p group ↔ e ∈ group ∧ parentPlace e = p := by
  rw [childrenAt, List.mem_filter, beq_iff_eq]

theorem childrenAt_cons_self {group : List Element} :
    childrenAt (parentPlace e) (e :: group) = e :: childrenAt (parentPlace e) group :=
  List.filter_cons_of_pos (beq_self_eq_true _)

theorem childrenAt_cons_of_ne {p : Place} (h : parentPlace e ≠ p) (group : List Element) :
    childrenAt p (e :: group) = childrenAt p group :=
  List.filter_cons_of_neg (mt beq_iff_eq.1 h)

/-- Among the children of one parent, the position of each parent is a position of the group, less
those that have been seen before. -/
theorem childrenAt_nthOfParent (n : Nat) (p : Place) : ∀ (group : List Element) (seen : List Place),
    childrenAt p (nthOfParent n seen group) =
      if seen.count p ≤ n then ((childrenAt p group)[n - seen.count p]?).toList else []
  | [], seen => by simp [nthOfParent, childrenAt]
  | e :: rest, seen => by
    have ih := childrenAt_nthOfParent n p rest (parentPlace e :: seen)
    by_cases hp : parentPlace e = p
    · subst hp
      rw [List.count_cons_self] at ih
      rw [childrenAt_cons_self, nthOfParent]
      by_cases hn : seen.count (parentPlace e) = n
      · have hlater : ¬seen.count (parentPlace e) + 1 ≤ n := by omega
        rw [if_pos hn, childrenAt_cons_self, ih, if_neg hlater, if_pos (Nat.le_of_eq hn), hn,
          Nat.sub_self]
        rfl
      · rw [if_neg hn, ih]
        by_cases hle : seen.count (parentPlace e) ≤ n
        · have hlater : seen.count (parentPlace e) + 1 ≤ n := by omega
          have hnext : n - seen.count (parentPlace e) =
              n - (seen.count (parentPlace e) + 1) + 1 := by omega
          rw [if_pos hle, if_pos hlater, hnext, List.getElem?_cons_succ]
        · have hlater : ¬seen.count (parentPlace e) + 1 ≤ n := by omega
          rw [if_neg hle, if_neg hlater]
    · rw [List.count_cons_of_ne hp] at ih
      rw [childrenAt_cons_of_ne hp, ← ih, nthOfParent]
      split
      · rw [childrenAt_cons_of_ne hp]
      · rfl

/-- One filter leaves of the children of one parent what it leaves of them as a group. -/
theorem childrenAt_applyFilter (p : Place) (group : List Element) (f : Filter) :
    childrenAt p (applyFilter true group f) = applyFilter false (childrenAt p group) f := by
  cases f with
  | textHolds needle => exact List.filter_comm _ _ group
  | index n =>
    have h := childrenAt_nthOfParent n p group []
    rwa [List.count_nil, if_pos (Nat.zero_le n), Nat.sub_zero] at h
  | _ => rfl

/-- So do filters one after another. -/
theorem childrenAt_applyFilters (p : Place) : ∀ (filters : List Filter) (group : List Element),
    childrenAt p (applyFilters true filters group) =
      applyFilters false filters (childrenAt p group)
  | [], _ => rfl
  | f :: rest, group => by
    have ih := childrenAt_applyFilters p rest (applyFilter true group f)
    rw [childrenAt_applyFilter] at ih
    exact ih

/-- Whether filters that count for each parent leave an element is decided among its siblings. -/
theorem mem_applyFilters_perParent {filters : List Filter} {group : List Element} :
    e ∈ applyFilters true filters group ↔
      e ∈ applyFilters false filters (childrenAt (parentPlace e) group) := by
  rw [← childrenAt_applyFilters, mem_childrenAt, and_iff_left rfl]

theorem nthOfParent_sublist (n : Nat) : ∀ (group : List Element) (seen : List Place),
    (nthOfParent n seen group).Sublist group
  | [], _ => .slnil
  | e :: rest, seen => by
    have ih := nthOfParent_sublist n rest (parentPlace e :: seen)
    rw [nthOfParent]
    split
    · exact ih.cons_cons e
    · exact ih.cons e

/-- Filters only leave out. -/
theorem applyFilters_sublist (perParent : Bool) : ∀ (filters : List Filter) (group : List Element),
    (applyFilters perParent filters group).Sublist group
  | [], _ => .refl _
  | f :: rest, group => by
    have hf : (applyFilter perParent group f).Sublist group := by
      cases f with
      | textHolds needle => exact List.filter_sublist
      | index n =>
        cases perParent with
        | true => exact nthOfParent_sublist n group []
        | false =>
          show (group[n]?).toList.Sublist group
          cases hn : group[n]? with
          | none => exact List.nil_sublist group
          | some e => exact List.singleton_sublist.2 (List.mem_of_getElem? hn)
      | _ => exact .refl _
    exact (applyFilters_sublist perParent rest _).trans hf

/-! ### The places that a step counts from -/

/-- The places that a scope is at. -/
def Scope.places : Scope → List Place
  | .document => [[]]
  | .elements list => list.map (·.place)

/-- The places below some places that hold elements and are none of an element: what templates hold
is there. -/
def templatePlaces (d : Document) (places : List Place) : List Place :=
  ((d.alongAny .descendant places).filter fun e => d.isLoose e.place).map parentPlace

/-- The places below some places at which elements have children, or templates hold elements. -/
def placesBelow (d : Document) (places : List Place) : List Place :=
  (d.alongAny .descendant places).map (·.place) ++ templatePlaces d places

/-- The places at which a step counts: those of its scope, and for a step to anything below those
below as well. -/
def countingPlaces (d : Document) (sibling : Bool) (reach : Reach) (scope : Scope) : List Place :=
  if !sibling && reach == .below then scope.places ++ placesBelow d scope.places
  else scope.places

/-- The groups in which a step counts: the children at each place that it counts from, or the later
siblings. -/
def countingGroups (d : Document) (sibling : Bool) (reach : Reach) (scope : Scope) :
    List (List Element) :=
  (countingPlaces d sibling reach scope).map
    (d.along (if sibling then .followingSibling else .child))

/-- What lies below the document are all its elements. -/
theorem alongAny_document (d : Document) : d.alongAny .descendant [[]] = d.elements := by
  refine List.filter_eq_self.2 fun e he => ?_
  have habove : Place.isAbove [] e.place = true :=
    isAbove_iff_prefix_dropLast.2 ⟨place_ne_nil he, List.nil_prefix⟩
  rw [List.any_cons, show Axis.descendant.reaches [] e.place = true from habove, Bool.true_or]

theorem mem_along_child {p : Place} :
    e ∈ d.along .child p ↔ e ∈ d.elements ∧ parentPlace e = p := by
  rw [Document.along, List.mem_filter]
  refine and_congr_right fun he => ?_
  rw [show Axis.child.reaches p e.place = Place.isParentOf p e.place from rfl, isParentOf_iff,
    and_iff_right (place_ne_nil he)]
  exact eq_comm

theorem mem_alongAny_descendant {places : List Place} :
    e ∈ d.alongAny .descendant places ↔
      e ∈ d.elements ∧ ∃ p ∈ places, p <+: parentPlace e := by
  rw [Document.alongAny, List.mem_filter, List.any_eq_true]
  refine and_congr_right fun he => exists_congr fun p => and_congr_right fun _ => ?_
  rw [show Axis.descendant.reaches p e.place = Place.isAbove p e.place from rfl,
    isAbove_iff_prefix_dropLast, and_iff_right (place_ne_nil he), parentPlace]

theorem mem_placesBelow_iff {places : List Place} {p : Place} :
    p ∈ placesBelow d places ↔ ∃ e ∈ d.elements, (∃ q ∈ places, q <+: parentPlace e) ∧
      (e.place = p ∨ d.isLoose e.place = true ∧ parentPlace e = p) := by
  simp only [placesBelow, templatePlaces, List.mem_append, List.mem_map, List.mem_filter,
    mem_alongAny_descendant, and_assoc, ← exists_or, ← and_or_left]

/-- The parent of what lies below some places is at one of them, or at a place below them. -/
theorem parentPlace_mem {places : List Place} (he : e ∈ d.alongAny .descendant places) :
    parentPlace e ∈ places ++ placesBelow d places := by
  obtain ⟨hin, p, hp, hstart⟩ := mem_alongAny_descendant.1 he
  by_cases hsame : p = parentPlace e
  · exact List.mem_append_left _ (hsame ▸ hp)
  refine List.mem_append_right _ (mem_placesBelow_iff.2 ?_)
  cases hloose : d.isLoose e.place with
  | true => exact ⟨e, hin, ⟨p, hp, hstart⟩, .inr ⟨hloose, rfl⟩⟩
  | false =>
    have hnil : parentPlace e ≠ [] := fun hnil => by
      rw [hnil] at hstart hsame
      exact hsame (List.prefix_nil.1 hstart)
    obtain ⟨f, hf, hplace⟩ := (isLoose_eq_false_iff.1 hloose).resolve_left hnil
    have habove : Place.isAbove p f.place = true := by
      rw [isAbove_iff, hplace]
      refine ⟨hstart, Nat.lt_of_le_of_ne hstart.length_le fun hlength => ?_⟩
      exact hsame (hstart.eq_of_length hlength)
    exact ⟨f, hf, ⟨p, hp, (isAbove_iff_prefix_dropLast.1 habove).2⟩, .inl hplace⟩

/-- All children at one of some places, or at a place below them, lie below them. -/
theorem childrenAt_alongAny {places : List Place} {p : Place}
    (hp : p ∈ places ++ placesBelow d places) :
    childrenAt p (d.alongAny .descendant places) = d.along .child p := by
  rw [childrenAt, Document.alongAny, List.filter_filter, Document.along]
  refine List.filter_congr fun e he => Bool.eq_iff_iff.2 ?_
  have hchild : Axis.child.reaches p e.place = true ↔ parentPlace e = p := by
    have hmem := mem_along_child (d := d) (e := e) (p := p)
    rwa [Document.along, List.mem_filter, and_iff_right he, and_iff_right he] at hmem
  rw [hchild, Bool.and_eq_true, beq_iff_eq, and_iff_left_iff_imp]
  rintro rfl
  have hbelow : e ∈ d.alongAny .descendant places := by
    rw [mem_alongAny_descendant, and_iff_right he]
    rcases List.mem_append.1 hp with hp | hp
    · exact ⟨_, hp, List.prefix_rfl⟩
    · obtain ⟨f, -, ⟨q, hq, hstart⟩, hplace | ⟨-, hplace⟩⟩ := mem_placesBelow_iff.1 hp
      · refine ⟨q, hq, hplace ▸ hstart.trans ?_⟩
        exact List.dropLast_prefix f.place
      · exact ⟨q, hq, hplace ▸ hstart⟩
  exact (List.mem_filter.1 hbelow).2

/-- Filters that count for each parent, applied to all that lies below some places, leave what they
leave of the children at one of the places or at a place below them. -/
theorem mem_applyFilters_below {places : List Place} {filters : List Filter}
    {test : Element → Bool} :
    e ∈ applyFilters true filters ((d.alongAny .descendant places).filter test) ↔
      ∃ p ∈ places ++ placesBelow d places,
        e ∈ applyFilters false filters ((d.along .child p).filter test) := by
  have hgroup {p : Place} (hp : p ∈ places ++ placesBelow d places) :
      childrenAt p ((d.alongAny .descendant places).filter test) =
        (d.along .child p).filter test := by
    rw [childrenAt, List.filter_comm, ← childrenAt, childrenAt_alongAny hp]
  rw [mem_applyFilters_perParent]
  constructor
  · intro he
    have hsub := (applyFilters_sublist false filters _).subset he
    have hin := (List.mem_filter.1 (mem_childrenAt.1 hsub).1).1
    have hp := parentPlace_mem hin
    exact ⟨_, hp, hgroup hp ▸ he⟩
  · rintro ⟨p, hp, he⟩
    have hsub := (applyFilters_sublist false filters _).subset he
    obtain ⟨-, rfl⟩ := mem_along_child.1 (List.mem_filter.1 hsub).1
    rwa [hgroup hp]

theorem applyFilters_nil (perParent : Bool) (filters : List Filter) :
    applyFilters perParent filters [] = [] :=
  List.sublist_nil.1 (applyFilters_sublist perParent filters [])

/-- The document has no siblings. -/
theorem along_followingSibling_document (d : Document) : d.along .followingSibling [] = [] := by
  refine List.filter_eq_nil_iff.2 fun f hf hreach => place_ne_nil hf ?_
  have hsibling : Place.isEarlierSiblingOf [] f.place = true := hreach
  simp only [Place.isEarlierSiblingOf, Bool.and_eq_true, beq_iff_eq] at hsibling
  exact List.length_eq_zero_iff.1 hsibling.1.2.symm

/-- **Where a step counts.** It takes an element when its filters leave the element in one of the
groups of the children of one parent, of what one template holds, or of the later siblings of one
element. -/
theorem mem_groups_iff {sibling : Bool} {reach : Reach} {filters : List Filter}
    {test : Element → Bool} {scope : Scope} :
    e ∈ ((groupsOf d sibling reach scope).flatMap fun group =>
        applyFilters (!sibling && reach == .below) filters (group.filter test)) ↔
      ∃ group ∈ countingGroups d sibling reach scope,
        e ∈ applyFilters false filters (group.filter test) := by
  unfold countingGroups countingPlaces
  simp only [List.mem_flatMap, List.mem_map, exists_exists_and_eq_and]
  cases sibling with
  | true =>
    cases scope with
    | document =>
      simp [groupsOf, Scope.places, along_followingSibling_document, applyFilters_nil]
    | elements context => simp [groupsOf, Scope.places]
  | false =>
    cases reach with
    | child =>
      have hnot : (Reach.child == Reach.below) = false := by decide
      cases scope with
      | document => simp [groupsOf, Scope.places, hnot]
      | elements context => simp [groupsOf, Scope.places, hnot]
    | below =>
      have hgroup : groupsOf d false .below scope = [d.alongAny .descendant scope.places] := by
        cases scope with
        | document =>
          rw [Scope.places, alongAny_document]
          rfl
        | elements context => rfl
      simp only [hgroup, List.mem_singleton, exists_eq_left]
      exact mem_applyFilters_below

/-! ### Steps that count -/

/-- The target of a step to elements of a name, or to later siblings of a name. -/
def Target.named (sibling : Bool) (name : String) (filters : List Filter) : Target :=
  if sibling then .sibling name filters else .element name filters

/-- What the filters of a step leave in the groups in which it counts. -/
def leftIn (groups : List (List Element)) (test : Element → Bool) (filters : List Filter) :
    List Element :=
  groups.flatMap fun group => applyFilters false filters (group.filter test)

theorem mem_leftIn {groups : List (List Element)} {test : Element → Bool} {filters : List Filter} :
    e ∈ leftIn groups test filters ↔
      ∃ group ∈ groups, e ∈ applyFilters false filters (group.filter test) :=
  List.mem_flatMap

theorem applyStep_named (scope : Scope) (raw : String) (reach : Reach) (sibling : Bool)
    (name : String) (filters : List Filter) :
    applyStep d scope ⟨raw, reach, .named sibling name filters⟩ =
      (selectNamed d sibling reach name filters scope).map fun list =>
        .elements (d.inOrder list) := by
  cases sibling with
  | true => rfl
  | false => rfl

/-- A step whose element test can be written leads to what its filters leave where it counts. -/
theorem applyStep_of_test {name : String} {filters : List Filter} {test : Compound}
    (htest : Compound.ofStep? name filters = some test) (scope : Scope) (raw : String)
    (reach : Reach) (sibling : Bool) :
    applyStep d scope ⟨raw, reach, .named sibling name filters⟩ =
      .ok (.elements
        (d.inOrder (leftIn (countingGroups d sibling reach scope) test.accepts filters))) := by
  have hcount :
      d.inOrder ((groupsOf d sibling reach scope).flatMap fun group =>
          applyFilters (!sibling && reach == .below) filters (group.filter test.accepts)) =
        d.inOrder (leftIn (countingGroups d sibling reach scope) test.accepts filters) := by
    refine inOrder_congr fun e => ?_
    rw [mem_groups_iff, mem_leftIn]
  rw [applyStep_named, selectNamed, htest, ← hcount]
  rfl

/-- A step whose element test cannot be written fails in the same way everywhere. -/
theorem applyStep_of_no_test {name : String} {filters : List Filter}
    (htest : Compound.ofStep? name filters = none) (scope : Scope) (raw : String) (reach : Reach)
    (sibling : Bool) :
    applyStep d scope ⟨raw, reach, .named sibling name filters⟩ =
      .error (.invalidCompound
        (String.ofList (compoundText name (filters.filter Filter.onAttributes)))) := by
  rw [applyStep_named, selectNamed, htest]
  rfl

/-! ### Steps from several places -/

/-- What two scopes hold together, in document order. -/
def Scope.union (d : Document) (a b : Scope) : Scope :=
  .elements (d.inOrder (a.toList d ++ b.toList d))

/-- What a step to elements of a name leads to when each of some places has a group of its own. -/
def selectedFrom (d : Document) (axis : Axis) (places : List Place) (name : String)
    (filters : List Filter) : Except Reason Scope :=
  match Compound.ofStep? name filters with
  | none =>
    .error (.invalidCompound
      (String.ofList (compoundText name (filters.filter Filter.onAttributes))))
  | some test =>
    .ok (.elements (d.inOrder (leftIn (places.map (d.along axis)) test.accepts filters)))

/-- A step leads to what it leads to from the places at which it counts. -/
theorem applyStep_eq_selectedFrom (d : Document) (scope : Scope) (raw : String) (reach : Reach)
    (sibling : Bool) (name : String) (filters : List Filter) :
    applyStep d scope ⟨raw, reach, .named sibling name filters⟩ =
      selectedFrom d (if sibling then .followingSibling else .child)
        (countingPlaces d sibling reach scope) name filters := by
  cases htest : Compound.ofStep? name filters with
  | none => rw [applyStep_of_no_test htest, selectedFrom, htest]
  | some test =>
    rw [applyStep_of_test htest, selectedFrom, htest]
    rfl

/-- Two lists put in order one by one and then together are put in order together. -/
theorem inOrder_append (d : Document) (list other : List Element) :
    d.inOrder (d.inOrder list ++ d.inOrder other) = d.inOrder (list ++ other) := by
  have hplace (l : List Element) (e : Element) (he : e ∈ d.elements) :
      (∃ f ∈ d.inOrder l, f.place = e.place) ↔ ∃ f ∈ l, f.place = e.place := by
    constructor
    · rintro ⟨f, hf, hplace⟩
      obtain ⟨-, g, hg, hgf⟩ := mem_inOrder_iff.1 hf
      exact ⟨g, hg, hgf.trans hplace⟩
    · rintro ⟨f, hf, hplace⟩
      exact ⟨e, mem_inOrder_iff.2 ⟨he, f, hf, hplace⟩, rfl⟩
  refine inOrder_eq_filter fun e he => ?_
  simp only [List.mem_append, or_and_right, exists_or, hplace _ e he, List.any_append,
    Bool.or_eq_true, List.any_eq_true, beq_iff_eq]

/-- From the places of two lists a step leads to what it leads to from the one and from the
other. -/
theorem selectedFrom_union {axis : Axis} {places more all : List Place}
    (h : ∀ p, p ∈ all ↔ p ∈ places ∨ p ∈ more) (name : String) (filters : List Filter) :
    selectedFrom d axis all name filters = (do
      let a ← selectedFrom d axis places name filters
      let b ← selectedFrom d axis more name filters
      pure (a.union d b)) := by
  unfold selectedFrom
  cases Compound.ofStep? name filters with
  | none => rfl
  | some test =>
    refine congrArg (fun list => Except.ok (Scope.elements list)) ?_
    show _ = d.inOrder (d.inOrder _ ++ d.inOrder _)
    rw [inOrder_append]
    refine inOrder_congr fun e => ?_
    simp only [List.mem_append, mem_leftIn, List.mem_map, exists_exists_and_eq_and, h, or_and_right,
      exists_or]

theorem selectedFrom_append (d : Document) (axis : Axis) (places more : List Place) (name : String)
    (filters : List Filter) :
    selectedFrom d axis (places ++ more) name filters = (do
      let a ← selectedFrom d axis places name filters
      let b ← selectedFrom d axis more name filters
      pure (a.union d b)) :=
  selectedFrom_union (fun _ => List.mem_append) name filters

/-- What filters leave of what lies along an axis from places are elements of the document. -/
theorem leftIn_along_inside {axis : Axis} {places : List Place} {test : Element → Bool}
    {filters : List Filter} : ∀ f ∈ leftIn (places.map (d.along axis)) test filters,
      f ∈ d.elements := by
  intro f hf
  obtain ⟨group, hgroup, hf⟩ := mem_leftIn.1 hf
  obtain ⟨p, -, rfl⟩ := List.mem_map.1 hgroup
  have hf := (applyFilters_sublist false filters _).subset hf
  exact (List.mem_filter.1 (List.mem_filter.1 hf).1).1

/-- What a step selects from some places it selects from one of them. -/
theorem mem_selectedFrom_iff {axis : Axis} {places : List Place} {name : String}
    {filters : List Filter} :
    (∃ list, selectedFrom d axis places name filters = .ok (.elements list) ∧ e ∈ list) ↔
      ∃ p ∈ places, ∃ list,
        selectedFrom d axis [p] name filters = .ok (.elements list) ∧ e ∈ list := by
  unfold selectedFrom
  cases Compound.ofStep? name filters with
  | none => simp only [reduceCtorEq, false_and, exists_false, and_false]
  | some test =>
    have hmem (places : List Place) :
        e ∈ d.inOrder (leftIn (places.map (d.along axis)) test.accepts filters) ↔
          ∃ p ∈ places, e ∈ applyFilters false filters ((d.along axis p).filter test.accepts) := by
      rw [mem_inOrder_of_inside leftIn_along_inside, mem_leftIn]
      simp only [List.mem_map, exists_exists_and_eq_and]
    simp only [Except.ok.injEq, Scope.elements.injEq, exists_eq_left', hmem, List.mem_singleton,
      exists_eq_left]

theorem mem_placesBelow_append {places more : List Place} {p : Place} :
    p ∈ placesBelow d (places ++ more) ↔ p ∈ placesBelow d places ∨ p ∈ placesBelow d more := by
  simp only [mem_placesBelow_iff]
  constructor
  · rintro ⟨f, hf, ⟨q, hq, hstart⟩, hp⟩
    rcases List.mem_append.1 hq with hq | hq
    · exact .inl ⟨f, hf, ⟨q, hq, hstart⟩, hp⟩
    · exact .inr ⟨f, hf, ⟨q, hq, hstart⟩, hp⟩
  · rintro (⟨f, hf, ⟨q, hq, hstart⟩, hp⟩ | ⟨f, hf, ⟨q, hq, hstart⟩, hp⟩)
    · exact ⟨f, hf, ⟨q, List.mem_append_left _ hq, hstart⟩, hp⟩
    · exact ⟨f, hf, ⟨q, List.mem_append_right _ hq, hstart⟩, hp⟩

/-- A step from the elements of two lists counts where it counts from the one or from the other. -/
theorem mem_countingPlaces_append {context others : List Element} {sibling : Bool} {reach : Reach}
    (p : Place) :
    p ∈ countingPlaces d sibling reach (.elements (context ++ others)) ↔
      p ∈ countingPlaces d sibling reach (.elements context) ∨
        p ∈ countingPlaces d sibling reach (.elements others) := by
  unfold countingPlaces
  split
  · simp only [Scope.places, List.map_append, List.mem_append, mem_placesBelow_append]
    exact or_or_or_comm
  · simp only [Scope.places, List.map_append, List.mem_append]

/-- A step to anything below counts where a step to children counts that starts from everything
below as well, and in the templates below. -/
theorem countingPlaces_below (d : Document) (context : List Element) :
    countingPlaces d false .below (.elements context) =
      countingPlaces d false .child
        (.elements (context ++ d.alongAny .descendant (context.map (·.place)))) ++
      templatePlaces d (context.map (·.place)) := by
  show context.map (·.place) ++ (_ ++ _) = (context ++ _).map (·.place) ++ _
  rw [List.map_append, List.append_assoc]
  rfl

theorem countingPlaces_document (d : Document) :
    countingPlaces d false .below .document =
      countingPlaces d false .child .document ++
        countingPlaces d false .child (.elements d.elements) ++ templatePlaces d [[]] := by
  show [[]] ++ ((d.alongAny .descendant [[]]).map (·.place) ++ _) = _
  rw [alongAny_document, ← List.append_assoc]
  rfl

theorem templatePlaces_eq_nil {places : List Place}
    (h : ∀ f ∈ d.alongAny .descendant places, d.isLoose f.place = false) :
    templatePlaces d places = [] := by
  refine List.map_eq_nil_iff.2 (List.filter_eq_nil_iff.2 fun f hf hloose => ?_)
  rw [h f hf] at hloose
  cases hloose

/-- **A step to anything below is a step to children.** From some elements it leads to what the step
to children leads to from these, from all elements below them and in every template below; from the
document, to what the step to children leads to from the document, from every element and in every
template. From two lists of elements together a step leads to what it leads to from the one and from
the other. So an element that a step to anything below selects is selected among the children of one
element or among what one template holds, and a position never counts across parents or across the
elements of a scope. Where no element stands right in a template, there are the steps to children
only. -/
theorem applyStep_below (d : Document) (context others : List Element) (name : String)
    (filters : List Filter) (near far : String) :
    (applyStep d (.elements context) ⟨far, .below, .element name filters⟩ = do
      let inner ← applyStep d
        (.elements (context ++ d.alongAny .descendant (context.map (·.place))))
        ⟨near, .child, .element name filters⟩
      let held ← selectedFrom d .child (templatePlaces d (context.map (·.place))) name filters
      pure (inner.union d held)) ∧
    (applyStep d .document ⟨far, .below, .element name filters⟩ = do
      let top ← applyStep d .document ⟨near, .child, .element name filters⟩
      let inner ← applyStep d (.elements d.elements) ⟨near, .child, .element name filters⟩
      let held ← selectedFrom d .child (templatePlaces d [[]]) name filters
      pure ((top.union d inner).union d held)) ∧
    (∀ raw reach sibling,
      applyStep d (.elements (context ++ others)) ⟨raw, reach, .named sibling name filters⟩ = do
        let a ← applyStep d (.elements context) ⟨raw, reach, .named sibling name filters⟩
        let b ← applyStep d (.elements others) ⟨raw, reach, .named sibling name filters⟩
        pure (a.union d b)) ∧
    (∀ e,
      (∃ list, applyStep d (.elements context) ⟨far, .below, .element name filters⟩ =
        .ok (.elements list) ∧ e ∈ list) ↔
      (∃ c ∈ context ++ d.alongAny .descendant (context.map (·.place)), ∃ list,
        applyStep d (.elements [c]) ⟨near, .child, .element name filters⟩ =
          .ok (.elements list) ∧ e ∈ list) ∨
      ∃ p ∈ templatePlaces d (context.map (·.place)), ∃ list,
        selectedFrom d .child [p] name filters = .ok (.elements list) ∧ e ∈ list) ∧
    ((∀ f ∈ d.alongAny .descendant (context.map (·.place)), d.isLoose f.place = false) →
      applyStep d (.elements context) ⟨far, .below, .element name filters⟩ =
        applyStep d (.elements (context ++ d.alongAny .descendant (context.map (·.place))))
          ⟨near, .child, .element name filters⟩) ∧
    ((∀ f ∈ d.elements, d.isLoose f.place = false) →
      applyStep d .document ⟨far, .below, .element name filters⟩ = do
        let top ← applyStep d .document ⟨near, .child, .element name filters⟩
        let inner ← applyStep d (.elements d.elements) ⟨near, .child, .element name filters⟩
        pure (top.union d inner)) := by
  have hstep (scope : Scope) (raw : String) (reach : Reach) (sibling : Bool) :=
    applyStep_eq_selectedFrom d scope raw reach sibling name filters
  have hnear (scope : Scope) := hstep scope near .child false
  have hfar (scope : Scope) := hstep scope far .below false
  simp only [Target.named, Bool.false_eq_true, if_false] at hnear hfar
  refine ⟨?_, ?_, fun raw reach sibling => ?_, fun e => ?_, fun hloose => ?_, fun hloose => ?_⟩
  · rw [hnear, hfar, countingPlaces_below, selectedFrom_append]
  · rw [hnear, hnear, hfar, countingPlaces_document, selectedFrom_append, selectedFrom_append]
    simp only [bind_assoc, pure_bind]
  · simp only [hstep, selectedFrom_union mem_countingPlaces_append]
  · have hchild (list : List Element) :
        countingPlaces d false .child (.elements list) = list.map (·.place) := rfl
    simp only [hnear, hfar, countingPlaces_below, hchild, List.map_cons, List.map_nil]
    rw [mem_selectedFrom_iff]
    simp only [List.mem_append, List.mem_map, or_and_right, exists_or, exists_exists_and_eq_and]
  · rw [hnear, hfar, countingPlaces_below, templatePlaces_eq_nil hloose, List.append_nil]
  · have hnone : templatePlaces d [[]] = [] :=
      templatePlaces_eq_nil (by rwa [alongAny_document])
    rw [hnear, hnear, hfar, countingPlaces_document, hnone, List.append_nil, selectedFrom_append]

/-- A template with a paragraph. -/
def paragraphTemplate : Document :=
  ⟨[.element "template" .empty [.fragment [.element "p" .empty [.text "x"]]]]⟩

/-- What stands right in a template is selected by a step to anything below, and by a step to
children neither from the document nor from any element. -/
theorem below_paragraphTemplate :
    applyStep paragraphTemplate .document ⟨"//p", .below, .element "p" []⟩ =
        .ok (.elements [⟨[0, 0, 0], "p", .empty, [.text "x"], .html⟩]) ∧
      applyStep paragraphTemplate .document ⟨"/p", .child, .element "p" []⟩ =
        .ok (.elements []) ∧
      applyStep paragraphTemplate (.elements paragraphTemplate.elements)
          ⟨"/p", .child, .element "p" []⟩ =
        .ok (.elements []) ∧
      applyStep paragraphTemplate .document ⟨"//p", .below, .element "p" []⟩ ≠
        (do
          let top ← applyStep paragraphTemplate .document ⟨"/p", .child, .element "p" []⟩
          let inner ← applyStep paragraphTemplate (.elements paragraphTemplate.elements)
            ⟨"/p", .child, .element "p" []⟩
          pure (top.union paragraphTemplate inner)) ∧
      Selector.evaluate paragraphTemplate "//p" = .ok [.text "x"] :=
  ⟨rfl, rfl, rfl, nofun, rfl⟩

end Gleaner.Selector
