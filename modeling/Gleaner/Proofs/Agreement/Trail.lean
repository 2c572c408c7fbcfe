/-
# Trails: selectors that both readings know

A trail begins at elements of a name and goes on, step by step, to elements, later siblings, parents
or the elements themselves. Its conditions ask for attributes only, so that whether an element is
kept does not depend on its position. What a trail leads to is said here once for both readings: of
all elements those that lie along the axis of the last step from what the steps before lead to, and
that pass its test. Two things may tell the readings apart. They see the names of an element and of
its attributes in their own ways, which come to the same for an element of HTML. And a path query
goes on to all below as to the children of all below, so that it misses what stands right in a
template.

Key definitions: `Target.IsShared`, `Shared`, `Trail`, `Reading`, `Filter.holds`, `Target.accepts`,
`Leg.meets`, `Leg.reached`, `follow`, `selected`, `StaysInside`, `andBelow`, `NamesApart`, `OfHtml`.
Key theorems: `Target.legible_of_shared`, `inOrder_reached`, `Target.accepts_eq`,
`mem_selected_of_query`, `selected_eq_of_attached`, `namesApart_ofText`.
-/
import Gleaner.Proofs.Agreement.Name
import Gleaner.Proofs.Markup.Place
import Gleaner.Proofs.Markup.SmallNames
import Gleaner.Selector.Selecting

namespace Gleaner.Selector

open Gleaner.Text Gleaner.Markup

/-! ### The steps of a trail -/

/-- A name of attributes that both readings know: CSS compares the values of some attributes without
regard to case, path queries do not. -/
def IsAttribute (name : String) : Prop :=
  isIdentifier name.toList = true ∧ lowerAscii name ∉ caselessAttributes

instance (name : String) : Decidable (IsAttribute name) :=
  inferInstanceAs (Decidable (_ ∧ _))

/-- A filter that both readings know. No text contains the empty text in CSS, each does in a path
query. -/
def Filter.IsShared : Filter → Prop
  | .attributeIs name value => IsAttribute name ∧ IsValue value
  | .attributeHolds name value => IsAttribute name ∧ IsValue value ∧ value ≠ ""
  | .hasAttribute name => IsAttribute name
  | .textHolds _ | .index _ => False

instance : DecidablePred Filter.IsShared
  | .attributeIs .. => inferInstanceAs (Decidable (_ ∧ _))
  | .attributeHolds .. => inferInstanceAs (Decidable (_ ∧ _ ∧ _))
  | .hasAttribute name => inferInstanceAs (Decidable (IsAttribute name))
  | .textHolds _ | .index _ => inferInstanceAs (Decidable False)

/-- What a step of a trail may go to. -/
def Target.IsShared : Target → Prop
  | .element name filters | .sibling name filters =>
    IsElementTest name ∧ ∀ f ∈ filters, f.IsShared
  | .parent | .self => True
  | .accessor _ => False

instance : DecidablePred Target.IsShared
  | .element .. | .sibling .. => inferInstanceAs (Decidable (_ ∧ ∀ f ∈ _, Filter.IsShared f))
  | .parent | .self => inferInstanceAs (Decidable True)
  | .accessor _ => inferInstanceAs (Decidable False)

/-- The step goes to elements of a name. -/
def Target.isElement : Target → Bool
  | .element .. => true
  | _ => false

theorem Filter.legible_of_shared {f : Filter} (h : f.IsShared) : f.Legible := by
  have hquotable {value : String} (hvalue : IsValue value) : Quotable value :=
    fun hc => (hvalue _ hc).1 rfl
  cases f with
  | attributeIs name value => exact ⟨isAttributeName_of_identifier h.1.1, hquotable h.2⟩
  | attributeHolds name value => exact ⟨isAttributeName_of_identifier h.1.1, hquotable h.2.1⟩
  | hasAttribute name => exact isAttributeName_of_identifier h.1
  | textHolds value => exact h.elim
  | index n => exact h.elim

theorem Target.legible_of_shared {t : Target} (h : t.IsShared) : t.Legible := by
  cases t with
  | element name filters =>
    exact ⟨elementName_of_test h.1, fun f hf => Filter.legible_of_shared (h.2 f hf)⟩
  | sibling name filters =>
    exact ⟨(elementName_of_test h.1).plain, fun f hf => Filter.legible_of_shared (h.2 f hf)⟩
  | parent => trivial
  | self => trivial
  | accessor a => exact h.elim

/-- Steps that both readings know, one after another: the first goes to elements of a name, from the
top or from anywhere, and each later one stands behind slashes. -/
structure Shared (first : Leg) (later : List Leg) : Prop where
  shared : ∀ l ∈ first :: later, l.target.IsShared
  first_element : first.target.isElement = true
  first_slashes : first.slashes ≤ 2
  later_slashes : ∀ l ∈ later, l.slashes = 1 ∨ l.slashes = 2

theorem Shared.written {first : Leg} {later : List Leg} (h : Shared first later) :
    Written first later := by
  refine ⟨fun l hl => Target.legible_of_shared (h.shared l hl), fun l hl => ?_⟩
  rcases h.later_slashes l hl with hn | hn <;> omega

/-- A trail: steps that both readings know, of which only those to elements stand behind two
slashes. -/
structure Trail where
  first : Leg
  later : List Leg
  shared : Shared first later
  single : ∀ l ∈ later, l.slashes = 1 ∨ l.target.isElement = true

/-- The steps of a trail. -/
def Trail.legs (t : Trail) : List Leg :=
  t.first :: t.later

/-! ### What a trail leads to -/

/-- The two ways in which a selector is read. -/
inductive Reading where
  /-- Step by step, with the element test of each step in CSS. -/
  | stepwise
  /-- As a path query. -/
  | query
  deriving DecidableEq

/-- The values of the attributes of a name that a reading finds at an element. -/
def Reading.values (r : Reading) (e : Element) (name : String) : List String :=
  match r with
  | .stepwise => (valueFor? e name).toList
  | .query => (e.allAttributes.filter fun a => sameName a.1 name).map (·.2)

/-- The element answers to the name in a reading. -/
def Reading.names (r : Reading) (e : Element) (name : String) : Bool :=
  match r with
  | .stepwise => comparedName e name == comparedName e e.name
  | .query => sameName name e.name

/-- An element passes a filter in a reading. -/
def Filter.holds (r : Reading) (e : Element) : Filter → Bool
  | .attributeIs name value => (r.values e name).any (· == value)
  | .attributeHolds name value =>
    (r.values e name).head?.any fun v => occursIn value.toList v.toList
  | .hasAttribute name => !(r.values e name).isEmpty
  | .textHolds _ | .index _ => true

/-- An element passes the test of a step in a reading. -/
def Target.accepts (r : Reading) (e : Element) : Target → Bool
  | .element name filters | .sibling name filters =>
    (name == "*" || r.names e name) && filters.all (·.holds r e)
  | .parent | .self | .accessor _ => true

/-- The axis of a step. -/
def Target.axis (reach : Reach) : Target → Axis
  | .element .. =>
    match reach with
    | .child => .child
    | .below => .descendant
  | .sibling .. => .followingSibling
  | .parent => .parent
  | .self | .accessor _ => .self

/-- The step goes to elements anywhere below. -/
def Leg.descends (l : Leg) : Bool :=
  l.target.isElement && l.reach == .below

/-- Of what lies along its axis a step keeps what passes its test. As a path query, a step to all
below goes to children, and a loose element is none. -/
def Leg.meets (r : Reading) (d : Document) (l : Leg) (e : Element) : Bool :=
  match r with
  | .stepwise => l.target.accepts .stepwise e
  | .query => l.target.accepts .query e && !(l.descends && d.isLoose e.place)

/-- The elements that a step leads to from some places. -/
def Leg.reached (r : Reading) (d : Document) (places : List Place) (l : Leg) : List Element :=
  (d.alongAny (l.target.axis l.reach) places).filter fun e => l.meets r d e

/-- What passes a step that does not go anywhere below passes its test. -/
theorem Leg.meets_of_not_descends {r : Reading} {d : Document} {l : Leg} (h : l.descends = false)
    (e : Element) : l.meets r d e = l.target.accepts r e := by
  cases r with
  | stepwise => rfl
  | query => rw [Leg.meets, h, Bool.false_and, Bool.not_false, Bool.and_true]

/-- A step that takes each element takes all along its axis. -/
theorem Leg.reached_of_all {r : Reading} {d : Document} {l : Leg} (places : List Place)
    (helement : l.target.isElement = false) (hall : ∀ e, l.target.accepts r e = true) :
    l.reached r d places = d.alongAny (l.target.axis l.reach) places := by
  refine List.filter_eq_self.2 fun e _ => ?_
  rw [Leg.meets_of_not_descends (by rw [Leg.descends, helement, Bool.false_and]), hall]

theorem Leg.reached_parent (r : Reading) (d : Document) (places : List Place) (slashes : Nat) :
    Leg.reached r d places ⟨slashes, .parent⟩ = d.alongAny .parent places :=
  Leg.reached_of_all places rfl fun _ => rfl

theorem Leg.reached_self (r : Reading) (d : Document) (places : List Place) (slashes : Nat) :
    Leg.reached r d places ⟨slashes, .self⟩ = d.alongAny .self places :=
  Leg.reached_of_all places rfl fun _ => rfl

/-- The elements that steps lead to from some elements. -/
def follow (r : Reading) (d : Document) (list : List Element) : List Leg → List Element
  | [] => list
  | l :: rest => follow r d (l.reached r d (list.map (·.place))) rest

/-- The elements that steps lead to from a document. -/
def selected (r : Reading) (d : Document) (first : Leg) (later : List Leg) : List Element :=
  follow r d (first.reached r d [[]]) later

/-- The elements that a trail leads to. -/
def Trail.selected (t : Trail) (r : Reading) (d : Document) : List Element :=
  Selector.selected r d t.first t.later

theorem follow_concat (r : Reading) (d : Document) (last : Leg) :
    ∀ (legs : List Leg) (list : List Element),
      follow r d list (legs ++ [last]) = last.reached r d ((follow r d list legs).map (·.place))
  | [], _ => rfl
  | _ :: legs, _ => follow_concat r d last legs _

/-- As a path query, the steps go to the parent of such elements only as have an element right above
them. Above all others there is only what counts as the document. -/
def StaysInside (d : Document) (list : List Element) : List Leg → Prop
  | [] => True
  | l :: rest =>
    (l.target = .parent → ∀ e ∈ list, d.holds e.place.dropLast = true) ∧
      StaysInside d (l.reached .query d (list.map (·.place))) rest

instance decidableStaysInside (d : Document) : ∀ (list : List Element) (legs : List Leg),
    Decidable (StaysInside d list legs)
  | _, [] => inferInstanceAs (Decidable True)
  | list, l :: rest =>
    have : Decidable (l.target = .parent → ∀ e ∈ list, d.holds e.place.dropLast = true) :=
      inferInstance
    @instDecidableAnd _ _ this
      (decidableStaysInside d (l.reached .query d (list.map (·.place))) rest)

/-- Steps to elements of a name do not leave the document's elements. -/
theorem staysInside_of_isElement (d : Document) : ∀ {legs : List Leg} (list : List Element),
    (∀ l ∈ legs, l.target.isElement = true) → StaysInside d list legs
  | [], _, _ => trivial
  | l :: legs, list, h => by
    refine ⟨fun ht => ?_, staysInside_of_isElement d _ fun m hm => h m (List.mem_cons_of_mem _ hm)⟩
    have helement := h l List.mem_cons_self
    rw [ht] at helement
    cases helement

/-- From the document, all steps of a trail stay inside. -/
def Trail.StaysInside (t : Trail) (d : Document) : Prop :=
  Selector.StaysInside d (t.first.reached .query d [[]]) t.later

instance (t : Trail) (d : Document) : Decidable (t.StaysInside d) :=
  decidableStaysInside d _ _

/-- Some elements and all below them. -/
def andBelow (d : Document) (list : List Element) : List Element :=
  d.alongAny .descendantOrSelf (list.map (·.place))

/-! ### Elements in document order -/

/-- Elements of a document chosen by a test are in order. -/
theorem inOrder_filter (d : Document) (p : Element → Bool) :
    d.inOrder (d.elements.filter p) = d.elements.filter p := by
  refine inOrder_eq_filter fun e he => ?_
  constructor
  · rintro ⟨f, hf, hplace⟩
    obtain ⟨hf, hp⟩ := List.mem_filter.1 hf
    rwa [← eq_of_place_eq hf he hplace]
  · intro hp
    exact ⟨e, List.mem_filter.2 ⟨he, hp⟩, rfl⟩

theorem inOrder_reached (r : Reading) (d : Document) (places : List Place) (l : Leg) :
    d.inOrder (l.reached r d places) = l.reached r d places := by
  unfold Leg.reached
  rw [Document.alongAny, List.filter_filter]
  exact inOrder_filter d _

/-- The elements themselves are what they are in order. -/
theorem alongAny_self (d : Document) (list : List Element) :
    d.alongAny .self (list.map (·.place)) = d.inOrder list := by
  unfold Document.alongAny Document.inOrder
  simp only [List.any_map]
  rfl

theorem inOrder_follow {r : Reading} {d : Document} : ∀ {legs : List Leg} {list : List Element},
    d.inOrder list = list → d.inOrder (follow r d list legs) = follow r d list legs
  | [], _, h => h
  | l :: _, _, _ => by
    unfold follow
    exact inOrder_follow (inOrder_reached r d _ l)

theorem inOrder_selected (t : Trail) (r : Reading) (d : Document) :
    d.inOrder (t.selected r d) = t.selected r d :=
  inOrder_follow (inOrder_reached r d _ t.first)

theorem inOrder_andBelow (d : Document) (list : List Element) :
    d.inOrder (andBelow d list) = andBelow d list :=
  inOrder_filter d _

theorem mem_reached_iff {r : Reading} {d : Document} {places : List Place} {l : Leg} {e : Element} :
    e ∈ l.reached r d places ↔ e ∈ d.elements ∧
      (∃ p ∈ places, (l.target.axis l.reach).reaches p e.place = true) ∧ l.meets r d e = true := by
  rw [Leg.reached, List.mem_filter, Document.alongAny, List.mem_filter, List.any_eq_true, and_assoc]

theorem mem_elements_of_mem_follow {r : Reading} {d : Document} :
    ∀ {legs : List Leg} {list : List Element}, (∀ e ∈ list, e ∈ d.elements) →
      ∀ e ∈ follow r d list legs, e ∈ d.elements
  | [], _, h => h
  | _ :: _, _, _ => by
    unfold follow
    exact mem_elements_of_mem_follow fun _ he => (mem_reached_iff.1 he).1

theorem Trail.mem_elements {t : Trail} {r : Reading} {d : Document} {e : Element}
    (h : e ∈ t.selected r d) : e ∈ d.elements :=
  mem_elements_of_mem_follow (fun _ he => (mem_reached_iff.1 he).1) e h

/-! ### Names and attributes -/

/-- No two attributes of an element have names that differ in the case of ASCII letters only. -/
def NamesApart (d : Document) : Prop :=
  ∀ e ∈ d.elements, (e.attributes.entries.map fun a => lowerAscii a.1).Nodup

instance (d : Document) : Decidable (NamesApart d) :=
  inferInstanceAs (Decidable (∀ e ∈ d.elements, _))

/-- All elements are ones of HTML. -/
def OfHtml (d : Document) : Prop :=
  ∀ e ∈ d.elements, e.isHtml = true

instance (d : Document) : Decidable (OfHtml d) :=
  inferInstanceAs (Decidable (∀ e ∈ d.elements, _))

/-- So it is where all attributes have names in small letters. -/
theorem namesApart_of_smallNames {d : Document}
    (h : ∀ e ∈ d.elements, SmallNames e.attributes) : NamesApart d := by
  intro e he
  rw [List.map_congr_left (h e he)]
  exact e.attributes.nodup_keys

/-- So it is in every document that is read from a text. -/
theorem namesApart_ofText (text : String) : NamesApart (.ofText text) :=
  namesApart_of_smallNames (smallNames_ofText text)

section

variable {e : Element} (hhtml : e.isHtml = true)
  (hnames : (e.attributes.entries.map fun a => lowerAscii a.1).Nodup)

include hhtml

/-- An element of HTML answers to the same names in both readings. -/
theorem Reading.names_eq (name : String) :
    Reading.stepwise.names e name = Reading.query.names e name := by
  simp only [Reading.names, comparedName, hhtml, if_true]
  rfl

include hnames

/-- An element of HTML has one attribute of a name at most, and both readings find it. -/
theorem Reading.values_eq (name : String) :
    Reading.stepwise.values e name = Reading.query.values e name := by
  let same : List (String × String) :=
    e.attributes.entries.filter fun a => sameName a.1 name
  have hquery : Reading.query.values e name = same.map (·.2) := by
    rw [Reading.values, Element.allAttributes_of_isHtml hhtml]
  have hstepwise : Reading.stepwise.values e name = (same.map (·.2)).head?.toList := by
    simp only [Reading.values, valueFor?, comparedName, hhtml, if_true, List.head?_map, same,
      List.head?_filter]
    rfl
  have hlength : same.length ≤ 1 := by
    have hcount : same.length =
        (e.attributes.entries.map fun a => lowerAscii a.1).count (lowerAscii name) := by
      rw [List.count, List.countP_map, List.countP_eq_length_filter]
      rfl
    rw [hcount]
    exact List.nodup_iff_count.1 hnames _
  rw [hstepwise, hquery]
  match same, hlength with
  | [], _ => rfl
  | [a], _ => rfl

/-- An element of HTML passes a step in one reading as it does in the other. -/
theorem Target.accepts_eq (t : Target) : t.accepts .stepwise e = t.accepts .query e := by
  have hfilter (f : Filter) : f.holds .stepwise e = f.holds .query e := by
    cases f with
    | attributeIs name value =>
      rw [Filter.holds, Filter.holds, Reading.values_eq hhtml hnames]
    | attributeHolds name value =>
      rw [Filter.holds, Filter.holds, Reading.values_eq hhtml hnames]
    | hasAttribute name => rw [Filter.holds, Filter.holds, Reading.values_eq hhtml hnames]
    | textHolds value => rfl
    | index n => rfl
  cases t with
  | element name filters =>
    simp only [Target.accepts, hfilter, Reading.names_eq hhtml]
  | sibling name filters =>
    simp only [Target.accepts, hfilter, Reading.names_eq hhtml]
  | _ => rfl

end

/-! ### What the readings have in common -/

section

variable {d : Document} (hd : NamesApart d) (hhtml : OfHtml d)

include hd hhtml

/-- Among elements of HTML, what a path query comes to in a step is come to step by step. -/
theorem mem_reached_of_query {l : Leg} {list more : List Element} (h : ∀ e ∈ list, e ∈ more)
    {e : Element} (he : e ∈ l.reached .query d (list.map (·.place))) :
    e ∈ l.reached .stepwise d (more.map (·.place)) := by
  obtain ⟨hmem, ⟨p, hp, hreach⟩, hmeets⟩ := mem_reached_iff.1 he
  obtain ⟨f, hf, rfl⟩ := List.mem_map.1 hp
  refine mem_reached_iff.2 ⟨hmem, ⟨_, List.mem_map_of_mem (h f hf), hreach⟩, ?_⟩
  rw [Leg.meets, Bool.and_eq_true] at hmeets
  rw [Leg.meets, Target.accepts_eq (hhtml e hmem) (hd e hmem)]
  exact hmeets.1

theorem mem_follow_of_query : ∀ {legs : List Leg} {list more : List Element},
    (∀ e ∈ list, e ∈ more) → ∀ e ∈ follow .query d list legs, e ∈ follow .stepwise d more legs
  | [], _, _, h => h
  | _ :: _, _, _, h => by
    unfold follow
    exact mem_follow_of_query fun _ => mem_reached_of_query hd hhtml h

/-- Among elements of HTML, step by step a trail leads to all that it leads to as a path query. -/
theorem mem_selected_of_query (t : Trail) :
    ∀ e ∈ t.selected .query d, e ∈ t.selected .stepwise d := by
  refine mem_follow_of_query hd hhtml fun e he => ?_
  obtain ⟨hmem, hreach, hmeets⟩ := mem_reached_iff.1 he
  refine mem_reached_iff.2 ⟨hmem, hreach, ?_⟩
  rw [Leg.meets, Bool.and_eq_true] at hmeets
  rw [Leg.meets, Target.accepts_eq (hhtml e hmem) (hd e hmem)]
  exact hmeets.1

/-- Where nothing is loose either, it leads to the same. -/
theorem selected_eq_of_attached (hloose : ∀ e ∈ d.elements, d.isLoose e.place = false) (t : Trail) :
    t.selected .stepwise d = t.selected .query d := by
  have hreached (places : List Place) (l : Leg) :
      l.reached .stepwise d places = l.reached .query d places := by
    refine List.filter_congr fun e he => ?_
    have hmem := (List.mem_filter.1 he).1
    rw [Leg.meets, Leg.meets, Target.accepts_eq (hhtml e hmem) (hd e hmem), hloose e hmem,
      Bool.and_false, Bool.not_false, Bool.and_true]
  have hfollow : ∀ (legs : List Leg) (list : List Element),
      follow .stepwise d list legs = follow .query d list legs := by
    intro legs
    induction legs with
    | nil => exact fun _ => rfl
    | cons l rest ih =>
      intro list
      rw [follow, follow, hreached]
      exact ih _
  rw [Trail.selected, Trail.selected, selected, selected, hreached]
  exact hfollow t.later _

end

end Gleaner.Selector
