/-
# What is selected stands in document order

After each step, of a selector as of a path query, the elements reached are in document order, each
once, and so they are at the end. The document itself may be among the nodes of a query on the way,
in front of all elements; it is left out of the result. Of a union, an element is selected when one
of the operands selects it by itself.

Key definitions: `NodesOrdered`.
Key theorems: `Selector.applyStep_ordered`, `Selector.elements_ordered`, `followSteps_ordered`,
`Query.elements_ordered`, `mem_nodesOfPaths_iff`, `selected_inOrder`.
-/
import Gleaner.Proofs.Markup.Ordered
import Gleaner.Proofs.Query.Following
import Gleaner.Proofs.Query.Reading
import Gleaner.Query.Basic
import Gleaner.Selector.Selecting
import Mathlib.Data.List.Permutation

namespace Gleaner

open Gleaner.Markup

variable {d : Document}

/-! ### Selectors -/

namespace Selector

/-- A step keeps a scope in order. -/
theorem applyStep_ordered {scope after : Scope} {s : Step} (hscope : d.Ordered (scope.toList d))
    (h : applyStep d scope s = .ok after) : d.Ordered (after.toList d) := by
  have hnamed {found : Except Reason (List Element)}
      (h : (found.map fun list => Scope.elements (d.inOrder list)) = .ok after) :
      d.Ordered (after.toList d) := by
    obtain ⟨list, -, rfl⟩ := map_eq_ok_iff.1 h
    exact ordered_inOrder d list
  unfold applyStep at h
  split at h
  · cases h
    exact hscope
  · cases h
    cases scope with
    | document => exact ⟨.nil, by simp [parentsOf, Scope.toList]⟩
    | elements context => exact ordered_alongAny d _ _
  · cases h
  · exact hnamed h
  · exact hnamed h

/-- So does a row of steps. -/
theorem applySteps_ordered : ∀ {steps : List Step} {scope after : Scope},
    d.Ordered (scope.toList d) → applySteps d scope steps = .ok after →
      d.Ordered (after.toList d)
  | [], scope, after, hscope, h => by
    cases h
    exact hscope
  | s :: rest, scope, after, hscope, h => by
    obtain ⟨next, hstep, h⟩ := bind_eq_ok_iff.1 h
    exact applySteps_ordered (applyStep_ordered hscope hstep) h

/-- The elements that a selector selects are in document order. -/
theorem elements_ordered {s : Selector} {list : List Element} (h : s.elements d = .ok list) :
    d.Ordered list := by
  have hstart : d.Ordered (Scope.document.toList d) := ordered_elements d
  unfold elements at h
  split at h
  · next scope hsteps =>
    cases h
    exact applySteps_ordered hstart hsteps
  · cases h

end Selector

/-! ### Path queries -/

namespace Query

/-- The elements among some nodes are in document order. -/
def NodesOrdered (d : Document) (nodes : List Node) : Prop :=
  d.Ordered (nodes.filterMap Node.element?)

/-- Putting nodes in order puts their elements in order. -/
theorem filterMap_nodesInOrder (d : Document) (nodes : List Node) :
    (nodesInOrder d nodes).filterMap Node.element? =
      d.inOrder (nodes.filterMap Node.element?) := by
  have helements (list : List Element) :
      (list.map Node.element).filterMap Node.element? = list := by
    rw [List.filterMap_map]
    exact List.filterMap_some
  unfold nodesInOrder
  split
  · exact helements _
  · exact helements _

/-- Steps lead from nodes in order to nodes in order. -/
theorem followSteps_ordered : ∀ {steps : List Step} {nodes found : List Node},
    NodesOrdered d nodes → followSteps d steps nodes = .ok found → NodesOrdered d found
  | [], nodes, found, hnodes, h => by
    rw [followSteps] at h
    cases h
    exact hnodes
  | step :: rest, nodes, found, hnodes, h => by
    rw [followSteps] at h
    obtain ⟨next, -, h⟩ := bind_eq_ok_iff.1 h
    refine followSteps_ordered ?_ h
    rw [NodesOrdered, filterMap_nodesInOrder]
    exact ordered_inOrder d _

/-- The nodes of a path over the whole document are in order. -/
theorem Path.nodes_ordered {path : Path} {found : List Node}
    (h : path.nodes d .document = .ok found) : NodesOrdered d found := by
  obtain ⟨absolute, steps, value⟩ := path
  have hstart : NodesOrdered d [if absolute then .document else .document] := by
    rw [ite_self]
    exact ⟨.nil, by simp [Node.element?]⟩
  rw [Path.nodes] at h
  exact followSteps_ordered hstart h

/-- The nodes of some paths are those of each of them, if each of them has any to give. -/
theorem mem_nodesOfPaths_iff {node : Node} : ∀ {paths : List Path} {nodes : List Node},
    nodesOfPaths d node paths = .ok nodes →
      (∀ path ∈ paths, ∃ found, path.nodes d node = .ok found) ∧
      ∀ n, n ∈ nodes ↔ ∃ path ∈ paths, ∃ found, path.nodes d node = .ok found ∧ n ∈ found
  | [], nodes, h => by
    rw [nodesOfPaths] at h
    cases h
    simp
  | path :: rest, nodes, h => by
    rw [nodesOfPaths] at h
    obtain ⟨found, hfound, h⟩ := bind_eq_ok_iff.1 h
    obtain ⟨more, hmore, h⟩ := bind_eq_ok_iff.1 h
    cases h
    obtain ⟨hall, hmem⟩ := mem_nodesOfPaths_iff hmore
    refine ⟨List.forall_mem_cons.2 ⟨⟨found, hfound⟩, hall⟩, fun n => ?_⟩
    simp [hmem, hfound]

/-- A union selects the elements of its paths, in document order. -/
theorem elementsOf_union {paths : List Path} {list : List Element} :
    elementsOf d (.union paths) = .ok list ↔
      ∃ nodes, nodesOfPaths d .document paths = .ok nodes ∧
        d.inOrder (nodes.filterMap Node.element?) = list := by
  rw [elementsOf, Expr.eval]
  cases nodesOfPaths d .document paths with
  | error reason => simp [Except.map]
  | ok nodes => simp [Except.map, filterMap_nodesInOrder]

/-- No function gives nodes. -/
theorem applyFunction_ne_nodes {c : Context} {function : Function} {arguments : List Value}
    {nodes : List Node} : applyFunction d c function arguments ≠ .ok (.nodes nodes) := by
  intro h
  unfold applyFunction at h
  cases function with
  | count =>
    simp only at h
    split at h
    · cases h
    · cases h
    · cases h
  | name =>
    simp only at h
    split at h
    · cases h
    · cases h
    · cases h
  | _ => cases h

/-- Only paths and unions give nodes. -/
theorem isPath_or_isUnion_of_eval {c : Context} {expr : Expr} {nodes : List Node}
    (h : expr.eval d c = .ok (.nodes nodes)) :
    (∃ path, expr = .path path ∧ path.value = none) ∨ ∃ paths, expr = .union paths := by
  cases expr with
  | path path =>
    obtain ⟨absolute, steps, value⟩ := path
    cases value with
    | none => exact .inl ⟨_, rfl, rfl⟩
    | some step =>
      rw [Expr.eval, Path.eval] at h
      obtain ⟨found, -, h⟩ := bind_eq_ok_iff.1 h
      cases h
  | union paths => exact .inr ⟨paths, rfl⟩
  | literal text =>
    rw [Expr.eval] at h
    cases h
  | number value =>
    rw [Expr.eval] at h
    cases h
  | call function arguments =>
    rw [Expr.eval] at h
    obtain ⟨values, -, h⟩ := bind_eq_ok_iff.1 h
    exact absurd h applyFunction_ne_nodes
  | binary left op right =>
    have hscalar {x : Except Reason Value} :
        x.map (fun v => Value.scalar (.boolean v.toBool)) ≠ .ok (.nodes nodes) := by
      intro hx
      obtain ⟨value, -, hvalue⟩ := map_eq_ok_iff.1 hx
      cases hvalue
    cases op with
    | comparison comparison =>
      rw [Expr.eval] at h
      obtain ⟨a, -, h⟩ := bind_eq_ok_iff.1 h
      obtain ⟨b, -, h⟩ := bind_eq_ok_iff.1 h
      cases h
    | or =>
      rw [Expr.eval] at h
      obtain ⟨a, -, h⟩ := bind_eq_ok_iff.1 h
      split at h
      · cases h
      · exact absurd h hscalar
    | and =>
      rw [Expr.eval] at h
      obtain ⟨a, -, h⟩ := bind_eq_ok_iff.1 h
      split at h
      · exact absurd h hscalar
      · cases h

/-- The elements that an expression selects are in document order. -/
theorem elementsOf_ordered {expr : Expr} {list : List Element} (h : elementsOf d expr = .ok list) :
    d.Ordered list := by
  have hshape : (∃ path, expr = .path path ∧ path.value = none) ∨ ∃ paths, expr = .union paths := by
    unfold elementsOf at h
    split at h
    · next nodes heval => exact isPath_or_isUnion_of_eval heval
    · cases h
    · cases h
  rcases hshape with ⟨path, rfl, hvalue⟩ | ⟨paths, rfl⟩
  · obtain ⟨-, found, hfound, rfl⟩ := elementsOf_path_eq_ok_iff.1 h
    exact Path.nodes_ordered hfound
  · obtain ⟨nodes, -, rfl⟩ := elementsOf_union.1 h
    exact ordered_inOrder d _

theorem elements_eq_ok_iff {q : Query} {list : List Element} :
    q.elements d = .ok list ↔ elementsOf d q.expr = .ok list := by
  rw [elements]
  cases elementsOf d q.expr with
  | error reason => simp
  | ok found => simp

/-- The elements that a query selects are in document order. -/
theorem elements_ordered {q : Query} {list : List Element} (h : q.elements d = .ok list) :
    d.Ordered list :=
  elementsOf_ordered (elements_eq_ok_iff.1 h)

/-! ### Unions -/

/-- The paths of a union selects elements each by itself, and the union those of all of them. -/
theorem mem_elementsOf_union {paths : List Path} (hvalues : ∀ path ∈ paths, path.value = none)
    {list : List Element} (h : elementsOf d (.union paths) = .ok list) :
    (∀ path ∈ paths, ∃ found, elementsOf d (.path path) = .ok found) ∧
      ∀ e, e ∈ list ↔
        ∃ path ∈ paths, ∃ found, elementsOf d (.path path) = .ok found ∧ e ∈ found := by
  obtain ⟨nodes, hnodes, rfl⟩ := elementsOf_union.1 h
  obtain ⟨hall, hmem⟩ := mem_nodesOfPaths_iff hnodes
  have hinside : ∀ e ∈ nodes.filterMap Node.element?, e ∈ d.elements := by
    intro e he
    obtain ⟨n, hn, hne⟩ := List.mem_filterMap.1 he
    obtain ⟨path, hpath, found, hfound, hn⟩ := (hmem n).1 hn
    exact (Path.nodes_ordered hfound).inside e (List.mem_filterMap.2 ⟨n, hn, hne⟩)
  constructor
  · intro path hpath
    obtain ⟨found, hfound⟩ := hall path hpath
    exact ⟨_, elementsOf_path_eq_ok_iff.2 ⟨hvalues path hpath, found, hfound, rfl⟩⟩
  · intro e
    rw [mem_inOrder_of_inside hinside, List.mem_filterMap]
    constructor
    · rintro ⟨n, hn, hne⟩
      obtain ⟨path, hpath, found, hfound, hn⟩ := (hmem n).1 hn
      exact ⟨path, hpath, _, elementsOf_path_eq_ok_iff.2 ⟨hvalues path hpath, found, hfound, rfl⟩,
        List.mem_filterMap.2 ⟨n, hn, hne⟩⟩
    · rintro ⟨path, hpath, list, hlist, he⟩
      obtain ⟨-, found, hfound, rfl⟩ := elementsOf_path_eq_ok_iff.1 hlist
      obtain ⟨n, hn, hne⟩ := List.mem_filterMap.1 he
      exact ⟨n, (hmem n).2 ⟨path, hpath, found, hfound, hn⟩, hne⟩

/-- The paths of a query that is read as a union go to elements. -/
theorem value_of_allAnywhere : ∀ {paths rooted : List Path}, allAnywhere paths = .ok rooted →
    ∀ path ∈ rooted, path.value = none
  | [], rooted, h => by
    cases h
    simp
  | path :: rest, rooted, h => by
    rw [allAnywhere] at h
    obtain ⟨first, hfirst, h⟩ := bind_eq_ok_iff.1 h
    obtain ⟨others, hothers, h⟩ := bind_eq_ok_iff.1 h
    cases h
    refine List.forall_mem_cons.2 ⟨?_, value_of_allAnywhere hothers⟩
    unfold elementsAnywhere at hfirst
    split at hfirst
    · cases hfirst
    · next hnone =>
      cases hfirst
      rw [Bool.not_eq_true, Option.isSome_eq_false_iff, Option.isNone_iff_eq_none] at hnone
      unfold Path.anywhere
      split
      · exact hnone
      · exact hnone

theorem value_of_read {text : String} {q : Query} (h : Query.read text = .ok q)
    {paths : List Path} (hexpr : q.expr = .union paths) : ∀ path ∈ paths, path.value = none := by
  unfold Query.read at h
  split at h
  · next expr hread =>
    cases h
    cases hexpr
    unfold readExpr at hread
    obtain ⟨tokens, -, hread⟩ := bind_eq_ok_iff.1 hread
    obtain ⟨e, -, hread⟩ := bind_eq_ok_iff.1 hread
    cases e with
    | union written =>
      obtain ⟨rooted, hrooted, hunion⟩ := map_eq_ok_iff.1 hread
      cases hunion
      exact value_of_allAnywhere hrooted
    | path path =>
      obtain ⟨rooted, -, hpath⟩ := map_eq_ok_iff.1 hread
      cases hpath
    | _ => cases hread
  · cases h

end Query

/-- **All that is selected stands in document order.** Whatever a selector or a path query selects
from a document, each element comes once and before all that stand behind it. A union selects what
its paths select, each by itself. To put elements in order loses none of them, does not hang on how
they stood before, and changes nothing when it is done again. -/
theorem selected_inOrder (d : Document) :
    (∀ text values, Selector.evaluate d text = .ok values →
      ∃ s list, Selector.read text = .ok s ∧ s.elements d = .ok list ∧
        values = Selector.readElements s.accessor list ∧ d.Ordered list) ∧
    (∀ (q : Query) list, q.elements d = .ok list → d.Ordered list) ∧
    (∀ text (q : Query) paths list, Query.read text = .ok q → q.expr = .union paths →
      q.elements d = .ok list →
        (∀ path ∈ paths, ∃ found, Query.elementsOf d (.path path) = .ok found) ∧
        ∀ e, e ∈ list ↔
          ∃ path ∈ paths, ∃ found, Query.elementsOf d (.path path) = .ok found ∧ e ∈ found) ∧
    ∀ list, (∀ e ∈ list, e ∈ d.elements) →
      d.Ordered (d.inOrder list) ∧ (∀ e, e ∈ d.inOrder list ↔ e ∈ list) ∧
        d.inOrder (d.inOrder list) = d.inOrder list ∧
        ∀ other, (∀ e, e ∈ other ↔ e ∈ list) → d.inOrder other = d.inOrder list := by
  refine ⟨fun text values h => ?_, fun q list h => Query.elements_ordered h,
    fun text q paths list hread hexpr h => ?_, fun list hinside => ?_⟩
  · obtain ⟨s, hread, h⟩ := bind_eq_ok_iff.1 h
    obtain ⟨list, hlist, h⟩ := bind_eq_ok_iff.1 h
    cases h
    exact ⟨s, list, hread, hlist, rfl, Selector.elements_ordered hlist⟩
  · have hunion : Query.elementsOf d (.union paths) = .ok list := by
      rw [← hexpr]
      exact Query.elements_eq_ok_iff.1 h
    exact Query.mem_elementsOf_union (Query.value_of_read hread hexpr) hunion
  · have hordered := ordered_inOrder d list
    exact ⟨hordered, fun e => mem_inOrder_of_inside hinside, inOrder_eq_self hordered,
      fun other hother => inOrder_congr hother⟩

/-- A section in a section; the inner one has two items, which share their parent. -/
def nestedSections : Document :=
  ⟨[.element "section" (KeyMap.ofList [("id", "outer")]) [.element "item" .empty [],
    .element "section" (KeyMap.ofList [("id", "inner")])
      [.element "item" .empty [], .element "item" .empty []]]]⟩

/-- Paths to the parents of all items, and to all sections. -/
def sectionPaths : List Query.Path :=
  [⟨true, [.selfAndBelow, ⟨.child, .named "item", []⟩, ⟨.parent, .anyNode, []⟩], none⟩,
    ⟨true, [.selfAndBelow, ⟨.child, .named "section", []⟩], none⟩]

/-- Parents that several items share come once, and so does what two paths lead to. -/
theorem selected_nestedSections :
    Selector.evaluate nestedSections "//item/../@id" = .ok [.text "outer", .text "inner"] ∧
      (∃ s list, Selector.read "//item/../@id" = .ok s ∧ s.elements nestedSections = .ok list ∧
        [.text "outer", .text "inner"] = Selector.readElements s.accessor list ∧
        nestedSections.Ordered list) ∧
      ∃ q list, Query.read "//item/.. | section" = .ok q ∧ q.expr = .union sectionPaths ∧
        q.elements nestedSections = .ok list ∧ nestedSections.Ordered list ∧
        (∀ e, e ∈ list ↔ ∃ path ∈ sectionPaths, ∃ found,
          Query.elementsOf nestedSections (.path path) = .ok found ∧ e ∈ found) ∧
        nestedSections.inOrder (list.reverse ++ list) = nestedSections.inOrder list := by
  obtain ⟨hselector, hquery, hunion, horder⟩ := selected_inOrder nestedSections
  have hread : Selector.read "//item/../@id" = .ok ⟨"//item/../@id",
      [⟨"//item", .below, .element "item" []⟩, ⟨"/..", .child, .parent⟩],
      some (.attribute "id")⟩ := by rfl
  have hvalues : Selector.evaluate nestedSections "//item/../@id" =
      .ok [.text "outer", .text "inner"] := by
    rw [Selector.evaluate, hread]
    rfl
  have hwritten : Query.read "//item/.. | section" =
      .ok ⟨"//item/.. | section", .union sectionPaths⟩ := by
    unfold sectionPaths
    cbv
  have hlist : Query.elements ⟨"//item/.. | section", .union sectionPaths⟩ nestedSections =
      .ok (nestedSections.elements.filter fun e => e.name == "section") := by rfl
  have hordered := hquery _ _ hlist
  have hmembers := (hunion _ _ _ _ hwritten rfl hlist).2
  have hsame := (horder _ hordered.inside).2.2.2
  exact ⟨hvalues, hselector _ _ hvalues, _, _, hwritten, rfl, hlist, hordered, hmembers,
    hsame _ (by simp)⟩

end Gleaner
