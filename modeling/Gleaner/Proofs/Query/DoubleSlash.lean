/-
# A double slash leads to all below

A double slash is read as a step to a node itself and to all below it, and what stands behind it
goes on to the children of these. The children of all of them together are what lies below, but for
what stands right in a template: that is nobody's child. The conditions are asked of the children of
one node at a time, at positions among these, and a descendant of several nodes is a candidate of
each of them along its own axis. Where no condition asks for a position, and none gives a number,
this makes no difference to the step as a whole: a path goes on with a double slash to what is
attached among all that it goes on to along the axis of the descendants.

Key definitions: `Path.goOn`, `Path.leading`, `childTokens`, `Separates`.
Key theorems: `Fusible.judgedBy`, `followSteps_doubleSlash`, `parseExpr_leading`,
`doubleSlash_descendant`.
-/
import Gleaner.Proofs.Query.Following
import Gleaner.Proofs.Query.Fusion
import Gleaner.Proofs.Query.RoundTrip
import Gleaner.Query.Basic

namespace Gleaner.Query

open Gleaner.Markup

variable {d : Document} {test : NodeTest} {predicates : List Expr}

/-! ### A double slash in a path -/

/-- A step whose conditions ask for no position, and give no numbers, has the verdict of its test,
and then of these. -/
theorem Fusible.judgedBy (h : Fusible predicates) (axis : Axis) (test : NodeTest) :
    Step.JudgedBy d ⟨axis, test, predicates⟩
      (andThen (fun n => some (test.accepts n)) (verdict d predicates)) := by
  have hjudged := Step.judgedBy_of_conditions (d := d) h.hasVerdict axis test
  rwa [List.map_id] at hjudged

theorem followSteps_append (first second : List Step) (nodes : List Node) :
    followSteps d (first ++ second) nodes = followSteps d first nodes >>= followSteps d second := by
  induction first generalizing nodes with
  | nil => rw [List.nil_append, followSteps]; rfl
  | cons step rest ih =>
    rw [List.cons_append, followSteps, followSteps]
    cases gather (fun node => step.follow d node) nodes with
    | error reason => rfl
    | ok found => exact ih (nodesInOrder d found)

/-- The verdict of a step to nodes that pass a test and conditions. -/
def stepVerdict (d : Document) (test : NodeTest) (predicates : List Expr) : Node → Option Bool :=
  andThen (fun n => some (test.accepts n)) (verdict d predicates)

/-- The axis of the descendants leads to what the step keeps of all below. -/
theorem followSteps_descendant (h : Fusible predicates) {nodes found : List Node} :
    followSteps d [⟨.descendant, test, predicates⟩] nodes = .ok found ↔
      Kept (stepVerdict d test predicates) (nodesAlongAny d .descendant (nodes.map Node.place))
        found :=
  followSteps_singleton_eq_ok_iff (h.judgedBy .descendant test)

/-- A double slash leads to what the step keeps of all below that is attached. -/
theorem followSteps_doubleSlash (h : Fusible predicates) {nodes found : List Node} :
    followSteps d [.selfAndBelow, ⟨.child, test, predicates⟩] nodes = .ok found ↔
      Kept (stepVerdict d test predicates)
        ((nodesAlongAny d .descendant (nodes.map Node.place)).filter (·.isAttached d)) found := by
  rw [followSteps_selfAndBelow, followSteps_singleton_eq_ok_iff (h.judgedBy .child test),
    along_selfOrBelow_child]
  exact Iff.rfl

/-- What is kept of nodes that a further test leaves is left by it of what is kept of all. -/
theorem Kept.filter {judge : Node → Option Bool} {nodes kept : List Node}
    (h : Kept judge nodes kept) (keep : Node → Bool) :
    Kept judge (nodes.filter keep) (kept.filter keep) := by
  refine ⟨fun n hn => h.1 n (List.mem_filter.1 hn).1, ?_⟩
  rw [h.2, List.filter_filter, List.filter_filter]
  exact List.filter_congr fun n _ => Bool.and_comm ..

/-- Nodes that are not kept may be left out before. -/
theorem kept_filter_iff {judge : Node → Option Bool} {nodes kept : List Node} {keep : Node → Bool}
    (h : ∀ n ∈ nodes, keep n = false → judge n = some false) :
    Kept judge (nodes.filter keep) kept ↔ Kept judge nodes kept := by
  have hkept : ((nodes.filter keep).filter fun n => judge n == some true) =
      nodes.filter fun n => judge n == some true := by
    rw [List.filter_filter]
    refine List.filter_congr fun n hn => ?_
    cases hkeep : keep n with
    | true => exact Bool.and_true _
    | false => rw [h n hn hkeep]; rfl
  have hjudged : (∀ n ∈ nodes.filter keep, (judge n).isSome = true) ↔
      ∀ n ∈ nodes, (judge n).isSome = true := by
    refine ⟨fun hall n hn => ?_, fun hall n hn => hall n (List.mem_filter.1 hn).1⟩
    cases hkeep : keep n with
    | true => exact hall n (List.mem_filter.2 ⟨hn, hkeep⟩)
    | false => rw [h n hn hkeep]; rfl
  rw [Kept, Kept, hkept, hjudged]

/-- Where no loose element passes the test, a double slash leads to the same as the axis of the
descendants. -/
theorem followSteps_doubleSlash_eq (h : Fusible predicates)
    (hloose : ∀ e ∈ d.elements, d.isLoose e.place = true → test.accepts (.element e) = false)
    (nodes : List Node) :
    (followSteps d [.selfAndBelow, ⟨.child, test, predicates⟩] nodes).toOption =
      (followSteps d [⟨.descendant, test, predicates⟩] nodes).toOption := by
  refine toOption_eq_iff.2 fun found => ?_
  rw [followSteps_doubleSlash h, followSteps_descendant h]
  refine kept_filter_iff fun n hn hattached => ?_
  have hplace : d.isLoose n.place = true := by
    rwa [Node.isAttached, Bool.not_eq_false'] at hattached
  have hrejected : test.accepts n = false := by
    cases n with
    | document => simp [Node.place, Document.isLoose] at hplace
    | element e =>
      exact hloose e (element_mem_allNodes.1 (List.mem_filter.1 hn).1) hplace
  rw [stepVerdict, andThen, hrejected]
  rfl

/-- The path that goes on with further steps, before it reads the same values if it reads any. -/
def Path.goOn (path : Path) (more : List Step) : Path :=
  ⟨path.absolute, path.steps ++ more, path.value⟩

/-- A path goes on from the nodes that it leads to. -/
theorem Path.nodes_goOn {path : Path} {node : Node} {nodes : List Node}
    (h : path.nodes d node = .ok nodes) (more : List Step) :
    (path.goOn more).nodes d node = followSteps d more nodes := by
  obtain ⟨absolute, steps, value⟩ := path
  rw [Path.nodes] at h
  rw [Path.goOn, Path.nodes, followSteps_append, h]
  rfl

/-- Steps that lead from any nodes to the same can stand for one another in a path. -/
theorem Path.eval_goOn_congr {first second : List Step}
    (h : ∀ nodes, (followSteps d first nodes).toOption = (followSteps d second nodes).toOption)
    (path : Path) (node : Node) :
    ((path.goOn first).eval d node).toOption = ((path.goOn second).eval d node).toOption := by
  rw [Path.goOn, Path.goOn, Path.eval, Path.eval, toOption_bind, toOption_bind, followSteps_append,
    followSteps_append, toOption_bind, toOption_bind]
  simp only [h]

/-- So they can in a path that may begin anywhere. -/
theorem Path.anywhere_goOn (path : Path) (more : List Step) :
    (path.goOn more).anywhere = path.anywhere.goOn more := by
  unfold Path.anywhere Path.goOn
  split <;> rfl

theorem elementsOf_congr {first second : Expr}
    (h : (first.eval d ⟨.document, 1, 1⟩).toOption = (second.eval d ⟨.document, 1, 1⟩).toOption) :
    (elementsOf d first).toOption = (elementsOf d second).toOption := by
  unfold elementsOf
  cases hfirst : first.eval d ⟨.document, 1, 1⟩ with
  | error reason =>
    cases hsecond : second.eval d ⟨.document, 1, 1⟩ with
    | error reason' => rfl
    | ok value =>
      rw [hfirst, hsecond] at h
      cases h
  | ok value =>
    rw [hfirst] at h
    rw [toOption_eq_iff.1 h value |>.1 rfl]

/-! ### A double slash in a row of tokens -/

/-- The tokens of a path and of the separator in front of a further step. The path to the document
alone is this separator. -/
def Path.leading (path : Path) (separator : Token) : List Token :=
  (if path.absolute ∧ path.steps ≠ [] then [.slash] else []) ++
    (joinedSteps path.steps none ++ [separator])

/-- The tokens of a step to children, whose axis is left out. -/
def childTokens (test : NodeTest) (predicates : List Expr) : List Token :=
  test.tokens ++ predicates.flatMap fun e => .openBracket :: e.tokens ++ [.closeBracket]

theorem startsStep_childTokens (test : NodeTest) (predicates : List Expr) :
    startsStep (childTokens test predicates) = true := by
  cases test <;> rfl

/-- A step whose axis is left out is read as one to children. -/
theorem parseStep_childTokens (h : ∀ e ∈ predicates, e.WellFormed) :
    Reads (parseStep (childTokens test predicates)) (.step ⟨.child, test, predicates⟩) [] := by
  have hread : ∀ e ∈ predicates, e.ReadAt 0 := fun e he => Expr.readAt e (h e he) 0 (by omega)
  have htest : Reads (parseNodeTest .child (childTokens test predicates))
      (.step ⟨.child, test, predicates⟩) [] := by
    have hnil : childTokens test predicates = test.tokens ++ ((predicates.flatMap fun e : Expr =>
        .openBracket :: e.tokens ++ [.closeBracket]) ++ []) := by
      rw [List.append_nil, childTokens]
    rw [hnil]
    exact parseNodeTest_written hread (by simp [EndsStep])
  refine parseStep_child htest ?_
  cases test with
  | named name =>
    refine .inr ⟨name, _, rfl, ?_⟩
    cases predicates <;> simp
  | anyElement => exact .inl rfl
  | anyNode => exact .inr ⟨"node", _, rfl, by simp⟩

/-- The steps that a separator inserts in front of the one behind it. -/
inductive Separates : Token → List Step → Prop
  | slash : Separates .slash []
  | doubleSlash : Separates .doubleSlash [.selfAndBelow]

section

variable {absolute : Bool} {separator : Token} {inserted : List Step} {tail rest : List Token}
  {path : Path}

/-- Steps are read one after another, and behind a separator the reading goes on. -/
theorem parseSteps_leading (hseparator : Separates separator inserted) :
    ∀ {steps before : List Step}, (∀ step ∈ steps, step.Read) → steps ≠ [] →
      Reads (parseSteps absolute (before ++ steps ++ inserted) tail) path rest →
      Reads (parseSteps absolute before (joinedSteps steps none ++ separator :: tail)) path rest
  | [], _, _, hne, _ => absurd rfl hne
  | [step], before, hsteps, _, htail => by
    have hjoined : joinedSteps [step] none = step.tokens := by simp [joinedSteps]
    have hstep := hsteps step List.mem_cons_self
    rw [hjoined]
    cases hseparator with
    | slash =>
      rw [List.append_nil] at htail
      exact parseSteps_slash (hstep (by simp [EndsStep])) htail
    | doubleSlash =>
      rw [List.append_assoc] at htail
      exact parseSteps_doubleSlash (hstep (by simp [EndsStep])) htail
  | step :: second :: steps, before, hsteps, _, htail => by
    obtain ⟨hstep, hsteps⟩ := List.forall_mem_cons.1 hsteps
    have hne : second :: steps ≠ [] := List.cons_ne_nil second steps
    rw [joinedSteps_cons (.inl hne), List.append_assoc, List.cons_append]
    refine parseSteps_slash (hstep (by simp [EndsStep])) ?_
    refine parseSteps_leading hseparator hsteps hne ?_
    simpa using htail

/-- A path is read up to its separator, and then the step behind it. -/
theorem parseExpr_leading (hseparator : Separates separator inserted)
    (hpath : path.WellFormed) (hvalue : path.value = none) {step : Step}
    (hstart : startsStep tail = true) (hstep : Reads (parseStep tail) (.step step) []) :
    parseExpr (path.leading separator ++ tail) = .ok (.path (path.goOn (inserted ++ [step]))) := by
  obtain ⟨absolute, steps, value⟩ := path
  obtain rfl : value = none := hvalue
  obtain ⟨hfrom, hsteps⟩ := hpath
  have hend (before : List Step) :
      Reads (parseSteps absolute before tail) ⟨absolute, before ++ [step], none⟩ [] :=
    parseSteps_end hstep (by simp)
  apply parseExpr_of_primary
  by_cases hne : steps = []
  · obtain rfl := hne
    obtain rfl : absolute = true := by simpa using hfrom
    cases hseparator with
    | slash => exact parsePrimary_path (parsePath_slash hstart (hend [])) (.inr (.inl rfl)) nofun
    | doubleSlash =>
      exact parsePrimary_path (parsePath_doubleSlash (hend _)) (.inr (.inr rfl)) nofun
  · have hread : Reads (parseSteps absolute [] (joinedSteps steps none ++ separator :: tail))
        ⟨absolute, steps ++ (inserted ++ [step]), none⟩ [] := by
      refine parseSteps_leading hseparator (fun s hs => Step.read s (hsteps s hs)) hne ?_
      rw [← List.append_assoc]
      exact hend _
    have hsome : steps ≠ [] ∨ (none : Option ValueStep).isSome = true := .inl hne
    obtain ⟨hstarts, hcall⟩ := joinedSteps_starts hsome (separator :: tail)
    cases absolute with
    | false =>
      have hleading : (Path.mk false steps none).leading separator ++ tail =
          joinedSteps steps none ++ separator :: tail := by simp [Path.leading]
      rw [hleading]
      exact parsePrimary_path (parsePath_relative hstarts hread) (.inl hstarts) hcall
    | true =>
      have hleading : (Path.mk true steps none).leading separator ++ tail =
          .slash :: (joinedSteps steps none ++ separator :: tail) := by simp [Path.leading, hne]
      rw [hleading]
      exact parsePrimary_path (parsePath_slash hstarts hread) (.inr (.inl rfl)) nofun

end

/-- A path that goes on with a double slash leads to what is attached of what it leads to along the
axis of the descendants. -/
theorem nodes_goOn_doubleSlash (h : Fusible predicates) {path : Path} {node : Node}
    {found : List Node}
    (hfound : (path.goOn [⟨.descendant, test, predicates⟩]).nodes d node = .ok found) :
    (path.goOn [.selfAndBelow, ⟨.child, test, predicates⟩]).nodes d node =
      .ok (found.filter (·.isAttached d)) := by
  obtain ⟨absolute, steps, value⟩ := path
  rw [Path.goOn, Path.nodes, followSteps_append] at hfound ⊢
  obtain ⟨nodes, hnodes, hfound⟩ := bind_eq_ok_iff.1 hfound
  refine bind_eq_ok_iff.2 ⟨nodes, hnodes, ?_⟩
  exact (followSteps_doubleSlash h).2 (((followSteps_descendant h).1 hfound).filter _)

/-- The elements among the attached nodes are the attached elements. -/
theorem filterMap_attached (d : Document) (nodes : List Node) :
    (nodes.filter (·.isAttached d)).filterMap Node.element? =
      (nodes.filterMap Node.element?).filter fun e => !d.isLoose e.place := by
  rw [List.filterMap_filter, List.filter_filterMap]
  refine congrArg (List.filterMap · nodes) (funext fun n => ?_)
  cases n with
  | document => simp [Node.element?]
  | element e => cases hloose : d.isLoose e.place <;>
      simp [Node.element?, Node.isAttached, Node.place, Option.filter, hloose]

/-- **A double slash leads to all that is attached below.** A path that goes on with a double slash
and a step whose conditions ask for no position, and give no numbers, leads to what the conditions
keep of all that passes the test below the nodes of the path and is attached there, while the axis of
the descendants leads to loose elements too. So the two paths have the same values and select the
same, and fail together, where no loose element passes the test, and else the double slash selects
what is attached of what the axis selects. They are what the tokens of the two paths are read as. -/
theorem doubleSlash_descendant (d : Document) (path : Path) (test : NodeTest)
    (predicates : List Expr) (h : Fusible predicates) :
    (∀ node nodes found, path.nodes d node = .ok nodes →
      ((path.goOn [⟨.descendant, test, predicates⟩]).nodes d node = .ok found ↔
        Kept (stepVerdict d test predicates)
          (nodesAlongAny d .descendant (nodes.map Node.place)) found) ∧
      ((path.goOn [.selfAndBelow, ⟨.child, test, predicates⟩]).nodes d node = .ok found ↔
        Kept (stepVerdict d test predicates)
          ((nodesAlongAny d .descendant (nodes.map Node.place)).filter (·.isAttached d)) found)) ∧
    (∀ found,
      elementsOf d (.path (path.goOn [⟨.descendant, test, predicates⟩]).anywhere) = .ok found →
      elementsOf d (.path (path.goOn [.selfAndBelow, ⟨.child, test, predicates⟩]).anywhere) =
        .ok (found.filter fun e => !d.isLoose e.place)) ∧
    ((∀ e ∈ d.elements, d.isLoose e.place = true → test.accepts (.element e) = false) →
      (∀ node,
        ((path.goOn [.selfAndBelow, ⟨.child, test, predicates⟩]).eval d node).toOption =
          ((path.goOn [⟨.descendant, test, predicates⟩]).eval d node).toOption) ∧
      (elementsOf d
          (.path (path.goOn [.selfAndBelow, ⟨.child, test, predicates⟩]).anywhere)).toOption =
        (elementsOf d (.path (path.goOn [⟨.descendant, test, predicates⟩]).anywhere)).toOption) ∧
    (path.WellFormed → path.value = none → (∀ e ∈ predicates, e.WellFormed) →
      parseExpr (path.leading .doubleSlash ++ childTokens test predicates) =
          .ok (.path (path.goOn [.selfAndBelow, ⟨.child, test, predicates⟩])) ∧
        parseExpr (path.leading .slash ++ Step.tokens ⟨.descendant, test, predicates⟩) =
          .ok (.path (path.goOn [⟨.descendant, test, predicates⟩]))) := by
  refine ⟨fun node nodes found hnodes => ?_, fun found hfound => ?_, fun hloose => ?_,
    fun hformed hvalue hpredicates => ⟨?_, ?_⟩⟩
  · rw [Path.nodes_goOn hnodes, Path.nodes_goOn hnodes]
    exact ⟨followSteps_descendant h, followSteps_doubleSlash h⟩
  · rw [Path.anywhere_goOn] at hfound ⊢
    obtain ⟨hvalue, nodes, hnodes, rfl⟩ := elementsOf_path_eq_ok_iff.1 hfound
    refine elementsOf_path_eq_ok_iff.2 ⟨hvalue, _, nodes_goOn_doubleSlash h hnodes, ?_⟩
    exact filterMap_attached d nodes
  · have hsteps := followSteps_doubleSlash_eq h hloose
    have hpath := Path.eval_goOn_congr hsteps
    refine ⟨hpath path, elementsOf_congr ?_⟩
    rw [Path.anywhere_goOn, Path.anywhere_goOn, Expr.eval, Expr.eval]
    exact hpath path.anywhere .document
  · exact parseExpr_leading .doubleSlash hformed hvalue
      (startsStep_childTokens test predicates) (parseStep_childTokens hpredicates)
  · have hstep : Step.Read ⟨.descendant, test, predicates⟩ := Step.read _ (.intro hpredicates)
    have hread := @hstep [] (by simp [EndsStep])
    rw [List.append_nil] at hread
    exact parseExpr_leading .slash hformed hvalue (by rw [Step.tokens]; rfl) hread

/-- An element with a text and an element in a template with another:
`<b>x</b><template><p>y</p></template>`. -/
def templateTree : Document :=
  ⟨[.element "b" .empty [.text "x"],
    .element "template" .empty [.fragment [.element "p" .empty [.text "y"]]]]⟩

theorem doubleSlash_descendant_templateTree :
    parseExpr [.doubleSlash, .star, .openBracket, .name "text", .openParen, .closeParen,
        .closeBracket] =
      .ok (.path ⟨true, [.selfAndBelow, ⟨.child, .anyElement, [hasText]⟩], none⟩) ∧
    parseExpr [.slash, .name "descendant", .doubleColon, .star, .openBracket, .name "text",
        .openParen, .closeParen, .closeBracket] =
      .ok (.path ⟨true, [⟨.descendant, .anyElement, [hasText]⟩], none⟩) ∧
    elementsOf templateTree (.path ⟨true, [⟨.descendant, .anyElement, [hasText]⟩], none⟩) =
      .ok [⟨[0], "b", .empty, [.text "x"], .html⟩, ⟨[1, 0, 0], "p", .empty, [.text "y"], .html⟩] ∧
    elementsOf templateTree
        (.path ⟨true, [.selfAndBelow, ⟨.child, .anyElement, [hasText]⟩], none⟩) =
      .ok [⟨[0], "b", .empty, [.text "x"], .html⟩] ∧
    (elementsOf nestedTree
        (.path ⟨true, [.selfAndBelow, ⟨.child, .anyElement, [hasText]⟩], none⟩)).toOption =
      (elementsOf nestedTree
        (.path ⟨true, [⟨.descendant, .anyElement, [hasText]⟩], none⟩)).toOption := by
  have hfusible : Fusible [hasText] := List.forall_mem_singleton.2 ⟨rfl, rfl⟩
  have hformed : ∀ e ∈ [hasText], e.WellFormed :=
    List.forall_mem_singleton.2 (.path (.intro (.inr (.inr rfl)) nofun))
  obtain ⟨-, hattached, -, hread⟩ :=
    doubleSlash_descendant templateTree ⟨true, [], none⟩ .anyElement [hasText] hfusible
  obtain ⟨-, -, hsame, -⟩ :=
    doubleSlash_descendant nestedTree ⟨true, [], none⟩ .anyElement [hasText] hfusible
  obtain ⟨hshort, hlong⟩ := hread (.intro (.inl rfl) nofun) rfl hformed
  have hshortTokens : Path.leading ⟨true, [], none⟩ .doubleSlash ++
      childTokens .anyElement [hasText] = [.doubleSlash, .star, .openBracket, .name "text",
        .openParen, .closeParen, .closeBracket] := by cbv
  have hlongTokens : Path.leading ⟨true, [], none⟩ .slash ++
      Step.tokens ⟨.descendant, .anyElement, [hasText]⟩ = [.slash, .name "descendant", .doubleColon,
        .star, .openBracket, .name "text", .openParen, .closeParen, .closeBracket] := by cbv
  rw [hshortTokens] at hshort
  rw [hlongTokens] at hlong
  have hlooseless : ∀ e ∈ nestedTree.elements, nestedTree.isLoose e.place = true →
      NodeTest.anyElement.accepts (.element e) = false := fun e he hloose => by
    rw [isLoose_eq_false rfl he] at hloose
    cases hloose
  exact ⟨hshort, hlong, rfl, hattached _ rfl, (hsame hlooseless).2⟩

end Gleaner.Query
