/-
# Conditions that ask for no position

The position and the number of candidates come into an expression by two functions only, and the
conditions of a step inside it are asked at positions of their own. So an expression that calls
neither outside of such conditions has one value at a node, wherever that stands among candidates;
and if its value is no number, the node is kept when the value is true.

Such a condition has a verdict on each node by itself. The verdict of two conditions one after
another is that of the first and, where that keeps the node, of the second. This is also the verdict
of the two with `and` between them, which asks the second of no node that the first rules out.

Key definitions: `Expr.isPositionFree`, `Expr.isTest`, `Expr.verdict`, `Fusible`, `verdict`.
Key theorems: `Expr.eval_congr`, `Expr.hasVerdict`, `verdict_and`, `keepAll_congr`,
`Step.follow_congr`, `conditions_fuse`.
-/
import Gleaner.Proofs.Query.Verdict

namespace Gleaner.Query

open Gleaner.Markup

variable {d : Document} {nodes kept : List Node}

mutual

/-- The expression asks for a position, or for the number of candidates, at most in conditions of
steps inside it. -/
def Expr.isPositionFree : Expr → Bool
  | .path _ | .union _ | .literal _ | .number _ => true
  | .call function arguments =>
    function != .last && function != .position && arePositionFree arguments
  | .binary left _ right => left.isPositionFree && right.isPositionFree

/-- So do all expressions of a list. -/
def arePositionFree : List Expr → Bool
  | [] => true
  | e :: rest => e.isPositionFree && arePositionFree rest

end

/-- The outermost form of the expression is none that gives a number. -/
def Expr.isTest : Expr → Bool
  | .number _ => false
  | .call function _ =>
    function != .last && function != .position && function != .count && function != .stringLength
  | .path _ | .union _ | .literal _ | .binary .. => true

/-! ### One value at a node -/

theorem applyFunction_congr {function : Function} (hlast : function ≠ .last)
    (hposition : function ≠ .position) (node : Node) (i s j t : Nat) (arguments : List Value) :
    applyFunction d ⟨node, i, s⟩ function arguments =
      applyFunction d ⟨node, j, t⟩ function arguments := by
  cases function with
  | last => exact absurd rfl hlast
  | position => exact absurd rfl hposition
  | _ => rfl

mutual

/-- The value of an expression that asks for no position does not depend on the position of its
node, or on the number of candidates. -/
theorem Expr.eval_congr (node : Node) (i s j t : Nat) : (e : Expr) → e.isPositionFree = true →
    e.eval d ⟨node, i, s⟩ = e.eval d ⟨node, j, t⟩
  | .path _, _ | .union _, _ | .literal _, _ | .number _, _ => by simp only [Expr.eval]
  | .call function arguments, h => by
    simp only [Expr.isPositionFree, Bool.and_eq_true, bne_iff_ne] at h
    have harguments := evalAll_congr node i s j t arguments h.2
    rw [Expr.eval, Expr.eval, harguments]
    exact congrArg _ (funext fun values => applyFunction_congr h.1.1 h.1.2 node i s j t values)
  | .binary left op right, h => by
    simp only [Expr.isPositionFree, Bool.and_eq_true] at h
    have hleft := Expr.eval_congr node i s j t left h.1
    have hright := Expr.eval_congr node i s j t right h.2
    cases op with
    | or => rw [Expr.eval, Expr.eval, hleft, hright]
    | and => rw [Expr.eval, Expr.eval, hleft, hright]
    | comparison comparison => rw [Expr.eval, Expr.eval, hleft, hright]

theorem evalAll_congr (node : Node) (i s j t : Nat) : (list : List Expr) →
    arePositionFree list = true → evalAll d ⟨node, i, s⟩ list = evalAll d ⟨node, j, t⟩ list
  | [], _ => by simp only [evalAll]
  | e :: rest, h => by
    rw [arePositionFree, Bool.and_eq_true] at h
    have hfirst := Expr.eval_congr node i s j t e h.1
    have hrest := evalAll_congr node i s j t rest h.2
    rw [evalAll, evalAll, hfirst, hrest]

end

/-! ### Verdicts -/

theorem applyFunction_ne_number {c : Context} {function : Function} {arguments : List Value}
    {x : Float} (h : (Expr.call function []).isTest = true) :
    applyFunction d c function arguments ≠ .ok (.scalar (.number x)) := by
  intro heval
  unfold applyFunction at heval
  cases function with
  | last | position | count | stringLength => cases h
  | name =>
    simp only at heval
    split at heval
    · cases heval
    · cases heval
    · cases heval
  | _ => cases heval

/-- A test gives no number. -/
theorem Expr.eval_ne_number {e : Expr} (h : e.isTest = true) {c : Context} {x : Float} :
    e.eval d c ≠ .ok (.scalar (.number x)) := by
  intro heval
  cases e with
  | path path =>
    obtain ⟨absolute, steps, value⟩ := path
    rw [Expr.eval, Path.eval] at heval
    obtain ⟨nodes, -, heval⟩ := bind_eq_ok_iff.1 heval
    cases value <;> cases heval
  | union paths =>
    rw [Expr.eval] at heval
    obtain ⟨nodes, -, heval⟩ := map_eq_ok_iff.1 heval
    cases heval
  | literal text =>
    rw [Expr.eval] at heval
    cases heval
  | number value => cases h
  | call function arguments =>
    rw [Expr.eval] at heval
    obtain ⟨values, -, heval⟩ := bind_eq_ok_iff.1 heval
    exact applyFunction_ne_number h heval
  | binary left op right =>
    have htruth {y : Except Reason Value} :
        y.map (fun v => Value.scalar (.boolean v.toBool)) ≠ .ok (.scalar (.number x)) := by
      intro hy
      obtain ⟨value, -, hvalue⟩ := map_eq_ok_iff.1 hy
      cases hvalue
    cases op with
    | comparison comparison =>
      rw [Expr.eval] at heval
      obtain ⟨a, -, heval⟩ := bind_eq_ok_iff.1 heval
      obtain ⟨b, -, heval⟩ := bind_eq_ok_iff.1 heval
      cases heval
    | or =>
      rw [Expr.eval] at heval
      obtain ⟨a, -, heval⟩ := bind_eq_ok_iff.1 heval
      split at heval
      · cases heval
      · exact htruth heval
    | and =>
      rw [Expr.eval] at heval
      obtain ⟨a, -, heval⟩ := bind_eq_ok_iff.1 heval
      split at heval
      · exact htruth heval
      · cases heval

/-- A value that is no number holds where it is true, whatever the position. -/
theorem holdsAt_eq_toBool {value : Value} (h : ∀ x, value ≠ .scalar (.number x)) (position : Nat) :
    holdsAt position value = value.toBool := by
  cases value with
  | scalar s => cases s with
    | number x => exact absurd rfl (h x)
    | _ => rfl
  | _ => rfl

/-- The verdict of a condition, as it is asked of a node alone. -/
def Expr.verdict (d : Document) (e : Expr) (node : Node) : Option Bool :=
  (e.eval d ⟨node, 1, 1⟩).toOption.map Value.toBool

/-- At whatever position a test is asked that asks for none itself, its verdict is the same. -/
theorem Expr.hasVerdict {e : Expr} (hfree : e.isPositionFree = true) (htest : e.isTest = true) :
    HasVerdict (fun c => e.eval d c) (e.verdict d) := by
  rintro ⟨node, position, size⟩
  change (e.eval d ⟨node, position, size⟩).toOption.map (holdsAt position) = e.verdict d node
  rw [Expr.verdict, Expr.eval_congr node 1 1 position size e hfree]
  cases heval : e.eval d ⟨node, position, size⟩ with
  | error reason => rfl
  | ok value =>
    have hnumber : ∀ x, value ≠ .scalar (.number x) := by
      rintro x rfl
      exact Expr.eval_ne_number htest heval
    exact congrArg some (holdsAt_eq_toBool hnumber position)

/-- `and` between two conditions has the verdict that they have one after the other. -/
theorem verdict_and (p q : Expr) (node : Node) :
    (Expr.binary p .and q).verdict d node = andThen (p.verdict d) (q.verdict d) node := by
  rw [andThen, Expr.verdict, Expr.verdict, Expr.verdict, Expr.eval]
  cases p.eval d ⟨node, 1, 1⟩ with
  | error reason => rfl
  | ok value =>
    change Option.map Value.toBool
        (if value.toBool then
          (q.eval d ⟨node, 1, 1⟩).map fun v => .scalar (.boolean v.toBool)
        else .ok (.scalar (.boolean false))).toOption =
      if value.toBool then (q.eval d ⟨node, 1, 1⟩).toOption.map Value.toBool else some false
    split
    · cases q.eval d ⟨node, 1, 1⟩ with
      | error reason => rfl
      | ok second => rfl
    · rfl

/-! ### Conditions of a step -/

/-- The conditions ask for no position, and none of them gives a number. -/
def Fusible (conditions : List Expr) : Prop :=
  ∀ e ∈ conditions, e.isPositionFree = true ∧ e.isTest = true

theorem Fusible.pair {p q : Expr} (hp : p.isPositionFree = true ∧ p.isTest = true)
    (hq : q.isPositionFree = true ∧ q.isTest = true) : Fusible [p, q] :=
  List.forall_mem_cons.2 ⟨hp, List.forall_mem_singleton.2 hq⟩

theorem Fusible.hasVerdict {conditions : List Expr} (h : Fusible conditions) :
    ∀ e ∈ conditions, HasVerdict (fun c => (id e).eval d c) (e.verdict d) :=
  fun e he => Expr.hasVerdict (h e he).1 (h e he).2

/-- The verdict of conditions asked one after another. -/
def verdict (d : Document) (conditions : List Expr) : Node → Option Bool :=
  judgeAll (conditions.map (Expr.verdict d))

theorem Fusible.keepAll_eq_ok_iff {conditions : List Expr} (h : Fusible conditions) :
    keepAll d conditions nodes = .ok kept ↔ Kept (verdict d conditions) nodes kept := by
  have hkeep : keepAll d (conditions.map id) nodes = .ok kept ↔
      Kept (verdict d conditions) nodes kept := Query.keepAll_eq_ok_iff h.hasVerdict
  rwa [List.map_id] at hkeep

theorem verdict_singleton (e : Expr) (node : Node) : verdict d [e] node = e.verdict d node :=
  judgeAll_singleton (e.verdict d) node

theorem verdict_pair (p q : Expr) (node : Node) :
    verdict d [p, q] node = andThen (p.verdict d) (q.verdict d) node := by
  rw [← funext (verdict_singleton q)]
  rfl

/-- Conditions with the same verdict on all candidates keep the same of them. -/
theorem keepAll_congr {first second : List Expr} (hfirst : Fusible first)
    (hsecond : Fusible second) (h : ∀ n ∈ nodes, verdict d first n = verdict d second n) :
    (keepAll d first nodes).toOption = (keepAll d second nodes).toOption :=
  toOption_eq_iff.2 fun _ =>
    hfirst.keepAll_eq_ok_iff.trans ((Kept.congr h).trans hsecond.keepAll_eq_ok_iff.symm)

/-- Conditions on two sides of a place are asked one side after the other. -/
theorem keepAll_append (first second : List Expr) (nodes : List Node) :
    keepAll d (first ++ second) nodes = keepAll d first nodes >>= keepAll d second := by
  induction first generalizing nodes with
  | nil => rfl
  | cons e rest ih =>
    rw [List.cons_append, keepAll, keepAll]
    cases keepWhere (fun c => e.eval d c) nodes.length 1 nodes with
    | error reason => rfl
    | ok between => exact ih between

/-- Among the conditions of a step, some in a row can be replaced by others that keep the same of
the candidates that come to them. -/
theorem Step.follow_congr {node : Node} {axis : Axis} {test : NodeTest}
    {before first second after : List Expr}
    (h : ∀ candidates,
      keepAll d before ((nodesAlong d axis node.place).filter test.accepts) = .ok candidates →
        (keepAll d first candidates).toOption = (keepAll d second candidates).toOption) :
    (Step.follow d node ⟨axis, test, before ++ (first ++ after)⟩).toOption =
      (Step.follow d node ⟨axis, test, before ++ (second ++ after)⟩).toOption := by
  rw [Step.follow, Step.follow, keepAll_append, keepAll_append]
  cases hbefore : keepAll d before ((nodesAlong d axis node.place).filter test.accepts) with
  | error reason => rfl
  | ok candidates =>
    change (keepAll d (first ++ after) candidates).toOption =
      (keepAll d (second ++ after) candidates).toOption
    rw [keepAll_append, keepAll_append, toOption_bind, toOption_bind, h candidates hbefore]

/-- The expression has a value on the node, at some position. One that asks for no position then
has a value on the node at every position. -/
def Expr.SucceedsOn (d : Document) (e : Expr) (node : Node) : Prop :=
  ∃ position size value, e.eval d ⟨node, position, size⟩ = .ok value

theorem Expr.SucceedsOn.verdict_isSome {e : Expr} (hfree : e.isPositionFree = true) {node : Node}
    (h : e.SucceedsOn d node) : (e.verdict d node).isSome = true := by
  obtain ⟨position, size, value, hvalue⟩ := h
  rw [Expr.verdict, Expr.eval_congr node 1 1 position size e hfree, hvalue]
  rfl

/-- **Conditions fuse and commute.** An expression that asks for no position has the same value at
all positions. Of such conditions, if they give no numbers, two in a row keep the candidates of
which both hold; anywhere among those of a step they keep what they keep with `and` between them,
and fail when that does; and if neither fails on any candidate that comes to them, they can be asked
in either order. -/
theorem conditions_fuse (d : Document) :
    (∀ (e : Expr) (node : Node) (i s j t : Nat), e.isPositionFree = true →
      e.eval d ⟨node, i, s⟩ = e.eval d ⟨node, j, t⟩) ∧
    ∀ (node : Node) (axis : Axis) (test : NodeTest) (before after : List Expr) (p q : Expr),
      p.isPositionFree = true → p.isTest = true → q.isPositionFree = true → q.isTest = true →
        (∀ candidates kept, keepAll d [p, q] candidates = .ok kept ↔
          Kept (andThen (p.verdict d) (q.verdict d)) candidates kept) ∧
        (Step.follow d node ⟨axis, test, before ++ ([p, q] ++ after)⟩).toOption =
            (Step.follow d node ⟨axis, test, before ++ ([.binary p .and q] ++ after)⟩).toOption ∧
          ((∀ candidates,
              keepAll d before ((nodesAlong d axis node.place).filter test.accepts) =
                  .ok candidates →
                ∀ n ∈ candidates, p.SucceedsOn d n ∧ q.SucceedsOn d n) →
            (Step.follow d node ⟨axis, test, before ++ ([q, p] ++ after)⟩).toOption =
              (Step.follow d node ⟨axis, test, before ++ ([p, q] ++ after)⟩).toOption) := by
  refine ⟨fun e node i s j t he => Expr.eval_congr node i s j t e he, ?_⟩
  intro node axis test before after p q hpfree hptest hqfree hqtest
  have hpq : Fusible [p, q] := .pair ⟨hpfree, hptest⟩ ⟨hqfree, hqtest⟩
  have hqp : Fusible [q, p] := .pair ⟨hqfree, hqtest⟩ ⟨hpfree, hptest⟩
  refine ⟨fun candidates kept => ?_, ?_, fun hsucceed => ?_⟩
  · exact hpq.keepAll_eq_ok_iff.trans (Kept.congr fun n _ => verdict_pair p q n)
  · have hand : Fusible [.binary p .and q] :=
      List.forall_mem_singleton.2 ⟨by rw [Expr.isPositionFree, hpfree, hqfree]; rfl, rfl⟩
    refine Step.follow_congr fun candidates _ => keepAll_congr hpq hand fun n _ => ?_
    rw [verdict_pair, verdict_singleton, verdict_and]
  · refine Step.follow_congr fun candidates hcandidates => keepAll_congr hqp hpq fun n hn => ?_
    obtain ⟨hp, hq⟩ := hsucceed candidates hcandidates n hn
    rw [verdict_pair, verdict_pair]
    exact andThen_comm (hq.verdict_isSome hqfree) (hp.verdict_isSome hpfree)

/-- The condition `*`: the node has a child. -/
def hasChild : Expr :=
  .path ⟨false, [⟨.child, .anyElement, []⟩], none⟩

/-- The condition `text()`: the node has a text right below it. -/
def hasText : Expr :=
  .path ⟨false, [], some .text⟩

/-- Elements with a child and without, and with a text and without. -/
def nestedTree : Document :=
  ⟨[.element "a" .empty [.element "b" .empty [.text "x", .element "c" .empty [.text "y"]]]]⟩

theorem conditions_fuse_nestedTree :
    (Step.follow nestedTree .document ⟨.descendant, .anyElement, [hasChild, hasText]⟩).toOption =
        some [.element
          ⟨[0, 0], "b", .empty, [.text "x", .element "c" .empty [.text "y"]], .html⟩] ∧
      (Step.follow nestedTree .document ⟨.descendant, .anyElement, [hasChild, hasText]⟩).toOption =
        (Step.follow nestedTree .document
          ⟨.descendant, .anyElement, [.binary hasChild .and hasText]⟩).toOption ∧
      (Step.follow nestedTree .document ⟨.descendant, .anyElement, [hasText, hasChild]⟩).toOption =
        (Step.follow nestedTree .document
          ⟨.descendant, .anyElement, [hasChild, hasText]⟩).toOption := by
  obtain ⟨-, hfuse⟩ := conditions_fuse nestedTree
  obtain ⟨-, hand, hcommute⟩ :=
    hfuse .document .descendant .anyElement [] [] hasChild hasText rfl rfl rfl rfl
  refine ⟨rfl, hand, hcommute fun _ _ n _ => ⟨⟨1, 1, ?_⟩, ⟨1, 1, ?_⟩⟩⟩
  · exact ⟨.nodes _, by rfl⟩
  · exact ⟨.strings _, by rfl⟩

end Gleaner.Query
