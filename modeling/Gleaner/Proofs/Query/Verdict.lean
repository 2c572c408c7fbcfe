/-
# Verdicts on nodes

A condition is asked of a node at a position, and may fail. Where its position makes no difference
to that, the condition has a verdict on each node by itself: it fails, it holds or it does not. What
such a condition keeps of a list is then kept node by node, however the list is put together: what
conditions keep one after another is kept by one verdict, and what a step keeps of the candidates of
each node on its own is kept of all candidates at once.

Key definitions: `Kept`, `andThen`, `judgeAll`, `HasVerdict`.
Key theorems: `kept_append_iff`, `kept_andThen_iff`, `keepWhere_eq_ok_iff`, `keepAll_eq_ok_iff`,
`gather_eq_ok_iff`.
-/
import Gleaner.Proofs.Success
import Gleaner.Query.Evaluation

namespace Gleaner.Query

open Gleaner.Markup

variable {d : Document} {nodes kept : List Node} {judge : Node → Option Bool}

/-! ### Nodes that are kept -/

/-- The verdict fails on none of the nodes, and those are kept of which it holds. -/
def Kept (judge : Node → Option Bool) (nodes kept : List Node) : Prop :=
  (∀ n ∈ nodes, (judge n).isSome = true) ∧ kept = nodes.filter fun n => judge n == some true

theorem Kept.congr {judge' : Node → Option Bool} (h : ∀ n ∈ nodes, judge n = judge' n) :
    Kept judge nodes kept ↔ Kept judge' nodes kept := by
  have hfilter : (nodes.filter fun n => judge n == some true) =
      nodes.filter fun n => judge' n == some true :=
    List.filter_congr fun n hn => by rw [h n hn]
  rw [Kept, Kept, hfilter]
  exact and_congr_left' (forall₂_congr fun n hn => by rw [h n hn])

/-- A verdict that fails on no node keeps those of which it holds. -/
theorem kept_some_iff {holds : Node → Bool} :
    Kept (fun n => some (holds n)) nodes kept ↔ kept = nodes.filter holds := by
  have hfilter : (nodes.filter fun n => some (holds n) == some true) = nodes.filter holds :=
    List.filter_congr fun n _ => by cases holds n <;> rfl
  rw [Kept, hfilter]
  exact and_iff_right fun _ _ => rfl

theorem kept_nil_iff : Kept judge [] kept ↔ kept = [] :=
  and_iff_right nofun

/-- What is kept of nodes one after another is kept of the first of them, and then of the rest. -/
theorem kept_append_iff {first second : List Node} :
    Kept judge (first ++ second) kept ↔
      ∃ front back, Kept judge first front ∧ Kept judge second back ∧ kept = front ++ back := by
  constructor
  · rintro ⟨hall, rfl⟩
    obtain ⟨hfirst, hsecond⟩ := List.forall_mem_append.1 hall
    exact ⟨_, _, ⟨hfirst, rfl⟩, ⟨hsecond, rfl⟩, List.filter_append ..⟩
  · rintro ⟨_, _, ⟨hfirst, rfl⟩, ⟨hsecond, rfl⟩, rfl⟩
    exact ⟨List.forall_mem_append.2 ⟨hfirst, hsecond⟩, (List.filter_append ..).symm⟩

theorem kept_singleton_iff {node : Node} :
    Kept judge [node] kept ↔
      ∃ holds, judge node = some holds ∧ kept = if holds then [node] else [] := by
  rw [Kept, List.forall_mem_singleton]
  cases hjudge : judge node with
  | none => simp
  | some holds => cases holds <;> simp [hjudge]

/-- The verdict of one condition, and where that keeps the node, of another. -/
def andThen (first second : Node → Option Bool) (node : Node) : Option Bool :=
  (first node).bind fun holds => if holds then second node else some false

/-- Nodes are kept by two verdicts at once that are kept by the first and then by the second. -/
theorem kept_andThen_iff {first second : Node → Option Bool} :
    Kept (andThen first second) nodes kept ↔
      ∃ between, Kept first nodes between ∧ Kept second between kept := by
  have hkept (n : Node) :
      (andThen first second n == some true) = (second n == some true && first n == some true) := by
    unfold andThen
    cases first n with
    | none => simp
    | some holds => cases holds <;> simp
  have hanswers (n : Node) : (andThen first second n).isSome = true ↔
      (first n).isSome = true ∧ (first n = some true → (second n).isSome = true) := by
    unfold andThen
    cases first n with
    | none => simp
    | some holds => cases holds <;> simp
  have hfilter : (nodes.filter fun n => andThen first second n == some true) =
      (nodes.filter fun n => first n == some true).filter fun n => second n == some true := by
    rw [List.filter_filter]
    exact List.filter_congr fun n _ => hkept n
  constructor
  · rintro ⟨hall, rfl⟩
    refine ⟨_, ⟨fun n hn => ((hanswers n).1 (hall n hn)).1, rfl⟩, fun n hn => ?_, hfilter⟩
    obtain ⟨hn, hfirst⟩ := List.mem_filter.1 hn
    exact ((hanswers n).1 (hall n hn)).2 (beq_iff_eq.1 hfirst)
  · rintro ⟨_, ⟨hfirst, rfl⟩, hsecond, rfl⟩
    refine ⟨fun n hn => (hanswers n).2 ⟨hfirst n hn, fun htrue => ?_⟩, hfilter.symm⟩
    exact hsecond n (List.mem_filter.2 ⟨hn, beq_iff_eq.2 htrue⟩)

/-- Two verdicts that fail on no node can be asked in either order. -/
theorem andThen_comm {first second : Node → Option Bool} {node : Node}
    (hfirst : (first node).isSome = true) (hsecond : (second node).isSome = true) :
    andThen first second node = andThen second first node := by
  obtain ⟨a, ha⟩ := Option.isSome_iff_exists.1 hfirst
  obtain ⟨b, hb⟩ := Option.isSome_iff_exists.1 hsecond
  rw [andThen, andThen, ha, hb]
  cases a <;> cases b <;> rfl

/-- The verdict of conditions asked one after another. -/
def judgeAll : List (Node → Option Bool) → Node → Option Bool
  | [], _ => some true
  | judge :: rest, node => andThen judge (judgeAll rest) node

theorem judgeAll_singleton (judge : Node → Option Bool) (node : Node) :
    judgeAll [judge] node = judge node := by
  rw [judgeAll, andThen]
  cases judge node with
  | none => rfl
  | some holds => cases holds <;> rfl

/-- Verdicts that fail on no node hold together where each of them does. -/
theorem judgeAll_some {α : Type} (holds : α → Node → Bool) (node : Node) : (list : List α) →
    judgeAll (list.map fun a n => some (holds a n)) node = some (list.all (holds · node))
  | [] => rfl
  | a :: rest => by
    rw [List.map_cons, judgeAll, andThen, judgeAll_some holds node rest, List.all_cons]
    cases holds a node <;> rfl

/-! ### Conditions with verdicts -/

/-- At whatever position the condition is asked of a node, it fails, holds or does not as the
verdict tells. -/
def HasVerdict (condition : Context → Except Reason Value) (judge : Node → Option Bool) : Prop :=
  ∀ c : Context, (condition c).toOption.map (holdsAt c.position) = judge c.node

/-- A condition keeps the nodes that its verdict keeps. -/
theorem keepWhere_eq_ok_iff {condition : Context → Except Reason Value}
    (h : HasVerdict condition judge) (size position : Nat) :
    keepWhere condition size position nodes = .ok kept ↔ Kept judge nodes kept := by
  induction nodes generalizing position kept with
  | nil =>
    rw [keepWhere, Except.ok.injEq, kept_nil_iff]
    exact eq_comm
  | cons node rest ih =>
    have hjudge := h ⟨node, position, size⟩
    rw [keepWhere, bind_eq_ok_iff, ← List.singleton_append, kept_append_iff]
    constructor
    · rintro ⟨value, hvalue, hkept⟩
      obtain ⟨more, hmore, hkept⟩ := bind_eq_ok_iff.1 hkept
      rw [hvalue] at hjudge
      refine ⟨_, more, kept_singleton_iff.2 ⟨_, hjudge.symm, rfl⟩, (ih _).1 hmore, ?_⟩
      rw [← Except.ok.inj hkept]
      cases holdsAt position value <;> rfl
    · rintro ⟨front, more, hfront, hmore, rfl⟩
      obtain ⟨holds, hholds, rfl⟩ := kept_singleton_iff.1 hfront
      cases hvalue : condition ⟨node, position, size⟩ with
      | error reason =>
        rw [hvalue, hholds] at hjudge
        cases hjudge
      | ok value =>
        rw [hvalue, hholds] at hjudge
        obtain rfl : holdsAt position value = holds := Option.some.inj hjudge
        refine ⟨value, rfl, bind_eq_ok_iff.2 ⟨more, (ih _).2 hmore, ?_⟩⟩
        cases holdsAt position value <;> rfl

/-- Conditions asked one after another keep the nodes that their verdicts keep together. -/
theorem keepAll_eq_ok_iff {α : Type} {expr : α → Expr} {judge : α → Node → Option Bool}
    {conditions : List α}
    (h : ∀ a ∈ conditions, HasVerdict (fun c => (expr a).eval d c) (judge a)) :
    keepAll d (conditions.map expr) nodes = .ok kept ↔
      Kept (judgeAll (conditions.map judge)) nodes kept := by
  induction conditions generalizing nodes kept with
  | nil =>
    have hall : (nodes.filter fun _ => true) = nodes := List.filter_eq_self.2 fun _ _ => rfl
    have hkept : Kept (judgeAll []) nodes kept ↔ kept = nodes.filter fun _ => true := kept_some_iff
    rw [List.map_nil, List.map_nil, keepAll, Except.ok.injEq, hkept, hall]
    exact eq_comm
  | cons a rest ih =>
    obtain ⟨ha, hrest⟩ := List.forall_mem_cons.1 h
    rw [List.map_cons, List.map_cons, keepAll, bind_eq_ok_iff]
    calc (∃ between, keepWhere (fun c => (expr a).eval d c) nodes.length 1 nodes = .ok between ∧
            keepAll d (rest.map expr) between = .ok kept)
        ↔ ∃ between, Kept (judge a) nodes between ∧
            Kept (judgeAll (rest.map judge)) between kept :=
          exists_congr fun between => and_congr (keepWhere_eq_ok_iff ha _ _) (ih hrest)
      _ ↔ Kept (judgeAll (judge a :: rest.map judge)) nodes kept := kept_andThen_iff.symm

/-- What is kept of the candidates of each node on its own is kept of all candidates together. -/
theorem gather_eq_ok_iff {follow : Node → Except Reason (List Node)}
    {candidates : Node → List Node}
    (h : ∀ node found, follow node = .ok found ↔ Kept judge (candidates node) found) :
    gather follow nodes = .ok kept ↔ Kept judge (nodes.flatMap candidates) kept := by
  induction nodes generalizing kept with
  | nil =>
    rw [gather, Except.ok.injEq, List.flatMap_nil, kept_nil_iff]
    exact eq_comm
  | cons node rest ih =>
    rw [gather, List.flatMap_cons, kept_append_iff, bind_eq_ok_iff]
    constructor
    · rintro ⟨front, hfront, hfound⟩
      obtain ⟨back, hback, hfound⟩ := bind_eq_ok_iff.1 hfound
      exact ⟨front, back, (h node front).1 hfront, ih.1 hback, (Except.ok.inj hfound).symm⟩
    · rintro ⟨front, back, hfront, hback, rfl⟩
      exact ⟨front, (h node front).2 hfront, bind_eq_ok_iff.2 ⟨back, ih.2 hback, rfl⟩⟩

end Gleaner.Query
