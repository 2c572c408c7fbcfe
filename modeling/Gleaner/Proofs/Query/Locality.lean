/-
# Readings that look one token ahead

A reader takes some tokens and looks at no more than one behind them. So where other tokens follow
what it has taken, it takes the same and gives the same, if these begin as the former ones did. This
holds of each reader because it holds of those that it calls. They call one another in a circle, but
only for fewer tokens between brackets or parentheses; so it is shown of all of them at once for
longer and longer rows.

Key definitions: `Replays`.
Key theorems: `replays_parsePredicates`, `replays_parseLevel`, `parsePrimary_congr`.
-/
import Gleaner.Proofs.Query.Parts

namespace Gleaner.Query

open Gleaner.Text Gleaner.Markup

/-- What the reader takes of the tokens it takes again, and for the same, in front of others that
begin as what it has left. -/
def Replays {α : Type} {A : List Token → List Token → Prop}
    (reader : (tokens : List Token) → Except Reason (α × { rest : List Token // A tokens rest }))
    (tokens : List Token) : Prop :=
  ∀ a rest, Reads (reader tokens) a rest → ∃ used, tokens = used ++ rest ∧
    ∀ other, other.head? = rest.head? → Reads (reader (used ++ other)) a other

/-- Rows that go on alike from one beginning begin alike. -/
theorem head?_append_congr {other rest : List Token} (h : other.head? = rest.head?)
    (used : List Token) : (used ++ other).head? = (used ++ rest).head? := by
  rw [List.head?_append, List.head?_append, h]

theorem startsStep_congr {other rest : List Token} (h : other.head? = rest.head?) :
    startsStep other = startsStep rest := by
  cases other with
  | nil =>
    cases rest with
    | nil => rfl
    | cons t rest => cases h
  | cons t other =>
    obtain ⟨behind, rfl⟩ := List.head?_eq_some_iff.1 h.symm
    cases t <;> rfl

theorem replays_parseAttribute (tokens : List Token) : Replays parseAttribute tokens := by
  intro piece rest h
  obtain ⟨hbracket, ⟨name, rfl, rfl⟩ | ⟨rfl, rfl⟩⟩ := parseAttribute_cases h
  · refine ⟨[.name name], rfl, fun other hother => ?_⟩
    rw [← hother] at hbracket
    exact parseAttribute_name name hbracket
  · refine ⟨[.star], rfl, fun other hother => ?_⟩
    rw [← hother] at hbracket
    exact parseAttribute_star hbracket

/-! ### Steps and paths -/

section

variable {n : Nat}
  (hlevel : ∀ tokens : List Token, tokens.length < n → Replays (parseLevel 0) tokens)

include hlevel

theorem replays_parsePredicates (tokens : List Token) (hn : tokens.length ≤ n) :
    Replays parsePredicates tokens := by
  intro predicates rest h
  obtain ⟨rfl, rfl, hbracket⟩ | ⟨behind, e, more, others, rfl, he, hothers, rfl⟩ :=
    parsePredicates_cases h
  · refine ⟨[], rfl, fun other hother => parsePredicates_nil ?_⟩
    rwa [List.nil_append, hother]
  · have hlt := he.left
    rw [List.length_cons] at hn hlt
    obtain ⟨u, rfl, hu⟩ := hlevel behind (by omega) e _ he
    obtain ⟨w, rfl, hw⟩ := replays_parsePredicates more (by omega) others rest hothers
    refine ⟨.openBracket :: (u ++ .closeBracket :: w), by simp, fun other hother => ?_⟩
    rw [List.cons_append, List.append_assoc]
    exact parsePredicates_cons (hu (.closeBracket :: (w ++ other)) rfl) (hw other hother)
termination_by tokens.length
decreasing_by grind

theorem replays_parseNodeTest (axis : Axis) (tokens : List Token) (hn : tokens.length ≤ n) :
    Replays (parseNodeTest axis) tokens := by
  intro piece rest h
  cases parseNodeTest_parts h with
  | @star more predicates htokens hpredicates hpiece =>
    subst htokens hpiece
    rw [List.length_cons] at hn
    obtain ⟨u, rfl, hu⟩ :=
      replays_parsePredicates hlevel more (by omega) predicates rest hpredicates
    exact ⟨.star :: u, rfl, fun other hother => parseNodeTest_star (hu other hother)⟩
  | @node more predicates htokens hpredicates hpiece =>
    subst htokens hpiece
    simp only [List.length_cons] at hn
    obtain ⟨u, rfl, hu⟩ :=
      replays_parsePredicates hlevel more (by omega) predicates rest hpredicates
    exact ⟨.name "node" :: .openParen :: .closeParen :: u, rfl,
      fun other hother => parseNodeTest_node (hu other hother)⟩
  | text htokens hbracket haxis hpiece =>
    subst htokens haxis hpiece
    refine ⟨[.name "text", .openParen, .closeParen], rfl, fun other hother => ?_⟩
    rw [← hother] at hbracket
    exact parseNodeTest_text hbracket
  | @named name more predicates htokens hopen hpredicates hpiece =>
    subst htokens hpiece
    rw [List.length_cons] at hn
    obtain ⟨u, rfl, hu⟩ :=
      replays_parsePredicates hlevel more (by omega) predicates rest hpredicates
    refine ⟨.name name :: u, rfl, fun other hother => ?_⟩
    rw [← head?_append_congr hother u] at hopen
    exact parseNodeTest_name (hu other hother) hopen

theorem replays_parseStep (tokens : List Token) (hn : tokens.length ≤ n) :
    Replays parseStep tokens := by
  intro piece rest h
  cases parseStep_parts h with
  | dot htokens hpiece =>
    subst htokens hpiece
    exact ⟨[.dot], rfl, fun other _ => parseStep_dot⟩
  | doubleDot htokens hpiece =>
    subst htokens hpiece
    exact ⟨[.doubleDot], rfl, fun other _ => parseStep_doubleDot⟩
  | @atSign more htokens hpiece =>
    subst htokens
    obtain ⟨u, rfl, hu⟩ := replays_parseAttribute more piece rest hpiece
    exact ⟨.at :: u, rfl, fun other hother => parseStep_at (hu other hother)⟩
  | @attributes more htokens hpiece =>
    subst htokens
    obtain ⟨u, rfl, hu⟩ := replays_parseAttribute more piece rest hpiece
    exact ⟨.name "attribute" :: .doubleColon :: u, rfl,
      fun other hother => parseStep_attributes (hu other hother)⟩
  | @along name axis more hname haxis htokens htest =>
    subst htokens
    simp only [List.length_cons] at hn
    obtain ⟨u, rfl, hu⟩ := replays_parseNodeTest hlevel axis more (by omega) piece rest htest
    exact ⟨.name name :: .doubleColon :: u, rfl,
      fun other hother => parseStep_axis hname haxis (hu other hother)⟩
  | child hstart htest =>
    obtain ⟨u, rfl, hu⟩ := replays_parseNodeTest hlevel .child tokens hn piece rest htest
    refine ⟨u, rfl, fun other hother => ?_⟩
    cases u with
    | nil => exact absurd (hu other hother).left (Nat.lt_irrefl _)
    | cons t u =>
      refine parseStep_child (hu other hother) ?_
      obtain hstar | ⟨name, more, heq, hcolon⟩ := hstart
      · exact .inl hstar
      · rw [List.cons_append] at heq
        obtain ⟨rfl, rfl⟩ := List.cons.inj heq
        rw [← head?_append_congr hother u] at hcolon
        exact .inr ⟨name, u ++ other, rfl, hcolon⟩

theorem replays_parseSteps (absolute : Bool) (before : List Step) (tokens : List Token)
    (hn : tokens.length ≤ n) : Replays (parseSteps absolute before) tokens := by
  intro path rest h
  cases parseSteps_parts h with
  | @value value hstep hends hpath =>
    subst hpath
    obtain ⟨u, rfl, hu⟩ := replays_parseStep hlevel tokens hn _ rest hstep
    refine ⟨u, rfl, fun other hother => parseSteps_value (hu other hother) ?_⟩
    rwa [hother]
  | @last step hstep hends hpath =>
    subst hpath
    obtain ⟨u, rfl, hu⟩ := replays_parseStep hlevel tokens hn _ rest hstep
    refine ⟨u, rfl, fun other hother => parseSteps_end (hu other hother) ?_⟩
    rwa [hother]
  | @slash step more hstep hmore =>
    have hlt := hstep.left
    rw [List.length_cons] at hlt
    obtain ⟨u, rfl, hu⟩ := replays_parseStep hlevel tokens hn _ _ hstep
    obtain ⟨w, rfl, hw⟩ :=
      replays_parseSteps absolute (before ++ [step]) more (by omega) path rest hmore
    refine ⟨u ++ .slash :: w, by simp, fun other hother => ?_⟩
    rw [List.append_assoc]
    exact parseSteps_slash (hu (.slash :: (w ++ other)) rfl) (hw other hother)
  | @doubleSlash step more hstep hmore =>
    have hlt := hstep.left
    rw [List.length_cons] at hlt
    obtain ⟨u, rfl, hu⟩ := replays_parseStep hlevel tokens hn _ _ hstep
    obtain ⟨w, rfl, hw⟩ :=
      replays_parseSteps absolute (before ++ [step, .selfAndBelow]) more (by omega) path rest hmore
    refine ⟨u ++ .doubleSlash :: w, by simp, fun other hother => ?_⟩
    rw [List.append_assoc]
    exact parseSteps_doubleSlash (hu (.doubleSlash :: (w ++ other)) rfl) (hw other hother)
termination_by tokens.length
decreasing_by all_goals grind

theorem replays_parsePath (tokens : List Token) (hn : tokens.length ≤ n) :
    Replays parsePath tokens := by
  intro path rest h
  cases parsePath_parts h with
  | @slash more htokens hstart hsteps =>
    subst htokens
    rw [List.length_cons] at hn
    obtain ⟨u, rfl, hu⟩ := replays_parseSteps hlevel true [] more (by omega) path rest hsteps
    refine ⟨.slash :: u, rfl, fun other hother => ?_⟩
    exact parsePath_slash (begins_of_parseSteps (hu other hother)).1 (hu other hother)
  | root htokens hstart hpath =>
    subst htokens hpath
    refine ⟨[.slash], rfl, fun other hother => ?_⟩
    have hnone : startsStep other = false := (startsStep_congr hother).trans hstart
    exact parsePath_root hnone
  | @doubleSlash more htokens hsteps =>
    subst htokens
    rw [List.length_cons] at hn
    obtain ⟨u, rfl, hu⟩ :=
      replays_parseSteps hlevel true [.selfAndBelow] more (by omega) path rest hsteps
    exact ⟨.doubleSlash :: u, rfl, fun other hother => parsePath_doubleSlash (hu other hother)⟩
  | relative hstart hsteps =>
    obtain ⟨u, rfl, hu⟩ := replays_parseSteps hlevel false [] tokens hn path rest hsteps
    refine ⟨u, rfl, fun other hother => ?_⟩
    exact parsePath_relative (begins_of_parseSteps (hu other hother)).1 (hu other hother)

/-! ### Operands -/

theorem replays_parseArguments (tokens : List Token) (hn : tokens.length < n) :
    Replays parseArguments tokens := by
  intro arguments rest h
  obtain ⟨e, he, rfl⟩ | ⟨e, more, others, he, hothers, rfl⟩ := parseArguments_cases h
  · obtain ⟨u, rfl, hu⟩ := hlevel tokens hn e _ he
    refine ⟨u ++ [.closeParen], by simp, fun other _ => ?_⟩
    rw [List.append_assoc]
    exact parseArguments_last (hu (.closeParen :: other) rfl)
  · have hlt := he.left
    rw [List.length_cons] at hlt
    obtain ⟨u, rfl, hu⟩ := hlevel tokens hn e _ he
    obtain ⟨w, rfl, hw⟩ := replays_parseArguments more (by omega) others rest hothers
    refine ⟨u ++ .comma :: w, by simp, fun other hother => ?_⟩
    rw [List.append_assoc]
    exact parseArguments_cons (hu (.comma :: (w ++ other)) rfl) (hw other hother)
termination_by tokens.length
decreasing_by grind

theorem replays_parsePrimary (tokens : List Token) (hn : tokens.length ≤ n) :
    Replays parsePrimary tokens := by
  intro e rest h
  cases parsePrimary_parts h with
  | @literal text htokens he =>
    subst htokens he
    exact ⟨[.literal text], rfl, fun other _ => parsePrimary_literal text⟩
  | @number value htokens he =>
    subst htokens he
    exact ⟨[.number value], rfl, fun other _ => parsePrimary_number value⟩
  | @enclosed more htokens he =>
    subst htokens
    rw [List.length_cons] at hn
    obtain ⟨u, rfl, hu⟩ := hlevel more (by omega) e _ he
    refine ⟨.openParen :: (u ++ [.closeParen]), by simp, fun other _ => ?_⟩
    rw [List.cons_append, List.append_assoc]
    exact parsePrimary_enclosed (hu (.closeParen :: other) rfl)
  | @emptyCall name function hname hfunction htokens hcall =>
    subst htokens
    exact ⟨[.name name, .openParen, .closeParen], rfl,
      fun other _ => parsePrimary_emptyCall hname hfunction hcall⟩
  | @call name function more arguments hname hfunction htokens harguments hcall =>
    subst htokens
    simp only [List.length_cons] at hn
    obtain ⟨u, rfl, hu⟩ := replays_parseArguments hlevel more (by omega) arguments rest harguments
    exact ⟨.name name :: .openParen :: u, rfl,
      fun other hother => parsePrimary_call hname hfunction (hu other hother) hcall⟩
  | @path path hpath he =>
    subst he
    obtain ⟨u, rfl, hu⟩ := replays_parsePath hlevel tokens hn path rest hpath
    exact ⟨u, rfl, fun other hother => parsePrimary_of_path (hu other hother)⟩

theorem replays_parseOperands (tokens : List Token) (hn : tokens.length ≤ n) :
    Replays parseOperands tokens := by
  intro paths rest h
  obtain ⟨rfl, rfl, hpipe⟩ |
    ⟨behind, operand, more, path, others, rfl, hoperand, hpath, hothers, rfl⟩ :=
    parseOperands_cases h
  · refine ⟨[], rfl, fun other hother => parseOperands_nil ?_⟩
    rwa [List.nil_append, hother]
  · have hlt := hoperand.left
    rw [List.length_cons] at hn
    obtain ⟨u, rfl, hu⟩ := replays_parsePrimary hlevel behind (by omega) operand more hoperand
    obtain ⟨w, rfl, hw⟩ := replays_parseOperands more (by omega) others rest hothers
    refine ⟨.pipe :: (u ++ w), by simp, fun other hother => ?_⟩
    rw [List.cons_append, List.append_assoc]
    exact parseOperands_cons (hu (w ++ other) (head?_append_congr hother w)) hpath (hw other hother)
termination_by tokens.length
decreasing_by grind

theorem replays_parseUnion (tokens : List Token) (hn : tokens.length ≤ n) :
    Replays parseUnion tokens := by
  intro e rest h
  obtain ⟨hfirst, hpipe⟩ | ⟨first, more, path, paths, hfirst, hpipe, hpath, hpaths, rfl⟩ :=
    parseUnion_cases h
  · obtain ⟨u, rfl, hu⟩ := replays_parsePrimary hlevel tokens hn e rest hfirst
    refine ⟨u, rfl, fun other hother => parseUnion_of_primary (hu other hother) ?_⟩
    rwa [hother]
  · have hlt := hfirst.left
    obtain ⟨u, rfl, hu⟩ := replays_parsePrimary hlevel tokens hn first more hfirst
    obtain ⟨w, rfl, hw⟩ := replays_parseOperands hlevel more (by omega) paths rest hpaths
    refine ⟨u ++ w, (List.append_assoc u w rest).symm, fun other hother => ?_⟩
    have hhead := head?_append_congr hother w
    rw [List.append_assoc]
    exact parseUnion_of_operands (hu (w ++ other) hhead) (hhead.trans hpipe) hpath (hw other hother)

end

/-! ### Expressions -/

section

variable {n level : Nat}

theorem replays_parseOperators
    (hnext : ∀ tokens : List Token, tokens.length ≤ n → Replays (parseLevel (level + 1)) tokens)
    (left : Expr) (tokens : List Token) (hn : tokens.length ≤ n) :
    Replays (parseOperators level left) tokens := by
  intro e rest h
  obtain ⟨rfl, rfl, hnone⟩ | ⟨token, behind, op, right, more, rfl, hop, hright, hmore⟩ :=
    parseOperators_cases h
  · refine ⟨[], rfl, fun other hother => parseOperators_none e ?_⟩
    rwa [List.nil_append, hother]
  · have hlt := hright.left
    rw [List.length_cons] at hn
    obtain ⟨u, rfl, hu⟩ := hnext behind (by omega) right more hright
    obtain ⟨w, rfl, hw⟩ :=
      replays_parseOperators hnext (.binary left op right) more (by omega) e rest hmore
    refine ⟨token :: (u ++ w), by simp, fun other hother => ?_⟩
    rw [List.cons_append, List.append_assoc]
    exact parseOperators_some hop (hu (w ++ other) (head?_append_congr hother w)) (hw other hother)
termination_by tokens.length
decreasing_by grind

/-- Each level reads with the next one, and the tightest reads unions. -/
theorem replays_level
    (hlevel : ∀ tokens : List Token, tokens.length < n → Replays (parseLevel 0) tokens) :
    ∀ (k level : Nat), 4 ≤ level + k → ∀ tokens : List Token, tokens.length ≤ n →
      Replays (parseLevel level) tokens := by
  intro k
  induction k with
  | zero =>
    intro level hk tokens hn e rest h
    obtain ⟨hlow, -⟩ | ⟨hhigh, hunion⟩ := parseLevel_cases h
    · omega
    · obtain ⟨u, rfl, hu⟩ := replays_parseUnion hlevel tokens hn e rest hunion
      refine ⟨u, rfl, fun other hother => ?_⟩
      rw [parseLevel, if_neg hhigh]
      exact hu other hother
  | succ k ih =>
    intro level hk tokens hn e rest h
    obtain ⟨hlow, left, more, hleft, hmore⟩ | ⟨hhigh, hunion⟩ := parseLevel_cases h
    · have hlt := hleft.left
      have hnext := ih (level + 1) (by omega)
      obtain ⟨u, rfl, hu⟩ := hnext tokens hn left more hleft
      obtain ⟨w, rfl, hw⟩ := replays_parseOperators hnext left more (by omega) e rest hmore
      refine ⟨u ++ w, (List.append_assoc u w rest).symm, fun other hother => ?_⟩
      rw [List.append_assoc]
      exact parseLevel_of_next hlow (hu (w ++ other) (head?_append_congr hother w))
        (hw other hother)
    · exact ih level (by omega) tokens hn e rest h

/-- All readers look one token ahead on rows of fewer than so many tokens. -/
theorem replays_parseLevel : ∀ n : Nat, ∀ tokens : List Token, tokens.length < n →
    Replays (parseLevel 0) tokens
  | 0, tokens, hn => absurd hn (Nat.not_lt_zero _)
  | n + 1, tokens, hn =>
    replays_level (replays_parseLevel n) 4 0 (by omega) tokens (Nat.le_of_lt_succ hn)

end

/-- **An operand is read alike in front of rows that begin alike.** -/
theorem parsePrimary_congr {used rest other : List Token} {e : Expr}
    (h : Reads (parsePrimary (used ++ rest)) e rest) (hother : other.head? = rest.head?) :
    Reads (parsePrimary (used ++ other)) e other := by
  have hlevel := replays_parseLevel (used ++ rest).length
  obtain ⟨u, hused, hu⟩ := replays_parsePrimary hlevel (used ++ rest) (Nat.le_refl _) e rest h
  obtain rfl := List.append_cancel_right hused
  exact hu other hother

end Gleaner.Query
