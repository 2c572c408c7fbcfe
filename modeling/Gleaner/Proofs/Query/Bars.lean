/-
# Bars between operands

A bar that stands outside of brackets ends an operand of a union. No path takes one, since what a
path takes outside of brackets is steps with slashes between them. So tokens without such a bar, in
front of one or at the end, are an operand or they are none: no reading of a path stops inside of
them or goes on behind them.

Key definitions: `ShowsBar`, `Barless`, `Operand`, `EndsOperand`, `unionOf`.
Key theorems: `barless_parsePath`, `path_of_operand`, `parseExpr_iff_operands`.
-/
import Gleaner.Proofs.Query.Brackets
import Gleaner.Proofs.Query.Parts

namespace Gleaner.Query

open Gleaner.Text Gleaner.Markup

variable {t : Token} {u w tokens rest : List Token}

/-! ### Bars outside of brackets -/

/-- A bar stands outside of brackets. -/
def ShowsBar (u : List Token) : Prop :=
  ∃ before after, u = before ++ .pipe :: after ∧ Balanced before

/-- Each bracket has its own, and there is no bar outside of them. -/
structure Barless (u : List Token) : Prop where
  balanced : Balanced u
  noBar : ¬ShowsBar u

theorem Barless.nil : Barless [] :=
  ⟨.nil, by rintro ⟨before, after, heq, -⟩; simp at heq⟩

/-- A token that is no bracket and no bar. -/
def Token.isPlain : Token → Bool
  | .openBracket | .closeBracket | .pipe => false
  | _ => true

theorem Barless.cons (ht : t.isPlain = true) (h : Barless u) : Barless (t :: u) := by
  have hbracket : t.isBracket = false := by cases t <;> first | rfl | cases ht
  refine ⟨h.balanced.cons hbracket, ?_⟩
  rintro ⟨before, after, heq, hbefore⟩
  cases before with
  | nil =>
    obtain ⟨rfl, -⟩ := List.cons.inj heq
    cases ht
  | cons b before =>
    obtain ⟨rfl, rfl⟩ := List.cons.inj heq
    rw [Balanced, depth?_cons hbracket] at hbefore
    exact h.noBar ⟨before, after, rfl, hbefore⟩

theorem Barless.append (hu : Barless u) (hw : Barless w) : Barless (u ++ w) := by
  refine ⟨hu.balanced.append hw.balanced, ?_⟩
  rintro ⟨before, after, heq, hbefore⟩
  rcases outside_append hu.balanced hbefore heq with ⟨more, rfl, -⟩ | ⟨more, rfl, hmore⟩
  · exact hu.noBar ⟨before, more, rfl, hbefore⟩
  · exact hw.noBar ⟨more, after, rfl, hmore⟩

/-- Between brackets a bar may stand. -/
theorem Barless.group (hu : Balanced u) (hw : Barless w) :
    Barless (.openBracket :: (u ++ .closeBracket :: w)) := by
  refine ⟨hu.group hw.balanced, ?_⟩
  rintro ⟨before, after, heq, hbefore⟩
  obtain ⟨more, rfl, hmore⟩ := outside_group hu hbefore rfl heq
  exact hw.noBar ⟨more, after, rfl, hmore⟩

/-! ### What a path takes -/

theorem barless_parsePredicates {tokens rest : List Token} {predicates : List Expr}
    (h : Reads (parsePredicates tokens) predicates rest) :
    ∃ used, tokens = used ++ rest ∧ Barless used := by
  obtain ⟨rfl, rfl, -⟩ | ⟨behind, e, more, others, rfl, he, hothers, rfl⟩ :=
    parsePredicates_cases h
  · exact ⟨[], rfl, .nil⟩
  · have hlt := he.left
    obtain ⟨_, he⟩ := he
    obtain ⟨u, hbehind, hu⟩ := takes_parseLevel 0 behind e _ he
    obtain ⟨w, rfl, hw⟩ := barless_parsePredicates hothers
    refine ⟨.openBracket :: (u ++ .closeBracket :: w), ?_, hw.group hu.balanced⟩
    rw [hbehind]
    simp
termination_by tokens.length
decreasing_by grind

theorem barless_parseNodeTest {axis : Axis} {piece : Piece}
    (h : Reads (parseNodeTest axis tokens) piece rest) :
    ∃ used, tokens = used ++ rest ∧ Barless used := by
  cases parseNodeTest_parts h with
  | star htokens hpredicates _ =>
    obtain ⟨u, rfl, hu⟩ := barless_parsePredicates hpredicates
    exact ⟨.star :: u, htokens, hu.cons rfl⟩
  | node htokens hpredicates _ =>
    obtain ⟨u, rfl, hu⟩ := barless_parsePredicates hpredicates
    exact ⟨.name "node" :: .openParen :: .closeParen :: u, htokens,
      ((hu.cons rfl).cons rfl).cons rfl⟩
  | text htokens _ _ _ =>
    exact ⟨[.name "text", .openParen, .closeParen], htokens,
      ((Barless.nil.cons rfl).cons rfl).cons rfl⟩
  | @named name _ _ htokens _ hpredicates _ =>
    obtain ⟨u, rfl, hu⟩ := barless_parsePredicates hpredicates
    exact ⟨.name name :: u, htokens, hu.cons rfl⟩

theorem barless_parseAttribute {piece : Piece} (h : Reads (parseAttribute tokens) piece rest) :
    ∃ used, tokens = used ++ rest ∧ Barless used := by
  obtain ⟨-, ⟨name, htokens, -⟩ | ⟨htokens, -⟩⟩ := parseAttribute_cases h
  · exact ⟨[.name name], htokens, Barless.nil.cons rfl⟩
  · exact ⟨[.star], htokens, Barless.nil.cons rfl⟩

theorem barless_parseStep {piece : Piece} (h : Reads (parseStep tokens) piece rest) :
    ∃ used, tokens = used ++ rest ∧ Barless used := by
  cases parseStep_parts h with
  | dot htokens _ => exact ⟨[.dot], htokens, Barless.nil.cons rfl⟩
  | doubleDot htokens _ => exact ⟨[.doubleDot], htokens, Barless.nil.cons rfl⟩
  | atSign htokens hpiece =>
    obtain ⟨u, rfl, hu⟩ := barless_parseAttribute hpiece
    exact ⟨.at :: u, htokens, hu.cons rfl⟩
  | attributes htokens hpiece =>
    obtain ⟨u, rfl, hu⟩ := barless_parseAttribute hpiece
    exact ⟨.name "attribute" :: .doubleColon :: u, htokens,
      (hu.cons rfl).cons rfl⟩
  | @along name _ _ _ _ htokens htest =>
    obtain ⟨u, rfl, hu⟩ := barless_parseNodeTest htest
    exact ⟨.name name :: .doubleColon :: u, htokens, (hu.cons rfl).cons rfl⟩
  | child _ htest => exact barless_parseNodeTest htest

theorem barless_parseSteps {absolute : Bool} {before : List Step} {tokens rest : List Token}
    {path : Path} (h : Reads (parseSteps absolute before tokens) path rest) :
    ∃ used, tokens = used ++ rest ∧ Barless used := by
  cases parseSteps_parts h with
  | value hstep _ _ | last hstep _ _ => exact barless_parseStep hstep
  | slash hstep hmore =>
    have hlt := hstep.left
    obtain ⟨u, rfl, hu⟩ := barless_parseStep hstep
    obtain ⟨w, rfl, hw⟩ := barless_parseSteps hmore
    exact ⟨u ++ .slash :: w, by simp, hu.append (hw.cons rfl)⟩
  | doubleSlash hstep hmore =>
    have hlt := hstep.left
    obtain ⟨u, rfl, hu⟩ := barless_parseStep hstep
    obtain ⟨w, rfl, hw⟩ := barless_parseSteps hmore
    exact ⟨u ++ .doubleSlash :: w, by simp, hu.append (hw.cons rfl)⟩
termination_by tokens.length
decreasing_by all_goals grind

/-- **A path takes no bar outside of brackets.** -/
theorem barless_parsePath {path : Path} (h : Reads (parsePath tokens) path rest) :
    ∃ used, tokens = used ++ rest ∧ Barless used := by
  cases parsePath_parts h with
  | slash htokens _ hsteps =>
    obtain ⟨u, rfl, hu⟩ := barless_parseSteps hsteps
    exact ⟨.slash :: u, htokens, hu.cons rfl⟩
  | root htokens _ _ => exact ⟨[.slash], htokens, Barless.nil.cons rfl⟩
  | doubleSlash htokens hsteps =>
    obtain ⟨u, rfl, hu⟩ := barless_parseSteps hsteps
    exact ⟨.doubleSlash :: u, htokens, hu.cons rfl⟩
  | relative _ hsteps => exact barless_parseSteps hsteps

/-! ### Operands -/

/-- Tokens that may be an operand of a union: no bar stands outside of their brackets, and they are
no expression in parentheses. -/
structure Operand (u : List Token) : Prop where
  barless : Barless u
  noParen : u.head? ≠ some .openParen

/-- A path that is read to the end is such a row. -/
theorem operand_of_parsePath {path : Path} (h : Reads (parsePath tokens) path []) :
    Operand tokens := by
  obtain ⟨u, rfl, hu⟩ := barless_parsePath h
  rw [List.append_nil] at h ⊢
  refine ⟨hu, fun hparen => ?_⟩
  cases parsePath_parts h with
  | slash htokens _ _ | root htokens _ _ | doubleSlash htokens _ =>
    rw [htokens] at hparen
    cases hparen
  | relative hstart _ =>
    obtain ⟨more, rfl⟩ := List.head?_eq_some_iff.1 hparen
    cases hstart

/-- Behind an operand stands a bar or nothing. -/
def EndsOperand (rest : List Token) : Prop :=
  ∀ t ∈ rest.head?, t = .pipe

theorem Operand.head?_append_ne (hu : Operand u) (hrest : EndsOperand rest) :
    (u ++ rest).head? ≠ some .openParen := by
  cases u with
  | nil =>
    intro hhead
    cases hrest _ hhead
  | cons t u => exact hu.noParen

/-- Two rows without bars, each up to a bar or the end of one and the same row, are the same. -/
theorem Barless.eq_of_append {left : List Token} (hu : Barless u) (hw : Barless w)
    (hrest : EndsOperand rest) (hleft : EndsOperand left) (h : u ++ rest = w ++ left) :
    rest = left := by
  rcases List.append_eq_append_iff.1 h with ⟨more, rfl, hmore⟩ | ⟨more, rfl, hmore⟩
  · cases more with
    | nil => simpa using hmore
    | cons t more =>
      obtain rfl : t = .pipe := hrest t (by rw [hmore]; rfl)
      exact absurd ⟨u, more, rfl, hu.balanced⟩ hw.noBar
  · cases more with
    | nil => simpa using hmore.symm
    | cons t more =>
      obtain rfl : t = .pipe := hleft t (by rw [hmore]; rfl)
      exact absurd ⟨w, more, rfl, hw.balanced⟩ hu.noBar

/-- An operand that goes to elements is a path, if it is no expression in parentheses. -/
theorem path_of_parsePrimary {e : Expr} (h : Reads (parsePrimary tokens) e rest)
    (hselects : e.Selects) (hparen : tokens.head? ≠ some .openParen) :
    ∃ path, e = .path path ∧ path.value = none ∧ Reads (parsePath tokens) path rest := by
  cases parsePrimary_parts h with
  | literal _ he | number _ he =>
    subst he
    cases hselects
  | enclosed htokens _ => exact absurd (by rw [htokens]; rfl) hparen
  | emptyCall _ _ _ hcall | call _ _ _ _ hcall =>
    exact absurd hselects (not_selects_of_callOf hcall)
  | path hpath he =>
    subst he
    exact ⟨_, rfl, hselects, hpath⟩

/-- **What is read of an operand is all of it**, up to the bar behind it or to the end. -/
theorem path_of_operand {e : Expr} {left : List Token} (hu : Operand u)
    (hrest : EndsOperand rest) (hleft : EndsOperand left) (hselects : e.Selects)
    (h : Reads (parsePrimary (u ++ rest)) e left) :
    rest = left ∧ ∃ path, e = .path path ∧ path.value = none ∧
      Reads (parsePath (u ++ rest)) path rest := by
  obtain ⟨path, rfl, hvalue, hpath⟩ :=
    path_of_parsePrimary h hselects (hu.head?_append_ne hrest)
  obtain ⟨w, heq, hw⟩ := barless_parsePath hpath
  obtain rfl := hu.barless.eq_of_append hw hrest hleft heq
  exact ⟨rfl, path, rfl, hvalue, hpath⟩

/-! ### Whole rows -/

variable {e : Expr}

theorem parseExpr_eq_ok_iff : parseExpr tokens = .ok e ↔ Reads (parseLevel 0 tokens) e [] := by
  constructor
  · intro h
    unfold parseExpr at h
    obtain ⟨⟨e', rest, hlt⟩, hread, h⟩ := bind_eq_ok_iff.1 h
    dsimp only at h
    split at h
    · cases h
      exact ⟨hlt, hread⟩
    · cases h
  · rintro ⟨_, h⟩
    rw [parseExpr, h]
    rfl

/-- Where nothing follows, no operator does. -/
theorem parseLevel_of_union (h : Reads (parseUnion tokens) e []) :
    ∀ (k level : Nat), level + k = 4 → Reads (parseLevel level tokens) e []
  | 0, level, hk => by
    rw [parseLevel, if_neg (by omega)]
    exact h
  | k + 1, level, hk =>
    parseLevel_of_next (by omega) (parseLevel_of_union h k (level + 1) (by omega))
      (parseOperators_none e (by simp))

/-- An expression that goes to elements has no operator. -/
theorem parseUnion_of_parseLevel (hselects : e.Selects) :
    ∀ (k level : Nat), level + k = 4 → Reads (parseLevel level tokens) e [] →
      Reads (parseUnion tokens) e []
  | 0, level, hk, h => by
    obtain ⟨hlow, -⟩ | ⟨-, hunion⟩ := parseLevel_cases h
    · omega
    · exact hunion
  | k + 1, level, hk, h => by
    obtain ⟨-, left, more, hleft, _, hmore⟩ | ⟨hhigh, -⟩ := parseLevel_cases h
    · obtain ⟨used, hused, -, hnone⟩ := takes_parseOperators level left more e _ hmore
      obtain ⟨rfl, rfl⟩ := hnone hselects
      obtain rfl : more = [] := hused
      exact parseUnion_of_parseLevel hselects k (level + 1) (by omega) hleft
    · omega

/-- The expression of some paths with bars between them. -/
def unionOf : List Path → Expr
  | [path] => .path path
  | paths => .union paths

/-- Operands are read of nothing, or a bar begins them. -/
theorem parseOperands_begins {paths : List Path} (h : Reads (parseOperands tokens) paths []) :
    (paths = [] ∧ tokens = []) ∨ (paths ≠ [] ∧ tokens.head? = some .pipe) := by
  obtain ⟨rfl, rfl, -⟩ | ⟨behind, operand, more, path, others, rfl, -, -, -, rfl⟩ :=
    parseOperands_cases h
  · exact .inl ⟨rfl, rfl⟩
  · exact .inr ⟨List.cons_ne_nil _ _, rfl⟩

/-- A row that is a union or a path to elements is so with a bar in front of it, too, where further
operands are asked for. -/
theorem parseUnion_iff_operands (hparen : tokens.head? ≠ some .openParen) :
    (Reads (parseUnion tokens) e [] ∧ e.Selects) ↔
      ∃ paths, Reads (parseOperands (.pipe :: tokens)) paths [] ∧ e = unionOf paths := by
  constructor
  · rintro ⟨h, hselects⟩
    obtain ⟨hfirst, -⟩ | ⟨first, more, path, paths, hfirst, hpipe, hpath, hpaths, rfl⟩ :=
      parseUnion_cases h
    · obtain ⟨path, rfl, hvalue, -⟩ := path_of_parsePrimary hfirst hselects hparen
      have hnone : Reads (parseOperands []) [] [] := parseOperands_nil (by simp)
      exact ⟨[path], parseOperands_cons hfirst (elementPath_path hvalue) hnone, rfl⟩
    · refine ⟨path :: paths, parseOperands_cons hfirst hpath hpaths, ?_⟩
      obtain ⟨rfl, rfl⟩ | ⟨hmore, -⟩ := parseOperands_begins hpaths
      · cases hpipe
      · obtain ⟨second, others, rfl⟩ := List.exists_cons_of_ne_nil hmore
        rfl
  · rintro ⟨paths, h, rfl⟩
    obtain ⟨-, -, hpipe⟩ |
      ⟨behind, operand, more, path, others, heq, hoperand, hpath, hothers, rfl⟩ :=
      parseOperands_cases h
    · exact absurd rfl hpipe
    · cases heq
      obtain ⟨rfl, hvalue⟩ := elementPath_eq_ok_iff.1 hpath
      obtain ⟨rfl, rfl⟩ | ⟨hmore, hpipe⟩ := parseOperands_begins hothers
      · exact ⟨parseUnion_of_primary hoperand (by simp), hvalue⟩
      · obtain ⟨second, others, rfl⟩ := List.exists_cons_of_ne_nil hmore
        exact ⟨parseUnion_of_operands hoperand hpipe hpath hothers, trivial⟩

/-- **A row goes to elements where it is operands with bars between them**, if it is no expression
in parentheses. -/
theorem parseExpr_iff_operands (hparen : tokens.head? ≠ some .openParen) :
    (parseExpr tokens = .ok e ∧ e.Selects) ↔
      ∃ paths, Reads (parseOperands (.pipe :: tokens)) paths [] ∧ e = unionOf paths := by
  rw [← parseUnion_iff_operands hparen, parseExpr_eq_ok_iff]
  constructor
  · rintro ⟨h, hselects⟩
    exact ⟨parseUnion_of_parseLevel hselects 4 0 rfl h, hselects⟩
  · rintro ⟨h, hselects⟩
    exact ⟨parseLevel_of_union h 4 0 rfl, hselects⟩

end Gleaner.Query
