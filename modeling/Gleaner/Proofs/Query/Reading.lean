/-
# Tokens that are read into paths

A reader takes the tokens of what it reads and leaves those that follow. What it reads is put
together from readings of the parts: an operand is an expression of every level if no operator of
the level follows it, conditions stand one after another between brackets, and a path goes on from
step to step with a slash or two between them.

Key definitions: `Reads`, `Closes`.
Key theorems: `parseLevel_of_primary`, `parsePrimary_contains`, `parsePredicates_written`,
`parseSteps_slash`, `parseExpr_of_primary`.
-/
import Gleaner.Proofs.Success
import Gleaner.Query.Grammar

namespace Gleaner.Query

open Gleaner.Text Gleaner.Markup

/-- A reading gives a value and leaves the rest. -/
def Reads {α : Type} {P : List Token → Prop}
    (reading : Except Reason (α × { rest : List Token // P rest })) (a : α) (rest : List Token) :
    Prop :=
  ∃ h : P rest, reading = .ok (a, ⟨rest, h⟩)

variable {tokens more rest : List Token}

/-! ### Levels of binding -/

theorem parseOperators_none {level : Nat} (left : Expr)
    (h : ∀ t ∈ rest.head?, operatorAt? level t = none) :
    Reads (parseOperators level left rest) left rest := by
  cases rest with
  | nil =>
    rw [parseOperators]
    exact ⟨Nat.le_refl _, rfl⟩
  | cons t rest =>
    rw [parseOperators, h t rfl]
    exact ⟨Nat.le_refl _, rfl⟩

theorem parseOperators_some {level : Nat} {left right e : Expr} {op : Operator} {token : Token}
    (hop : operatorAt? level token = some op)
    (hright : Reads (parseLevel (level + 1) tokens) right more)
    (hmore : Reads (parseOperators level (.binary left op right) more) e rest) :
    Reads (parseOperators level left (token :: tokens)) e rest := by
  obtain ⟨_, hright⟩ := hright
  obtain ⟨_, hmore⟩ := hmore
  rw [parseOperators, hop]
  simp only [hright, hmore, bind, Except.bind, pure, Except.pure]
  exact ⟨by grind, rfl⟩

theorem parseLevel_of_next {level : Nat} (hlevel : level < 4) {left e : Expr}
    (hleft : Reads (parseLevel (level + 1) tokens) left more)
    (hmore : Reads (parseOperators level left more) e rest) :
    Reads (parseLevel level tokens) e rest := by
  obtain ⟨_, hleft⟩ := hleft
  obtain ⟨_, hmore⟩ := hmore
  rw [parseLevel, if_pos hlevel]
  simp only [hleft, hmore, bind, Except.bind, pure, Except.pure]
  exact ⟨by omega, rfl⟩

theorem parseUnion_of_primary {e : Expr} (h : Reads (parsePrimary tokens) e rest)
    (hpipe : rest.head? ≠ some .pipe) : Reads (parseUnion tokens) e rest := by
  obtain ⟨hlt, h⟩ := h
  rw [parseUnion]
  simp only [h, bind, Except.bind, pure, Except.pure]
  split
  · exact absurd rfl hpipe
  · exact ⟨hlt, rfl⟩

/-- What follows cannot go on with an operand at any level from `low` on. -/
def Closes (low : Nat) (rest : List Token) : Prop :=
  rest.head? ≠ some .pipe ∧ ∀ t ∈ rest.head?, ∀ level, low ≤ level → operatorAt? level t = none

/-- An operand is an expression of each level at which no operator follows it. -/
theorem parseLevel_of_primary {e : Expr} (h : Reads (parsePrimary tokens) e rest) :
    ∀ (k : Nat) {low : Nat}, low + k = 4 → Closes low rest → Reads (parseLevel low tokens) e rest
  | 0, low, hk, hc => by
    unfold parseLevel
    rw [if_neg (by omega)]
    exact parseUnion_of_primary h hc.1
  | k + 1, low, hk, hc => by
    refine parseLevel_of_next (by omega)
      (parseLevel_of_primary h k (by omega) ⟨hc.1, fun t ht level hl => ?_⟩) ?_
    · exact hc.2 t ht level (by omega)
    · exact parseOperators_none e fun t ht => hc.2 t ht low (Nat.le_refl low)

/-! ### Paths as operands -/

/-- A path from where it stands. -/
theorem parsePath_relative {path : Path} (hstart : startsStep tokens = true)
    (h : Reads (parseSteps false [] tokens) path rest) : Reads (parsePath tokens) path rest := by
  rw [parsePath, if_pos hstart]
  · exact h
  · rintro more rfl
    cases hstart
  · rintro more rfl
    cases hstart

/-- A path is an operand unless it begins as a call does, which a node test does not. -/
theorem parsePrimary_path {path : Path} (h : Reads (parsePath tokens) path rest)
    (hslash : startsStep tokens = true ∨ tokens.head? = some .slash ∨
      tokens.head? = some .doubleSlash)
    (hcall : ∀ name more, tokens = .name name :: .openParen :: more →
      name = "text" ∨ name = "node") :
    Reads (parsePrimary tokens) (.path path) rest := by
  obtain ⟨hlt, h⟩ := h
  rw [parsePrimary.eq_def]
  split
  · simp [startsStep] at hslash
  · simp [startsStep] at hslash
  · simp [startsStep] at hslash
  · rw [if_pos (hcall _ _ rfl)]
    simp only [h, bind, Except.bind, pure, Except.pure]
    exact ⟨hlt, rfl⟩
  · simp only [h, bind, Except.bind, pure, Except.pure]
    exact ⟨hlt, rfl⟩

/-- The path to an attribute of the node that a condition is asked of. -/
def attributePath (name : String) : Path :=
  ⟨false, [], some (.attribute (some name))⟩

/-- An attribute is an operand unless a step or a condition follows it. -/
theorem parsePrimary_attribute (name : String)
    (h : ∀ t ∈ rest.head?, t ≠ .openBracket ∧ t ≠ .slash ∧ t ≠ .doubleSlash) :
    Reads (parsePrimary (.at :: .name name :: rest)) (.path (attributePath name)) rest := by
  have hlt : rest.length < (Token.at :: Token.name name :: rest).length := by
    simp only [List.length_cons]
    omega
  have hpiece : Reads (parseStep (.at :: .name name :: rest))
      (.value (.attribute (some name))) rest := by
    unfold parseStep
    rw [parseAttribute]
    · exact ⟨hlt, rfl⟩
    · rintro tail rfl
      exact (h _ rfl).1 rfl
  obtain ⟨_, hpiece⟩ := hpiece
  have hsteps :
      Reads (parseSteps false [] (.at :: .name name :: rest)) (attributePath name) rest := by
    unfold parseSteps
    simp only [hpiece, bind, Except.bind, pure, Except.pure]
    split
    · exact absurd rfl (h _ rfl).2.1
    · exact absurd rfl (h _ rfl).2.2
    · exact ⟨hlt, rfl⟩
  exact parsePrimary_path (parsePath_relative rfl hsteps) (.inl rfl) (by simp)

theorem parsePrimary_literal (text : String) :
    Reads (parsePrimary (.literal text :: rest)) (.literal text) rest := by
  unfold parsePrimary
  exact ⟨by simp, rfl⟩

/-! ### Conditions -/

/-- Two operands with a sign of equality between them. -/
theorem parseLevel_equal {left right : Expr}
    (hleft : Reads (parsePrimary tokens) left (.equal :: more))
    (hright : Reads (parsePrimary more) right rest) (hc : Closes 0 rest) :
    Reads (parseLevel 0 tokens) (.binary left (.comparison .equal) right) rest := by
  have hclose {low : Nat} : Closes low rest :=
    ⟨hc.1, fun t ht level _ => hc.2 t ht level (by omega)⟩
  have hequal : Closes 3 (.equal :: more) := by
    refine ⟨by simp, fun t ht level hl => ?_⟩
    cases ht
    match level, hl with
    | 3, _ => rfl
    | _ + 4, _ => rfl
  have hthird : Reads (parseLevel 3 tokens) left (.equal :: more) :=
    parseLevel_of_primary hleft 1 rfl hequal
  have hsecond : Reads (parseLevel 2 tokens) (.binary left (.comparison .equal) right) rest :=
    parseLevel_of_next (by omega) hthird
      (parseOperators_some rfl (parseLevel_of_primary hright 1 rfl hclose)
        (parseOperators_none _ fun t ht => hc.2 t ht 2 (by omega)))
  have hfirst : Reads (parseLevel 1 tokens) (.binary left (.comparison .equal) right) rest :=
    parseLevel_of_next (by omega) hsecond
      (parseOperators_none _ fun t ht => hc.2 t ht 1 (by omega))
  exact parseLevel_of_next (by omega) hfirst
    (parseOperators_none _ fun t ht => hc.2 t ht 0 (by omega))

theorem parseArguments_last {e : Expr} (h : Reads (parseLevel 0 tokens) e (.closeParen :: rest)) :
    Reads (parseArguments tokens) [e] rest := by
  obtain ⟨hlt, h⟩ := h
  rw [parseArguments]
  simp only [h, bind, Except.bind, pure, Except.pure]
  exact ⟨by grind, rfl⟩

theorem parseArguments_cons {e : Expr} {others : List Expr}
    (h : Reads (parseLevel 0 tokens) e (.comma :: more))
    (hothers : Reads (parseArguments more) others rest) :
    Reads (parseArguments tokens) (e :: others) rest := by
  obtain ⟨_, h⟩ := h
  obtain ⟨_, hothers⟩ := hothers
  rw [parseArguments]
  simp only [h, hothers, bind, Except.bind, pure, Except.pure]
  exact ⟨by grind, rfl⟩

/-- No expression begins with a closing parenthesis. -/
theorem parseLevel_closeParen (level : Nat) (more : List Token) :
    parseLevel level (.closeParen :: more) = .error (.noStep (some .closeParen)) := by
  have hunion : parseUnion (.closeParen :: more) = .error (.noStep (some .closeParen)) := by
    simp [parseUnion, parsePrimary, parsePath, startsStep, bind, Except.bind]
  have hlevel : ∀ k level, 4 ≤ level + k →
      parseLevel level (.closeParen :: more) = .error (.noStep (some .closeParen)) := by
    intro k
    induction k with
    | zero =>
      intro level hlevel
      rw [parseLevel, if_neg (by omega), hunion]
    | succ k ih =>
      intro level hlevel
      rw [parseLevel, ih (level + 1) (by omega), hunion]
      split <;> rfl
  exact hlevel 4 level (by omega)

/-- Nor do arguments. -/
theorem head?_ne_closeParen {arguments : List Expr}
    (h : Reads (parseArguments tokens) arguments rest) : tokens.head? ≠ some .closeParen := by
  intro hhead
  obtain ⟨more, rfl⟩ := List.head?_eq_some_iff.1 hhead
  obtain ⟨_, h⟩ := h
  rw [parseArguments, parseLevel_closeParen] at h
  cases h

section

variable {name : String} {function : Function} {e : Expr}

/-- A call without arguments. -/
theorem parsePrimary_emptyCall (hname : ¬ (name = "text" ∨ name = "node"))
    (hfunction : Function.ofName? name = some function) (hcall : callOf name function [] = .ok e) :
    Reads (parsePrimary (.name name :: .openParen :: .closeParen :: rest)) e rest := by
  rw [parsePrimary.eq_def]
  simp only [if_neg hname, hfunction, hcall, bind, Except.bind, pure, Except.pure]
  exact ⟨by grind, rfl⟩

/-- A call with arguments. -/
theorem parsePrimary_call {arguments : List Expr} (hname : ¬ (name = "text" ∨ name = "node"))
    (hfunction : Function.ofName? name = some function)
    (harguments : Reads (parseArguments tokens) arguments rest)
    (hcall : callOf name function arguments = .ok e) :
    Reads (parsePrimary (.name name :: .openParen :: tokens)) e rest := by
  have hopen : tokens.head? ≠ some .closeParen := head?_ne_closeParen harguments
  obtain ⟨_, harguments⟩ := harguments
  rw [parsePrimary, if_neg hname, hfunction]
  simp only
  split
  · exact absurd rfl hopen
  · simp only [harguments, hcall, bind, Except.bind, pure, Except.pure]
    exact ⟨by grind, rfl⟩

end

/-- A call of `contains` with two operands. -/
theorem parsePrimary_contains {first second : Expr}
    (hfirst : Reads (parseLevel 0 tokens) first (.comma :: more))
    (hsecond : Reads (parseLevel 0 more) second (.closeParen :: rest)) :
    Reads (parsePrimary (.name "contains" :: .openParen :: tokens))
      (.call .contains [first, second]) rest :=
  parsePrimary_call (by decide) rfl (parseArguments_cons hfirst (parseArguments_last hsecond)) rfl

theorem parsePredicates_nil (h : rest.head? ≠ some .openBracket) :
    Reads (parsePredicates rest) [] rest := by
  rw [parsePredicates]
  · exact ⟨Nat.le_refl _, rfl⟩
  · rintro more rfl
    exact h rfl

theorem parsePredicates_cons {e : Expr} {predicates : List Expr}
    (h : Reads (parseLevel 0 tokens) e (.closeBracket :: more))
    (hmore : Reads (parsePredicates more) predicates rest) :
    Reads (parsePredicates (.openBracket :: tokens)) (e :: predicates) rest := by
  obtain ⟨_, h⟩ := h
  obtain ⟨_, hmore⟩ := hmore
  rw [parsePredicates]
  simp only [h, hmore, bind, Except.bind, pure, Except.pure]
  exact ⟨by grind, rfl⟩

/-- Conditions one after another, each between brackets, are read one after another. -/
theorem parsePredicates_written {α : Type} {condition : α → List Token} {expr : α → Expr}
    (hrest : rest.head? ≠ some .openBracket) : ∀ {list : List α},
      (∀ a ∈ list, ∀ more, Reads (parseLevel 0 (condition a ++ .closeBracket :: more)) (expr a)
        (.closeBracket :: more)) →
      Reads (parsePredicates
          ((list.flatMap fun a => .openBracket :: condition a ++ [.closeBracket]) ++ rest))
        (list.map expr) rest
  | [], _ => parsePredicates_nil hrest
  | a :: list, h => by
    have hsplit : ((a :: list).flatMap fun a => .openBracket :: condition a ++ [.closeBracket]) ++
        rest = .openBracket :: (condition a ++ .closeBracket ::
          ((list.flatMap fun a => .openBracket :: condition a ++ [.closeBracket]) ++ rest)) := by
      simp
    rw [hsplit]
    exact parsePredicates_cons (h a List.mem_cons_self _)
      (parsePredicates_written hrest fun b hb => h b (List.mem_cons_of_mem _ hb))

/-! ### Steps -/

theorem parseNodeTest_star {axis : Axis} {predicates : List Expr}
    (h : Reads (parsePredicates tokens) predicates rest) :
    Reads (parseNodeTest axis (.star :: tokens)) (.step ⟨axis, .anyElement, predicates⟩) rest := by
  obtain ⟨_, h⟩ := h
  rw [parseNodeTest]
  simp only [h, bind, Except.bind, pure, Except.pure]
  exact ⟨by grind, rfl⟩

theorem parseNodeTest_name {axis : Axis} {name : String} {predicates : List Expr}
    (h : Reads (parsePredicates tokens) predicates rest) (hopen : tokens.head? ≠ some .openParen) :
    Reads (parseNodeTest axis (.name name :: tokens)) (.step ⟨axis, .named name, predicates⟩)
      rest := by
  obtain ⟨_, h⟩ := h
  rw [parseNodeTest]
  · simp only [h, bind, Except.bind, pure, Except.pure]
    exact ⟨by grind, rfl⟩
  · rintro more rfl
    exact hopen rfl

/-- A star, or a name that no axis is, begins a step to children. -/
theorem parseStep_child {piece : Piece} (h : Reads (parseNodeTest .child tokens) piece rest)
    (hstart : tokens.head? = some .star ∨
      ∃ name more, tokens = .name name :: more ∧ more.head? ≠ some .doubleColon) :
    Reads (parseStep tokens) piece rest := by
  obtain ⟨hlt, h⟩ := h
  rw [parseStep]
  · exact ⟨hlt, h⟩
  · rintro more rfl
    simp at hstart
  · rintro more rfl
    simp at hstart
  · rintro more rfl
    simp at hstart
  · rintro name more rfl
    rcases hstart with hstart | ⟨name', more', heq, hcolon⟩
    · cases hstart
    · cases heq
      exact hcolon rfl
  · rintro rfl
    simp at hstart

theorem parseStep_axis {name : String} {axis : Axis} {piece : Piece}
    (hname : name ≠ "attribute") (haxis : axisOfName? name = some axis)
    (h : Reads (parseNodeTest axis tokens) piece rest) :
    Reads (parseStep (.name name :: .doubleColon :: tokens)) piece rest := by
  obtain ⟨_, h⟩ := h
  rw [parseStep, if_neg hname, haxis]
  simp only [h, bind, Except.bind, pure, Except.pure]
  exact ⟨by grind, rfl⟩

theorem parseStep_doubleDot : Reads (parseStep (.doubleDot :: rest))
    (.step ⟨.parent, .anyNode, []⟩) rest := by
  unfold parseStep
  exact ⟨by simp, rfl⟩

theorem parseStep_dot : Reads (parseStep (.dot :: rest)) (.step ⟨.self, .anyNode, []⟩) rest := by
  unfold parseStep
  exact ⟨by simp, rfl⟩

/-! ### Paths -/

section

variable {absolute : Bool} {before : List Step} {step : Step} {path : Path}

theorem parseSteps_end (h : Reads (parseStep tokens) (.step step) rest)
    (hrest : rest.head? ≠ some .slash ∧ rest.head? ≠ some .doubleSlash) :
    Reads (parseSteps absolute before tokens) ⟨absolute, before ++ [step], none⟩ rest := by
  obtain ⟨hlt, h⟩ := h
  rw [parseSteps]
  simp only [h, bind, Except.bind, pure, Except.pure]
  split
  · exact absurd rfl hrest.1
  · exact absurd rfl hrest.2
  · exact ⟨hlt, rfl⟩

theorem parseSteps_slash (h : Reads (parseStep tokens) (.step step) (.slash :: more))
    (hmore : Reads (parseSteps absolute (before ++ [step]) more) path rest) :
    Reads (parseSteps absolute before tokens) path rest := by
  obtain ⟨_, h⟩ := h
  obtain ⟨_, hmore⟩ := hmore
  rw [parseSteps]
  simp only [h, hmore, bind, Except.bind, pure, Except.pure]
  exact ⟨by grind, rfl⟩

theorem parseSteps_doubleSlash (h : Reads (parseStep tokens) (.step step) (.doubleSlash :: more))
    (hmore : Reads (parseSteps absolute (before ++ [step, .selfAndBelow]) more) path rest) :
    Reads (parseSteps absolute before tokens) path rest := by
  obtain ⟨_, h⟩ := h
  obtain ⟨_, hmore⟩ := hmore
  rw [parseSteps]
  simp only [h, hmore, bind, Except.bind, pure, Except.pure]
  exact ⟨by grind, rfl⟩

theorem parsePath_slash (hstart : startsStep tokens = true)
    (h : Reads (parseSteps true [] tokens) path rest) :
    Reads (parsePath (.slash :: tokens)) path rest := by
  obtain ⟨_, h⟩ := h
  rw [parsePath, if_pos hstart]
  simp only [h, bind, Except.bind, pure, Except.pure]
  exact ⟨by grind, rfl⟩

theorem parsePath_doubleSlash (h : Reads (parseSteps true [.selfAndBelow] tokens) path rest) :
    Reads (parsePath (.doubleSlash :: tokens)) path rest := by
  obtain ⟨_, h⟩ := h
  rw [parsePath]
  simp only [h, bind, Except.bind, pure, Except.pure]
  exact ⟨by grind, rfl⟩

end

/-- A path that takes all tokens is the expression that they write. -/
theorem parseExpr_of_primary {e : Expr} (h : Reads (parsePrimary tokens) e []) :
    parseExpr tokens = .ok e := by
  obtain ⟨_, h⟩ := parseLevel_of_primary h 4 rfl ⟨by simp, by simp⟩
  rw [parseExpr, h]
  rfl

end Gleaner.Query
