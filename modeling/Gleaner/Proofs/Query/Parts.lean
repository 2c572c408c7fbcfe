/-
# The parts of a reading

Whatever a reader gives it has put together from what others gave it. For each reader this is said
once: which parts it was given, what they left, and what was looked at behind them.

Key definitions: `PathParts`, `StepsParts`, `TestParts`, `StepParts`, `OperandParts`.
Key theorems: `parseLevel_cases`, `parseUnion_cases`, `parseOperands_cases`, `parsePrimary_parts`,
`parsePath_parts`, `parseSteps_parts`, `parseStep_parts`, `parseNodeTest_parts`.
-/
import Gleaner.Proofs.Query.RoundTrip

namespace Gleaner.Query

open Gleaner.Text Gleaner.Markup

section

variable {α β : Type} {A B : List Token → Prop} {rest : List Token}

/-- What a reading leaves is as short as it says. -/
theorem Reads.left {reading : Except Reason (α × { rest : List Token // A rest })} {a : α}
    (h : Reads reading a rest) : A rest :=
  h.elim fun hrest _ => hrest

theorem Reads.of_ok {a b : α} {left : List Token} {hleft : A left}
    (h : Reads (.ok (a, ⟨left, hleft⟩)) b rest) : b = a ∧ rest = left := by
  obtain ⟨_, h⟩ := h
  cases h
  exact ⟨rfl, rfl⟩

/-- A reading in two parts. -/
theorem Reads.of_bind {first : Except Reason (α × { rest : List Token // A rest })}
    {next : α × { rest : List Token // A rest } →
      Except Reason (β × { rest : List Token // B rest })} {b : β}
    (h : Reads (first >>= next) b rest) :
    ∃ a more, ∃ hmore : A more, Reads first a more ∧ Reads (next (a, ⟨more, hmore⟩)) b rest := by
  obtain ⟨hrest, h⟩ := h
  obtain ⟨⟨a, more, hmore⟩, ha, h⟩ := bind_eq_ok_iff.1 h
  exact ⟨a, more, hmore, ⟨hmore, ha⟩, hrest, h⟩

/-- A reading that goes on once something else has come about. -/
theorem Reads.of_after {γ : Type} {first : Except Reason γ}
    {next : γ → Except Reason (β × { rest : List Token // B rest })} {b : β}
    (h : Reads (first >>= next) b rest) : ∃ c, first = .ok c ∧ Reads (next c) b rest := by
  obtain ⟨hrest, h⟩ := h
  obtain ⟨c, hc, h⟩ := bind_eq_ok_iff.1 h
  exact ⟨c, hc, hrest, h⟩

/-- No token begins a row that is none behind it. -/
theorem head?_ne_of_forall {token : Token} (h : ∀ behind, rest ≠ token :: behind) :
    rest.head? ≠ some token := by
  intro hhead
  obtain ⟨behind, hrest⟩ := List.head?_eq_some_iff.1 hhead
  exact h behind hrest

theorem not_reads_error {reason : Reason} {a : α} :
    ¬Reads (.error reason : Except Reason (α × { rest : List Token // A rest })) a rest := by
  rintro ⟨_, ⟨⟩⟩

end

variable {tokens rest : List Token} {level : Nat} {e left : Expr}

/-! ### Expressions -/

theorem parseLevel_cases (h : Reads (parseLevel level tokens) e rest) :
    (level < 4 ∧ ∃ left more, Reads (parseLevel (level + 1) tokens) left more ∧
      Reads (parseOperators level left more) e rest) ∨
    (¬level < 4 ∧ Reads (parseUnion tokens) e rest) := by
  rw [parseLevel] at h
  by_cases hlevel : level < 4
  · rw [if_pos hlevel] at h
    obtain ⟨left, more, _, hleft, h⟩ := h.of_bind
    obtain ⟨e', rest', _, hmore, h⟩ := h.of_bind
    obtain ⟨rfl, rfl⟩ := h.of_ok
    exact .inl ⟨hlevel, left, more, hleft, hmore⟩
  · rw [if_neg hlevel] at h
    exact .inr ⟨hlevel, h⟩

theorem parseOperators_cases (h : Reads (parseOperators level left tokens) e rest) :
    (e = left ∧ rest = tokens ∧ ∀ t ∈ tokens.head?, operatorAt? level t = none) ∨
    ∃ token behind op right more, tokens = token :: behind ∧ operatorAt? level token = some op ∧
      Reads (parseLevel (level + 1) behind) right more ∧
      Reads (parseOperators level (.binary left op right) more) e rest := by
  rw [parseOperators.eq_def] at h
  split at h
  · obtain ⟨rfl, rfl⟩ := h.of_ok
    exact .inl ⟨rfl, rfl, by simp⟩
  · next token behind =>
    split at h
    · next hop =>
      obtain ⟨rfl, rfl⟩ := h.of_ok
      exact .inl ⟨rfl, rfl, by simpa using hop⟩
    · next op hop =>
      obtain ⟨right, more, _, hright, h⟩ := h.of_bind
      obtain ⟨e', rest', _, hmore, h⟩ := h.of_bind
      obtain ⟨rfl, rfl⟩ := h.of_ok
      exact .inr ⟨token, behind, op, right, more, rfl, hop, hright, hmore⟩

theorem parseUnion_cases (h : Reads (parseUnion tokens) e rest) :
    (Reads (parsePrimary tokens) e rest ∧ rest.head? ≠ some .pipe) ∨
    ∃ first more path paths, Reads (parsePrimary tokens) first more ∧ more.head? = some .pipe ∧
      elementPath first = .ok path ∧ Reads (parseOperands more) paths rest ∧
      e = .union (path :: paths) := by
  rw [parseUnion] at h
  obtain ⟨first, more, _, hfirst, h⟩ := h.of_bind
  dsimp only at h
  split at h
  · obtain ⟨path, hpath, h⟩ := h.of_after
    obtain ⟨paths, rest', _, hpaths, h⟩ := h.of_bind
    obtain ⟨rfl, rfl⟩ := h.of_ok
    exact .inr ⟨first, _, path, paths, hfirst, rfl, hpath, hpaths, rfl⟩
  · next hpipe =>
    obtain ⟨rfl, rfl⟩ := h.of_ok
    exact .inl ⟨hfirst, head?_ne_of_forall hpipe⟩

theorem parseOperands_cases {paths : List Path} (h : Reads (parseOperands tokens) paths rest) :
    (paths = [] ∧ rest = tokens ∧ tokens.head? ≠ some .pipe) ∨
    ∃ behind operand more path others, tokens = .pipe :: behind ∧
      Reads (parsePrimary behind) operand more ∧ elementPath operand = .ok path ∧
      Reads (parseOperands more) others rest ∧ paths = path :: others := by
  rw [parseOperands.eq_def] at h
  split at h
  · next behind =>
    obtain ⟨operand, more, _, hoperand, h⟩ := h.of_bind
    obtain ⟨path, hpath, h⟩ := h.of_after
    obtain ⟨others, rest', _, hothers, h⟩ := h.of_bind
    obtain ⟨rfl, rfl⟩ := h.of_ok
    exact .inr ⟨behind, operand, more, path, others, rfl, hoperand, hpath, hothers, rfl⟩
  · next hpipe =>
    obtain ⟨rfl, rfl⟩ := h.of_ok
    exact .inl ⟨rfl, rfl, head?_ne_of_forall hpipe⟩

theorem parseArguments_cases {arguments : List Expr}
    (h : Reads (parseArguments tokens) arguments rest) :
    (∃ e, Reads (parseLevel 0 tokens) e (.closeParen :: rest) ∧ arguments = [e]) ∨
    ∃ e more others, Reads (parseLevel 0 tokens) e (.comma :: more) ∧
      Reads (parseArguments more) others rest ∧ arguments = e :: others := by
  rw [parseArguments] at h
  obtain ⟨e, more, _, he, h⟩ := h.of_bind
  dsimp only at h
  split at h
  · obtain ⟨rfl, rfl⟩ := h.of_ok
    exact .inl ⟨e, he, rfl⟩
  · next more _ =>
    obtain ⟨others, rest', _, hothers, h⟩ := h.of_bind
    obtain ⟨rfl, rfl⟩ := h.of_ok
    exact .inr ⟨e, more, others, he, hothers, rfl⟩
  · exact absurd h not_reads_error

/-! ### Paths -/

/-- What a path is read from. -/
inductive PathParts (tokens rest : List Token) (path : Path) : Prop
  | slash {more : List Token} : tokens = .slash :: more → startsStep more = true →
    Reads (parseSteps true [] more) path rest → PathParts tokens rest path
  | root : tokens = .slash :: rest → startsStep rest = false → path = ⟨true, [], none⟩ →
    PathParts tokens rest path
  | doubleSlash {more : List Token} : tokens = .doubleSlash :: more →
    Reads (parseSteps true [.selfAndBelow] more) path rest → PathParts tokens rest path
  | relative : startsStep tokens = true → Reads (parseSteps false [] tokens) path rest →
    PathParts tokens rest path

theorem parsePath_parts {path : Path} (h : Reads (parsePath tokens) path rest) :
    PathParts tokens rest path := by
  rw [parsePath.eq_def] at h
  split at h
  · next more =>
    by_cases hstart : startsStep more = true
    · rw [if_pos hstart] at h
      obtain ⟨path', rest', _, hsteps, h⟩ := h.of_bind
      obtain ⟨rfl, rfl⟩ := h.of_ok
      exact .slash rfl hstart hsteps
    · rw [if_neg hstart] at h
      obtain ⟨rfl, rfl⟩ := h.of_ok
      exact .root rfl (Bool.eq_false_iff.2 hstart) rfl
  · obtain ⟨path', rest', _, hsteps, h⟩ := h.of_bind
    obtain ⟨rfl, rfl⟩ := h.of_ok
    exact .doubleSlash rfl hsteps
  · by_cases hstart : startsStep tokens = true
    · rw [if_pos hstart] at h
      exact .relative hstart h
    · rw [if_neg hstart] at h
      exact absurd h not_reads_error

/-- What steps one after another are read from. -/
inductive StepsParts (absolute : Bool) (before : List Step) (tokens rest : List Token)
    (path : Path) : Prop
  | value {value : ValueStep} : Reads (parseStep tokens) (.value value) rest →
    rest.head? ≠ some .slash ∧ rest.head? ≠ some .doubleSlash →
    path = ⟨absolute, before, some value⟩ → StepsParts absolute before tokens rest path
  | last {step : Step} : Reads (parseStep tokens) (.step step) rest →
    rest.head? ≠ some .slash ∧ rest.head? ≠ some .doubleSlash →
    path = ⟨absolute, before ++ [step], none⟩ → StepsParts absolute before tokens rest path
  | slash {step : Step} {more : List Token} :
    Reads (parseStep tokens) (.step step) (.slash :: more) →
    Reads (parseSteps absolute (before ++ [step]) more) path rest →
    StepsParts absolute before tokens rest path
  | doubleSlash {step : Step} {more : List Token} :
    Reads (parseStep tokens) (.step step) (.doubleSlash :: more) →
    Reads (parseSteps absolute (before ++ [step, .selfAndBelow]) more) path rest →
    StepsParts absolute before tokens rest path

theorem parseSteps_parts {absolute : Bool} {before : List Step} {path : Path}
    (h : Reads (parseSteps absolute before tokens) path rest) :
    StepsParts absolute before tokens rest path := by
  rw [parseSteps] at h
  obtain ⟨piece, more, _, hpiece, h⟩ := h.of_bind
  dsimp only at h
  split at h
  · split at h
    · exact absurd h not_reads_error
    · exact absurd h not_reads_error
    · next hslash hdoubleSlash =>
      obtain ⟨rfl, rfl⟩ := h.of_ok
      exact .value hpiece ⟨head?_ne_of_forall hslash, head?_ne_of_forall hdoubleSlash⟩ rfl
  · split at h
    · obtain ⟨path', rest', _, hmore, h⟩ := h.of_bind
      obtain ⟨rfl, rfl⟩ := h.of_ok
      exact .slash hpiece hmore
    · obtain ⟨path', rest', _, hmore, h⟩ := h.of_bind
      obtain ⟨rfl, rfl⟩ := h.of_ok
      exact .doubleSlash hpiece hmore
    · next hslash hdoubleSlash =>
      obtain ⟨rfl, rfl⟩ := h.of_ok
      exact .last hpiece ⟨head?_ne_of_forall hslash, head?_ne_of_forall hdoubleSlash⟩ rfl

theorem parseAttribute_cases {piece : Piece} (h : Reads (parseAttribute tokens) piece rest) :
    rest.head? ≠ some .openBracket ∧
      ((∃ name, tokens = .name name :: rest ∧ piece = .value (.attribute (some name))) ∨
        (tokens = .star :: rest ∧ piece = .value (.attribute none))) := by
  unfold parseAttribute at h
  split at h
  · exact absurd h not_reads_error
  · exact absurd h not_reads_error
  · next name behind hnot =>
    obtain ⟨rfl, rfl⟩ := h.of_ok
    exact ⟨head?_ne_of_forall fun behind heq => hnot behind (by rw [heq]),
      .inl ⟨name, rfl, rfl⟩⟩
  · next behind hnot =>
    obtain ⟨rfl, rfl⟩ := h.of_ok
    exact ⟨head?_ne_of_forall fun behind heq => hnot behind (by rw [heq]), .inr ⟨rfl, rfl⟩⟩
  · exact absurd h not_reads_error

/-- What a node test with its conditions is read from. -/
inductive TestParts (axis : Axis) (tokens rest : List Token) (piece : Piece) : Prop
  | star {more : List Token} {predicates : List Expr} : tokens = .star :: more →
    Reads (parsePredicates more) predicates rest →
    piece = .step ⟨axis, .anyElement, predicates⟩ → TestParts axis tokens rest piece
  | node {more : List Token} {predicates : List Expr} :
    tokens = .name "node" :: .openParen :: .closeParen :: more →
    Reads (parsePredicates more) predicates rest →
    piece = .step ⟨axis, .anyNode, predicates⟩ → TestParts axis tokens rest piece
  | text : tokens = .name "text" :: .openParen :: .closeParen :: rest →
    rest.head? ≠ some .openBracket → axis = .child → piece = .value .text →
    TestParts axis tokens rest piece
  | named {name : String} {more : List Token} {predicates : List Expr} :
    tokens = .name name :: more → more.head? ≠ some .openParen →
    Reads (parsePredicates more) predicates rest →
    piece = .step ⟨axis, .named name, predicates⟩ → TestParts axis tokens rest piece

theorem parseNodeTest_parts {axis : Axis} {piece : Piece}
    (h : Reads (parseNodeTest axis tokens) piece rest) : TestParts axis tokens rest piece := by
  rw [parseNodeTest.eq_def] at h
  split at h
  · obtain ⟨predicates, rest', _, hpredicates, h⟩ := h.of_bind
    obtain ⟨rfl, rfl⟩ := h.of_ok
    exact .star rfl hpredicates rfl
  · next name behind =>
    split at h
    · by_cases hnode : name = "node"
      · subst hnode
        rw [if_pos rfl] at h
        obtain ⟨predicates, rest', _, hpredicates, h⟩ := h.of_bind
        obtain ⟨rfl, rfl⟩ := h.of_ok
        exact .node rfl hpredicates rfl
      · rw [if_neg hnode] at h
        by_cases htext : name = "text" ∧ axis = .child
        · rw [if_pos htext] at h
          obtain ⟨rfl, rfl⟩ := htext
          split at h
          · exact absurd h not_reads_error
          · next hbracket =>
            obtain ⟨rfl, rfl⟩ := h.of_ok
            refine .text rfl (head?_ne_of_forall fun others heq => ?_) rfl rfl
            subst heq
            exact hbracket others rfl rfl HEq.rfl
        · rw [if_neg htext] at h
          exact absurd h not_reads_error
    · exact absurd h not_reads_error
  · next name more hopen =>
    obtain ⟨predicates, rest', _, hpredicates, h⟩ := h.of_bind
    obtain ⟨rfl, rfl⟩ := h.of_ok
    exact .named rfl (head?_ne_of_forall fun behind heq => hopen behind (by rw [heq]))
      hpredicates rfl
  · exact absurd h not_reads_error

/-- What one step is read from. -/
inductive StepParts (tokens rest : List Token) (piece : Piece) : Prop
  | dot : tokens = .dot :: rest → piece = .step ⟨.self, .anyNode, []⟩ → StepParts tokens rest piece
  | doubleDot : tokens = .doubleDot :: rest → piece = .step ⟨.parent, .anyNode, []⟩ →
    StepParts tokens rest piece
  | atSign {more : List Token} : tokens = .at :: more → Reads (parseAttribute more) piece rest →
    StepParts tokens rest piece
  | attributes {more : List Token} : tokens = .name "attribute" :: .doubleColon :: more →
    Reads (parseAttribute more) piece rest → StepParts tokens rest piece
  | along {name : String} {axis : Axis} {more : List Token} : name ≠ "attribute" →
    axisOfName? name = some axis → tokens = .name name :: .doubleColon :: more →
    Reads (parseNodeTest axis more) piece rest → StepParts tokens rest piece
  | child : (tokens.head? = some .star ∨
      ∃ name more, tokens = .name name :: more ∧ more.head? ≠ some .doubleColon) →
    Reads (parseNodeTest .child tokens) piece rest → StepParts tokens rest piece

theorem parseStep_parts {piece : Piece} (h : Reads (parseStep tokens) piece rest) :
    StepParts tokens rest piece := by
  rw [parseStep.eq_def] at h
  split at h
  · obtain ⟨rfl, rfl⟩ := h.of_ok
    exact .dot rfl rfl
  · obtain ⟨rfl, rfl⟩ := h.of_ok
    exact .doubleDot rfl rfl
  · obtain ⟨piece', rest', _, hpiece, h⟩ := h.of_bind
    obtain ⟨rfl, rfl⟩ := h.of_ok
    exact .atSign rfl hpiece
  · next name more =>
    by_cases hname : name = "attribute"
    · subst hname
      rw [if_pos rfl] at h
      obtain ⟨piece', rest', _, hpiece, h⟩ := h.of_bind
      obtain ⟨rfl, rfl⟩ := h.of_ok
      exact .attributes rfl hpiece
    · rw [if_neg hname] at h
      split at h
      · exact absurd h not_reads_error
      · next axis haxis =>
        obtain ⟨piece', rest', _, hpiece, h⟩ := h.of_bind
        obtain ⟨rfl, rfl⟩ := h.of_ok
        exact .along hname haxis rfl hpiece
  · exact absurd h not_reads_error
  · next hcolon _ =>
    refine .child ?_ h
    have hname {name : String} {more : List Token} (heq : tokens = .name name :: more) :
        more.head? ≠ some .doubleColon :=
      head?_ne_of_forall fun behind hmore => hcolon name behind (by rw [heq, hmore])
    cases parseNodeTest_parts h with
    | star htokens _ _ => exact .inl (by rw [htokens]; rfl)
    | node htokens _ _ | text htokens _ _ _ | named htokens _ _ _ =>
      exact .inr ⟨_, _, htokens, hname htokens⟩

theorem parsePredicates_cases {predicates : List Expr}
    (h : Reads (parsePredicates tokens) predicates rest) :
    (predicates = [] ∧ rest = tokens ∧ tokens.head? ≠ some .openBracket) ∨
    ∃ behind e more others, tokens = .openBracket :: behind ∧
      Reads (parseLevel 0 behind) e (.closeBracket :: more) ∧
      Reads (parsePredicates more) others rest ∧ predicates = e :: others := by
  rw [parsePredicates.eq_def] at h
  split at h
  · next behind =>
    obtain ⟨e, more, _, he, h⟩ := h.of_bind
    dsimp only at h
    split at h
    · next more _ =>
      obtain ⟨others, rest', _, hothers, h⟩ := h.of_bind
      obtain ⟨rfl, rfl⟩ := h.of_ok
      exact .inr ⟨behind, e, more, others, rfl, he, hothers, rfl⟩
    · exact absurd h not_reads_error
  · next hbracket =>
    obtain ⟨rfl, rfl⟩ := h.of_ok
    exact .inl ⟨rfl, rfl, head?_ne_of_forall hbracket⟩

/-! ### Operands -/

/-- What an operand is read from. -/
inductive OperandParts (tokens rest : List Token) (e : Expr) : Prop
  | literal {text : String} : tokens = .literal text :: rest → e = .literal text →
    OperandParts tokens rest e
  | number {value : Float} : tokens = .number value :: rest → e = .number value →
    OperandParts tokens rest e
  | enclosed {more : List Token} : tokens = .openParen :: more →
    Reads (parseLevel 0 more) e (.closeParen :: rest) → OperandParts tokens rest e
  | emptyCall {name : String} {function : Function} : ¬(name = "text" ∨ name = "node") →
    Function.ofName? name = some function →
    tokens = .name name :: .openParen :: .closeParen :: rest →
    callOf name function [] = .ok e → OperandParts tokens rest e
  | call {name : String} {function : Function} {more : List Token} {arguments : List Expr} :
    ¬(name = "text" ∨ name = "node") → Function.ofName? name = some function →
    tokens = .name name :: .openParen :: more → Reads (parseArguments more) arguments rest →
    callOf name function arguments = .ok e → OperandParts tokens rest e
  | path {path : Path} : Reads (parsePath tokens) path rest → e = .path path →
    OperandParts tokens rest e

theorem parsePrimary_parts (h : Reads (parsePrimary tokens) e rest) :
    OperandParts tokens rest e := by
  rw [parsePrimary.eq_def] at h
  split at h
  · obtain ⟨rfl, rfl⟩ := h.of_ok
    exact .literal rfl rfl
  · obtain ⟨rfl, rfl⟩ := h.of_ok
    exact .number rfl rfl
  · obtain ⟨e', more, _, he, h⟩ := h.of_bind
    dsimp only at h
    split at h
    · obtain ⟨rfl, rfl⟩ := h.of_ok
      exact .enclosed rfl he
    · exact absurd h not_reads_error
  · next name behind =>
    by_cases hname : name = "text" ∨ name = "node"
    · rw [if_pos hname] at h
      obtain ⟨path, rest', _, hpath, h⟩ := h.of_bind
      obtain ⟨rfl, rfl⟩ := h.of_ok
      exact .path hpath rfl
    · rw [if_neg hname] at h
      split at h
      · exact absurd h not_reads_error
      · next function hfunction =>
        split at h
        · obtain ⟨e', he, h⟩ := h.of_after
          obtain ⟨rfl, rfl⟩ := h.of_ok
          exact .emptyCall hname hfunction rfl he
        · obtain ⟨arguments, rest', _, harguments, h⟩ := h.of_bind
          obtain ⟨e', he, h⟩ := h.of_after
          obtain ⟨rfl, rfl⟩ := h.of_ok
          exact .call hname hfunction rfl harguments he
  · obtain ⟨path, rest', _, hpath, h⟩ := h.of_bind
    obtain ⟨rfl, rfl⟩ := h.of_ok
    exact .path hpath rfl

/-- A slash that no step follows is the path to the document. -/
theorem parsePath_root (hstart : startsStep rest = false) :
    Reads (parsePath (.slash :: rest)) ⟨true, [], none⟩ rest := by
  rw [parsePath, if_neg (by rw [hstart]; exact Bool.false_ne_true)]
  exact ⟨by simp, rfl⟩

theorem parseStep_attributes {piece : Piece} (h : Reads (parseAttribute tokens) piece rest) :
    Reads (parseStep (.name "attribute" :: .doubleColon :: tokens)) piece rest := by
  obtain ⟨_, h⟩ := h
  rw [parseStep, if_pos rfl]
  simp only [h, bind, Except.bind, pure, Except.pure]
  exact ⟨by grind, rfl⟩

/-! ### How a path begins -/

/-- A step begins as one can, and with no call. -/
theorem begins_of_parseNodeTest {axis : Axis} {piece : Piece}
    (h : Reads (parseNodeTest axis tokens) piece rest) :
    startsStep tokens = true ∧ ∀ name more, tokens = .name name :: .openParen :: more →
      name = "text" ∨ name = "node" := by
  cases parseNodeTest_parts h with
  | star htokens _ _ =>
    subst htokens
    exact ⟨rfl, by simp⟩
  | node htokens _ _ =>
    subst htokens
    refine ⟨rfl, fun name more heq => .inr ?_⟩
    cases heq
    rfl
  | text htokens _ _ _ =>
    subst htokens
    refine ⟨rfl, fun name more heq => .inl ?_⟩
    cases heq
    rfl
  | named htokens hopen _ _ =>
    subst htokens
    refine ⟨rfl, fun name more heq => ?_⟩
    cases heq
    exact absurd rfl hopen

theorem begins_of_parseStep {piece : Piece} (h : Reads (parseStep tokens) piece rest) :
    startsStep tokens = true ∧ ∀ name more, tokens = .name name :: .openParen :: more →
      name = "text" ∨ name = "node" := by
  cases parseStep_parts h with
  | dot htokens _ | doubleDot htokens _ | atSign htokens _ | attributes htokens _
  | along _ _ htokens _ =>
    subst htokens
    exact ⟨rfl, by simp⟩
  | child _ htest => exact begins_of_parseNodeTest htest

theorem begins_of_parseSteps {absolute : Bool} {before : List Step} {path : Path}
    (h : Reads (parseSteps absolute before tokens) path rest) :
    startsStep tokens = true ∧ ∀ name more, tokens = .name name :: .openParen :: more →
      name = "text" ∨ name = "node" := by
  cases parseSteps_parts h with
  | value hstep _ _ | last hstep _ _ | slash hstep _ | doubleSlash hstep _ =>
    exact begins_of_parseStep hstep

/-- A path is an operand. -/
theorem parsePrimary_of_path {path : Path} (h : Reads (parsePath tokens) path rest) :
    Reads (parsePrimary tokens) (.path path) rest := by
  cases parsePath_parts h with
  | slash htokens _ _ | root htokens _ _ =>
    exact parsePrimary_path h (.inr (.inl (by simp [htokens]))) (by simp [htokens])
  | doubleSlash htokens _ =>
    exact parsePrimary_path h (.inr (.inr (by simp [htokens]))) (by simp [htokens])
  | relative hstart hsteps =>
    exact parsePrimary_path h (.inl hstart) (begins_of_parseSteps hsteps).2

end Gleaner.Query
