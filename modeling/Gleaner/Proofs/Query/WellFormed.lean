/-
# Well-formed expressions

An expression is well formed when each call has as many arguments as its function takes, each union
has two operands or more, which go to elements, and each path that does not start from the document
has a step or reads values. Whatever is read from tokens is so: each reader is given well-formed
parts by those it calls, and checks what else is asked for.

Key definitions: `Expr.WellFormed`, `Path.WellFormed`, `Step.WellFormed`, `Gives`.
Key theorems: `gives_parseLevel`, `wellFormed_of_parseExpr`.
-/
import Gleaner.Proofs.Query.Reading

namespace Gleaner.Query

open Gleaner.Text Gleaner.Markup

mutual

/-- The parts of an expression fit together. -/
inductive Expr.WellFormed : Expr → Prop
  | path {path : Path} : path.WellFormed → (Expr.path path).WellFormed
  | union {paths : List Path} : 2 ≤ paths.length → (∀ path ∈ paths, path.WellFormed) →
      (∀ path ∈ paths, path.value = none) → (Expr.union paths).WellFormed
  | literal (text : String) : (Expr.literal text).WellFormed
  | number (value : Float) : (Expr.number value).WellFormed
  | call {function : Function} {arguments : List Expr} :
      function.arity.1 ≤ arguments.length → arguments.length ≤ function.arity.2 →
      (∀ e ∈ arguments, e.WellFormed) → (Expr.call function arguments).WellFormed
  | binary {left right : Expr} (operator : Operator) : left.WellFormed → right.WellFormed →
      (Expr.binary left operator right).WellFormed

/-- So do those of a path, which leads somewhere or starts from the document. -/
inductive Path.WellFormed : Path → Prop
  | intro {path : Path} : path.absolute = true ∨ path.steps ≠ [] ∨ path.value.isSome = true →
      (∀ step ∈ path.steps, step.WellFormed) → path.WellFormed

/-- So do those of a step. -/
inductive Step.WellFormed : Step → Prop
  | intro {step : Step} : (∀ e ∈ step.predicates, e.WellFormed) → step.WellFormed

end

/-- What a piece of a path is made of fits together. -/
def Piece.WellFormed : Piece → Prop
  | .step s => s.WellFormed
  | .value _ => True

theorem Step.wellFormed_selfAndBelow : Step.selfAndBelow.WellFormed :=
  .intro (by simp [Step.selfAndBelow])

/-- Whatever a reading gives has the property. -/
def Gives {α : Type} {A : List Token → Prop} (P : α → Prop)
    (reading : Except Reason (α × { rest : List Token // A rest })) : Prop :=
  ∀ a rest, reading = .ok (a, rest) → P a

section

variable {α β : Type} {A B : List Token → Prop} {P : α → Prop} {Q : β → Prop}

theorem Gives.ok {a : α} {rest : { rest : List Token // A rest }} (h : P a) :
    Gives P (.ok (a, rest)) := by
  rintro _ _ ⟨⟩
  exact h

theorem Gives.error (reason : Reason) :
    Gives P (.error reason : Except Reason (α × { rest : List Token // A rest })) := by
  rintro _ _ ⟨⟩

/-- What is read once something else has come about. -/
theorem Gives.after {γ : Type} {first : Except Reason γ}
    {next : γ → Except Reason (β × { rest : List Token // B rest })}
    (h : ∀ c, first = .ok c → Gives Q (next c)) : Gives Q (first >>= next) := by
  intro b rest hb
  obtain ⟨c, hc, hb⟩ := bind_eq_ok_iff.1 hb
  exact h c hc b rest hb

/-- A reading in two parts: the second may build on what the first gives. -/
theorem Gives.bind {first : Except Reason (α × { rest : List Token // A rest })}
    {next : α × { rest : List Token // A rest } →
      Except Reason (β × { rest : List Token // B rest })}
    (hfirst : Gives P first)
    (hnext : ∀ a rest (h : A rest), P a → Gives Q (next (a, ⟨rest, h⟩))) :
    Gives Q (first >>= next) := by
  apply Gives.after
  rintro ⟨a, rest, hrest⟩ ha
  exact hnext a rest hrest (hfirst a _ ha)

end

theorem gives_parseAttribute (tokens : List Token) :
    Gives Piece.WellFormed (parseAttribute tokens) := by
  unfold parseAttribute
  split
  · exact .error _
  · exact .error _
  · exact .ok trivial
  · exact .ok trivial
  · exact .error _

/-- A path that is an operand of a union is well formed and goes to elements. -/
def Path.Operand (path : Path) : Prop :=
  path.WellFormed ∧ path.value = none

theorem operand_of_elementPath {e : Expr} {path : Path} (he : e.WellFormed)
    (h : elementPath e = .ok path) : path.Operand := by
  obtain ⟨rfl, hvalue⟩ := elementPath_eq_ok_iff.1 h
  cases he with
  | path hpath => exact ⟨hpath, hvalue⟩

/-- Operands with bars between them are a union. -/
theorem wellFormed_union {path : Path} {paths : List Path} (hpath : path.Operand)
    (hpaths : ∀ path ∈ paths, path.Operand) (hmore : paths ≠ []) :
    (Expr.union (path :: paths)).WellFormed := by
  have hall : ∀ p ∈ path :: paths, p.Operand := List.forall_mem_cons.2 ⟨hpath, hpaths⟩
  have hcount : 0 < paths.length := List.length_pos_iff.2 hmore
  refine .union ?_ (fun p hp => (hall p hp).1) (fun p hp => (hall p hp).2)
  rw [List.length_cons]
  omega

theorem wellFormed_of_callOf {name : String} {function : Function} {arguments : List Expr}
    {e : Expr} (harguments : ∀ a ∈ arguments, a.WellFormed)
    (h : callOf name function arguments = .ok e) : e.WellFormed := by
  unfold callOf at h
  dsimp only at h
  split at h
  · cases h
  · next hcount =>
    cases h
    exact .call (by omega) (by omega) harguments

mutual

theorem gives_parseLevel (level : Nat) (tokens : List Token) :
    Gives Expr.WellFormed (parseLevel level tokens) := by
  rw [parseLevel]
  split
  · refine Gives.bind (gives_parseLevel (level + 1) tokens) fun left rest _ hleft => ?_
    refine Gives.bind (gives_parseOperators level left rest hleft) fun e _ _ he => ?_
    exact .ok he
  · exact gives_parseUnion tokens
termination_by (tokens.length, 10 + (4 - level))

theorem gives_parseOperators (level : Nat) (left : Expr) (tokens : List Token)
    (hleft : left.WellFormed) : Gives Expr.WellFormed (parseOperators level left tokens) := by
  rw [parseOperators.eq_def]
  split
  · exact .ok hleft
  · next token rest =>
    split
    · exact .ok hleft
    · next op _ =>
      refine Gives.bind (gives_parseLevel (level + 1) rest) fun right more _ hright => ?_
      refine Gives.bind (gives_parseOperators level _ more (.binary op hleft hright))
        fun e _ _ he => ?_
      exact .ok he
termination_by (tokens.length, 0)
decreasing_by all_goals grind

theorem gives_parseUnion (tokens : List Token) : Gives Expr.WellFormed (parseUnion tokens) := by
  rw [parseUnion]
  refine Gives.bind (gives_parsePrimary tokens) fun first rest _ hfirst => ?_
  dsimp only
  split
  · next more _ =>
    refine Gives.after fun path hpath => ?_
    refine Gives.bind (gives_parseOperands (.pipe :: more)) fun paths _ _ hpaths => ?_
    exact .ok (wellFormed_union (operand_of_elementPath hfirst hpath) hpaths.1 (hpaths.2 rfl))
  · exact .ok hfirst
termination_by (tokens.length, 9)
decreasing_by all_goals grind

/-- The operands behind a bar, of which there is one at least. -/
theorem gives_parseOperands (tokens : List Token) :
    Gives (fun paths => (∀ path ∈ paths, path.Operand) ∧
      (tokens.head? = some .pipe → paths ≠ [])) (parseOperands tokens) := by
  rw [parseOperands.eq_def]
  split
  · next rest =>
    refine Gives.bind (gives_parsePrimary rest) fun operand more _ hoperand => ?_
    refine Gives.after fun path hpath => ?_
    refine Gives.bind (gives_parseOperands more) fun paths _ _ hpaths => ?_
    exact .ok ⟨List.forall_mem_cons.2 ⟨operand_of_elementPath hoperand hpath, hpaths.1⟩,
      fun _ => List.cons_ne_nil _ _⟩
  · next hpipe =>
    refine .ok ⟨List.forall_mem_nil _, fun hhead => ?_⟩
    obtain ⟨more, rfl⟩ := List.head?_eq_some_iff.1 hhead
    exact absurd rfl (hpipe more)
termination_by (tokens.length, 0)
decreasing_by all_goals grind

theorem gives_parsePrimary (tokens : List Token) :
    Gives Expr.WellFormed (parsePrimary tokens) := by
  rw [parsePrimary.eq_def]
  split
  · exact .ok (.literal _)
  · exact .ok (.number _)
  · next rest =>
    refine Gives.bind (gives_parseLevel 0 rest) fun e more _ he => ?_
    dsimp only
    split
    · exact .ok he
    · exact .error _
  · next name rest =>
    split
    · refine Gives.bind (gives_parsePath _) fun path _ _ hpath => ?_
      exact .ok (.path hpath)
    · split
      · exact .error _
      · split
        · refine Gives.after fun e he => ?_
          exact .ok (wellFormed_of_callOf (List.forall_mem_nil _) he)
        · refine Gives.bind (gives_parseArguments rest) fun arguments _ _ harguments => ?_
          refine Gives.after fun e he => ?_
          exact .ok (wellFormed_of_callOf harguments he)
  · refine Gives.bind (gives_parsePath _) fun path _ _ hpath => ?_
    exact .ok (.path hpath)
termination_by (tokens.length, 8)
decreasing_by all_goals grind

theorem gives_parseArguments (tokens : List Token) :
    Gives (fun arguments => ∀ e ∈ arguments, e.WellFormed) (parseArguments tokens) := by
  rw [parseArguments]
  refine Gives.bind (gives_parseLevel 0 tokens) fun e rest _ he => ?_
  dsimp only
  split
  · exact .ok (List.forall_mem_singleton.2 he)
  · next more _ =>
    refine Gives.bind (gives_parseArguments more) fun others _ _ hothers => ?_
    exact .ok (List.forall_mem_cons.2 ⟨he, hothers⟩)
  · exact .error _
termination_by (tokens.length, 20)
decreasing_by all_goals grind

theorem gives_parsePath (tokens : List Token) : Gives Path.WellFormed (parsePath tokens) := by
  rw [parsePath.eq_def]
  split
  · next rest =>
    split
    · refine Gives.bind (gives_parseSteps true [] rest (List.forall_mem_nil _))
        fun path _ _ hpath => ?_
      exact .ok hpath
    · exact .ok (.intro (.inl rfl) (List.forall_mem_nil _))
  · next rest =>
    refine Gives.bind (gives_parseSteps true [.selfAndBelow] rest
      (List.forall_mem_singleton.2 Step.wellFormed_selfAndBelow)) fun path _ _ hpath => ?_
    exact .ok hpath
  · split
    · exact gives_parseSteps false [] _ (List.forall_mem_nil _)
    · exact .error _
termination_by (tokens.length, 7)

theorem gives_parseSteps (absolute : Bool) (steps : List Step) (tokens : List Token)
    (hsteps : ∀ step ∈ steps, step.WellFormed) :
    Gives Path.WellFormed (parseSteps absolute steps tokens) := by
  rw [parseSteps]
  refine Gives.bind (gives_parseStep tokens) fun piece rest _ hpiece => ?_
  dsimp only
  split
  · split
    · exact .error _
    · exact .error _
    · exact .ok (.intro (.inr (.inr rfl)) hsteps)
  · next step =>
    have hone : step.WellFormed := hpiece
    split
    · next more _ =>
      refine Gives.bind (gives_parseSteps absolute (steps ++ [step]) more ?_)
        fun path _ _ hpath => ?_
      · exact List.forall_mem_append.2 ⟨hsteps, List.forall_mem_singleton.2 hone⟩
      · exact .ok hpath
    · next more _ =>
      refine Gives.bind (gives_parseSteps absolute (steps ++ [step, .selfAndBelow]) more ?_)
        fun path _ _ hpath => ?_
      · refine List.forall_mem_append.2 ⟨hsteps, List.forall_mem_cons.2 ⟨hone, ?_⟩⟩
        exact List.forall_mem_singleton.2 Step.wellFormed_selfAndBelow
      · exact .ok hpath
    · refine .ok (.intro (.inr (.inl (by simp))) ?_)
      exact List.forall_mem_append.2 ⟨hsteps, List.forall_mem_singleton.2 hone⟩
termination_by (tokens.length, 6)
decreasing_by all_goals grind

theorem gives_parseStep (tokens : List Token) : Gives Piece.WellFormed (parseStep tokens) := by
  rw [parseStep.eq_def]
  split
  · exact .ok (Step.WellFormed.intro (List.forall_mem_nil _))
  · exact .ok (Step.WellFormed.intro (List.forall_mem_nil _))
  · next rest =>
    refine Gives.bind (gives_parseAttribute rest) fun piece _ _ hpiece => ?_
    exact .ok hpiece
  · next name rest =>
    split
    · refine Gives.bind (gives_parseAttribute rest) fun piece _ _ hpiece => ?_
      exact .ok hpiece
    · split
      · exact .error _
      · next axis _ =>
        refine Gives.bind (gives_parseNodeTest axis rest) fun piece _ _ hpiece => ?_
        exact .ok hpiece
  · exact .error _
  · exact gives_parseNodeTest .child _
termination_by (tokens.length, 5)
decreasing_by all_goals grind

theorem gives_parseNodeTest (axis : Axis) (tokens : List Token) :
    Gives Piece.WellFormed (parseNodeTest axis tokens) := by
  rw [parseNodeTest.eq_def]
  split
  · next rest =>
    refine Gives.bind (gives_parsePredicates rest) fun predicates _ _ hpredicates => ?_
    exact .ok (Step.WellFormed.intro hpredicates)
  · next name rest =>
    split
    · split
      · refine Gives.bind (gives_parsePredicates _) fun predicates _ _ hpredicates => ?_
        exact .ok (Step.WellFormed.intro hpredicates)
      · split
        · split
          · exact .error _
          · exact .ok trivial
        · exact .error _
    · exact .error _
  · next name rest _ =>
    refine Gives.bind (gives_parsePredicates rest) fun predicates _ _ hpredicates => ?_
    exact .ok (Step.WellFormed.intro hpredicates)
  · exact .error _
termination_by (tokens.length, 4)
decreasing_by all_goals grind

theorem gives_parsePredicates (tokens : List Token) :
    Gives (fun predicates => ∀ e ∈ predicates, e.WellFormed) (parsePredicates tokens) := by
  rw [parsePredicates.eq_def]
  split
  · next rest =>
    refine Gives.bind (gives_parseLevel 0 rest) fun e more _ he => ?_
    dsimp only
    split
    · next others _ =>
      refine Gives.bind (gives_parsePredicates others) fun predicates _ _ hpredicates => ?_
      exact .ok (List.forall_mem_cons.2 ⟨he, hpredicates⟩)
    · exact .error _
  · exact .ok (List.forall_mem_nil _)
termination_by (tokens.length, 0)
decreasing_by all_goals grind

end

/-- Whatever a row of tokens writes is well formed. -/
theorem wellFormed_of_parseExpr {tokens : List Token} {e : Expr} (h : parseExpr tokens = .ok e) :
    e.WellFormed := by
  unfold parseExpr at h
  obtain ⟨⟨e', rest⟩, hread, h⟩ := bind_eq_ok_iff.1 h
  have he : e'.WellFormed := gives_parseLevel 0 tokens e' rest hread
  dsimp only at h
  split at h
  · cases h
    exact he
  · cases h

end Gleaner.Query
