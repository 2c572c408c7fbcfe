/-
# Expressions that are read back

The tokens of a well-formed expression are read as that expression. Operators of one level group to
the left, so what is shown of an expression at a level is what it is good for as the first part of a
longer one: whatever reading goes on from it behind its tokens, the whole reading gives the same. A
left operand is then used with its operator behind it, and a right one with nothing that binds as
tight.

No name is taken for another: an axis stands in front of every element, so one called `or`, `text`
or `contains` is never where an operator, a node test or a function could be.

Key definitions: `EndsPath`, `Follows`, `Expr.ReadAt`, `Path.Read`, `Step.Read`.
Key theorems: `parseSteps_written`, `parseUnion_written`, `Expr.readAt_binary`, `Expr.readAt`,
`wellFormed_readBack`.
-/
import Gleaner.Proofs.Query.Printed
import Gleaner.Proofs.Query.WellFormed

namespace Gleaner.Query

open Gleaner.Text Gleaner.Markup

variable {tokens more rest : List Token} {level : Nat}

/-- A reading has one result. -/
theorem Reads.unique {α : Type} {P : List Token → Prop}
    {reading : Except Reason (α × { rest : List Token // P rest })} {a b : α} {left : List Token}
    (ha : Reads reading a rest) (hb : Reads reading b left) : a = b ∧ rest = left := by
  obtain ⟨_, ha⟩ := ha
  obtain ⟨_, hb⟩ := hb
  rw [ha] at hb
  cases hb
  exact ⟨rfl, rfl⟩

/-! ### What follows -/

/-- What follows cannot go on with a step. -/
def EndsStep (rest : List Token) : Prop :=
  rest.head? ≠ some .openBracket ∧ rest.head? ≠ some .openParen

/-- What follows cannot go on with a path. -/
def EndsPath (rest : List Token) : Prop :=
  EndsStep rest ∧ rest.head? ≠ some .slash ∧ rest.head? ≠ some .doubleSlash

/-- What follows cannot go on with an expression that is asked for at a level. -/
def Follows (level : Nat) (rest : List Token) : Prop :=
  EndsPath rest ∧ Closes level rest

theorem Follows.mono {higher : Nat} (h : Follows level rest) (hle : level ≤ higher) :
    Follows higher rest :=
  ⟨h.1, h.2.1, fun t ht k hk => h.2.2 t ht k (Nat.le_trans hle hk)⟩

/-- No operator binds at the tightest level. -/
theorem operatorAt?_tightest {token : Token} (h : 4 ≤ level) : operatorAt? level token = none := by
  unfold operatorAt?
  split <;> first | omega | rfl

theorem Follows.of_tightest (h : Follows 5 rest) : Follows 4 rest :=
  ⟨h.1, h.2.1, fun _ _ _ hk => operatorAt?_tightest hk⟩

theorem follows_nil (level : Nat) : Follows level [] := by
  simp [Follows, EndsPath, EndsStep, Closes]

theorem follows_closeParen (level : Nat) (more : List Token) :
    Follows level (.closeParen :: more) := by
  simp [Follows, EndsPath, EndsStep, Closes, operatorAt?]

theorem follows_closeBracket (level : Nat) (more : List Token) :
    Follows level (.closeBracket :: more) := by
  simp [Follows, EndsPath, EndsStep, Closes, operatorAt?]

theorem follows_comma (level : Nat) (more : List Token) : Follows level (.comma :: more) := by
  simp [Follows, EndsPath, EndsStep, Closes, operatorAt?]

/-- An operator goes on with nothing that binds tighter. -/
theorem follows_operator (op : Operator) (more : List Token) :
    Follows (op.level + 1) (op.token :: more) := by
  have htoken : op.token ≠ .openBracket ∧ op.token ≠ .openParen ∧ op.token ≠ .slash ∧
      op.token ≠ .doubleSlash ∧ op.token ≠ .pipe := by
    match op with
    | .or | .and => simp [Operator.token]
    | .comparison c => cases c <;> simp [Operator.token]
  refine ⟨by simp [EndsPath, EndsStep, htoken], by simp [htoken], ?_⟩
  rintro _ ⟨⟩ k hk
  exact operatorAt?_token_of_ne (by omega)

theorem endsPath_pipe (more : List Token) : EndsPath (.pipe :: more) := by
  simp [EndsPath, EndsStep]

/-! ### Steps -/

/-- A step is read up to where no step goes on. -/
def Step.Read (step : Step) : Prop :=
  ∀ ⦃rest : List Token⦄, EndsStep rest → Reads (parseStep (step.tokens ++ rest)) (.step step) rest

/-- A path is read as an operand up to where no path goes on. -/
def Path.Read (path : Path) : Prop :=
  ∀ ⦃rest : List Token⦄, EndsPath rest →
    Reads (parsePrimary (path.tokens ++ rest)) (.path path) rest

/-- An expression is read where one is asked for at a level, and the reading goes on from it. -/
def Expr.ReadAt (level : Nat) (e : Expr) : Prop :=
  ∀ ⦃rest left : List Token⦄ ⦃whole : Expr⦄, Follows (level + 1) rest →
    Reads (parseOperators level e rest) whole left →
    Reads (parseLevel level (e.tokensAt level ++ rest)) whole left

/-- An expression that nothing goes on from is read as it is. -/
theorem Expr.ReadAt.whole {e : Expr} (h : e.ReadAt level) (hrest : Follows level rest) :
    Reads (parseLevel level (e.tokensAt level ++ rest)) e rest :=
  h (hrest.mono (Nat.le_succ level))
    (parseOperators_none e fun t ht => hrest.2.2 t ht level (Nat.le_refl level))

theorem Expr.ReadAt.zero {e : Expr} (h : e.ReadAt 0) (hrest : Follows 0 rest) :
    Reads (parseLevel 0 (e.tokens ++ rest)) e rest := by
  have hread := h.whole hrest
  rwa [Expr.tokensAt_zero] at hread

theorem parseNodeTest_node {axis : Axis} {predicates : List Expr}
    (h : Reads (parsePredicates tokens) predicates rest) :
    Reads (parseNodeTest axis (.name "node" :: .openParen :: .closeParen :: tokens))
      (.step ⟨axis, .anyNode, predicates⟩) rest := by
  obtain ⟨_, h⟩ := h
  unfold parseNodeTest
  simp only [if_true, h, bind, Except.bind, pure, Except.pure]
  exact ⟨by grind, rfl⟩

/-- A node test is read in front of the conditions of its step. -/
theorem parseNodeTest_tokens {axis : Axis} {predicates : List Expr} (test : NodeTest)
    (h : Reads (parsePredicates tokens) predicates rest) (hopen : tokens.head? ≠ some .openParen) :
    Reads (parseNodeTest axis (test.tokens ++ tokens)) (.step ⟨axis, test, predicates⟩) rest := by
  cases test with
  | named name => exact parseNodeTest_name h hopen
  | anyElement => exact parseNodeTest_star h
  | anyNode => exact parseNodeTest_node h

/-- A node test and the conditions behind it are read if the conditions are. -/
theorem parseNodeTest_written {axis : Axis} {test : NodeTest} {predicates : List Expr}
    (h : ∀ e ∈ predicates, e.ReadAt 0) (hrest : EndsStep rest) :
    Reads (parseNodeTest axis (test.tokens ++
        ((predicates.flatMap fun e : Expr => .openBracket :: e.tokens ++ [.closeBracket]) ++ rest)))
      (.step ⟨axis, test, predicates⟩) rest := by
  have hpredicates : Reads (parsePredicates
      ((predicates.flatMap fun e : Expr => .openBracket :: e.tokens ++ [.closeBracket]) ++ rest))
      predicates rest := by
    have hall : ∀ e ∈ predicates, ∀ more, Reads (parseLevel 0 (e.tokens ++ .closeBracket :: more))
        (id e) (.closeBracket :: more) :=
      fun e he more => (h e he).zero (follows_closeBracket 0 more)
    have hread := parsePredicates_written hrest.1 hall
    rwa [List.map_id] at hread
  have hopen : ((predicates.flatMap fun e => Token.openBracket :: Expr.tokens e ++
      [Token.closeBracket]) ++ rest).head? ≠ some .openParen := by
    cases predicates with
    | nil => exact hrest.2
    | cons e predicates => simp
  exact parseNodeTest_tokens test hpredicates hopen

/-- A step is read if its conditions are. -/
theorem Step.read_of_predicates {step : Step} (h : ∀ e ∈ step.predicates, e.ReadAt 0) :
    step.Read := by
  obtain ⟨axis, test, predicates⟩ := step
  intro rest hrest
  rw [Step.tokens, List.cons_append, List.cons_append, List.append_assoc]
  exact parseStep_axis (axisName_ne_attribute axis) (axisOfName?_axisName axis)
    (parseNodeTest_written h hrest)

/-! ### Paths -/

/-- The children that are texts are read behind the axis to the children alone. -/
theorem parseNodeTest_text (hrest : rest.head? ≠ some .openBracket) :
    Reads (parseNodeTest .child (.name "text" :: .openParen :: .closeParen :: rest))
      (.value .text) rest := by
  have hname : ¬ "text" = "node" := by decide
  unfold parseNodeTest
  simp only [hname, if_false, true_and, if_true]
  split
  · exact absurd rfl hrest
  · exact ⟨by grind, rfl⟩

theorem parseAttribute_name (name : String) (hrest : rest.head? ≠ some .openBracket) :
    Reads (parseAttribute (.name name :: rest)) (.value (.attribute (some name))) rest := by
  rw [parseAttribute]
  · exact ⟨by simp, rfl⟩
  · rintro more rfl
    exact hrest rfl

theorem parseAttribute_star (hrest : rest.head? ≠ some .openBracket) :
    Reads (parseAttribute (.star :: rest)) (.value (.attribute none)) rest := by
  rw [parseAttribute]
  · exact ⟨by simp, rfl⟩
  · rintro more rfl
    exact hrest rfl

theorem parseStep_at {piece : Piece} (h : Reads (parseAttribute tokens) piece rest) :
    Reads (parseStep (.at :: tokens)) piece rest := by
  obtain ⟨_, h⟩ := h
  rw [parseStep]
  simp only [h, bind, Except.bind, pure, Except.pure]
  exact ⟨by grind, rfl⟩

/-- A step that reads values is read if no condition follows it. -/
theorem parseStep_value (value : ValueStep) (hrest : rest.head? ≠ some .openBracket) :
    Reads (parseStep (value.tokens ++ rest)) (.value value) rest := by
  match value with
  | .text => exact parseStep_child (parseNodeTest_text hrest) (.inr ⟨"text", _, rfl, by simp⟩)
  | .attribute (some name) => exact parseStep_at (parseAttribute_name name hrest)
  | .attribute none => exact parseStep_at (parseAttribute_star hrest)

section

variable {absolute : Bool} {before steps : List Step} {value : Option ValueStep}

theorem parseSteps_value {value : ValueStep} (h : Reads (parseStep tokens) (.value value) rest)
    (hrest : rest.head? ≠ some .slash ∧ rest.head? ≠ some .doubleSlash) :
    Reads (parseSteps absolute before tokens) ⟨absolute, before, some value⟩ rest := by
  obtain ⟨hlt, h⟩ := h
  rw [parseSteps]
  simp only [h, bind, Except.bind, pure, Except.pure]
  split
  · exact absurd rfl hrest.1
  · exact absurd rfl hrest.2
  · exact ⟨hlt, rfl⟩

/-- The first of some rows of tokens stands in front of the others, each behind a separator. -/
theorem intercalate_cons_eq_append (separator : Token) (first : List Token) :
    ∀ others : List (List Token), List.intercalate [separator] (first :: others) =
      first ++ others.flatMap (separator :: ·)
  | [] => by simp
  | second :: others => by
    rw [List.intercalate_cons_cons, intercalate_cons_eq_append separator second others]
    simp

/-- The tokens of steps with a slash between each two of them, and of the step to values behind. -/
def joinedSteps (steps : List Step) (value : Option ValueStep) : List Token :=
  List.intercalate [.slash] (steps.map Step.tokens ++ value.toList.map ValueStep.tokens)

theorem joinedSteps_cons {step : Step} (h : steps ≠ [] ∨ value.isSome = true) :
    joinedSteps (step :: steps) value = step.tokens ++ .slash :: joinedSteps steps value := by
  have hmore : steps.map Step.tokens ++ value.toList.map ValueStep.tokens ≠ [] := by
    rcases h with hsteps | hvalue
    · simp [hsteps]
    · simp [Option.isSome_iff_ne_none.1 hvalue]
  rw [joinedSteps, List.map_cons, List.cons_append, List.intercalate_cons_of_ne_nil hmore]
  simp [joinedSteps]

/-- Steps are read one after another, and the values that the last of them reads. -/
theorem parseSteps_written (hrest : EndsPath rest) : ∀ {steps before : List Step},
    (∀ step ∈ steps, step.Read) → steps ≠ [] ∨ value.isSome = true →
    Reads (parseSteps absolute before (joinedSteps steps value ++ rest))
      ⟨absolute, before ++ steps, value⟩ rest
  | [], before, _, hsome => by
    obtain ⟨value, rfl⟩ := Option.isSome_iff_exists.1 (hsome.resolve_left (absurd rfl))
    have hjoined : joinedSteps [] (some value) = value.tokens := by simp [joinedSteps]
    rw [hjoined, List.append_nil]
    exact parseSteps_value (parseStep_value value hrest.1.1) hrest.2
  | step :: steps, before, hsteps, _ => by
    obtain ⟨hstep, hsteps⟩ := List.forall_mem_cons.1 hsteps
    by_cases hmore : steps ≠ [] ∨ value.isSome = true
    · have hslash : EndsStep (.slash :: (joinedSteps steps value ++ rest)) := by simp [EndsStep]
      have hread : Reads (parseSteps absolute (before ++ [step]) (joinedSteps steps value ++ rest))
          ⟨absolute, before ++ [step] ++ steps, value⟩ rest :=
        parseSteps_written hrest hsteps hmore
      rw [List.append_assoc] at hread
      rw [joinedSteps_cons hmore, List.append_assoc, List.cons_append]
      exact parseSteps_slash (hstep hslash) hread
    · obtain ⟨hnil, hnone⟩ := not_or.1 hmore
      obtain rfl : steps = [] := Decidable.not_not.1 hnil
      obtain rfl : value = none := by simpa using hnone
      have hjoined : joinedSteps [step] none = step.tokens := by simp [joinedSteps]
      rw [hjoined]
      exact parseSteps_end (hstep hrest.1) hrest.2

/-- A row of steps begins with the name of an axis. -/
theorem joinedSteps_eq_cons (step : Step) (steps : List Step) (value : Option ValueStep) :
    ∃ more, joinedSteps (step :: steps) value =
      .name (axisName step.axis) :: .doubleColon :: more := by
  obtain ⟨axis, test, predicates⟩ := step
  rw [joinedSteps, List.map_cons, List.cons_append, intercalate_cons_eq_append, Step.tokens]
  exact ⟨_, rfl⟩

/-- Steps begin as a step can, and with no call. -/
theorem joinedSteps_starts (h : steps ≠ [] ∨ value.isSome = true) (rest : List Token) :
    startsStep (joinedSteps steps value ++ rest) = true ∧
      ∀ name more, joinedSteps steps value ++ rest = .name name :: .openParen :: more →
        name = "text" ∨ name = "node" := by
  cases steps with
  | nil =>
    obtain ⟨value, rfl⟩ := Option.isSome_iff_exists.1 (h.resolve_left (absurd rfl))
    have hjoined : joinedSteps [] (some value) = value.tokens := by simp [joinedSteps]
    rw [hjoined]
    match value with
    | .text =>
      refine ⟨rfl, fun name more heq => .inl ?_⟩
      cases heq
      rfl
    | .attribute (some _) | .attribute none => exact ⟨rfl, fun name more heq => by cases heq⟩
  | cons step steps =>
    obtain ⟨more, heq⟩ := joinedSteps_eq_cons step steps value
    rw [heq]
    exact ⟨rfl, fun name more heq => by cases heq⟩

/-- A path that goes on from the document or from where it stands is read from its steps. -/
theorem Path.read_of_some {path : Path} (h : ∀ step ∈ path.steps, step.Read)
    (hsome : path.steps ≠ [] ∨ path.value.isSome = true) : path.Read := by
  obtain ⟨absolute, steps, value⟩ := path
  intro rest hrest
  have hread : Reads (parseSteps absolute [] (joinedSteps steps value ++ rest))
      ⟨absolute, steps, value⟩ rest := parseSteps_written hrest h hsome
  obtain ⟨hstart, hcall⟩ := joinedSteps_starts hsome rest
  have htokens : (Path.mk absolute steps value).tokens =
      (if absolute then [.slash] else []) ++ joinedSteps steps value := by
    rw [Path.tokens, joinedSteps]
    rintro - rfl rfl
    simp at hsome
  rw [htokens]
  cases absolute with
  | false => exact parsePrimary_path (parsePath_relative hstart hread) (.inl hstart) hcall
  | true =>
    exact parsePrimary_path (parsePath_slash hstart hread) (.inr (.inl rfl))
      fun name more heq => by cases heq

theorem parsePrimary_number (value : Float) :
    Reads (parsePrimary (.number value :: rest)) (.number value) rest := by
  unfold parsePrimary
  exact ⟨by simp, rfl⟩

/-- An expression in parentheses is an operand. -/
theorem parsePrimary_enclosed {e : Expr} (h : Reads (parseLevel 0 tokens) e (.closeParen :: rest)) :
    Reads (parsePrimary (.openParen :: tokens)) e rest := by
  obtain ⟨hlt, h⟩ := h
  rw [parsePrimary]
  simp only [h, bind, Except.bind, pure, Except.pure]
  exact ⟨by grind, rfl⟩

/-- The path to the document alone is read in its parentheses. -/
theorem Path.read_document : Path.Read ⟨true, [], none⟩ := by
  intro rest _
  have hpath : Reads (parsePath (.slash :: .closeParen :: rest)) ⟨true, [], none⟩
      (.closeParen :: rest) := by
    rw [parsePath, if_neg (by simp [startsStep])]
    exact ⟨by simp, rfl⟩
  have hprimary := parsePrimary_path hpath (.inr (.inl rfl)) fun name more heq => by cases heq
  rw [Path.tokens]
  exact parsePrimary_enclosed
    (parseLevel_of_primary hprimary 4 rfl (follows_closeParen 0 rest).2)

/-- A well-formed path is read if its steps are. -/
theorem Path.read_of_steps {path : Path} (hpath : path.WellFormed)
    (h : ∀ step ∈ path.steps, step.Read) : path.Read := by
  by_cases hsome : path.steps ≠ [] ∨ path.value.isSome = true
  · exact Path.read_of_some h hsome
  · obtain ⟨absolute, steps, value⟩ := path
    obtain ⟨hsteps, hvalue⟩ := not_or.1 hsome
    obtain rfl : steps = [] := Decidable.not_not.1 hsteps
    obtain rfl : value = none := by simpa using hvalue
    cases hpath with
    | intro hstart _ =>
      obtain rfl : absolute = true := by simpa using hstart
      exact Path.read_document

end

/-! ### Unions and calls -/

variable {e : Expr}

theorem parseOperands_nil (hpipe : rest.head? ≠ some .pipe) :
    Reads (parseOperands rest) [] rest := by
  rw [parseOperands]
  · exact ⟨Nat.le_refl _, rfl⟩
  · rintro more rfl
    exact hpipe rfl

theorem parseOperands_cons {path : Path} {paths : List Path}
    (hfirst : Reads (parsePrimary tokens) e more) (hpath : elementPath e = .ok path)
    (hmore : Reads (parseOperands more) paths rest) :
    Reads (parseOperands (.pipe :: tokens)) (path :: paths) rest := by
  obtain ⟨_, hfirst⟩ := hfirst
  obtain ⟨_, hmore⟩ := hmore
  rw [parseOperands]
  simp only [hfirst, hmore, hpath, bind, Except.bind, pure, Except.pure]
  exact ⟨by grind, rfl⟩

/-- An operand that a bar follows is the first of a union. -/
theorem parseUnion_of_operands {path : Path} {paths : List Path}
    (hfirst : Reads (parsePrimary tokens) e more) (hpipe : more.head? = some .pipe)
    (hpath : elementPath e = .ok path) (hmore : Reads (parseOperands more) paths rest) :
    Reads (parseUnion tokens) (.union (path :: paths)) rest := by
  obtain ⟨behind, rfl⟩ := List.head?_eq_some_iff.1 hpipe
  obtain ⟨_, hfirst⟩ := hfirst
  obtain ⟨_, hmore⟩ := hmore
  rw [parseUnion]
  simp only [hfirst, hmore, hpath, bind, Except.bind, pure, Except.pure]
  exact ⟨by grind, rfl⟩

/-- Further operands are read, each behind its bar. -/
theorem parseOperands_written (hrest : EndsPath rest) (hpipe : rest.head? ≠ some .pipe) :
    ∀ {paths : List Path}, (∀ path ∈ paths, path.Read) → (∀ path ∈ paths, path.value = none) →
      Reads (parseOperands ((paths.flatMap fun path => .pipe :: path.tokens) ++ rest)) paths rest
  | [], _, _ => parseOperands_nil hpipe
  | path :: paths, hread, hvalue => by
    obtain ⟨hfirst, hread⟩ := List.forall_mem_cons.1 hread
    obtain ⟨hnone, hvalue⟩ := List.forall_mem_cons.1 hvalue
    have hends : EndsPath ((paths.flatMap fun path => .pipe :: path.tokens) ++ rest) := by
      cases paths with
      | nil => exact hrest
      | cons second paths => exact endsPath_pipe _
    rw [List.flatMap_cons, List.append_assoc, List.cons_append]
    exact parseOperands_cons (hfirst hends) (elementPath_path hnone)
      (parseOperands_written hrest hpipe hread hvalue)

/-- Two paths or more with bars between them are read as their union. -/
theorem parseUnion_written {paths : List Path} (hcount : 2 ≤ paths.length)
    (hread : ∀ path ∈ paths, path.Read) (hvalue : ∀ path ∈ paths, path.value = none)
    (hrest : EndsPath rest) (hpipe : rest.head? ≠ some .pipe) :
    Reads (parseUnion ((Expr.union paths).tokens ++ rest)) (.union paths) rest := by
  match paths, hcount with
  | first :: second :: paths, _ =>
    obtain ⟨hfirst, hread⟩ := List.forall_mem_cons.1 hread
    obtain ⟨hnone, hvalue⟩ := List.forall_mem_cons.1 hvalue
    have hmore := parseOperands_written hrest hpipe hread hvalue
    rw [List.flatMap_cons, List.append_assoc, List.cons_append] at hmore
    rw [Expr.tokens, List.map_cons, intercalate_cons_eq_append, List.flatMap_map, List.flatMap_cons,
      List.append_assoc, List.append_assoc, List.cons_append]
    exact parseUnion_of_operands (hfirst (endsPath_pipe _)) rfl (elementPath_path hnone) hmore

/-- Arguments are read with commas between them, up to the parenthesis behind the last. -/
theorem parseArguments_written : ∀ {e : Expr} {others : List Expr},
    (∀ a ∈ e :: others, a.ReadAt 0) →
    Reads (parseArguments
        (List.intercalate [.comma] ((e :: others).map Expr.tokens) ++ .closeParen :: rest))
      (e :: others) rest
  | e, [], h => by
    rw [List.map_singleton, List.intercalate_singleton]
    exact parseArguments_last ((h e List.mem_cons_self).zero (follows_closeParen 0 rest))
  | e, second :: others, h => by
    obtain ⟨hfirst, h⟩ := List.forall_mem_cons.1 h
    rw [List.map_cons, List.map_cons, List.intercalate_cons_cons, List.append_assoc,
      List.append_assoc]
    exact parseArguments_cons (hfirst.zero (follows_comma 0 _)) (parseArguments_written h)

/-- A call with as many arguments as its function takes is read. -/
theorem parsePrimary_written {function : Function} {arguments : List Expr}
    (hleast : function.arity.1 ≤ arguments.length) (hmost : arguments.length ≤ function.arity.2)
    (h : ∀ a ∈ arguments, a.ReadAt 0) :
    Reads (parsePrimary ((Expr.call function arguments).tokens ++ rest))
      (.call function arguments) rest := by
  have hcall : callOf function.written function arguments = .ok (.call function arguments) := by
    simp only [callOf]
    rw [if_neg (by omega)]
  rw [Expr.tokens, List.cons_append, List.cons_append, List.append_assoc, List.singleton_append]
  cases arguments with
  | nil =>
    exact parsePrimary_emptyCall (written_ne_nodeTest function) (ofName?_written function) hcall
  | cons e others =>
    exact parsePrimary_call (written_ne_nodeTest function) (ofName?_written function)
      (parseArguments_written h) hcall

/-! ### Expressions -/

/-- An expression without an operator is read where the tightest one is asked for. -/
theorem Expr.readAt_tightest (h : ∀ ⦃rest : List Token⦄, Follows 4 rest →
      Reads (parseUnion (e.tokensAt 4 ++ rest)) e rest) : e.ReadAt 4 := by
  intro rest left whole hrest hwhole
  have hclosed : Follows 4 rest := hrest.of_tightest
  have hnone : Reads (parseOperators 4 e rest) e rest :=
    parseOperators_none e fun t ht => hclosed.2.2 t ht 4 (Nat.le_refl 4)
  obtain ⟨rfl, rfl⟩ := hnone.unique hwhole
  rw [parseLevel]
  exact h hclosed

/-- An expression that no operator of a level makes is put down there as at the next level. -/
theorem Expr.tokensAt_succ (h : e.binding ≠ level) : e.tokensAt (level + 1) = e.tokensAt level := by
  have hiff : e.binding < level + 1 ↔ e.binding < level := by omega
  rw [Expr.tokensAt, Expr.tokensAt, decide_eq_decide.2 hiff]

/-- An expression is read at a level if it is at the next one and no operator of the level makes
it. -/
theorem Expr.readAt_climb (hlevel : level < 4) (hbinding : e.binding ≠ level)
    (h : e.ReadAt (level + 1)) : e.ReadAt level := by
  intro rest left whole hrest hwhole
  rw [← Expr.tokensAt_succ hbinding]
  exact parseLevel_of_next hlevel (h.whole hrest) hwhole

/-- It is so at every lower level down to the one whose operator makes it. -/
theorem Expr.readAt_of_le {low high : Nat} (h : e.ReadAt high) (hle : low ≤ high) (hhigh : high ≤ 4)
    (hbetween : ∀ between, low ≤ between → between < high → e.binding ≠ between) :
    e.ReadAt low := by
  obtain ⟨k, rfl⟩ := Nat.exists_eq_add_of_le hle
  induction k with
  | zero => exact h
  | succ k ih =>
    refine ih (Expr.readAt_climb (by omega) (hbetween _ (by omega) (by omega)) h) (by omega)
      (by omega) fun between hlow hlt => hbetween between hlow (by omega)

/-- An expression without an operator is read at every level. -/
theorem Expr.readAt_operand (hbinding : e.binding = 4)
    (h : ∀ ⦃rest : List Token⦄, Follows 4 rest → Reads (parseUnion (e.tokens ++ rest)) e rest)
    (hlevel : level ≤ 4) : e.ReadAt level := by
  have htightest : e.ReadAt 4 := by
    apply Expr.readAt_tightest
    intro rest hrest
    rw [Expr.tokensAt_of_binding (by omega)]
    exact h hrest
  exact Expr.readAt_of_le htightest hlevel (by omega) fun between _ hlt => by omega

/-- Two expressions that are read are read with an operator between them. -/
theorem Expr.readAt_binary {left right : Expr} (op : Operator)
    (hleft : ∀ level ≤ 4, left.ReadAt level) (hright : ∀ level ≤ 4, right.ReadAt level)
    (hlevel : level ≤ 4) : (Expr.binary left op right).ReadAt level := by
  have hop : op.level < 4 := op.level_lt
  have hbinding : (Expr.binary left op right).binding = op.level := rfl
  have hown : (Expr.binary left op right).ReadAt op.level := by
    intro rest before whole hrest hwhole
    rw [Expr.tokensAt_of_binding (by omega), Expr.tokens_binary, List.append_assoc, List.cons_append]
    apply hleft op.level (by omega) (follows_operator op _)
    exact parseOperators_some (operatorAt?_token op)
      ((hright (op.level + 1) (by omega)).whole hrest) hwhole
  have hweakest : (Expr.binary left op right).ReadAt 0 :=
    Expr.readAt_of_le hown (by omega) (by omega) fun between _ hlt => by omega
  -- where a tighter one is asked for it stands in parentheses
  have htightest : (Expr.binary left op right).ReadAt 4 := by
    apply Expr.readAt_tightest
    intro rest hrest
    have htokens : (Expr.binary left op right).tokensAt 4 ++ rest =
        .openParen :: ((Expr.binary left op right).tokens ++ .closeParen :: rest) := by
      simp [Expr.tokensAt, parenthesized, hbinding, hop]
    rw [htokens]
    exact parseUnion_of_primary (parsePrimary_enclosed (hweakest.zero (follows_closeParen 0 rest)))
      hrest.2.1
  by_cases hlow : level ≤ op.level
  · exact Expr.readAt_of_le hown hlow (by omega) fun between _ hlt => by omega
  · exact Expr.readAt_of_le htightest hlevel (by omega) fun between hlow' _ => by omega

mutual

/-- A well-formed expression is read at every level. -/
theorem Expr.readAt (e : Expr) (h : e.WellFormed) (level : Nat) (hlevel : level ≤ 4) :
    e.ReadAt level := by
  match e, h with
  | .path path, .path hpath =>
    apply Expr.readAt_operand rfl _ hlevel
    intro rest hrest
    rw [Expr.tokens]
    exact parseUnion_of_primary (Path.read path hpath hrest.1) hrest.2.1
  | .union paths, .union hcount hpaths hvalue =>
    apply Expr.readAt_operand rfl _ hlevel
    intro rest hrest
    exact parseUnion_written hcount (fun path hmem => Path.read path (hpaths path hmem)) hvalue
      hrest.1 hrest.2.1
  | .literal text, _ =>
    apply Expr.readAt_operand rfl _ hlevel
    intro rest hrest
    rw [Expr.tokens]
    exact parseUnion_of_primary (parsePrimary_literal text) hrest.2.1
  | .number value, _ =>
    apply Expr.readAt_operand rfl _ hlevel
    intro rest hrest
    rw [Expr.tokens]
    exact parseUnion_of_primary (parsePrimary_number value) hrest.2.1
  | .call function arguments, .call hleast hmost harguments =>
    apply Expr.readAt_operand rfl _ hlevel
    intro rest hrest
    exact parseUnion_of_primary (parsePrimary_written hleast hmost
      fun a ha => Expr.readAt a (harguments a ha) 0 (by omega)) hrest.2.1
  | .binary left op right, .binary _ hleft hright =>
    exact Expr.readAt_binary op (Expr.readAt left hleft) (Expr.readAt right hright) hlevel
termination_by sizeOf e

theorem Path.read (path : Path) (h : path.WellFormed) : path.Read := by
  match path, h with
  | ⟨absolute, steps, value⟩, .intro hstart hsteps =>
    exact Path.read_of_steps (.intro hstart hsteps) fun step hmem => Step.read step (hsteps step hmem)
termination_by sizeOf path

theorem Step.read (step : Step) (h : step.WellFormed) : step.Read := by
  match step, h with
  | ⟨axis, test, predicates⟩, .intro hpredicates =>
    exact Step.read_of_predicates fun e he => Expr.readAt e (hpredicates e he) 0 (by omega)
termination_by sizeOf step

end

/-- The tokens of a well-formed expression are read as that expression. -/
theorem parseExpr_tokens {e : Expr} (h : e.WellFormed) : parseExpr e.tokens = .ok e := by
  have hread := (Expr.readAt e h 0 (by omega)).zero (follows_nil 0)
  rw [List.append_nil] at hread
  obtain ⟨_, hread⟩ := hread
  rw [parseExpr, hread]
  rfl

/-- **Reading and putting down.** Whatever is read is well formed, and every well-formed expression
is read back from its tokens. -/
theorem wellFormed_readBack :
    (∀ (tokens : List Token) (e : Expr), parseExpr tokens = .ok e → e.WellFormed) ∧
      ∀ e : Expr, e.WellFormed → parseExpr e.tokens = .ok e :=
  ⟨fun _ _ => wellFormed_of_parseExpr, fun _ => parseExpr_tokens⟩

/-- Names that could be taken for something else, and operators that bind the other way round:
`(child::or[not(self::contains/text())] and (/)|/child::text) < (last() < "and")`. -/
def tangled : Expr :=
  .binary
    (.binary
      (.path ⟨false, [⟨.child, .named "or",
        [.call .not [.path ⟨false, [⟨.self, .named "contains", []⟩], some .text⟩]]⟩], none⟩)
      .and (.union [⟨true, [], none⟩, ⟨true, [⟨.child, .named "text", []⟩], none⟩]))
    (.comparison .less)
    (.binary (.call .last []) (.comparison .less) (.literal "and"))

/-- The tokens of `tangled`. -/
def tangledTokens : List Token :=
  [.openParen, .name "child", .doubleColon, .name "or", .openBracket, .name "not", .openParen,
    .name "self", .doubleColon, .name "contains", .slash, .name "text", .openParen, .closeParen,
    .closeParen, .closeBracket, .name "and", .openParen, .slash, .closeParen, .pipe, .slash,
    .name "child", .doubleColon, .name "text", .closeParen, .less, .openParen, .name "last",
    .openParen, .closeParen, .less, .literal "and", .closeParen]

theorem readBack_tangled :
    parseExpr tangledTokens = .ok tangled ∧ tangled.WellFormed ∧ tangled.tokens = tangledTokens ∧
      parseExpr tangled.tokens = .ok tangled := by
  have hname (axis : Axis) (name : String) : (Step.mk axis (.named name) []).WellFormed :=
    .intro (List.forall_mem_nil _)
  have hself : (Expr.path ⟨false, [⟨.self, .named "contains", []⟩], some .text⟩).WellFormed :=
    .path (.intro (.inr (.inr rfl)) (List.forall_mem_singleton.2 (hname _ _)))
  have hnot : (Expr.call .not
      [.path ⟨false, [⟨.self, .named "contains", []⟩], some .text⟩]).WellFormed :=
    .call (by decide) (by decide) (List.forall_mem_singleton.2 hself)
  have hleft : (Expr.path ⟨false, [⟨.child, .named "or", [.call .not
      [.path ⟨false, [⟨.self, .named "contains", []⟩], some .text⟩]]⟩], none⟩).WellFormed :=
    .path (.intro (.inr (.inl (List.cons_ne_nil _ _)))
      (List.forall_mem_singleton.2 (.intro (List.forall_mem_singleton.2 hnot))))
  have hpaths : ∀ path ∈ [⟨true, [], none⟩, Path.mk true [⟨.child, .named "text", []⟩] none],
      path.WellFormed :=
    List.forall_mem_cons.2 ⟨.intro (.inl rfl) (List.forall_mem_nil _),
      List.forall_mem_singleton.2 (.intro (.inl rfl) (List.forall_mem_singleton.2 (hname _ _)))⟩
  have hunion : (Expr.union
      [⟨true, [], none⟩, ⟨true, [⟨.child, .named "text", []⟩], none⟩]).WellFormed :=
    .union (by decide) hpaths (List.forall_mem_cons.2 ⟨rfl, List.forall_mem_singleton.2 rfl⟩)
  have hlast : (Expr.call .last []).WellFormed :=
    .call (by decide) (by decide) (List.forall_mem_nil _)
  have hformed : tangled.WellFormed :=
    .binary _ (.binary _ hleft hunion) (.binary _ hlast (.literal _))
  have htokens : tangled.tokens = tangledTokens := by cbv
  have hread := wellFormed_readBack.2 tangled hformed
  rw [htokens] at hread
  exact ⟨hread, wellFormed_readBack.1 _ _ hread, htokens, htokens ▸ hread⟩

end Gleaner.Query
