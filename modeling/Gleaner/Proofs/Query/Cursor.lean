/-
# The cursor of a path query goes on to the end

A walk over tokens does what the reading of the tokens does that the cursor faces: it gives the same,
and then the cursor stands in front of what is left, or it halts for the same reason. The cursor may
be moved beyond the last token, and it is put back once; what is left of a reading tells where it
stands after all that. So the walk ends whatever the tokens are, with thirteen calls for each of them
and as many for the end, and each part of an expression takes at least one token.

Key definitions: `Agrees`, `readCall`.
Key theorems: `agrees_bind`, `agrees_walkLevel`, `agrees_walkPrimary`, `agrees_walkPath`,
`agrees_walkStep`, `walkExpr_progresses`.
-/
import Gleaner.Proofs.Query.Parts
import Gleaner.Proofs.Walk
import Gleaner.Query.Cursor

namespace Gleaner.Query

open Gleaner.Markup Gleaner.Text Gleaner.Walk

variable {tokens rest : List Token} {last : Nat} {cursor : Cursor} {token : Token} {enough : Prop}

/-! ### Single tokens -/

/-- A token is a number. -/
def Token.isNumber : Token → Bool
  | .number _ => true
  | _ => false

/-- A token that counts as the same as a sign is that sign. A number need not count as the same as
itself. -/
theorem same_iff {a b : Token} (hb : b.isNumber = false) : (a == b) = true ↔ a = b := by
  constructor
  · intro h
    cases a <;> cases b <;> first
      | rfl
      | cases h
      | exact congrArg Token.name (beq_iff_eq.1 h)
      | exact congrArg Token.literal (beq_iff_eq.1 h)
      | cases hb
  · rintro rfl
    cases a <;> first
      | rfl
      | exact beq_self_eq_true (α := String) _
      | cases hb

theorem some_same_iff (hsign : token.isNumber = false) {found : Option Token} :
    (found == some token) = true ↔ found = some token := by
  cases found with
  | none => exact ⟨nofun, nofun⟩
  | some other => exact (same_iff hsign).trans (Option.some_inj).symm

/-- A name is called if a parenthesis opens behind it, unless it tests a node. -/
theorem opensCall_iff {second : Option Token} {name : String} :
    (second == some .openParen && !(name == "text" || name == "node")) = true ↔
      second = some .openParen ∧ ¬(name = "text" ∨ name = "node") := by
  rw [Bool.and_eq_true, some_same_iff rfl, Bool.not_eq_true', Bool.or_eq_false_iff,
    beq_eq_false_iff_ne, beq_eq_false_iff_ne, not_or]

/-- Whether a step begins is seen from the first token. -/
theorem startsStep_head? : startsStep rest.head?.toList = startsStep rest := by
  cases rest with
  | nil => rfl
  | cons token behind => cases token <;> rfl

theorem ne_cons_of_head? (h : ¬rest.head? = some token) (behind : List Token)
    (hrest : rest = token :: behind) : False :=
  h (by rw [hrest]; rfl)

theorem ne_name_cons {behind : List Token} {name : String} (h : ¬behind.head? = some token)
    (other : String) (more : List Token)
    (hrest : Token.name name :: behind = .name other :: token :: more) : False :=
  ne_cons_of_head? h more (List.cons.inj hrest).2

section

variable {α : Type} {behind : List Token}

/-- The next token but one, as the cursor faces it. -/
theorem faces_second (h : cursor.Faces tokens last rest) : tokens[cursor.place + 1]? = rest[1]? := by
  rw [← h.ahead, List.getElem?_drop]

theorem runFrom_take (h : cursor.Faces tokens last rest)
    (next : Option Token → Walk Reason α) :
    (take tokens >>= next).runFrom cursor =
      (next rest.head?).runFrom (cursor.movedTo (cursor.place + 1)) := by
  rw [take, bind_assoc, runFrom_peek_bind, h.peek, bind_assoc, runFrom_move_bind, pure_bind]

theorem runFrom_putBack (next : Unit → Walk Reason α) :
    (putBack >>= next).runFrom (cursor.movedTo (cursor.place + 1)) =
      (next ()).runFrom ((cursor.movedTo (cursor.place + 1)).movedTo cursor.place) := by
  rfl

/-- A sign comes next. -/
theorem runFrom_comesNext (hsign : token.isNumber = false)
    (h : cursor.Faces tokens last (token :: behind)) (next : Bool → Walk Reason α) :
    (comesNext tokens token >>= next).runFrom cursor = (next true).runFrom cursor := by
  rw [comesNext, bind_assoc, runFrom_peek_bind, h.peek, pure_bind, List.head?_cons,
    (some_same_iff hsign).2 rfl]

/-- Something else than a sign comes next. -/
theorem runFrom_comesNext_of_ne (hsign : token.isNumber = false)
    (h : cursor.Faces tokens last rest) (hne : ¬rest.head? = some token)
    (next : Bool → Walk Reason α) :
    (comesNext tokens token >>= next).runFrom cursor = (next false).runFrom cursor := by
  have hother : (rest.head? == some token) = false :=
    Bool.eq_false_iff.2 (mt (some_same_iff hsign).1 hne)
  rw [comesNext, bind_assoc, runFrom_peek_bind, h.peek, pure_bind, hother]

theorem runFrom_eat (hsign : token.isNumber = false)
    (h : cursor.Faces tokens last (token :: behind)) (next : Bool → Walk Reason α) :
    (eat tokens token >>= next).runFrom cursor =
      (next true).runFrom (cursor.movedTo (cursor.place + 1)) := by
  rw [eat, bind_assoc, runFrom_comesNext hsign h]
  rfl

theorem runFrom_eat_of_ne (hsign : token.isNumber = false) (h : cursor.Faces tokens last rest)
    (hne : ¬rest.head? = some token) (next : Bool → Walk Reason α) :
    (eat tokens token >>= next).runFrom cursor = (next false).runFrom cursor := by
  rw [eat, bind_assoc, runFrom_comesNext_of_ne hsign h hne]
  rfl

theorem runFrom_walkToken (hsign : token.isNumber = false)
    (h : cursor.Faces tokens last (token :: behind)) (next : Unit → Walk Reason α) :
    (walkToken tokens token >>= next).runFrom cursor =
      (next ()).runFrom (cursor.movedTo (cursor.place + 1)) := by
  rw [walkToken, bind_assoc, runFrom_eat hsign h]
  rfl

theorem runFrom_walkToken_of_ne (hsign : token.isNumber = false)
    (h : cursor.Faces tokens last rest) (hne : ¬rest.head? = some token)
    (next : Unit → Walk Reason α) :
    (walkToken tokens token >>= next).runFrom cursor =
      some (.error (.fault (.expected token)), cursor) := by
  rw [walkToken, bind_assoc, runFrom_eat_of_ne hsign h hne]
  rfl

/-! ### Expressions and paths -/

section

variable {A : List Token → Prop}

/-- A walk over tokens halts for the reason for which a reading fails. -/
def Fails (reason : Reason) (why : Halt Reason) (_ : Cursor) : Prop :=
  why = .fault reason

/-- A run of a walk over tokens does what a reading does, if the walk may make enough calls. -/
abbrev Agrees (enough : Prop) (tokens : List Token) (last : Nat)
    (run : Option (Except (Halt Reason) α × Cursor))
    (reading : Except Reason (α × { rest : List Token // A rest })) : Prop :=
  Tracks enough (fun rest cursor => cursor.Faces tokens last rest) Fails run reading

theorem agrees_error {reason : Reason} :
    Agrees enough tokens last (some (.error (.fault reason), cursor))
      (.error reason : Except Reason (α × { rest : List Token // A rest })) :=
  tracks_error rfl rfl

theorem agrees_bind {γ : Type} {B : List Token → Prop} {walk : Walk Reason γ}
    {next : γ → Walk Reason α} {reading : Except Reason (γ × { rest : List Token // B rest })}
    {going : γ × { rest : List Token // B rest } →
      Except Reason (α × { rest : List Token // A rest })}
    (h : Agrees enough tokens last (walk.runFrom cursor) reading)
    (hnext : ∀ found more (hmore : B more) after, after.Faces tokens last more →
      Agrees enough tokens last ((next found).runFrom after) (going (found, ⟨more, hmore⟩))) :
    Agrees enough tokens last ((walk >>= next).runFrom cursor) (reading >>= going) :=
  tracks_bind h fun found ⟨more, hmore⟩ after hafter => hnext found more hmore after hafter

theorem agrees_settle {γ : Type} {result : Except Reason γ} {next : γ → Walk Reason α}
    {going : γ → Except Reason (α × { rest : List Token // A rest })}
    (h : ∀ found, Agrees enough tokens last ((next found).runFrom cursor) (going found)) :
    Agrees enough tokens last ((settle result >>= next).runFrom cursor) (result >>= going) := by
  cases result with
  | error reason => exact agrees_error
  | ok found =>
    rw [settle, pure_bind]
    exact h found

end

end

theorem agrees_walkAttribute (h : cursor.Faces tokens last rest) :
    Agrees enough tokens last ((walkAttribute tokens).runFrom cursor) (parseAttribute rest) := by
  rw [walkAttribute, runFrom_take h]
  cases rest with
  | nil => exact agrees_error
  | cons token behind =>
    by_cases hopen : behind.head? = some .openBracket
    · obtain ⟨more, rfl⟩ := List.head?_eq_some_iff.1 hopen
      cases token with
      | name | star =>
        dsimp only [List.head?_cons]
        rw [pure_bind, runFrom_comesNext rfl h.moved]
        exact agrees_error
      | _ => exact agrees_error
    · cases token with
      | name | star =>
        dsimp only [List.head?_cons]
        rw [pure_bind, runFrom_comesNext_of_ne rfl h.moved hopen, if_neg Bool.false_ne_true,
          parseAttribute]
        · exact tracks_pure h.moved
        · exact ne_cons_of_head? hopen
      | _ => exact agrees_error

/-- What is read of a call behind its opening parenthesis. -/
def readCall (name : String) (tokens : List Token) : Parsed Expr tokens :=
  match Function.ofName? name with
  | none => .error (.unsupportedFunction name)
  | some function =>
    match tokens with
    | .closeParen :: left => do
      let e ← callOf name function []
      pure (e, ⟨left, Nat.lt_succ_self _⟩)
    | tokens => do
      let (arguments, left) ← parseArguments tokens
      let e ← callOf name function arguments
      pure (e, left)

theorem parsePrimary_of_call {name : String} (hname : ¬(name = "text" ∨ name = "node"))
    (rest : List Token) :
    parsePrimary (.name name :: .openParen :: rest) =
      (readCall name rest).map fun (e, left) =>
        (e, ⟨left.val, Nat.lt_succ_of_lt (Nat.lt_succ_of_lt left.property)⟩) := by
  rw [parsePrimary, if_neg hname, readCall]
  cases Function.ofName? name with
  | none => rfl
  | some function =>
    by_cases hclose : rest.head? = some .closeParen
    · obtain ⟨left, rfl⟩ := List.head?_eq_some_iff.1 hclose
      dsimp only
      cases callOf name function [] <;> rfl
    · dsimp only
      split
      · exact absurd rfl hclose
      split
      · exact absurd rfl hclose
      · cases parseArguments rest with
        | error reason => rfl
        | ok found =>
          show (callOf name function found.1 >>= _) =
            Except.map _ (callOf name function found.1 >>= _)
          cases callOf name function found.1 <;> rfl

-- The induction is on the calls that may be made. The calls that take no token go from a call through
-- its arguments and the levels of operators down to a node test, and each is a step in this order: that
-- is what is added to thirteen calls for each token that is left.
mutual

theorem agrees_walkLevel : ∀ (calls level : Nat) {rest : List Token} {cursor : Cursor},
    cursor.Faces tokens last rest →
      Agrees (13 * rest.length + 6 + (4 - level) < calls) tokens last
        ((walkLevel tokens calls level).runFrom cursor) (parseLevel level rest)
  | 0, _, _, _, _ => tracks_unfinished (Nat.not_lt_zero _)
  | calls + 1, level, rest, cursor, h => by
    rw [walkLevel, parseLevel]
    by_cases hlevel : level < 4
    · rw [if_pos hlevel, if_pos hlevel]
      refine agrees_bind ((agrees_walkLevel calls (level + 1) h).imp fun hcalls => by omega)
        fun left more hmore after hafter => ?_
      rw [← bind_pure (walkOperators tokens calls level left)]
      exact agrees_bind ((agrees_walkOperators calls level left hafter).imp fun hcalls => by omega)
        fun e _ _ _ hafter => tracks_pure hafter
    · rw [if_neg hlevel, if_neg hlevel]
      exact (agrees_walkUnion calls h).imp fun hcalls => by omega

theorem agrees_walkOperators : ∀ (calls level : Nat) (left : Expr) {rest : List Token}
    {cursor : Cursor}, cursor.Faces tokens last rest →
      Agrees (13 * rest.length < calls) tokens last
        ((walkOperators tokens calls level left).runFrom cursor) (parseOperators level left rest)
  | 0, _, _, _, _, _ => tracks_unfinished (Nat.not_lt_zero _)
  | calls + 1, level, left, rest, cursor, h => by
    rw [walkOperators, runFrom_peek_bind, h.peek]
    cases rest with
    | nil =>
      rw [parseOperators]
      exact tracks_pure h
    | cons token behind =>
      have hlt : behind.length < (token :: behind).length := Nat.lt_succ_self _
      rw [parseOperators, List.head?_cons, Option.bind_some]
      cases operatorAt? level token with
      | none => exact tracks_pure h
      | some operator =>
        dsimp only
        rw [runFrom_move_bind]
        refine agrees_bind ((agrees_walkLevel calls (level + 1) h.moved).imp fun hcalls => by omega)
          fun right more hmore after hafter => ?_
        rw [← bind_pure (walkOperators tokens calls level _)]
        exact agrees_bind ((agrees_walkOperators calls level _ hafter).imp fun hcalls => by omega)
          fun e _ _ _ hafter => tracks_pure hafter

theorem agrees_walkUnion : ∀ (calls : Nat) {rest : List Token} {cursor : Cursor},
    cursor.Faces tokens last rest →
      Agrees (13 * rest.length + 5 < calls) tokens last
        ((walkUnion tokens calls).runFrom cursor) (parseUnion rest)
  | 0, _, _, _ => tracks_unfinished (Nat.not_lt_zero _)
  | calls + 1, rest, cursor, h => by
    rw [walkUnion, parseUnion]
    refine agrees_bind ((agrees_walkPrimary calls h).imp fun hcalls => by omega)
      fun first more hmore after hafter => ?_
    dsimp only
    by_cases hpipe : more.head? = some .pipe
    · obtain ⟨behind, rfl⟩ := List.head?_eq_some_iff.1 hpipe
      rw [runFrom_comesNext rfl hafter, if_pos rfl]
      refine agrees_settle fun path => ?_
      exact agrees_bind ((agrees_walkOperands calls hafter).imp fun hcalls => by omega)
        fun paths _ _ _ hafter => tracks_pure hafter
    · rw [runFrom_comesNext_of_ne rfl hafter hpipe, if_neg Bool.false_ne_true]
      split
      · exact absurd rfl hpipe
      · exact tracks_pure hafter

theorem agrees_walkOperands : ∀ (calls : Nat) {rest : List Token} {cursor : Cursor},
    cursor.Faces tokens last rest →
      Agrees (13 * rest.length < calls) tokens last
        ((walkOperands tokens calls).runFrom cursor) (parseOperands rest)
  | 0, _, _, _ => tracks_unfinished (Nat.not_lt_zero _)
  | calls + 1, rest, cursor, h => by
    rw [walkOperands]
    by_cases hpipe : rest.head? = some .pipe
    · obtain ⟨behind, rfl⟩ := List.head?_eq_some_iff.1 hpipe
      have hlt : behind.length < (Token.pipe :: behind).length := Nat.lt_succ_self _
      rw [runFrom_eat rfl h, if_pos rfl, parseOperands]
      refine agrees_bind ((agrees_walkPrimary calls h.moved).imp fun hcalls => by omega)
        fun operand more hmore after hafter => ?_
      refine agrees_settle fun path => ?_
      exact agrees_bind ((agrees_walkOperands calls hafter).imp fun hcalls => by omega)
        fun paths _ _ _ hafter => tracks_pure hafter
    · rw [runFrom_eat_of_ne rfl h hpipe, if_neg Bool.false_ne_true, parseOperands]
      · exact tracks_pure h
      · exact ne_cons_of_head? hpipe

theorem agrees_walkPrimary : ∀ (calls : Nat) {rest : List Token} {cursor : Cursor},
    cursor.Faces tokens last rest →
      Agrees (13 * rest.length + 4 < calls) tokens last
        ((walkPrimary tokens calls).runFrom cursor) (parsePrimary rest)
  | 0, _, _, _ => tracks_unfinished (Nat.not_lt_zero _)
  | calls + 1, rest, cursor, h => by
    have hpath : Agrees (13 * rest.length + 4 < calls + 1) tokens last
        ((walkPath tokens calls >>= fun path => pure (.path path)).runFrom cursor)
        (parsePath rest >>= fun (path, left) => pure (Expr.path path, left)) :=
      agrees_bind ((agrees_walkPath calls h).imp fun hcalls => by omega)
        fun path _ _ _ hafter => tracks_pure hafter
    rw [walkPrimary, runFrom_peek_bind, h.peek]
    cases rest with
    | nil =>
      rw [parsePrimary]
      · exact hpath
      all_goals nofun
    | cons token behind =>
      have hlt : behind.length < (token :: behind).length := Nat.lt_succ_self _
      cases token with
      | literal text =>
        rw [parsePrimary]
        exact tracks_pure h.moved
      | number value =>
        rw [parsePrimary]
        exact tracks_pure h.moved
      | openParen =>
        rw [parsePrimary]
        dsimp only [List.head?_cons]
        rw [runFrom_move_bind]
        refine agrees_bind ((agrees_walkLevel calls 0 h.moved).imp fun hcalls => by omega)
          fun e more hmore after hafter => ?_
        dsimp only
        by_cases hclose : more.head? = some .closeParen
        · obtain ⟨left, rfl⟩ := List.head?_eq_some_iff.1 hclose
          rw [runFrom_walkToken rfl hafter]
          exact tracks_pure hafter.moved
        · rw [runFrom_walkToken_of_ne rfl hafter hclose]
          split
          · exact absurd rfl hclose
          · exact agrees_error
      | name name =>
        dsimp only [List.head?_cons]
        rw [runFrom_here_bind, faces_second h]
        by_cases hopen : behind.head? = some .openParen
        · obtain ⟨inner, rfl⟩ := List.head?_eq_some_iff.1 hopen
          by_cases hname : name = "text" ∨ name = "node"
          · rw [if_neg fun hcall => (opensCall_iff.1 hcall).2 hname, parsePrimary, if_pos hname]
            exact hpath
          · have hinner : inner.length < (Token.name name :: .openParen :: inner).length :=
              Nat.lt_of_succ_lt hlt
            have hmoved : (cursor.movedTo (cursor.place + 2)).Faces tokens last inner :=
              Cursor.Faces.movedTo [_, _] h
            have hcall : ((Token.name name :: .openParen :: inner)[1]? == some .openParen &&
                !(name == "text" || name == "node")) = true := opensCall_iff.2 ⟨rfl, hname⟩
            rw [if_pos hcall, runFrom_move_bind, parsePrimary_of_call hname]
            exact tracks_map ((agrees_walkCall calls name hmoved).imp fun hcalls => by omega)
              fun found => ⟨rfl, rfl⟩
        · have hsecond : ¬(Token.name name :: behind)[1]? = some .openParen := by
            rwa [List.getElem?_cons_succ, ← List.head?_eq_getElem?]
          rw [if_neg fun hcall => hsecond (opensCall_iff.1 hcall).1, parsePrimary]
          · exact hpath
          · nofun
          · nofun
          · nofun
          · exact ne_name_cons hopen
      | _ =>
        rw [parsePrimary]
        · exact hpath
        all_goals nofun

theorem agrees_walkCall : ∀ (calls : Nat) (name : String) {rest : List Token} {cursor : Cursor},
    cursor.Faces tokens last rest →
      Agrees (13 * rest.length + 12 < calls) tokens last
        ((walkCall tokens calls name).runFrom cursor) (readCall name rest)
  | 0, _, _, _, _ => tracks_unfinished (Nat.not_lt_zero _)
  | calls + 1, name, rest, cursor, h => by
    rw [walkCall, readCall]
    cases Function.ofName? name with
    | none => exact agrees_error
    | some function =>
      dsimp only
      by_cases hclose : rest.head? = some .closeParen
      · obtain ⟨left, rfl⟩ := List.head?_eq_some_iff.1 hclose
        rw [runFrom_eat rfl h, if_pos rfl]
        dsimp only
        rw [← bind_pure (settle _)]
        exact agrees_settle fun e => tracks_pure h.moved
      · rw [runFrom_eat_of_ne rfl h hclose, if_neg Bool.false_ne_true]
        split
        · exact absurd rfl hclose
        · refine agrees_bind ((agrees_walkArguments calls h).imp fun hcalls => by omega)
            fun arguments _ _ _ hafter => ?_
          rw [← bind_pure (settle _)]
          exact agrees_settle fun e => tracks_pure hafter

theorem agrees_walkArguments : ∀ (calls : Nat) {rest : List Token} {cursor : Cursor},
    cursor.Faces tokens last rest →
      Agrees (13 * rest.length + 11 < calls) tokens last
        ((walkArguments tokens calls).runFrom cursor) (parseArguments rest)
  | 0, _, _, _ => tracks_unfinished (Nat.not_lt_zero _)
  | calls + 1, rest, cursor, h => by
    rw [walkArguments, parseArguments]
    refine agrees_bind ((agrees_walkLevel calls 0 h).imp fun hcalls => by omega)
      fun e more hmore after hafter => ?_
    dsimp only
    by_cases hclose : more.head? = some .closeParen
    · obtain ⟨left, rfl⟩ := List.head?_eq_some_iff.1 hclose
      rw [runFrom_eat rfl hafter, if_pos rfl]
      exact tracks_pure hafter.moved
    rw [runFrom_eat_of_ne rfl hafter hclose, if_neg Bool.false_ne_true]
    by_cases hcomma : more.head? = some .comma
    · obtain ⟨others, rfl⟩ := List.head?_eq_some_iff.1 hcomma
      have hothers : others.length < rest.length := Nat.lt_of_succ_lt hmore
      rw [runFrom_walkToken rfl hafter]
      exact agrees_bind ((agrees_walkArguments calls hafter.moved).imp fun hcalls => by omega)
        fun arguments _ _ _ hafter => tracks_pure hafter
    · rw [runFrom_walkToken_of_ne rfl hafter hcomma]
      split
      · exact absurd rfl hclose
      · exact absurd rfl hcomma
      · exact agrees_error

theorem agrees_walkPath : ∀ (calls : Nat) {rest : List Token} {cursor : Cursor},
    cursor.Faces tokens last rest →
      Agrees (13 * rest.length + 3 < calls) tokens last
        ((walkPath tokens calls).runFrom cursor) (parsePath rest)
  | 0, _, _, _ => tracks_unfinished (Nat.not_lt_zero _)
  | calls + 1, rest, cursor, h => by
    have hsteps : Agrees (13 * rest.length + 3 < calls + 1) tokens last
        ((walkSteps tokens calls false []).runFrom cursor) (parseSteps false [] rest) :=
      (agrees_walkSteps calls false [] h).imp fun hcalls => by omega
    rw [walkPath, runFrom_peek_bind, h.peek]
    cases rest with
    | nil =>
      rw [parsePath]
      · exact agrees_error
      all_goals nofun
    | cons token behind =>
      have hlt : behind.length < (token :: behind).length := Nat.lt_succ_self _
      cases token with
      | slash =>
        rw [parsePath]
        dsimp only [List.head?_cons]
        rw [runFrom_move_bind, runFrom_peek_bind, h.moved.peek, startsStep_head?]
        by_cases hstart : startsStep behind = true
        · rw [if_pos hstart, if_pos hstart, ← bind_pure (walkSteps tokens calls true [])]
          exact agrees_bind ((agrees_walkSteps calls true [] h.moved).imp fun hcalls => by omega)
            fun path _ _ _ hafter => tracks_pure hafter
        · rw [if_neg hstart, if_neg hstart]
          exact tracks_pure h.moved
      | doubleSlash =>
        rw [parsePath]
        dsimp only [List.head?_cons]
        rw [runFrom_move_bind, ← bind_pure (walkSteps tokens calls true _)]
        exact agrees_bind ((agrees_walkSteps calls true _ h.moved).imp fun hcalls => by omega)
          fun path _ _ _ hafter => tracks_pure hafter
      | name | star | «at» | dot | doubleDot =>
        rw [parsePath]
        · exact hsteps
        all_goals nofun
      | _ =>
        rw [parsePath]
        · exact agrees_error
        all_goals nofun

theorem agrees_walkSteps : ∀ (calls : Nat) (absolute : Bool) (steps : List Step)
    {rest : List Token} {cursor : Cursor}, cursor.Faces tokens last rest →
      Agrees (13 * rest.length + 2 < calls) tokens last
        ((walkSteps tokens calls absolute steps).runFrom cursor) (parseSteps absolute steps rest)
  | 0, _, _, _, _, _ => tracks_unfinished (Nat.not_lt_zero _)
  | calls + 1, absolute, steps, rest, cursor, h => by
    rw [walkSteps, parseSteps]
    refine agrees_bind ((agrees_walkStep calls h).imp fun hcalls => by omega)
      fun piece more hmore after hafter => ?_
    cases piece with
    | value value =>
      dsimp only
      rw [runFrom_peek_bind, hafter.peek]
      cases more with
      | nil => exact tracks_pure hafter
      | cons token behind =>
        cases token with
        | slash | doubleSlash => exact agrees_error
        | _ => exact tracks_pure hafter
    | step step =>
      dsimp only
      rw [runFrom_peek_bind, hafter.peek]
      cases more with
      | nil => exact tracks_pure hafter
      | cons token behind =>
        have hbehind : behind.length < rest.length := Nat.lt_of_succ_lt hmore
        cases token with
        | slash | doubleSlash =>
          dsimp only [List.head?_cons]
          rw [runFrom_move_bind, ← bind_pure (walkSteps tokens calls absolute _)]
          exact agrees_bind
            ((agrees_walkSteps calls absolute _ hafter.moved).imp fun hcalls => by omega)
            fun path _ _ _ hafter => tracks_pure hafter
        | _ => exact tracks_pure hafter

theorem agrees_walkStep : ∀ (calls : Nat) {rest : List Token} {cursor : Cursor},
    cursor.Faces tokens last rest →
      Agrees (13 * rest.length + 1 < calls) tokens last
        ((walkStep tokens calls).runFrom cursor) (parseStep rest)
  | 0, _, _, _ => tracks_unfinished (Nat.not_lt_zero _)
  | calls + 1, rest, cursor, h => by
    have hchild : ∀ {back : Cursor}, back.Faces tokens last rest →
        Agrees (13 * rest.length + 1 < calls + 1) tokens last
          ((walkNodeTest tokens calls .child).runFrom back) (parseNodeTest .child rest) :=
      fun hback => (agrees_walkNodeTest calls .child hback).imp fun hcalls => by omega
    rw [walkStep, runFrom_take h]
    cases rest with
    | nil =>
      rw [parseStep]
      exact agrees_error
    | cons token behind =>
      have hlt : behind.length < (token :: behind).length := Nat.lt_succ_self _
      cases token with
      | dot | doubleDot =>
        rw [parseStep]
        exact tracks_pure h.moved
      | «at» =>
        rw [parseStep]
        dsimp only [List.head?_cons]
        rw [← bind_pure (walkAttribute tokens)]
        exact agrees_bind (agrees_walkAttribute h.moved) fun piece _ _ _ hafter =>
          tracks_pure hafter
      | name name =>
        dsimp only [List.head?_cons]
        by_cases hcolon : behind.head? = some .doubleColon
        · obtain ⟨more, rfl⟩ := List.head?_eq_some_iff.1 hcolon
          rw [runFrom_comesNext rfl h.moved, if_pos rfl, runFrom_move_bind, parseStep]
          by_cases hname : name = "attribute"
          · rw [if_pos hname, if_pos hname, ← bind_pure (walkAttribute tokens)]
            exact agrees_bind (agrees_walkAttribute h.moved.moved) fun piece _ _ _ hafter =>
              tracks_pure hafter
          · rw [if_neg hname, if_neg hname]
            cases axisOfName? name with
            | none => exact agrees_error
            | some axis =>
              have hmore : more.length < (Token.name name :: .doubleColon :: more).length :=
                Nat.lt_of_succ_lt hlt
              have htest := agrees_walkNodeTest calls axis h.moved.moved
              dsimp only
              rw [← bind_pure (walkNodeTest tokens calls axis)]
              exact agrees_bind (htest.imp fun hcalls => by omega) fun piece _ _ _ hafter =>
                tracks_pure hafter
        · rw [runFrom_comesNext_of_ne rfl h.moved hcolon, if_neg Bool.false_ne_true,
            runFrom_putBack, parseStep]
          · exact hchild ⟨h.ahead, h.last_eq⟩
          · nofun
          · nofun
          · nofun
          · exact ne_name_cons hcolon
          · nofun
      | _ =>
        dsimp only [List.head?_cons]
        rw [runFrom_putBack, parseStep]
        · exact hchild ⟨h.ahead, h.last_eq⟩
        all_goals nofun

theorem agrees_walkNodeTest : ∀ (calls : Nat) (axis : Axis) {rest : List Token} {cursor : Cursor},
    cursor.Faces tokens last rest →
      Agrees (13 * rest.length < calls) tokens last
        ((walkNodeTest tokens calls axis).runFrom cursor) (parseNodeTest axis rest)
  | 0, _, _, _, _ => tracks_unfinished (Nat.not_lt_zero _)
  | calls + 1, axis, rest, cursor, h => by
    rw [walkNodeTest, runFrom_take h]
    cases rest with
    | nil =>
      rw [parseNodeTest]
      · exact agrees_error
      all_goals nofun
    | cons token behind =>
      have hlt : behind.length < (token :: behind).length := Nat.lt_succ_self _
      cases token with
      | star =>
        rw [parseNodeTest]
        exact agrees_bind ((agrees_walkPredicates calls h.moved).imp fun hcalls => by omega)
          fun predicates _ _ _ hafter => tracks_pure hafter
      | name name =>
        dsimp only [List.head?_cons]
        by_cases hopen : behind.head? = some .openParen
        · obtain ⟨inner, rfl⟩ := List.head?_eq_some_iff.1 hopen
          have hmoved := h.moved.moved
          rw [runFrom_comesNext rfl h.moved, if_pos rfl, runFrom_move_bind]
          by_cases hclose : inner.head? = some .closeParen
          · obtain ⟨more, rfl⟩ := List.head?_eq_some_iff.1 hclose
            have hmore : more.length < (Token.name name :: .openParen :: .closeParen :: more).length :=
              Nat.lt_of_succ_lt (Nat.lt_of_succ_lt hlt)
            rw [runFrom_walkToken rfl hmoved, parseNodeTest.eq_def]
            dsimp only
            by_cases hnode : name = "node"
            · rw [if_pos hnode, if_pos hnode]
              exact agrees_bind
                ((agrees_walkPredicates calls hmoved.moved).imp fun hcalls => by omega)
                fun predicates _ _ _ hafter => tracks_pure hafter
            rw [if_neg hnode, if_neg hnode]
            by_cases htext : name = "text" ∧ axis = .child
            · rw [if_pos htext, if_pos htext]
              by_cases hbracket : more.head? = some .openBracket
              · obtain ⟨others, rfl⟩ := List.head?_eq_some_iff.1 hbracket
                rw [runFrom_comesNext rfl hmoved.moved]
                exact agrees_error
              · rw [runFrom_comesNext_of_ne rfl hmoved.moved hbracket, if_neg Bool.false_ne_true]
                split
                · exact absurd rfl hbracket
                · exact tracks_pure hmoved.moved
            · rw [if_neg htext, if_neg htext]
              exact agrees_error
          · rw [runFrom_walkToken_of_ne rfl hmoved hclose, parseNodeTest]
            · exact agrees_error
            · exact ne_cons_of_head? hclose
        · rw [runFrom_comesNext_of_ne rfl h.moved hopen, if_neg Bool.false_ne_true, parseNodeTest]
          · exact agrees_bind ((agrees_walkPredicates calls h.moved).imp fun hcalls => by omega)
              fun predicates _ _ _ hafter => tracks_pure hafter
          · exact ne_cons_of_head? hopen
      | _ =>
        rw [parseNodeTest]
        · exact agrees_error
        all_goals nofun

theorem agrees_walkPredicates : ∀ (calls : Nat) {rest : List Token} {cursor : Cursor},
    cursor.Faces tokens last rest →
      Agrees (13 * rest.length < calls) tokens last
        ((walkPredicates tokens calls).runFrom cursor) (parsePredicates rest)
  | 0, _, _, _ => tracks_unfinished (Nat.not_lt_zero _)
  | calls + 1, rest, cursor, h => by
    rw [walkPredicates]
    by_cases hopen : rest.head? = some .openBracket
    · obtain ⟨behind, rfl⟩ := List.head?_eq_some_iff.1 hopen
      have hlt : behind.length < (Token.openBracket :: behind).length := Nat.lt_succ_self _
      rw [runFrom_eat rfl h, if_pos rfl, parsePredicates]
      refine agrees_bind ((agrees_walkLevel calls 0 h.moved).imp fun hcalls => by omega)
        fun e more hmore after hafter => ?_
      dsimp only
      by_cases hclose : more.head? = some .closeBracket
      · obtain ⟨others, rfl⟩ := List.head?_eq_some_iff.1 hclose
        have hothers : others.length < behind.length := Nat.lt_of_succ_lt hmore
        rw [runFrom_walkToken rfl hafter]
        exact agrees_bind ((agrees_walkPredicates calls hafter.moved).imp fun hcalls => by omega)
          fun predicates _ _ _ hafter => tracks_pure hafter
      · rw [runFrom_walkToken_of_ne rfl hafter hclose]
        split
        · exact absurd rfl hclose
        · exact agrees_error
    · rw [runFrom_eat_of_ne rfl h hopen, if_neg Bool.false_ne_true, parsePredicates]
      · exact tracks_pure h
      · exact ne_cons_of_head? hopen

end

/-! ### The whole walk -/

/-- A walk that does from everywhere what a reading does that takes something goes on. -/
theorem advances_of_agrees {α : Type} {walk : Walk Reason α} {enough : List Token → Prop}
    {reading : (rest : List Token) → Parsed α rest}
    (h : ∀ {last : Nat} {rest : List Token} {cursor : Cursor}, cursor.Faces tokens last rest →
      Agrees (enough rest) tokens last (walk.runFrom cursor) (reading rest)) (before : Cursor) :
    Advances tokens walk before := by
  have hfaces : before.Faces tokens (before.place + (tokens.drop before.place).length)
    (tokens.drop before.place) := ⟨rfl, rfl⟩
  exact (h hfaces).advances hfaces fun _ _ hafter => hafter

/-- The walk over tokens ends with the calls that it may make, whatever the tokens are, and the cursor
is never put back where there is no token. The walk finds the expression that is read, and then the
cursor stands behind the last token; or it halts for the reason for which the reading fails. However
many calls may be made and wherever the cursor stands, each part of an expression that is walked over
leads the cursor on, and not beyond the last token. -/
theorem walkExpr_progresses (tokens : List Token) :
    (∃ outcome after, (walkExpr tokens).runFrom .start = some (outcome, after) ∧
      match parseExpr tokens with
      | .ok e => outcome = .ok e ∧ after.place = tokens.length
      | .error reason => outcome = .error (.fault reason)) ∧
    ∀ (calls : Nat) (before : Cursor),
      (∀ level, Advances tokens (walkLevel tokens calls level) before) ∧
      Advances tokens (walkUnion tokens calls) before ∧
      Advances tokens (walkPrimary tokens calls) before ∧
      (∀ name, Advances tokens (walkCall tokens calls name) before) ∧
      Advances tokens (walkPath tokens calls) before ∧
      Advances tokens (walkStep tokens calls) before ∧
      Advances tokens (walkAttribute tokens) before ∧
      ∀ axis, Advances tokens (walkNodeTest tokens calls axis) before := by
  refine ⟨?_, fun calls before => ?_⟩
  · have hstart : Cursor.start.Faces tokens tokens.length tokens := ⟨rfl, Nat.zero_add _⟩
    have h := agrees_walkLevel (callsFor tokens) 0 hstart
    have hcalls : 13 * tokens.length + 6 + (4 - 0) < callsFor tokens := by
      rw [callsFor]
      omega
    rw [walkExpr, parseExpr]
    cases hread : parseLevel 0 tokens with
    | error reason =>
      rw [hread] at h
      obtain ⟨_, after, hrun, rfl⟩ := h.of_error hcalls
      exact ⟨_, after, runFrom_bind_of_error hrun, rfl⟩
    | ok found =>
      rw [hread] at h
      obtain ⟨e, rest, _⟩ := found
      obtain ⟨after, hrun, hafter⟩ := h.of_ok hcalls
      rw [runFrom_bind_of_ok hrun, runFrom_peek_bind, hafter.peek]
      cases rest with
      | nil => exact ⟨_, after, rfl, rfl, hafter.last_eq⟩
      | cons token behind => exact ⟨_, after, rfl, rfl⟩
  · have hattribute : ∀ {last : Nat} {rest : List Token} {cursor : Cursor},
        cursor.Faces tokens last rest →
          Agrees True tokens last ((walkAttribute tokens).runFrom cursor) (parseAttribute rest) :=
      agrees_walkAttribute
    exact ⟨fun level => advances_of_agrees (agrees_walkLevel calls level) before,
      advances_of_agrees (agrees_walkUnion calls) before,
      advances_of_agrees (agrees_walkPrimary calls) before,
      fun name => advances_of_agrees (agrees_walkCall calls name) before,
      advances_of_agrees (agrees_walkPath calls) before,
      advances_of_agrees (agrees_walkStep calls) before,
      advances_of_agrees hattribute before,
      fun axis => advances_of_agrees (agrees_walkNodeTest calls axis) before⟩

theorem walkExpr_progresses_attribute :
    (∃ after, (walkExpr [.at, .name "a"]).runFrom .start =
      some (.ok (.path (attributePath "a")), after) ∧ after.place = 2) ∧
    ∃ after, (walkPrimary [.at, .name "a"] (callsFor [.at, .name "a"])).runFrom .start =
      some (.ok (.path (attributePath "a")), after) ∧ 0 < after.place ∧ after.place ≤ 2 := by
  have hprimary : Reads (parsePrimary [.at, .name "a"]) (.path (attributePath "a")) [] :=
    parsePrimary_attribute "a" nofun
  obtain ⟨⟨outcome, after, hrun, hread⟩, hadvances⟩ := walkExpr_progresses [.at, .name "a"]
  refine ⟨⟨after, ?_⟩, ?_⟩
  · rw [parseExpr_of_primary hprimary] at hread
    obtain ⟨rfl, hplace⟩ := hread
    exact ⟨hrun, hplace⟩
  · obtain ⟨_, hread⟩ := hprimary
    have hstart : Cursor.start.Faces [Token.at, .name "a"] 2 [Token.at, .name "a"] := ⟨rfl, rfl⟩
    have hagrees := agrees_walkPrimary (callsFor [.at, .name "a"]) hstart
    rw [hread] at hagrees
    obtain ⟨found, hfound, -⟩ := hagrees.of_ok (by decide)
    exact ⟨found, hfound, (hadvances _ .start).2.2.1 found _ hfound⟩

end Gleaner.Query
