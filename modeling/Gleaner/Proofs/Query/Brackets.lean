/-
# Brackets and values in the tokens of a query

Whatever is read from tokens has its brackets in pairs, and is read as going to elements only if no
step that reads values stands outside of them: at the front, or behind a slash. Each reader takes
such tokens for the parts that it calls for, and puts between them what changes neither.

Key definitions: `depth?`, `Balanced`, `Exposed`, `HoldsValue`, `Takes`, `Tells`.
Key theorems: `outside_append`, `takes_parseLevel`, `tells_of_parseExpr`, `tells_of_readExpr`.
-/
import Gleaner.Proofs.Query.Reading
import Gleaner.Query.Basic

namespace Gleaner.Query

open Gleaner.Text Gleaner.Markup

/-! ### Depth -/

/-- How many brackets are open behind the tokens where `n` are open before them; none, if one is
closed that is not open. -/
def depth? : Nat → List Token → Option Nat
  | n, [] => some n
  | n, .openBracket :: rest => depth? (n + 1) rest
  | 0, .closeBracket :: _ => none
  | n + 1, .closeBracket :: rest => depth? n rest
  | n, _ :: rest => depth? n rest

def Token.isBracket : Token → Bool
  | .openBracket | .closeBracket => true
  | _ => false

variable {n m : Nat} {t s : Token} {u w : List Token}

theorem depth?_cons (h : t.isBracket = false) (n : Nat) (u : List Token) :
    depth? n (t :: u) = depth? n u := by
  cases t <;> first | (cases n <;> rfl) | cases h

theorem depth?_append (n : Nat) (u w : List Token) :
    depth? n (u ++ w) = (depth? n u).bind (depth? · w) := by
  fun_induction depth? n u <;> simp_all [depth?]

theorem depth?_succ (h : depth? n u = some m) : depth? (n + 1) u = some (m + 1) := by
  induction u generalizing n with
  | nil => simpa [depth?] using h
  | cons t u ih =>
    cases ht : t.isBracket with
    | false =>
      rw [depth?_cons ht] at h ⊢
      exact ih h
    | true =>
      cases t <;> cases ht
      · exact ih h
      · cases n with
        | zero => cases h
        | succ n => exact ih h

/-- Each bracket of the tokens has its own. -/
def Balanced (u : List Token) : Prop :=
  depth? 0 u = some 0

theorem Balanced.depth? (h : Balanced u) : ∀ n, Query.depth? n u = some n
  | 0 => h
  | n + 1 => depth?_succ (h.depth? n)

theorem Balanced.nil : Balanced [] :=
  rfl

theorem Balanced.append (hu : Balanced u) (hw : Balanced w) : Balanced (u ++ w) := by
  unfold Balanced at hu
  rw [Balanced, depth?_append, hu]
  exact hw

theorem Balanced.cons (ht : t.isBracket = false) (h : Balanced u) : Balanced (t :: u) :=
  (depth?_cons ht 0 u).trans h

theorem Balanced.group (hu : Balanced u) (hw : Balanced w) :
    Balanced (.openBracket :: (u ++ .closeBracket :: w)) := by
  rw [Balanced, Query.depth?, depth?_append, hu.depth? 1]
  exact hw

/-- A token outside of the brackets of a row stands in the first part of it or in the rest. -/
theorem outside_append {before after : List Token} (hu : Balanced u) (hbefore : Balanced before)
    (heq : u ++ w = before ++ t :: after) :
    (∃ more, u = before ++ t :: more ∧ after = more ++ w) ∨
      ∃ more, w = more ++ t :: after ∧ Balanced more := by
  rcases List.append_eq_append_iff.1 heq with ⟨more, rfl, hmore⟩ | ⟨more, rfl, hmore⟩
  · rw [Balanced, depth?_append, hu] at hbefore
    exact .inr ⟨more, hmore, hbefore⟩
  · cases more with
    | nil => exact .inr ⟨[], hmore.symm, .nil⟩
    | cons b more =>
      obtain ⟨rfl, rfl⟩ := List.cons.inj hmore
      exact .inl ⟨more, rfl, rfl⟩

/-- What stands between brackets is not outside of them. -/
theorem outside_group {before after : List Token} (hu : Balanced u) (hbefore : Balanced before)
    (ht : t.isBracket = false)
    (heq : .openBracket :: (u ++ .closeBracket :: w) = before ++ t :: after) :
    ∃ more, w = more ++ t :: after ∧ Balanced more := by
  cases before with
  | nil =>
    obtain ⟨rfl, -⟩ := List.cons.inj heq
    cases ht
  | cons b before =>
    obtain ⟨rfl, hrest⟩ := List.cons.inj heq
    rw [Balanced, depth?] at hbefore
    rcases List.append_eq_append_iff.1 hrest with ⟨more, rfl, hmore⟩ | ⟨more, rfl, -⟩
    · rw [depth?_append, hu.depth? 1] at hbefore
      cases more with
      | nil =>
        obtain ⟨rfl, -⟩ := List.cons.inj hmore
        cases ht
      | cons b more =>
        obtain ⟨rfl, rfl⟩ := List.cons.inj hmore
        exact ⟨more, rfl, hbefore⟩
    · -- Behind a part of what stands between the brackets, the first of them is still open.
      rw [Balanced, depth?_append] at hu
      cases hdepth : depth? 0 before with
      | none =>
        rw [hdepth] at hu
        cases hu
      | some k =>
        rw [depth?_succ hdepth] at hbefore
        cases hbefore

theorem balanced_of_forall (h : ∀ t ∈ u, t.isBracket = false) : Balanced u := by
  induction u with
  | nil => exact .nil
  | cons t u ih =>
    rw [List.forall_mem_cons] at h
    exact (ih h.2).cons h.1

/-! ### Steps that read values -/

def Token.isSlash : Token → Bool
  | .slash | .doubleSlash => true
  | _ => false

/-- A token with another behind it, or none, begins a step that reads values. -/
def beginsValue : Token → Option Token → Bool
  | .at, _ | .name "attribute", some .doubleColon | .name "text", some .openParen => true
  | _, _ => false

/-- The tokens begin as a step that reads values does. -/
def startsValue : List Token → Bool
  | [] => false
  | t :: rest => beginsValue t rest.head?

/-- A step that reads values stands behind a slash outside of brackets. -/
def Exposed (u : List Token) : Prop :=
  ∃ before sep after, u = before ++ sep :: after ∧ sep.isSlash = true ∧
    depth? 0 before = some 0 ∧ startsValue after = true

/-- A step that reads values stands at the front or behind a slash, outside of brackets. -/
def HoldsValue (u : List Token) : Prop :=
  startsValue u = true ∨ Exposed u

/-- A token that ends a step, or begins a condition of it. -/
def Token.isApart : Token → Bool
  | .slash | .doubleSlash | .pipe | .closeParen | .openBracket => true
  | _ => false

/-- The tokens do not go on with the beginning of a step. -/
def Apart (u : List Token) : Prop :=
  ∀ t ∈ u.head?, t.isApart = true

theorem beginsValue_apart {next : Option Token} (hnext : ∀ s ∈ next, s.isApart = true)
    (h : beginsValue t next = true) : beginsValue t none = true := by
  unfold beginsValue at h
  split at h
  · rfl
  · cases hnext _ rfl
  · cases hnext _ rfl
  · cases h

theorem startsValue_append (hw : Apart w) (h : startsValue (u ++ w) = true) :
    startsValue u = true := by
  cases u with
  | nil =>
    cases w with
    | nil => exact h
    | cons t w =>
      have ht : t.isApart = true := hw t rfl
      cases t <;> cases ht <;> cases h
  | cons t u =>
    cases u with
    | nil => exact beginsValue_apart hw h
    | cons s u => exact h

theorem not_exposed_nil : ¬Exposed [] := by
  rintro ⟨before, sep, after, heq, -⟩
  simp at heq

theorem exposed_cons (ht : t.isBracket = false) (h : Exposed (t :: u)) :
    t.isSlash = true ∧ startsValue u = true ∨ Exposed u := by
  obtain ⟨before, sep, after, heq, hsep, hdepth, hvalue⟩ := h
  cases before with
  | nil =>
    obtain ⟨rfl, rfl⟩ := List.cons.inj heq
    exact .inl ⟨hsep, hvalue⟩
  | cons b before =>
    obtain ⟨rfl, rfl⟩ := List.cons.inj heq
    rw [depth?_cons ht] at hdepth
    exact .inr ⟨before, sep, after, rfl, hsep, hdepth, hvalue⟩

/-- A token that is no bracket and no slash exposes nothing. -/
theorem not_exposed_cons (ht : t.isBracket = false) (hs : t.isSlash = false) (h : ¬Exposed u) :
    ¬Exposed (t :: u) := by
  intro hexposed
  rcases exposed_cons ht hexposed with ⟨hslash, -⟩ | hexposed
  · exact Bool.false_ne_true (hs.symm.trans hslash)
  · exact h hexposed

theorem exposed_append (hu : Balanced u) (hw : Apart w) (h : Exposed (u ++ w)) :
    Exposed u ∨ Exposed w := by
  obtain ⟨before, sep, after, heq, hsep, hdepth, hvalue⟩ := h
  rcases outside_append hu hdepth heq with ⟨more, rfl, rfl⟩ | ⟨more, rfl, hmore⟩
  · exact .inl ⟨before, sep, more, rfl, hsep, hdepth, startsValue_append hw hvalue⟩
  · exact .inr ⟨more, sep, after, rfl, hsep, hmore, hvalue⟩

theorem not_isBracket_of_isSlash (h : t.isSlash = true) : t.isBracket = false := by
  cases t <;> first | rfl | cases h

theorem exposed_group (hu : Balanced u) (h : Exposed (.openBracket :: (u ++ .closeBracket :: w))) :
    Exposed w := by
  obtain ⟨before, sep, after, heq, hsep, hdepth, hvalue⟩ := h
  obtain ⟨more, rfl, hmore⟩ := outside_group hu hdepth (not_isBracket_of_isSlash hsep) heq
  exact ⟨more, sep, after, rfl, hsep, hmore, hvalue⟩

/-! ### What a reading takes -/

/-- The tokens are balanced, and if they are read as going to elements, they hold no value. -/
structure Tells (selects : Prop) (u : List Token) : Prop where
  balanced : Balanced u
  noValue : selects → ¬HoldsValue u

theorem Tells.of_balanced {selects : Prop} (hnot : ¬selects) (h : Balanced u) : Tells selects u :=
  ⟨h, fun hselects => absurd hselects hnot⟩

theorem Tells.nil (selects : Prop) : Tells selects [] := by
  refine ⟨.nil, fun _ h => ?_⟩
  rcases h with h | h
  · cases h
  · exact not_exposed_nil h

/-- Behind a step, a slash and what holds no value go on holding none. -/
theorem Tells.slash {selects : Prop} (hs : s.isSlash = true) (hu : Tells True u)
    (hw : Tells selects w) : Tells selects (u ++ s :: w) := by
  have hbracket : s.isBracket = false := not_isBracket_of_isSlash hs
  have hapart : Apart (s :: w) := by
    rintro _ ⟨⟩
    cases s <;> first | rfl | cases hs
  refine ⟨hu.balanced.append (hw.balanced.cons hbracket), fun hselects h => ?_⟩
  have hnoValue := hu.noValue trivial
  rcases h with h | h
  · exact hnoValue (.inl (startsValue_append hapart h))
  · rcases exposed_append hu.balanced hapart h with h | h
    · exact hnoValue (.inr h)
    · rcases exposed_cons hbracket h with ⟨-, h⟩ | h
      · exact hw.noValue hselects (.inl h)
      · exact hw.noValue hselects (.inr h)

/-- A slash alone in front. -/
theorem Tells.lead {selects : Prop} (hs : s.isSlash = true) (hw : Tells selects w) :
    Tells selects (s :: w) :=
  (Tells.nil True).slash hs hw

theorem Tells.parens {selects : Prop} (hu : Tells selects u) :
    Tells selects (.openParen :: (u ++ [.closeParen])) := by
  have hapart : Apart [.closeParen] := by
    rintro _ ⟨⟩
    rfl
  refine ⟨(hu.balanced.append (Balanced.nil.cons rfl)).cons rfl, fun hselects h => ?_⟩
  rcases h with h | h
  · cases h
  · refine not_exposed_cons rfl rfl (fun h => ?_) h
    rcases exposed_append hu.balanced hapart h with h | h
    · exact hu.noValue hselects (.inr h)
    · exact not_exposed_cons rfl rfl not_exposed_nil h

/-- Conditions between brackets: they hide what they hold. -/
structure Grouped (u : List Token) : Prop where
  balanced : Balanced u
  notExposed : ¬Exposed u
  head : ∀ t ∈ u.head?, t = .openBracket

theorem Grouped.nil : Grouped [] :=
  ⟨.nil, not_exposed_nil, by simp⟩

theorem Grouped.group (hu : Balanced u) (hw : Grouped w) :
    Grouped (.openBracket :: (u ++ .closeBracket :: w)) := by
  refine ⟨hu.group hw.balanced, fun h => hw.notExposed (exposed_group hu h), ?_⟩
  rintro _ ⟨⟩
  rfl

/-- Operands of a union, each behind a bar, of which none holds a value outside of brackets. -/
structure Barred (u : List Token) : Prop where
  balanced : Balanced u
  notExposed : ¬Exposed u
  apart : Apart u

theorem Barred.nil : Barred [] :=
  ⟨.nil, not_exposed_nil, by simp [Apart]⟩

theorem Barred.not_exposed_append (hw : Barred w) (hu : Balanced u) (hnot : ¬HoldsValue u) :
    ¬Exposed (u ++ w) := by
  intro h
  rcases exposed_append hu hw.apart h with h | h
  · exact hnot (.inr h)
  · exact hw.notExposed h

theorem Barred.operand (hw : Barred w) (hu : Balanced u) (hnot : ¬HoldsValue u) :
    Barred (.pipe :: (u ++ w)) := by
  refine ⟨(hu.append hw.balanced).cons rfl, ?_, ?_⟩
  · exact not_exposed_cons rfl rfl (hw.not_exposed_append hu hnot)
  · rintro _ ⟨⟩
    rfl

/-- A sign or a name holds no value with what follows it unless the two begin one. -/
theorem Tells.cons {selects : Prop} (ht : t.isBracket = false) (hs : t.isSlash = false)
    (hbegins : startsValue (t :: u) = false) (hu : Balanced u) (hnot : selects → ¬Exposed u) :
    Tells selects (t :: u) := by
  refine ⟨hu.cons ht, fun hselects h => ?_⟩
  rcases h with h | h
  · exact Bool.false_ne_true (hbegins.symm.trans h)
  · exact not_exposed_cons ht hs (hnot hselects) h

theorem Grouped.startsValue_name (hu : Grouped u) (name : String) :
    startsValue (.name name :: u) = false := by
  cases u with
  | nil => cases h : startsValue [Token.name name] <;> simp_all [startsValue, beginsValue]
  | cons t u =>
    obtain rfl := hu.head t rfl
    simp [startsValue, beginsValue]

/-- Whatever a reading takes for what it gives has the property. -/
def Takes {α : Type} {A : List Token → Prop} (P : List Token → α → Prop) (tokens : List Token)
    (reading : Except Reason (α × { rest : List Token // A rest })) : Prop :=
  ∀ a rest, reading = .ok (a, rest) → ∃ used, tokens = used ++ rest.val ∧ P used a

section

variable {α β : Type} {A B : List Token → Prop} {P : List Token → α → Prop}
  {Q : List Token → β → Prop} {tokens : List Token}

theorem Takes.ok {a : α} {rest : List Token} {hrest : A rest} (h : P [] a) :
    Takes P rest (.ok (a, ⟨rest, hrest⟩)) := by
  rintro _ _ ⟨⟩
  exact ⟨[], rfl, h⟩

theorem Takes.error (reason : Reason) :
    Takes P tokens (.error reason : Except Reason (α × { rest : List Token // A rest })) := by
  rintro _ _ ⟨⟩

/-- A token that a reading goes over is taken too. -/
theorem Takes.token {reading : Except Reason (α × { rest : List Token // A rest })}
    (h : Takes (fun u => P (t :: u)) tokens reading) : Takes P (t :: tokens) reading := by
  intro a rest ha
  obtain ⟨used, rfl, hused⟩ := h a rest ha
  exact ⟨t :: used, rfl, hused⟩

/-- What is read once something else has come about. -/
theorem Takes.after {γ : Type} {first : Except Reason γ}
    {next : γ → Except Reason (β × { rest : List Token // B rest })}
    (h : ∀ c, first = .ok c → Takes Q tokens (next c)) : Takes Q tokens (first >>= next) := by
  intro b rest hb
  obtain ⟨c, hc, hb⟩ := bind_eq_ok_iff.1 hb
  exact h c hc b rest hb

/-- A reading in two parts: the second goes on with what the first leaves. -/
theorem Takes.bind {first : Except Reason (α × { rest : List Token // A rest })}
    {next : α × { rest : List Token // A rest } →
      Except Reason (β × { rest : List Token // B rest })}
    (hfirst : Takes P tokens first)
    (hnext : ∀ a u rest (h : A rest), P u a →
      Takes (fun w => Q (u ++ w)) rest (next (a, ⟨rest, h⟩))) :
    Takes Q tokens (first >>= next) := by
  intro b left hb
  obtain ⟨⟨a, rest, hrest⟩, ha, hb⟩ := bind_eq_ok_iff.1 hb
  obtain ⟨u, rfl, hu⟩ := hfirst a _ ha
  obtain ⟨w, rfl, hw⟩ := hnext a u rest hrest hu b left hb
  exact ⟨u ++ w, (List.append_assoc _ _ _).symm, hw⟩

/-- A reading that takes nothing more than its first part. -/
theorem Takes.only {first : Except Reason (α × { rest : List Token // A rest })}
    {next : α × { rest : List Token // A rest } →
      Except Reason (β × { rest : List Token // B rest })}
    (hfirst : Takes P tokens first)
    (hnext : ∀ a u rest (h : A rest), P u a →
      ∃ b hb, next (a, ⟨rest, h⟩) = .ok (b, ⟨rest, hb⟩) ∧ Q u b) :
    Takes Q tokens (first >>= next) := by
  refine hfirst.bind fun a u rest h ha => ?_
  obtain ⟨b, hb, hnext, hused⟩ := hnext a u rest h ha
  rw [hnext]
  refine .ok ?_
  rw [List.append_nil]
  exact hused

end

/-- The expression goes to elements. -/
def Expr.Selects : Expr → Prop
  | .path p => p.value = none
  | .union _ => True
  | _ => False

/-- The piece of a path is a step to nodes. -/
def Piece.Selects : Piece → Prop
  | .step _ => True
  | .value _ => False

theorem selects_of_elementPath {e : Expr} {path : Path} (h : elementPath e = .ok path) :
    e.Selects := by
  obtain ⟨rfl, hvalue⟩ := elementPath_eq_ok_iff.1 h
  exact hvalue

theorem not_selects_of_callOf {name : String} {function : Function} {arguments : List Expr}
    {e : Expr} (h : callOf name function arguments = .ok e) : ¬e.Selects := by
  unfold callOf at h
  dsimp only at h
  split at h
  · cases h
  · cases h
    exact not_false

theorem not_isBracket_of_operatorAt? {level : Nat} {op : Operator}
    (h : operatorAt? level t = some op) : t.isBracket = false := by
  cases t <;> first | rfl | simp [operatorAt?] at h

theorem takes_parseAttribute (tokens : List Token) :
    Takes (fun u piece => Balanced u ∧ ¬piece.Selects) tokens (parseAttribute tokens) := by
  unfold parseAttribute
  split
  · exact .error _
  · exact .error _
  · exact .token (.ok ⟨Balanced.nil.cons rfl, id⟩)
  · exact .token (.ok ⟨Balanced.nil.cons rfl, id⟩)
  · exact .error _

mutual

theorem takes_parseLevel (level : Nat) (tokens : List Token) :
    Takes (fun u e => Tells e.Selects u) tokens (parseLevel level tokens) := by
  rw [parseLevel]
  split
  · refine Takes.bind (takes_parseLevel (level + 1) tokens) fun left u rest _ hleft => ?_
    refine Takes.only (takes_parseOperators level left rest) fun e w _ _ hw => ⟨e, _, rfl, ?_⟩
    refine ⟨hleft.balanced.append hw.1, fun hselects => ?_⟩
    obtain ⟨rfl, rfl⟩ := hw.2 hselects
    rw [List.append_nil]
    exact hleft.noValue hselects
  · exact takes_parseUnion tokens
termination_by (tokens.length, 10 + (4 - level))

/-- With an operator an expression goes to no elements. -/
theorem takes_parseOperators (level : Nat) (left : Expr) (tokens : List Token) :
    Takes (fun u e => Balanced u ∧ (e.Selects → u = [] ∧ e = left)) tokens
      (parseOperators level left tokens) := by
  rw [parseOperators.eq_def]
  split
  · exact .ok ⟨.nil, fun _ => ⟨rfl, rfl⟩⟩
  · next token rest =>
    split
    · exact .ok ⟨.nil, fun _ => ⟨rfl, rfl⟩⟩
    · next op hop =>
      refine .token (Takes.bind (takes_parseLevel (level + 1) rest) fun right u more _ hright => ?_)
      refine Takes.only (takes_parseOperators level _ more) fun e w _ _ hw => ⟨e, _, rfl, ?_⟩
      refine ⟨?_, fun hselects => ?_⟩
      · exact (hright.balanced.append hw.1).cons (not_isBracket_of_operatorAt? hop)
      · obtain ⟨-, rfl⟩ := hw.2 hselects
        cases hselects
termination_by (tokens.length, 0)
decreasing_by all_goals grind

theorem takes_parseUnion (tokens : List Token) :
    Takes (fun u e => Tells e.Selects u) tokens (parseUnion tokens) := by
  rw [parseUnion]
  refine Takes.bind (takes_parsePrimary tokens) fun first u rest _ hfirst => ?_
  dsimp only
  split
  · next more _ =>
    refine Takes.after fun path hpath => ?_
    refine Takes.only (takes_parseOperands (.pipe :: more)) fun paths w _ _ hw => ⟨_, _, rfl, ?_⟩
    have hnoValue := hfirst.noValue (selects_of_elementPath hpath)
    refine ⟨hfirst.balanced.append hw.balanced, fun _ h => ?_⟩
    rcases h with h | h
    · exact hnoValue (.inl (startsValue_append hw.apart h))
    · exact hw.not_exposed_append hfirst.balanced hnoValue h
  · refine .ok ?_
    rw [List.append_nil]
    exact hfirst
termination_by (tokens.length, 9)
decreasing_by all_goals grind

/-- The operands behind a bar. -/
theorem takes_parseOperands (tokens : List Token) :
    Takes (fun u _ => Barred u) tokens (parseOperands tokens) := by
  rw [parseOperands.eq_def]
  split
  · next rest =>
    refine .token (Takes.bind (takes_parsePrimary rest) fun operand u more _ hoperand => ?_)
    refine Takes.after fun path hpath => ?_
    refine Takes.only (takes_parseOperands more) fun paths w _ _ hw => ⟨_, _, rfl, ?_⟩
    exact hw.operand hoperand.balanced (hoperand.noValue (selects_of_elementPath hpath))
  · exact .ok .nil
termination_by (tokens.length, 0)
decreasing_by all_goals grind

theorem takes_parsePrimary (tokens : List Token) :
    Takes (fun u e => Tells e.Selects u) tokens (parsePrimary tokens) := by
  rw [parsePrimary.eq_def]
  split
  · exact .token (.ok (.of_balanced not_false (Balanced.nil.cons rfl)))
  · exact .token (.ok (.of_balanced not_false (Balanced.nil.cons rfl)))
  · next rest =>
    refine .token (Takes.bind (takes_parseLevel 0 rest) fun e u more _ he => ?_)
    dsimp only
    split
    · exact .token (.ok he.parens)
    · exact .error _
  · next name rest =>
    split
    · exact Takes.only (takes_parsePath _) fun path u _ _ hpath => ⟨_, _, rfl, hpath⟩
    · split
      · exact .error _
      · split
        · refine Takes.after fun e he => ?_
          refine .token (.token (.token (.ok ?_)))
          exact .of_balanced (not_selects_of_callOf he)
            (((Balanced.nil.cons rfl).cons rfl).cons rfl)
        · refine .token (.token (Takes.bind (takes_parseArguments rest)
            fun arguments u _ _ hu => ?_))
          refine Takes.after fun e he => ?_
          refine .ok ?_
          rw [List.append_nil]
          exact .of_balanced (not_selects_of_callOf he) ((hu.cons rfl).cons rfl)
  · exact Takes.only (takes_parsePath _) fun path u _ _ hpath => ⟨_, _, rfl, hpath⟩
termination_by (tokens.length, 8)
decreasing_by all_goals grind

theorem takes_parseArguments (tokens : List Token) :
    Takes (fun u _ => Balanced u) tokens (parseArguments tokens) := by
  rw [parseArguments]
  refine Takes.bind (takes_parseLevel 0 tokens) fun e u rest _ he => ?_
  dsimp only
  split
  · exact .token (.ok (he.balanced.append (Balanced.nil.cons rfl)))
  · next more _ =>
    refine .token (Takes.only (takes_parseArguments more) fun others w _ _ hw => ⟨_, _, rfl, ?_⟩)
    exact he.balanced.append (hw.cons rfl)
  · exact .error _
termination_by (tokens.length, 20)
decreasing_by all_goals grind

theorem takes_parsePath (tokens : List Token) :
    Takes (fun u path => Tells (path.value = none) u) tokens (parsePath tokens) := by
  rw [parsePath.eq_def]
  split
  · next rest =>
    split
    · exact .token (Takes.only (takes_parseSteps true [] rest)
        fun path u _ _ hpath => ⟨path, _, rfl, hpath.lead rfl⟩)
    · exact .token (.ok ((Tells.nil _).lead rfl))
  · next rest =>
    exact .token (Takes.only (takes_parseSteps true [.selfAndBelow] rest)
      fun path u _ _ hpath => ⟨path, _, rfl, hpath.lead rfl⟩)
  · split
    · exact takes_parseSteps false [] _
    · exact .error _
termination_by (tokens.length, 7)

theorem takes_parseSteps (absolute : Bool) (steps : List Step) (tokens : List Token) :
    Takes (fun u path => Tells (path.value = none) u) tokens
      (parseSteps absolute steps tokens) := by
  rw [parseSteps]
  refine Takes.bind (takes_parseStep tokens) fun piece u rest _ hpiece => ?_
  dsimp only
  split
  · split
    · exact .error _
    · exact .error _
    · refine .ok (.of_balanced (by simp) ?_)
      rw [List.append_nil]
      exact hpiece.balanced
  · next step =>
    have hstep : Tells True u := hpiece
    split
    · next more _ =>
      exact .token (Takes.only (takes_parseSteps absolute (steps ++ [step]) more)
        fun path w _ _ hpath => ⟨path, _, rfl, hstep.slash rfl hpath⟩)
    · next more _ =>
      exact .token (Takes.only (takes_parseSteps absolute (steps ++ [step, .selfAndBelow]) more)
        fun path w _ _ hpath => ⟨path, _, rfl, hstep.slash rfl hpath⟩)
    · refine .ok ⟨?_, fun _ => ?_⟩
      · rw [List.append_nil]
        exact hstep.balanced
      · rw [List.append_nil]
        exact hstep.noValue trivial
termination_by (tokens.length, 6)
decreasing_by all_goals grind

theorem takes_parseStep (tokens : List Token) :
    Takes (fun u piece => Tells piece.Selects u) tokens (parseStep tokens) := by
  rw [parseStep.eq_def]
  split
  · exact .token (.ok (.cons rfl rfl rfl .nil fun _ => not_exposed_nil))
  · exact .token (.ok (.cons rfl rfl rfl .nil fun _ => not_exposed_nil))
  · next rest =>
    exact .token (Takes.only (takes_parseAttribute rest) fun piece u _ _ hpiece =>
      ⟨piece, _, rfl, .of_balanced hpiece.2 (hpiece.1.cons rfl)⟩)
  · next name rest =>
    split
    · exact .token (.token (Takes.only (takes_parseAttribute rest) fun piece u _ _ hpiece =>
        ⟨piece, _, rfl, .of_balanced hpiece.2 ((hpiece.1.cons rfl).cons rfl)⟩))
    · next hname =>
      split
      · exact .error _
      · next axis _ =>
        refine .token (.token (Takes.only (takes_parseNodeTest axis rest)
          fun piece u _ _ hpiece => ⟨piece, _, rfl, ?_⟩))
        refine .cons rfl rfl ?_ (hpiece.balanced.cons rfl) fun hselects => ?_
        · simp [startsValue, beginsValue, hname]
        · exact not_exposed_cons rfl rfl fun h => hpiece.noValue hselects (.inr h)
  · exact .error _
  · exact takes_parseNodeTest .child _
termination_by (tokens.length, 5)
decreasing_by all_goals grind

theorem takes_parseNodeTest (axis : Axis) (tokens : List Token) :
    Takes (fun u piece => Tells piece.Selects u) tokens (parseNodeTest axis tokens) := by
  rw [parseNodeTest.eq_def]
  split
  · next rest =>
    refine .token (Takes.only (takes_parsePredicates rest) fun _ u _ _ hu => ⟨_, _, rfl, ?_⟩)
    exact .cons rfl rfl rfl hu.balanced fun _ => hu.notExposed
  · next name rest =>
    split
    · split
      · next hname =>
        refine .token (.token (.token (Takes.only (takes_parsePredicates _)
          fun _ u _ _ hu => ⟨_, _, rfl, ?_⟩)))
        subst hname
        refine .cons rfl rfl rfl ((hu.balanced.cons rfl).cons rfl) fun _ => ?_
        exact not_exposed_cons rfl rfl (not_exposed_cons rfl rfl hu.notExposed)
      · split
        · split
          · exact .error _
          · refine .token (.token (.token (.ok ?_)))
            exact .of_balanced not_false (((Balanced.nil.cons rfl).cons rfl).cons rfl)
        · exact .error _
    · exact .error _
  · next name rest _ =>
    refine .token (Takes.only (takes_parsePredicates rest) fun _ u _ _ hu => ⟨_, _, rfl, ?_⟩)
    exact .cons rfl rfl (hu.startsValue_name name) hu.balanced fun _ => hu.notExposed
  · exact .error _
termination_by (tokens.length, 4)
decreasing_by all_goals grind

theorem takes_parsePredicates (tokens : List Token) :
    Takes (fun u _ => Grouped u) tokens (parsePredicates tokens) := by
  rw [parsePredicates.eq_def]
  split
  · next rest =>
    refine .token (Takes.bind (takes_parseLevel 0 rest) fun e u more _ he => ?_)
    dsimp only
    split
    · next others _ =>
      exact .token (Takes.only (takes_parsePredicates others)
        fun _ w _ _ hw => ⟨_, _, rfl, hw.group he.balanced⟩)
    · exact .error _
  · exact .ok .nil
termination_by (tokens.length, 0)
decreasing_by all_goals grind

end

/-- **A row of tokens that is read as going to elements holds no value outside of brackets**, and
its brackets are in pairs. -/
theorem tells_of_parseExpr {tokens : List Token} {e : Expr} (h : parseExpr tokens = .ok e) :
    Tells e.Selects tokens := by
  unfold parseExpr at h
  obtain ⟨⟨e', rest⟩, hread, h⟩ := bind_eq_ok_iff.1 h
  obtain ⟨used, hused, htells⟩ := takes_parseLevel 0 tokens e' rest hread
  dsimp only at h
  split at h
  · next hrest =>
    cases h
    rw [hused, hrest, List.append_nil]
    exact htells
  · cases h

/-! ### Queries to elements -/

theorem selects_of_ofExpr {e expr : Expr} (h : ofExpr e = .ok expr) : e.Selects := by
  unfold ofExpr at h
  split at h
  · next path =>
    obtain ⟨p, hp, -⟩ := map_eq_ok_iff.1 h
    unfold elementsAnywhere at hp
    split at hp
    · cases hp
    · next hvalue => exact Option.not_isSome_iff_eq_none.1 hvalue
  · trivial
  · cases h

/-- A query to elements is read from balanced tokens that hold no value outside of brackets. -/
theorem tells_of_readExpr {text : List Char} {expr : Expr} (h : readExpr text = .ok expr) :
    ∃ tokens, tokenize text = .ok tokens ∧ Tells True tokens := by
  unfold readExpr at h
  obtain ⟨tokens, htokens, h⟩ := bind_eq_ok_iff.1 h
  obtain ⟨e, he, h⟩ := bind_eq_ok_iff.1 h
  obtain ⟨hbalanced, hnoValue⟩ := tells_of_parseExpr he
  exact ⟨tokens, htokens, hbalanced, fun _ => hnoValue (selects_of_ofExpr h)⟩

end Gleaner.Query
