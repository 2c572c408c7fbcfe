/-
# Conditions of JSON paths that are read

A condition asked for at a level of binding is read up to a sign that goes on at no such level. Both
connectives group to the left, so the induction says of a condition what it is good for as the
first part of a longer one: whatever reading goes on from it behind its text, the whole reading
gives the same. The left side of a connective is then used with the connective behind it, and the
right side with nothing behind it.

Key definitions: `Closes`, `Condition.ReadAt`.
Key theorems: `Condition.readAt_climb`, `Condition.readAt_connect`, `Condition.readAt_enclosed`,
`Condition.readAt`, `readCondition_written`.
-/
import Gleaner.Proofs.JsonPath.Reading

namespace Gleaner.JsonPath

open Gleaner.Text

variable {c : Char} {text more rest blanks : List Char} {level : Nat}

/-- A reading has one result. -/
theorem Reads.unique {α : Type} {P : List Char → Prop}
    {reading : Except Stop (α × { rest : List Char // P rest })} {a b : α} {left : List Char}
    (ha : Reads reading a rest) (hb : Reads reading b left) : a = b ∧ rest = left := by
  obtain ⟨_, ha⟩ := ha
  obtain ⟨_, hb⟩ := hb
  rw [ha] at hb
  cases hb
  exact ⟨rfl, rfl⟩

/-! ### Conditions on a path -/

theorem Ends.trimStart_eq (h : Ends rest) : trimStart rest = rest := by
  obtain ⟨c, more, rfl, hc⟩ := h
  have hblank : ∀ c ∈ closers, isBlank c = false := by decide
  exact trimStart_cons (hblank c hc) more

/-- A path that no comparison follows asks whether something lies there. -/
theorem readComparedPath_present {path : List Key} (h : ∀ key ∈ path, key.Legible)
    (hrest : Ends rest) :
    Reads (readComparedPath (writtenKeys path ++ rest)) (.present path) rest := by
  have hkey : ∀ c ∈ closers, (c == '.' || c == '[') = false := by decide
  have hhead : ∀ c ∈ rest.head?, c ≠ '.' ∧ c ≠ '[' := by
    intro c hc
    have hc := hrest.head?_eq_false hkey c hc
    rwa [Bool.or_eq_false_iff, beq_eq_false_iff_ne, beq_eq_false_iff_ne] at hc
  have hnone : readComparison? (trimStart rest) = none := by
    rw [hrest.trimStart_eq]
    exact readComparison?_of_ends hrest
  exact reads_readComparedPath_iff.2 ⟨path, rest, readKeys_written hhead h,
    .inr ⟨hnone, rfl, hrest.trimStart_eq.symm⟩⟩

/-- The sign of a comparison begins with a character that goes on with no path. -/
theorem writtenSign_eq_cons (comparison : Comparison) :
    ∃ c more, writtenSign comparison = c :: more ∧ isBlank c = false ∧ c ≠ '.' ∧ c ≠ '[' := by
  cases comparison with
  | equal => exact ⟨'=', _, rfl, by decide⟩
  | notEqual => exact ⟨'!', _, rfl, by decide⟩
  | less => exact ⟨'<', _, rfl, by decide⟩
  | atMost => exact ⟨'<', _, rfl, by decide⟩
  | greater => exact ⟨'>', _, rfl, by decide⟩
  | atLeast => exact ⟨'>', _, rfl, by decide⟩

/-- What lies at a path is compared with the literal behind the sign. In front of the sign may be
blanks. -/
theorem readComparedPath_literal {path : List Key} {literal : Json} (comparison : Comparison)
    (hpath : ∀ key ∈ path, key.Legible) (hblanks : Blanks blanks) (hhead : text.head? ≠ some '=')
    (hliteral : Reads (readLiteral text) literal rest) :
    Reads (readComparedPath (writtenKeys path ++ (blanks ++ (writtenSign comparison ++ text))))
      (.compare path comparison literal) rest := by
  obtain ⟨sign, signs, hsign, hblank, hpoint, hbracket⟩ := writtenSign_eq_cons comparison
  have hnokey : ∀ c, isBlank c = true → c ≠ '.' ∧ c ≠ '[' := by
    intro c hc
    constructor
    · rintro rfl
      exact absurd hc (by decide)
    · rintro rfl
      exact absurd hc (by decide)
  have hend : ∀ c ∈ (blanks ++ (writtenSign comparison ++ text)).head?, c ≠ '.' ∧ c ≠ '[' := by
    refine forall_head?_append hblanks hnokey ?_
    rw [hsign]
    rintro _ ⟨⟩
    exact ⟨hpoint, hbracket⟩
  have hstart : trimStart (blanks ++ (writtenSign comparison ++ text)) =
      writtenSign comparison ++ text := by
    rw [hsign]
    exact trimStart_blanks hblanks hblank _
  exact reads_readComparedPath_iff.2 ⟨path, _, readKeys_written hend hpath,
    .inl ⟨comparison, text, literal, hstart, fun _ => hhead, hliteral, rfl⟩⟩

theorem readComparedPath_compare {path : List Key} {comparison : Comparison} {literal : Json}
    (hpath : ∀ key ∈ path, key.Legible) (hliteral : LegibleLiteral literal) (hrest : Ends rest) :
    Reads (readComparedPath
        (writtenKeys path ++ (writtenSign comparison ++ (writtenLiteral literal ++ rest))))
      (.compare path comparison literal) rest := by
  obtain ⟨first, chars, hfirst, -, hequal⟩ := writtenLiteral_eq_cons hliteral
  have hhead : (writtenLiteral literal ++ rest).head? ≠ some '=' := by
    rw [hfirst]
    rintro ⟨⟩
    exact hequal rfl
  exact readComparedPath_literal comparison hpath .nil hhead (readLiteral_written hliteral hrest)

/-! ### Terms -/

theorem readTerm_path {condition : Condition}
    (h : Reads (readComparedPath text) condition rest) :
    Reads (readTerm ('@' :: text)) condition rest :=
  reads_readTerm_iff.2 ⟨'@', text, trimStart_cons (by decide) text, .inr (.inr ⟨rfl, h⟩)⟩

/-- A condition is denied, where no sign of equality makes the `!` a comparison. -/
theorem readTerm_not {condition : Condition} (hhead : text.head? ≠ some '=')
    (h : Reads (readTerm text) condition rest) :
    Reads (readTerm ('!' :: text)) (.not condition) rest :=
  reads_readTerm_iff.2 ⟨'!', text, trimStart_cons (by decide) text,
    .inr (.inl ⟨rfl, hhead, condition, h, rfl⟩)⟩

/-- A condition in parentheses is a term. -/
theorem readTerm_enclosed {condition : Condition}
    (h : Reads (readCondition 0 text) condition (')' :: rest)) :
    Reads (readTerm ('(' :: text)) condition rest :=
  reads_readTerm_iff.2 ⟨'(', text, trimStart_cons (by decide) text,
    .inl ⟨rfl, _, h, trimStart_cons (by decide) rest⟩⟩

/-! ### Connectives -/

/-- What follows goes on with no connective that binds at least as tight as a level. -/
def Closes (level : Nat) (rest : List Char) : Prop :=
  Ends rest ∧ ∀ higher, level ≤ higher → connective? higher rest = none

theorem Closes.mono {higher : Nat} (h : Closes level rest) (hle : level ≤ higher) :
    Closes higher rest :=
  ⟨h.1, fun k hk => h.2 k (Nat.le_trans hle hk)⟩

/-- A closing parenthesis goes on with no connective. -/
theorem closes_parenthesis (level : Nat) (more : List Char) : Closes level (')' :: more) := by
  refine ⟨⟨')', more, rfl, by decide⟩, fun higher _ => ?_⟩
  rw [connective?]
  · rintro more - ⟨⟩
  · rintro more - ⟨⟩

/-- The two characters of the connective of a level. -/
def connectiveText (level : Nat) : List Char :=
  if level = 0 then ['|', '|'] else ['&', '&']

/-- A connective goes on with no tighter one. -/
theorem closes_connective (hlevel : level < 2) (more : List Char) :
    Closes (level + 1) (connectiveText level ++ more) := by
  obtain rfl | rfl : level = 0 ∨ level = 1 := by omega
  · refine ⟨⟨'|', _, rfl, by decide⟩, fun higher hle => ?_⟩
    rw [connective?]
    · rintro more rfl
      omega
    · rintro more - ⟨⟩
  · refine ⟨⟨'&', _, rfl, by decide⟩, fun higher hle => ?_⟩
    rw [connective?]
    · rintro more - ⟨⟩
    · rintro more rfl
      omega

/-- No connective binds tighter than both. -/
theorem Closes.of_tightest (h : Closes 3 rest) : Closes 2 rest := by
  refine ⟨h.1, fun higher _ => ?_⟩
  rw [connective?]
  · rintro more rfl
    omega
  · rintro more rfl
    omega

theorem connectiveText_append (level : Nat) (more : List Char) :
    connectiveText level ++ more = connectiveSign level :: connectiveSign level :: more := by
  unfold connectiveText connectiveSign
  split <;> rfl

variable {first second condition : Condition} {left : List Char}

/-- A condition that no connective follows is whole. -/
theorem readConnected_closes (hrest : Closes level rest) (condition : Condition) :
    Reads (readConnected level condition rest) condition rest := by
  obtain ⟨hends, hnone⟩ := hrest
  have hstart := hends.trimStart_eq
  refine reads_readConnected_iff.2 (.inr ⟨?_, rfl, hstart.symm⟩)
  rw [hstart]
  exact hnone level (Nat.le_refl level)

/-- Behind a connective stands its other side, and the two go on as one condition. -/
theorem readConnected_connective (hlevel : level < 2)
    (hsecond : Reads (readCondition (level + 1) text) second left)
    (h : Reads (readConnected level (connect level first second) left) condition rest) :
    Reads (readConnected level first (connectiveText level ++ text)) condition rest := by
  have hstart := (closes_connective hlevel text).1.trimStart_eq
  rw [connectiveText_append] at hstart ⊢
  exact reads_readConnected_iff.2 (.inl ⟨text, second, left, hlevel, hstart, hsecond, h⟩)

/-- A condition is read as its first part at the next level, and what goes on from it. -/
theorem readCondition_of_lt (hlevel : level < 2)
    (hfirst : Reads (readCondition (level + 1) text) first left)
    (h : Reads (readConnected level first left) condition rest) :
    Reads (readCondition level text) condition rest :=
  reads_readCondition_iff.2 (.inl ⟨hlevel, first, left, hfirst, h⟩)

theorem readCondition_two (h : Reads (readTerm text) condition rest) :
    Reads (readCondition 2 text) condition rest :=
  reads_readCondition_iff.2 (.inr ⟨Nat.lt_irrefl 2, h⟩)

/-! ### Conditions at a level -/

/-- A condition is read where one is asked for at a level, and the reading goes on from it. -/
def Condition.ReadAt (level : Nat) (condition : Condition) : Prop :=
  ∀ ⦃rest left : List Char⦄ ⦃whole : Condition⦄, Closes (level + 1) rest →
    Reads (readConnected level condition rest) whole left →
    Reads (readCondition level (condition.writtenAt level ++ rest)) whole left

/-- A condition that nothing goes on from is read as it is. -/
theorem Condition.ReadAt.whole (h : condition.ReadAt level) (hrest : Closes level rest) :
    Reads (readCondition level (condition.writtenAt level ++ rest)) condition rest :=
  h (hrest.mono (Nat.le_succ level)) (readConnected_closes hrest condition)

/-- A condition that is a term is read where the tightest one is asked for. -/
theorem Condition.readAt_two (h : ∀ ⦃rest : List Char⦄, Closes 2 rest →
      Reads (readTerm (condition.writtenAt 2 ++ rest)) condition rest) :
    condition.ReadAt 2 := by
  intro rest left whole hrest hwhole
  have hclosed : Closes 2 rest := hrest.of_tightest
  obtain ⟨rfl, rfl⟩ := (readConnected_closes hclosed condition).unique hwhole
  exact readCondition_two (h hclosed)

/-- A condition that is not made by the connective of a level is written there as at the next. -/
theorem Condition.writtenAt_succ (h : condition.binding ≠ level) :
    condition.writtenAt (level + 1) = condition.writtenAt level := by
  have hiff : condition.binding < level + 1 ↔ condition.binding < level := by omega
  rw [Condition.writtenAt, Condition.writtenAt, decide_eq_decide.2 hiff]

/-- A condition is read at a level if it is read at the next one and not made by the connective of
the level. -/
theorem Condition.readAt_climb (hlevel : level < 2) (hbinding : condition.binding ≠ level)
    (h : condition.ReadAt (level + 1)) : condition.ReadAt level := by
  intro rest left whole hrest hwhole
  rw [← Condition.writtenAt_succ hbinding]
  exact readCondition_of_lt hlevel (h.whole hrest) hwhole

/-- Two conditions with the connective of a level between them. -/
theorem Condition.writtenAt_connect (hlevel : level < 2) (first second : Condition) :
    (connect level first second).writtenAt level =
      first.writtenAt level ++ (connectiveText level ++ second.writtenAt (level + 1)) := by
  obtain rfl | rfl : level = 0 ∨ level = 1 := by omega
  · simp [connect, connectiveText, Condition.writtenAt, Condition.written, Condition.binding,
      enclosed]
  · simp [connect, connectiveText, Condition.writtenAt, Condition.written, Condition.binding,
      enclosed]

/-- Two conditions that are read are read with the connective of a level between them. -/
theorem Condition.readAt_connect (hlevel : level < 2) (hfirst : first.ReadAt level)
    (hsecond : second.ReadAt (level + 1)) : (connect level first second).ReadAt level := by
  intro rest left whole hrest hwhole
  rw [Condition.writtenAt_connect hlevel, List.append_assoc, List.append_assoc]
  apply hfirst (closes_connective hlevel _)
  exact readConnected_connective hlevel (hsecond.whole hrest) hwhole

/-- A condition made by a connective stands in parentheses where the tightest one is asked for. -/
theorem Condition.readAt_enclosed (hbinding : condition.binding < 2) (h : condition.ReadAt 0) :
    condition.ReadAt 2 := by
  apply Condition.readAt_two
  intro rest _
  have htext : condition.writtenAt 2 ++ rest = '(' :: (condition.writtenAt 0 ++ ')' :: rest) := by
    simp [Condition.writtenAt, enclosed, hbinding]
  rw [htext]
  exact readTerm_enclosed (h.whole (closes_parenthesis 0 rest))

/-- The tightest condition begins with no sign of equality. -/
theorem Condition.head?_writtenAt_two (condition : Condition) (rest : List Char) :
    (condition.writtenAt 2 ++ rest).head? ≠ some '=' := by
  cases condition with
  | present path => rintro ⟨⟩
  | compare path comparison literal => rintro ⟨⟩
  | not condition => rintro ⟨⟩
  | and left right => rintro ⟨⟩
  | or left right => rintro ⟨⟩

/-- A term is read at every level. -/
theorem Condition.readAt_term (hbinding : condition.binding = 2)
    (h : ∀ ⦃rest : List Char⦄, Closes 2 rest →
      Reads (readTerm (condition.writtenAt 2 ++ rest)) condition rest) :
    condition.ReadAt 0 ∧ condition.ReadAt 1 ∧ condition.ReadAt 2 := by
  have htwo := Condition.readAt_two h
  have hone := Condition.readAt_climb (by decide) (by omega) htwo
  have hzero := Condition.readAt_climb (by decide) (by omega) hone
  exact ⟨hzero, hone, htwo⟩

/-- Every condition that can be written is read at every level. -/
theorem Condition.readAt (h : condition.Legible) :
    condition.ReadAt 0 ∧ condition.ReadAt 1 ∧ condition.ReadAt 2 := by
  induction condition with
  | present path =>
    apply Condition.readAt_term rfl
    intro rest hrest
    exact readTerm_path (readComparedPath_present h hrest.1)
  | compare path comparison literal =>
    obtain ⟨hpath, hliteral⟩ := h
    apply Condition.readAt_term rfl
    intro rest hrest
    have htext : (Condition.compare path comparison literal).writtenAt 2 ++ rest =
        '@' :: (writtenKeys path ++ (writtenSign comparison ++ (writtenLiteral literal ++ rest))) := by
      simp [Condition.writtenAt, Condition.written, Condition.binding, enclosed]
    rw [htext]
    exact readTerm_path (readComparedPath_compare hpath hliteral hrest.1)
  | not condition ih =>
    obtain ⟨-, -, htwo⟩ := ih h
    apply Condition.readAt_term rfl
    intro rest hrest
    have htext : condition.not.writtenAt 2 ++ rest = '!' :: (condition.writtenAt 2 ++ rest) := by
      simp [Condition.writtenAt, Condition.written, Condition.binding, enclosed]
    rw [htext]
    apply readTerm_not (condition.head?_writtenAt_two rest)
    have hread := htwo.whole hrest
    rwa [readCondition] at hread
  | and first second ihfirst ihsecond =>
    obtain ⟨hfirst, hsecond⟩ := h
    have hbinding : (first.and second).binding = 1 := rfl
    have hone : (first.and second).ReadAt 1 :=
      Condition.readAt_connect (by decide) (ihfirst hfirst).2.1 (ihsecond hsecond).2.2
    have hzero := Condition.readAt_climb (by decide) (by omega) hone
    exact ⟨hzero, hone, Condition.readAt_enclosed (by omega) hzero⟩
  | or first second ihfirst ihsecond =>
    obtain ⟨hfirst, hsecond⟩ := h
    have hbinding : (first.or second).binding = 0 := rfl
    have hzero : (first.or second).ReadAt 0 :=
      Condition.readAt_connect (by decide) (ihfirst hfirst).1 (ihsecond hsecond).2.1
    have htwo := Condition.readAt_enclosed (by omega) hzero
    exact ⟨hzero, Condition.readAt_climb (by decide) (by omega) htwo, htwo⟩

/-- A condition is read up to the parenthesis that closes it. -/
theorem readCondition_written (h : condition.Legible) (rest : List Char) :
    Reads (readCondition 0 (condition.written ++ ')' :: rest)) condition (')' :: rest) := by
  have hopen : condition.writtenAt 0 = condition.written := rfl
  rw [← hopen]
  exact (Condition.readAt h).1.whole (closes_parenthesis 0 rest)

end Gleaner.JsonPath
