/-
# The brackets of a selector as a whole

A selector is cut into steps before any bracket is looked at, and each step is trimmed, stripped of
its slashes and taken apart at its brackets on its own. Whether the grammar is at fault can all the
same be told by one scan over the whole selector, with a flag for literals and one for the bracket
that is open: brackets may not be nested, hold no slash outside of literals, are opened before they
are closed and closed in the end, and each holds a filter.

Key definitions: `bracketAfter`, `Misbracketed`, `Scan`.
Key theorems: `Scan.behind_of_run`, `Misbracketed.run_ne`, `misbracketed_iff_run`.
-/
import Gleaner.Proofs.Selector.Cutting
import Gleaner.Proofs.Selector.Layout
import Mathlib.Algebra.Ring.Parity
import Mathlib.Data.List.Induction

namespace Gleaner.Selector

open Gleaner.Text

/-! ### What may be wrong -/

/-- A bracket is open behind a text; `quoted` says that a literal is open before it, and `opened`
that a bracket is. -/
def bracketAfter (quoted opened : Bool) : List Char → Bool
  | [] => opened
  | c :: rest =>
    bracketAfter (if c = '\'' then !quoted else quoted)
      (if quoted then opened else if c = '[' then true else if c = ']' then false else opened) rest

/-- A mark stands in a text outside of literals, where a bracket is open or none is. -/
def MeetsMark (mark : Char) (opened : Bool) (text : List Char) : Prop :=
  ∃ before after, text = before ++ mark :: after ∧ quotedAfter false before = false ∧
    bracketAfter false false before = opened

/-- What may be wrong with the literals and brackets of a text. -/
inductive Misbracketed (text : List Char) : Prop
  /-- A literal is open at the end. -/
  | openLiteral (h : Odd (text.count '\''))
  /-- A bracket is closed where none is open. -/
  | strayBracket (h : MeetsMark ']' false text)
  | nestedBracket (h : MeetsMark '[' true text)
  | slashInBracket (h : MeetsMark '/' true text)
  /-- A bracket is open at the end. -/
  | openBracket (h : bracketAfter false false text = true)
  /-- The text between two brackets is none of the known filters. -/
  | unknownFilter {before group after : List Char}
    (htext : text = before ++ '[' :: (group ++ ']' :: after))
    (hbefore : quotedAfter false before = false) (hgroup : Closed isBracket group)
    (h : Filter.read? group = none)

theorem bracketAfter_append : ∀ (quoted opened : Bool) (a b : List Char),
    bracketAfter quoted opened (a ++ b) =
      bracketAfter (quotedAfter quoted a) (bracketAfter quoted opened a) b
  | _, _, [], _ => rfl
  | _, _, _ :: a, b => bracketAfter_append _ _ a b

/-! ### The scan -/

/-- How far a scan has come. -/
structure Scan where
  /-- A literal is open. -/
  quoted : Bool
  /-- What has been read of the bracket that is open, if one is. -/
  group : Option (List Char)
  deriving DecidableEq

namespace Scan

/-- Nothing is open. -/
def start : Scan :=
  ⟨false, none⟩

/-- The scan goes on with a character that belongs to what is open. -/
def keep (s : Scan) (c : Char) : Scan :=
  ⟨if c = '\'' then !s.quoted else s.quoted, s.group.map (· ++ [c])⟩

/-- The scan goes on with a character, unless that is wrong where it stands. -/
def next (s : Scan) (c : Char) : Option Scan :=
  if s.quoted then some (s.keep c)
  else
    match s.group with
    | none =>
      if c = '[' then some ⟨false, some []⟩
      else if c = ']' then none
      else some (s.keep c)
    | some g =>
      if c = ']' then if (Filter.read? g).isSome then some start else none
      else if c = '[' ∨ c = '/' then none
      else some (s.keep c)

/-- The scan goes on with a text. -/
def run (s : Scan) : List Char → Option Scan
  | [] => some s
  | c :: rest => (s.next c).bind fun t => t.run rest

theorem run_append (s : Scan) : ∀ a b : List Char, s.run (a ++ b) = (s.run a).bind fun t => t.run b
  | [], _ => rfl
  | c :: a, b => by
    rw [List.cons_append, run, run]
    cases s.next c with
    | none => rfl
    | some t => exact run_append t a b

/-- What a character may do to a scan: it belongs to what is open, or opens a bracket, or closes one
with a filter in it. -/
theorem next_cases {s t : Scan} {c : Char} (h : s.next c = some t) :
    (s.quoted || !isBracket c) = true ∧ t = s.keep c ∨
      s = start ∧ c = '[' ∧ t = ⟨false, some []⟩ ∨
        ∃ g, s = ⟨false, some g⟩ ∧ c = ']' ∧ (Filter.read? g).isSome ∧ t = start := by
  obtain ⟨quoted, group⟩ := s
  cases quoted with
  | true =>
    cases h
    exact .inl ⟨rfl, rfl⟩
  | false =>
    unfold next at h
    rw [if_neg Bool.false_ne_true] at h
    cases group with
    | none =>
      dsimp only at h
      by_cases hopen : c = '['
      · rw [if_pos hopen] at h
        exact .inr (.inl ⟨rfl, hopen, (Option.some.inj h).symm⟩)
      rw [if_neg hopen] at h
      obtain ⟨hclose, ht⟩ := Option.ite_none_left_eq_some.1 h
      exact .inl ⟨by simp [isBracket, hopen, hclose], (Option.some.inj ht).symm⟩
    | some g =>
      dsimp only at h
      by_cases hclose : c = ']'
      · rw [if_pos hclose] at h
        obtain ⟨hread, ht⟩ := Option.ite_none_right_eq_some.1 h
        exact .inr (.inr ⟨g, rfl, hclose, hread, (Option.some.inj ht).symm⟩)
      rw [if_neg hclose] at h
      obtain ⟨hother, ht⟩ := Option.ite_none_left_eq_some.1 h
      rw [not_or] at hother
      exact .inl ⟨by simp [isBracket, hother.1, hclose], (Option.some.inj ht).symm⟩

/-- Inside a literal every character belongs to what is open; outside of one every character but
the brackets does, and in a bracket the slash does not. -/
theorem next_eq_keep {s : Scan} {c : Char} (hc : (s.quoted || !isBracket c) = true)
    (hslash : s.quoted = true ∨ s.group = none ∨ c ≠ '/') : s.next c = some (s.keep c) := by
  obtain ⟨quoted, group⟩ := s
  cases quoted with
  | true => rfl
  | false =>
    rw [Bool.false_or, Bool.not_eq_true', isBracket, Bool.or_eq_false_iff, beq_eq_false_iff_ne,
      beq_eq_false_iff_ne] at hc
    cases group with
    | none => simp [next, hc.1, hc.2]
    | some g => simp [next, hc.1, hc.2, show c ≠ '/' by simpa using hslash]

/-- Where a scan stops: at a bracket that is closed and not open, and in an open bracket at another
one, at a slash, and at its end if no filter is in it. -/
theorem next_eq_none_iff {s : Scan} {c : Char} : s.next c = none ↔
    s.quoted = false ∧ (s.group = none ∧ c = ']' ∨
      ∃ g, s.group = some g ∧ (c = '[' ∨ c = '/' ∨ c = ']' ∧ Filter.read? g = none)) := by
  obtain ⟨quoted, group⟩ := s
  cases quoted with
  | true => simp [next]
  | false =>
    cases group with
    | none => by_cases hopen : c = '[' <;> simp [next, hopen]
    | some g =>
      by_cases hclose : c = ']'
      · simp [next, hclose]
      · simp [next, hclose, or_iff_not_imp_left]

/-- A scan of a text has come to this: the flags are those of the text, and what has been read of
the open bracket stands at its end. -/
structure Behind (s : Scan) (text : List Char) : Prop where
  quoted : s.quoted = quotedAfter false text
  opened : s.group.isSome = bracketAfter false false text
  group : ∀ g ∈ s.group, ∃ before, text = before ++ '[' :: g ∧ quotedAfter false before = false ∧
    freeOf isBracket false g = true ∧ quotedAfter false g = s.quoted

/-- What belongs to the open bracket is added to what has been read of it. -/
theorem Behind.keep {s : Scan} {text : List Char} {c : Char} (h : s.Behind text)
    (hc : (s.quoted || !isBracket c) = true) : (s.keep c).Behind (text ++ [c]) := by
  refine ⟨?_, ?_, ?_⟩
  · rw [quotedAfter_append, ← h.quoted]
    rfl
  · rw [bracketAfter_append, ← h.quoted, ← h.opened, bracketAfter, bracketAfter]
    cases hquoted : s.quoted with
    | true => simp [Scan.keep]
    | false =>
      rw [hquoted, isBracket, Bool.false_or, Bool.not_eq_true', Bool.or_eq_false_iff,
        beq_eq_false_iff_ne, beq_eq_false_iff_ne] at hc
      simp [Scan.keep, hc.1, hc.2]
  · intro g' hg'
    obtain ⟨g, hg, rfl⟩ := Option.map_eq_some_iff.1 hg'
    obtain ⟨before, rfl, hbefore, hfree, hquoted⟩ := h.group g hg
    refine ⟨before, by simp, hbefore, ?_, ?_⟩
    · rw [freeOf_append, hfree, hquoted, freeOf, hc]
      rfl
    · rw [quotedAfter_append, hquoted]
      rfl

/-- One character of a scan. -/
theorem Behind.next {s t : Scan} {text : List Char} {c : Char} (h : s.Behind text)
    (hnext : s.next c = some t) : t.Behind (text ++ [c]) := by
  rcases next_cases hnext with ⟨hc, rfl⟩ | ⟨rfl, rfl, rfl⟩ | ⟨g, rfl, rfl, -, rfl⟩
  · exact h.keep hc
  · have houtside : quotedAfter false text = false := h.quoted.symm
    refine ⟨?_, ?_, ?_⟩
    · rw [quotedAfter_append, houtside]
      rfl
    · rw [bracketAfter_append, houtside]
      rfl
    · rintro g ⟨⟩
      exact ⟨text, rfl, houtside, rfl, rfl⟩
  · have houtside : quotedAfter false text = false := h.quoted.symm
    refine ⟨?_, ?_, ?_⟩
    · rw [quotedAfter_append, houtside]
      rfl
    · rw [bracketAfter_append, houtside]
      rfl
    · rintro g ⟨⟩

/-- A whole scan, by the characters from the front. -/
theorem behind_of_run {s : Scan} {text : List Char} (h : start.run text = some s) :
    s.Behind text := by
  induction text using List.reverseRecOn generalizing s with
  | nil =>
    cases h
    exact ⟨rfl, rfl, by rintro g ⟨⟩⟩
  | append_singleton text c ih =>
    rw [run_append, Option.bind_eq_some_iff] at h
    obtain ⟨t, ht, hlast⟩ := h
    rw [run, Option.bind_eq_some_iff] at hlast
    obtain ⟨u, hnext, hu⟩ := hlast
    cases hu
    exact (ih ht).next hnext

/-- A scan that does not come to the end of a text stops at some character. -/
theorem exists_of_run_eq_none : ∀ {text : List Char} {s : Scan}, s.run text = none →
    ∃ before c after t, text = before ++ c :: after ∧ s.run before = some t ∧ t.next c = none
  | [], s, h => by cases h
  | c :: text, s, h => by
    cases hnext : s.next c with
    | none => exact ⟨[], c, text, s, rfl, rfl, hnext⟩
    | some t =>
      rw [run, hnext] at h
      obtain ⟨before, d, after, u, rfl, hrun, hstop⟩ := exists_of_run_eq_none h
      refine ⟨c :: before, d, after, u, rfl, ?_, hstop⟩
      rw [run, hnext]
      exact hrun

/-- What a scan has come to before a character, if it goes on from there. -/
theorem exists_of_run_append {s u : Scan} {before after : List Char} {c : Char}
    (h : s.run (before ++ c :: after) = some u) :
    ∃ t v, s.run before = some t ∧ t.next c = some v ∧ v.run after = some u := by
  rw [run_append, Option.bind_eq_some_iff] at h
  obtain ⟨t, ht, hrest⟩ := h
  rw [run, Option.bind_eq_some_iff] at hrest
  obtain ⟨v, hv, hafter⟩ := hrest
  exact ⟨t, v, ht, hv, hafter⟩

end Scan

/-! ### What stops a scan -/

/-- A mark at which every scan stops in this state is met by none. -/
theorem MeetsMark.run_ne {mark : Char} {opened : Bool} {text : List Char}
    (h : MeetsMark mark opened text)
    (hstop : ∀ s : Scan, s.quoted = false → s.group.isSome = opened → s.next mark = none) :
    Scan.start.run text ≠ some Scan.start := by
  obtain ⟨before, after, rfl, hliteral, hbracket⟩ := h
  intro hrun
  obtain ⟨s, t, hs, ht, -⟩ := Scan.exists_of_run_append hrun
  have hbehind := Scan.behind_of_run hs
  rw [hstop s (hbehind.quoted.trans hliteral) (hbehind.opened.trans hbracket)] at ht
  cases ht

/-- Two brackets behind which no other stands are one. -/
theorem eq_of_last_bracket {before more g g' : List Char}
    (hbefore : quotedAfter false before = false) (hmore : quotedAfter false (before ++ more) = false) (hg : freeOf isBracket false g = true)
    (h : '[' :: g = more ++ '[' :: g') : g = g' := by
  cases more with
  | nil => exact (List.cons.inj h).2
  | cons c more =>
    rw [List.cons_append] at h
    obtain ⟨rfl, rfl⟩ := List.cons.inj h
    rw [quotedAfter_append, hbefore] at hmore
    change quotedAfter false more = false at hmore
    rw [freeOf_append, hmore, Bool.and_eq_true] at hg
    exact absurd hg.2 (by simp [freeOf, isBracket])

/-- A scan closes no bracket but around a filter. -/
theorem run_ne_of_unknownFilter {before group after : List Char}
    (hbefore : quotedAfter false before = false) (hgroup : Closed isBracket group)
    (h : Filter.read? group = none) :
    Scan.start.run (before ++ '[' :: (group ++ ']' :: after)) ≠ some Scan.start := by
  have hsplit : before ++ '[' :: (group ++ ']' :: after) =
      (before ++ '[' :: group) ++ ']' :: after := by simp
  intro hrun
  rw [hsplit] at hrun
  obtain ⟨s, t, hs, ht, -⟩ := Scan.exists_of_run_append hrun
  have hbehind := Scan.behind_of_run hs
  have hquoted : s.quoted = false := by
    rw [hbehind.quoted, quotedAfter_append, hbefore]
    exact hgroup.1
  rcases Scan.next_cases ht with ⟨hc, -⟩ | ⟨-, hc, -⟩ | ⟨g, rfl, -, hread, -⟩
  · rw [hquoted] at hc
    cases hc
  · exact absurd hc (by decide)
  · obtain ⟨before', hsame, hbefore', hfree, -⟩ := hbehind.group g rfl
    have hg : group = g := by
      rcases List.append_eq_append_iff.1 hsame with ⟨more, rfl, hmore⟩ | ⟨more, rfl, hmore⟩
      · exact eq_of_last_bracket hbefore hbefore' hgroup.2 hmore
      · exact (eq_of_last_bracket hbefore' hbefore hfree hmore).symm
    rw [← hg, h] at hread
    cases hread

theorem Misbracketed.run_ne {text : List Char} (h : Misbracketed text) :
    Scan.start.run text ≠ some Scan.start := by
  have hopened {s : Scan} (hgroup : s.group.isSome = true) : ∃ g, s.group = some g :=
    Option.isSome_iff_exists.1 hgroup
  cases h with
  | openLiteral h =>
    intro hrun
    rw [odd_count_iff, ← (Scan.behind_of_run hrun).quoted] at h
    cases h
  | strayBracket h =>
    refine h.run_ne fun s hquoted hgroup => Scan.next_eq_none_iff.2 ⟨hquoted, .inl ⟨?_, rfl⟩⟩
    exact Option.not_isSome_iff_eq_none.1 (by simp [hgroup])
  | nestedBracket h =>
    refine h.run_ne fun s hquoted hgroup => Scan.next_eq_none_iff.2 ⟨hquoted, .inr ?_⟩
    obtain ⟨g, hg⟩ := hopened hgroup
    exact ⟨g, hg, .inl rfl⟩
  | slashInBracket h =>
    refine h.run_ne fun s hquoted hgroup => Scan.next_eq_none_iff.2 ⟨hquoted, .inr ?_⟩
    obtain ⟨g, hg⟩ := hopened hgroup
    exact ⟨g, hg, .inr (.inl rfl)⟩
  | openBracket h =>
    intro hrun
    rw [← (Scan.behind_of_run hrun).opened] at h
    cases h
  | unknownFilter htext hbefore hgroup h =>
    rw [htext]
    exact run_ne_of_unknownFilter hbefore hgroup h

/-- Where a scan stops something is wrong with the brackets. -/
theorem misbracketed_of_stop {before after : List Char} {c : Char} {s : Scan}
    (hbefore : Scan.start.run before = some s) (hstop : s.next c = none) :
    Misbracketed (before ++ c :: after) := by
  have hbehind := Scan.behind_of_run hbefore
  rw [Scan.next_eq_none_iff] at hstop
  obtain ⟨hquoted, hstop⟩ := hstop
  have hliteral := hbehind.quoted.symm.trans hquoted
  have hbracket := hbehind.opened.symm
  rcases hstop with ⟨hgroup, rfl⟩ | ⟨g, hgroup, hc⟩
  · rw [hgroup] at hbracket
    exact .strayBracket ⟨before, after, rfl, hliteral, hbracket⟩
  · rw [hgroup] at hbracket
    rcases hc with rfl | rfl | ⟨rfl, hread⟩
    · exact .nestedBracket ⟨before, after, rfl, hliteral, hbracket⟩
    · exact .slashInBracket ⟨before, after, rfl, hliteral, hbracket⟩
    · obtain ⟨front, rfl, hfront, hfree, hg⟩ := hbehind.group g hgroup
      have hsplit : front ++ '[' :: g ++ ']' :: after = front ++ '[' :: (g ++ ']' :: after) := by
        simp
      exact .unknownFilter hsplit hfront ⟨hg.trans hquoted, hfree⟩ hread

/-- A text is bracketed well exactly if a scan of it ends with nothing open. -/
theorem misbracketed_iff_run {text : List Char} :
    Misbracketed text ↔ Scan.start.run text ≠ some Scan.start := by
  refine ⟨Misbracketed.run_ne, fun hrun => ?_⟩
  cases hs : Scan.start.run text with
  | none =>
    obtain ⟨before, c, after, s, rfl, hbefore, hstop⟩ := Scan.exists_of_run_eq_none hs
    exact misbracketed_of_stop hbefore hstop
  | some s =>
    have hbehind := Scan.behind_of_run hs
    obtain ⟨quoted, group⟩ := s
    cases quoted with
    | true => exact .openLiteral (odd_count_iff.2 hbehind.quoted.symm)
    | false =>
      cases group with
      | none => exact absurd hs hrun
      | some g => exact .openBracket hbehind.opened.symm

end Gleaner.Selector
