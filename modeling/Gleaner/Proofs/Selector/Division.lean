/-
# The one division of a selector into steps

A selector is divided into steps without a loss, but for slashes at its end. A step is a row of
slashes and what stands behind it up to the next slash outside of literals; each step but the first
has a slash in front, and only the last may leave a literal open. There is one such division of each
text, and it is the one that is read.

Key definitions: `IsStep`, `Division`.
Key theorems: `freeOf_isSlash_iff`, `Cut.division`, `Division.cut`, `exists_division_iff`.
-/
import Gleaner.Proofs.Selector.Cutting
import Gleaner.Proofs.Selector.Layout

namespace Gleaner.Selector

open Gleaner.Text

/-- Slashes and behind them a character that is none. From there on a slash stands in a literal: an
odd number of quotation marks comes before it. -/
def IsStep (step : List Char) : Prop :=
  ∃ n c rest, step = slashes n ++ c :: rest ∧ c ≠ '/' ∧
    ∀ before after, c :: rest = before ++ '/' :: after → Odd (before.count '\'')

/-- A text divided into steps, with what is left of it at its end. -/
structure Division (text : List Char) (steps : List (List Char)) (left : List Char) : Prop where
  whole : steps.flatten ++ left = text
  slashes : ∀ c ∈ left, c = '/'
  isStep : ∀ step ∈ steps, IsStep step
  later : ∀ step ∈ steps.tail, step.head? = some '/'
  /-- The literals of a step are closed where anything follows it. -/
  closed : ∀ before step after, steps = before ++ step :: after → after ≠ [] ∨ left ≠ [] →
    Even (step.count '\'')

/-! ### One step -/

/-- A text is free of slashes if a literal is open in front of each slash in it. -/
theorem freeOf_isSlash_iff : ∀ {text : List Char} {quoted : Bool},
    freeOf isSlash quoted text = true ↔
      ∀ before after, text = before ++ '/' :: after → quotedAfter quoted before = true
  | [], quoted => by simp [freeOf]
  | c :: text, quoted => by
    rw [freeOf, Bool.and_eq_true, freeOf_isSlash_iff]
    constructor
    · rintro ⟨hc, htext⟩ before after heq
      cases before with
      | nil =>
        obtain ⟨rfl, -⟩ := List.cons.inj heq
        simpa [isSlash, quotedAfter] using hc
      | cons b before =>
        obtain ⟨rfl, hrest⟩ := List.cons.inj heq
        exact htext before after hrest
    · intro h
      refine ⟨?_, fun before after heq => h (c :: before) after (congrArg (c :: ·) heq)⟩
      by_cases hc : c = '/'
      · subst hc
        rw [show quoted = true from h [] text rfl]
        rfl
      · simp [isSlash, hc]

theorem isStep_iff {step : List Char} : IsStep step ↔
    ∃ n body, step = slashes n ++ body ∧ body ≠ [] ∧ freeOf isSlash false body = true := by
  constructor
  · rintro ⟨n, c, rest, rfl, -, hodd⟩
    refine ⟨n, c :: rest, rfl, List.cons_ne_nil c rest, freeOf_isSlash_iff.2 ?_⟩
    exact fun before after heq => odd_count_iff.1 (hodd before after heq)
  · rintro ⟨n, body, rfl, hne, hfree⟩
    obtain ⟨c, rest, rfl, hc⟩ := head_of_free hne hfree
    refine ⟨n, c, rest, rfl, hc, fun before after heq => odd_count_iff.2 ?_⟩
    exact freeOf_isSlash_iff.1 hfree before after heq

theorem IsStep.ne_nil {step : List Char} (h : IsStep step) : step ≠ [] := by
  obtain ⟨n, c, rest, rfl, -, -⟩ := h
  simp

/-- The marks of a step are those behind its slashes. -/
theorem even_count_slashes_append {n : Nat} {body : List Char} :
    Even ((slashes n ++ body).count '\'') ↔ quotedAfter false body = false := by
  have hwhole : quotedAfter false (slashes n ++ body) = quotedAfter false body := by
    rw [quotedAfter_append, quotedAfter_slashes]
  rw [← hwhole, quotedAfter_eq_false_iff]
  simp

/-! ### All steps -/

variable {text left : List Char} {steps : List (List Char)}

/-- What begins with a slash and is divided begins with a step that has one in front, if it has a
step. -/
theorem Division.head?_eq {rest : List Char} (h : Division ('/' :: rest) steps left) :
    ∀ step ∈ steps, step.head? = some '/' := by
  cases steps with
  | nil => exact List.forall_mem_nil _
  | cons step more =>
    refine List.forall_mem_cons.2 ⟨?_, h.later⟩
    have hne := (h.isStep step List.mem_cons_self).ne_nil
    obtain ⟨c, tail, rfl⟩ := List.exists_cons_of_ne_nil hne
    have hwhole := h.whole
    simp only [List.flatten_cons, List.cons_append, List.cons.injEq] at hwhole
    rw [List.head?_cons, hwhole.1]

/-- What a text is cut into is a division of it. -/
theorem Cut.division {k : Nat} (h : Cut text steps k) : Division text steps (slashes k) := by
  have hslashes : ∀ k, ∀ c ∈ Selector.slashes k, c = '/' := fun _ _ => List.eq_of_mem_replicate
  induction h with
  | bare n => exact ⟨rfl, hslashes n, List.forall_mem_nil _, List.forall_mem_nil _, by simp⟩
  | @last n body hne hfree =>
    refine ⟨by simp [slashes], hslashes 0, ?_, List.forall_mem_nil _, ?_⟩
    · exact List.forall_mem_singleton.2 (isStep_iff.2 ⟨n, body, rfl, hne, hfree⟩)
    · rintro before step after heq hafter
      rcases hafter with hafter | hafter
      · rw [eq_comm, List.append_eq_singleton_iff] at heq
        simp [hafter] at heq
      · exact absurd rfl hafter
  | @next n body rest steps k hbody hlater ih =>
    have hne : body ≠ [] := by
      obtain ⟨c, more, rfl, -⟩ := hbody.head
      exact List.cons_ne_nil c more
    refine ⟨?_, ih.slashes, ?_, ih.head?_eq, ?_⟩
    · rw [List.flatten_cons, List.append_assoc, ih.whole]
    · exact List.forall_mem_cons.2 ⟨isStep_iff.2 ⟨n, body, rfl, hne, hbody.closed.2⟩, ih.isStep⟩
    · rintro before step after heq hafter
      cases before with
      | nil =>
        obtain ⟨rfl, -⟩ := List.cons.inj heq
        exact even_count_slashes_append.2 hbody.closed.1
      | cons b before => exact ih.closed before step after (List.cons.inj heq).2 hafter

/-- Without its first step a text is divided too. -/
theorem Division.of_cons {step : List Char} (h : Division text (step :: steps) left) :
    Division (steps.flatten ++ left) steps left where
  whole := rfl
  slashes := h.slashes
  isStep s hs := h.isStep s (List.mem_cons_of_mem _ hs)
  later s hs := h.later s (List.mem_of_mem_tail hs)
  closed before s after heq := h.closed (step :: before) s after (congrArg (step :: ·) heq)

/-- Behind a step stands nothing, or a slash. -/
theorem Division.behind {step : List Char} (h : Division text (step :: steps) left) :
    steps = [] ∧ left = [] ∨ ∃ rest, steps.flatten ++ left = '/' :: rest := by
  cases steps with
  | nil =>
    cases left with
    | nil => exact .inl ⟨rfl, rfl⟩
    | cons c left =>
      obtain rfl := h.slashes c List.mem_cons_self
      exact .inr ⟨left, rfl⟩
  | cons next steps =>
    obtain ⟨rest, rfl⟩ := List.head?_eq_some_iff.1 (h.later next List.mem_cons_self)
    exact .inr ⟨rest ++ (steps.flatten ++ left), by simp⟩

/-- A division of a text is what the text is cut into. -/
theorem Division.cut : ∀ {steps : List (List Char)} {text : List Char},
    Division text steps left → Cut text steps left.length
  | [], text, h => by
    have htext : text = Selector.slashes left.length := by
      rw [← h.whole]
      exact List.eq_replicate_of_mem h.slashes
    rw [htext]
    exact Cut.bare _
  | step :: steps, text, h => by
    obtain ⟨n, body, rfl, hne, hfree⟩ := isStep_iff.1 (h.isStep step List.mem_cons_self)
    have hwhole := h.whole
    rw [List.flatten_cons, List.append_assoc] at hwhole
    rcases h.behind with ⟨rfl, rfl⟩ | ⟨rest, hrest⟩
    · rw [← hwhole, List.flatten_nil, List.append_nil, List.append_nil]
      exact Cut.last n hne hfree
    · have hlater := h.of_cons.cut
      have hfollowed : steps ≠ [] ∨ left ≠ [] := by
        by_contra hnone
        simp only [not_or, not_not] at hnone
        simp [hnone.1, hnone.2] at hrest
      have hquoted := even_count_slashes_append.1 (h.closed [] _ steps rfl hfollowed)
      rw [hrest] at hlater hwhole
      rw [← hwhole]
      exact Cut.next n (StepText.of_free hne hfree hquoted) hlater

/-- **A selector is divided in one way.** Lists of texts that make up a text but for slashes at its
end, and of which each is a step, each but the first begins with a slash, and each that something
follows has its literals closed, are the steps that are read, and nothing else is. -/
theorem exists_division_iff (text : List Char) (steps : List (List Char)) :
    (∃ left, Division text steps left) ↔ splitSteps text = steps := by
  constructor
  · rintro ⟨left, h⟩
    exact h.cut.splitSteps_eq
  · rintro rfl
    obtain ⟨k, hcut⟩ := exists_cut text
    exact ⟨slashes k, hcut.division⟩

end Gleaner.Selector
