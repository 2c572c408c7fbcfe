/-
# Selectors cut into steps

A selector is cut in front of each slash that follows a step, literals apart. What it is cut into is
said by a relation that follows the text from the front: slashes and the text of a step, again and
again, and slashes that no step follows at the end. The steps that a reading finds are the ones in
that relation, so a fact on all steps is one by induction on the cut.

Key definitions: `Cut`.
Key theorems: `exists_cut`, `Cut.splitSteps_eq`, `Cut.prepend`, `Cut.append`, `Cut.last_segment`.
-/
import Gleaner.Proofs.Selector.Scanning
import Mathlib.Data.List.Basic

namespace Gleaner.Selector

open Gleaner.Text

/-- A row of slashes. -/
def slashes (n : Nat) : List Char :=
  List.replicate n '/'

/-- A text is cut into steps, with a number of slashes that no step follows. In the last step a
literal may be open. -/
inductive Cut : List Char → List (List Char) → Nat → Prop
  | bare (n : Nat) : Cut (slashes n) [] n
  | last (n : Nat) {body : List Char} : body ≠ [] → freeOf isSlash false body = true →
    Cut (slashes n ++ body) [slashes n ++ body] 0
  | next (n : Nat) {body rest : List Char} {steps : List (List Char)} {k : Nat} :
    StepText body → Cut ('/' :: rest) steps k →
    Cut (slashes n ++ body ++ '/' :: rest) ((slashes n ++ body) :: steps) k

theorem slashes_succ (n : Nat) : slashes (n + 1) = slashes n ++ ['/'] :=
  List.replicate_succ'

theorem hasBody_slashes (n : Nat) : hasBody (slashes n) = false := by
  simp [hasBody, slashes]

theorem quotedAfter_slashes (n : Nat) (quoted : Bool) : quotedAfter quoted (slashes n) = quoted :=
  quotedAfter_of_no_quote (fun hc => absurd (List.eq_of_mem_replicate hc) (by decide)) quoted

theorem dropWhile_slashes (n : Nat) (text : List Char) :
    (slashes n ++ text).dropWhile (· == '/') = text.dropWhile (· == '/') :=
  List.dropWhile_append_of_pos fun _ hc => beq_iff_eq.2 (List.eq_of_mem_replicate hc)

/-- A text that is not empty and has no slashes outside of literals does not begin with one. -/
theorem head_of_free {body : List Char} (hne : body ≠ [])
    (hfree : freeOf isSlash false body = true) : ∃ c rest, body = c :: rest ∧ c ≠ '/' := by
  obtain ⟨c, rest, rfl⟩ := List.exists_cons_of_ne_nil hne
  refine ⟨c, rest, rfl, ?_⟩
  rintro rfl
  cases hfree

theorem StepText.of_free {body : List Char} (hne : body ≠ [])
    (hfree : freeOf isSlash false body = true) (hquoted : quotedAfter false body = false) :
    StepText body :=
  ⟨⟨hquoted, hfree⟩, head_of_free hne hfree⟩

theorem hasBody_of_free {body : List Char} (hne : body ≠ [])
    (hfree : freeOf isSlash false body = true) (front : List Char) :
    hasBody (front ++ body) = true := by
  obtain ⟨c, rest, rfl, hc⟩ := head_of_free hne hfree
  simp [hasBody, hc]

/-! ### The steps of a text -/

/-- The invariant of the loop over the characters: what has been read of a step is slashes, or
slashes and a text in which a literal may be open. -/
theorem exists_cut_stepsFrom : ∀ text : List Char,
    (∀ n, ∃ k, Cut (slashes n ++ text) (stepsFrom (slashes n) false text) k) ∧
      ∀ n (body : List Char), body ≠ [] → freeOf isSlash false body = true →
        ∃ k, Cut (slashes n ++ body ++ text)
          (stepsFrom (slashes n ++ body) (quotedAfter false body) text) k
  | [] => by
    refine ⟨fun n => ⟨n, ?_⟩, fun n body hne hfree => ⟨0, ?_⟩⟩
    · rw [stepsFrom, hasBody_slashes, List.append_nil]
      exact Cut.bare n
    · rw [stepsFrom, hasBody_of_free hne hfree, List.append_nil]
      exact Cut.last n hne hfree
  | c :: text => by
    obtain ⟨hbefore, hinside⟩ := exists_cut_stepsFrom text
    refine ⟨fun n => ?_, fun n body hne hfree => ?_⟩
    · rw [stepsFrom_cons (by rw [hasBody_slashes, Bool.and_false])]
      by_cases hc : c = '/'
      · have hnext := hbefore (n + 1)
        rw [slashes_succ, List.append_assoc] at hnext
        rw [hc]
        exact hnext
      · have hone : freeOf isSlash false [c] = true := by simp [freeOf, isSlash, hc]
        have hnext := hinside n [c] (List.cons_ne_nil c []) hone
        rw [List.append_assoc] at hnext
        exact hnext
    · by_cases hc : c = '/' ∧ quotedAfter false body = false
      · obtain ⟨rfl, hquoted⟩ := hc
        obtain ⟨k, hlater⟩ := hbefore 1
        rw [stepsFrom, if_neg (by decide), hquoted, if_pos (by simp [hasBody_of_free hne hfree])]
        exact ⟨k, Cut.next n (StepText.of_free hne hfree hquoted) hlater⟩
      · have hkeep : (c == '/' && !quotedAfter false body) = false := by
          rw [not_and, Bool.not_eq_false] at hc
          by_cases hslash : c = '/'
          · simp [hc hslash]
          · simp [hslash]
        have hmore : freeOf isSlash false (body ++ [c]) = true := by
          rw [freeOf_append, hfree, freeOf, freeOf]
          rw [Bool.and_eq_false_iff] at hkeep
          rcases hkeep with hslash | hquoted
          · simp [isSlash, hslash]
          · simp only [Bool.not_eq_false'] at hquoted
            simp [hquoted]
        have hnext := hinside n (body ++ [c]) (by simp) hmore
        rw [quotedAfter_append, ← List.append_assoc, List.append_assoc (slashes n ++ body)] at hnext
        rw [stepsFrom_cons (by rw [hkeep, Bool.false_and])]
        exact hnext

/-- The steps of a selector are what it is cut into. -/
theorem exists_cut (text : List Char) : ∃ k, Cut text (splitSteps text) k :=
  (exists_cut_stepsFrom text).1 0

theorem stepsFrom_slashes_append (n : Nat) (text : List Char) :
    stepsFrom [] false (slashes n ++ text) = stepsFrom (slashes n) false text := by
  rw [slashes, stepsFrom_slashes n (by rfl), List.nil_append]

/-- A text without slashes outside of literals goes on with the slashes in front of it. -/
theorem stepsFrom_body {body : List Char} (hne : body ≠ [])
    (hfree : freeOf isSlash false body = true) (n : Nat) (rest : List Char) :
    stepsFrom (slashes n) false (body ++ rest) =
      stepsFrom (slashes n ++ body) (quotedAfter false body) rest := by
  obtain ⟨c, text, rfl, hc⟩ := head_of_free hne hfree
  have hone : [c] ≠ [] ∧ freeOf isSlash false [c] = true := by simp [freeOf, isSlash, hc]
  have hbody := hasBody_of_free hone.1 hone.2 (slashes n)
  rw [freeOf, Bool.and_eq_true] at hfree
  rw [List.cons_append, stepsFrom_cons (by rw [hasBody_slashes, Bool.and_false]),
    stepsFrom_free rest text hbody hfree.2, List.append_assoc]
  rfl

/-- What a text is cut into are the steps that are read. -/
theorem Cut.splitSteps_eq {text : List Char} {steps : List (List Char)} {k : Nat}
    (h : Cut text steps k) : splitSteps text = steps := by
  induction h with
  | bare n =>
    have hsplit := stepsFrom_slashes_append n []
    rw [List.append_nil, stepsFrom, hasBody_slashes] at hsplit
    exact hsplit
  | @last n body hne hfree =>
    have hsplit := stepsFrom_body hne hfree n []
    rw [List.append_nil, stepsFrom, hasBody_of_free hne hfree] at hsplit
    rw [splitSteps, stepsFrom_slashes_append, hsplit]
    rfl
  | @next n body rest steps k hbody hlater ih =>
    obtain ⟨c, more, hcons, -⟩ := hbody.head
    have hne : body ≠ [] := by simp [hcons]
    have hslash : stepsFrom [] false ('/' :: rest) = stepsFrom ['/'] false rest :=
      stepsFrom_slashes_append 1 rest
    rw [splitSteps, hslash] at ih
    rw [splitSteps, List.append_assoc, stepsFrom_slashes_append, stepsFrom_body hne hbody.closed.2,
      hbody.closed.1, ← ih]
    exact stepsFrom_next (hbody.hasBody (slashes n)) 0 rest

/-! ### Texts put around a text -/

theorem slashes_head_ne {n : Nat} {c : Char} {rest more : List Char} (hc : c ≠ '/')
    (h : slashes n ++ more = c :: rest) : n = 0 := by
  cases n with
  | zero => rfl
  | succ n =>
    rw [slashes, List.replicate_succ] at h
    exact absurd (List.cons.inj h).1.symm hc

section

variable {text : List Char} {steps : List (List Char)} {k : Nat} {added : List Char}

/-- In front of a slash, or of nothing, a text makes a step of its own. -/
theorem Cut.prepend_own (h : Cut text steps k) (htext : text = [] ∨ text.head? = some '/')
    (hadded : StepText added) : Cut (added ++ text) (added :: steps) k := by
  cases text with
  | nil =>
    obtain ⟨c, rest, hcons, -⟩ := hadded.head
    have hlast := Cut.last 0 (by simp [hcons]) hadded.closed.2
    rw [List.append_nil]
    generalize htext : ([] : List Char) = text at h
    cases h with
    | bare =>
      cases k with
      | zero => exact hlast
      | succ k => cases htext
    | last n hne _ =>
      rw [eq_comm, List.append_eq_nil_iff] at htext
      exact absurd htext.2 hne
    | next n _ _ => simp at htext
  | cons c rest =>
    obtain rfl : c = '/' := Option.some.inj (htext.resolve_left (List.cons_ne_nil _ _))
    exact Cut.next 0 hadded h

/-- In front of anything else it belongs to the first step. -/
theorem Cut.prepend {c : Char} {rest : List Char} (h : Cut (c :: rest) steps k) (hc : c ≠ '/')
    (hadded : Closed isSlash added) :
    ∃ first others, steps = first :: others ∧
      Cut (added ++ c :: rest) ((added ++ first) :: others) k := by
  generalize htext : c :: rest = text at h
  cases h with
  | bare =>
    have hslashes : slashes k ++ [] = c :: rest := by rw [List.append_nil, htext]
    obtain rfl := slashes_head_ne hc hslashes
    cases htext
  | @last n body hne hfree =>
    obtain rfl := slashes_head_ne hc htext.symm
    have hfree' : freeOf isSlash false (added ++ body) = true := by
      rw [freeOf_append, hadded.1, hadded.2, hfree]
      rfl
    exact ⟨_, _, rfl, Cut.last 0 (by simp [hne]) hfree'⟩
  | @next n body rest' others k hbody hlater =>
    rw [List.append_assoc] at htext
    obtain rfl := slashes_head_ne hc htext.symm
    obtain ⟨d, more, hcons, -⟩ := hbody.head
    have hclosed := hadded.append hbody.closed
    have hnext := Cut.next 0 (StepText.of_free (by simp [hcons]) hclosed.2 hclosed.1) hlater
    refine ⟨_, _, rfl, ?_⟩
    simpa [slashes] using hnext

/-- Behind slashes that no step follows, or nothing, a text makes a step of its own. -/
theorem Cut.append_own (h : Cut text steps k) (hk : 0 < k ∨ steps = []) (hne : added ≠ [])
    (hadded : freeOf isSlash false added = true) :
    Cut (text ++ added) (steps ++ [slashes k ++ added]) 0 := by
  induction h with
  | bare n => exact Cut.last n hne hadded
  | last n => simp at hk
  | @next n body rest steps k hbody hlater ih =>
    have hnext := Cut.next n hbody (ih (.inl (hk.resolve_right (List.cons_ne_nil _ _))))
    simpa using hnext

/-- A text is in its steps, the slashes at its end apart. -/
theorem Cut.ne_nil (h : Cut text steps 0) (htext : text ≠ []) : steps ≠ [] := by
  rintro rfl
  cases h
  exact htext rfl

/-- Behind anything else it belongs to the last step. -/
theorem Cut.append (h : Cut text steps 0) (hsteps : steps ≠ [])
    (hadded : ∀ quoted, freeOf isSlash quoted added = true) :
    ∃ init last, steps = init ++ [last] ∧ Cut (text ++ added) (init ++ [last ++ added]) 0 := by
  generalize hk : 0 = n at h
  induction h with
  | bare n => exact absurd rfl hsteps
  | @last n body hne hfree =>
    refine ⟨[], _, rfl, ?_⟩
    have hmore : freeOf isSlash false (body ++ added) = true := by
      rw [freeOf_append, hfree, hadded]
      rfl
    have hlast := Cut.last n (by simp [hne]) hmore
    simpa using hlast
  | @next n body rest steps k' hbody hlater ih =>
    subst hk
    obtain ⟨init, last, rfl, hcut⟩ := ih (hlater.ne_nil (List.cons_ne_nil _ _)) rfl
    refine ⟨(slashes n ++ body) :: init, last, rfl, ?_⟩
    have hnext := Cut.next n hbody hcut
    simpa using hnext

end

/-! ### The end of a text -/

/-- A text ends in a slash outside of literals. -/
def EndsInSlash (text : List Char) : Prop :=
  ∃ before, text = before ++ ['/'] ∧ quotedAfter false before = false

theorem endsInSlash_concat {init : List Char} {c : Char} :
    EndsInSlash (init ++ [c]) ↔ c = '/' ∧ quotedAfter false init = false := by
  constructor
  · rintro ⟨before, htext, hquoted⟩
    obtain ⟨rfl, hc⟩ := List.append_inj' htext rfl
    exact ⟨List.singleton_inj.1 hc, hquoted⟩
  · rintro ⟨rfl, hquoted⟩
    exact ⟨init, rfl, hquoted⟩

theorem endsInSlash_iff_getLast? {text : List Char} : EndsInSlash text ↔
    text.getLast? = some '/' ∧ quotedAfter false text.dropLast = false := by
  rcases text.eq_nil_or_concat' with rfl | ⟨init, c, rfl⟩
  · exact iff_of_false (fun ⟨before, htext, _⟩ => by simp at htext) (by simp)
  · rw [endsInSlash_concat, List.getLast?_concat, List.dropLast_concat, Option.some.injEq]

instance (text : List Char) : Decidable (EndsInSlash text) :=
  decidable_of_iff _ endsInSlash_iff_getLast?.symm

theorem endsInSlash_append {front text : List Char} (hfront : quotedAfter false front = false)
    (htext : text ≠ []) : EndsInSlash (front ++ text) ↔ EndsInSlash text := by
  obtain ⟨init, c, rfl⟩ := text.eq_nil_or_concat'.resolve_left htext
  rw [← List.append_assoc, endsInSlash_concat, endsInSlash_concat, quotedAfter_append, hfront]

theorem not_endsInSlash_of_free {body : List Char} (hfree : freeOf isSlash false body = true) :
    ¬EndsInSlash body := by
  rintro ⟨before, rfl, hquoted⟩
  rw [freeOf_append, hquoted, Bool.and_eq_true] at hfree
  exact absurd hfree.2 (by decide)

variable {text : List Char} {steps : List (List Char)} {k : Nat}

/-- A text ends in a slash exactly if slashes are left that no step follows. -/
theorem Cut.endsInSlash_iff (h : Cut text steps k) : EndsInSlash text ↔ 0 < k := by
  induction h with
  | bare n =>
    cases n with
    | zero => exact iff_of_false (fun ⟨before, htext, _⟩ => by simp [slashes] at htext) (by decide)
    | succ n =>
      rw [slashes_succ, endsInSlash_concat, quotedAfter_slashes]
      simp
  | last n hne hfree =>
    rw [endsInSlash_append (quotedAfter_slashes n false) hne]
    exact iff_of_false (not_endsInSlash_of_free hfree) (by decide)
  | @next n body rest steps k hbody hlater ih =>
    have hfront : quotedAfter false (slashes n ++ body) = false := by
      rw [quotedAfter_append, quotedAfter_slashes, hbody.closed.1]
    rw [endsInSlash_append hfront (List.cons_ne_nil _ _), ih]

/-- The last step is slashes and what follows the last slash of the text, or all of the text if no
slash stands in it. -/
theorem Cut.last_segment (h : Cut text steps 0) (htext : text ≠ []) :
    ∃ n body, steps.getLast? = some (slashes n ++ body) ∧ freeOf isSlash false body = true ∧
      (text = body ∨
        ∃ before, text = before ++ '/' :: body ∧ quotedAfter false before = false) := by
  generalize hk : 0 = m at h
  induction h with
  | bare n =>
    subst hk
    exact absurd rfl htext
  | @last n body hne hfree =>
    refine ⟨n, body, rfl, hfree, ?_⟩
    cases n with
    | zero => exact .inl rfl
    | succ n =>
      refine .inr ⟨slashes n, ?_, quotedAfter_slashes n false⟩
      rw [slashes_succ, List.append_assoc]
      rfl
  | @next n body rest steps k hbody hlater ih =>
    subst hk
    obtain ⟨n', last, hlast, hfree, hsplit⟩ := ih (List.cons_ne_nil _ _) rfl
    refine ⟨n', last, ?_, hfree, .inr ?_⟩
    · rw [List.getLast?_cons, hlast]
      rfl
    · rcases hsplit with rfl | ⟨before, hrest, hquoted⟩
      · cases hfree
      · refine ⟨slashes n ++ body ++ before, ?_, ?_⟩
        · rw [hrest]
          simp
        · rw [quotedAfter_append, quotedAfter_append, quotedAfter_slashes, hbody.closed.1, hquoted]

end Gleaner.Selector
