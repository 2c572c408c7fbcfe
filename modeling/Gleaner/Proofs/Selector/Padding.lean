/-
# Blanks around a selector

Each step of a selector is trimmed, but only after the selector has been cut at its slashes, where a
blank counts as the text of a step like any other character. So blanks around a selector are cut off
with its first and its last step, unless a slash stands at that end: then they make a step of their
own, which goes to any element. Nothing else changes, and a selector that is none stays none.

Key definitions: `reading`, `stepMeaning`.
Key theorems: `reading_eq_some_iff`, `exists_front`, `exists_back`, `evaluate_congr`,
`padded_reading_iff`.
-/
import Gleaner.Proofs.Selector.Cutting
import Gleaner.Proofs.Selector.Layout
import Gleaner.Proofs.Selector.Reading
import Gleaner.Selector.Selecting

namespace Gleaner.Selector

open Gleaner.Text Gleaner.Markup

/-! ### What a selector means -/

/-- What a step means: how far it goes, and to what. -/
def Step.meaning (s : Step) : Reach × Target :=
  (s.reach, s.target)

/-- What a text means as a step, if it is one. -/
def stepMeaning (text : List Char) : Option (Reach × Target) :=
  (Step.read text).toOption.map Step.meaning

/-- What the steps to elements of a selector mean, and its accessor, if the text is a selector. -/
def reading (text : List Char) : Option (List (Reach × Target) × Option Accessor) :=
  (read (String.ofList text)).toOption.map fun s => (s.path.map Step.meaning, s.accessor)

/-- The accessor that a step of this meaning is, if it is one. -/
def meantAccessor? (m : Reach × Target) : Option Accessor :=
  m.2.accessor?

/-- Steps that are the same when they are trimmed mean the same. -/
theorem stepMeaning_congr {a b : List Char} (h : trim a = trim b) :
    stepMeaning a = stepMeaning b := by
  have hbody : stepBody a = stepBody b := by rw [stepBody, stepBody, h]
  have hreach : stepReach a = stepReach b := by rw [stepReach, stepReach, h]
  unfold stepMeaning Step.read
  rw [hbody, hreach]
  dsimp only
  cases readBrackets (stepBody b) with
  | error filter => rfl
  | ok brackets =>
    dsimp only
    cases readFilters brackets.groups with
    | error filter => rfl
    | ok filters =>
      dsimp only
      cases brackets.trailing with
      | some c => rfl
      | none =>
        dsimp only
        cases readTarget (trim brackets.text) filters <;> rfl

theorem Composed.map_iff {α β : Type} {f : β → Option Accessor} {g : α → β} {row : List α}
    {path : List β} {accessor : Option Accessor} : Composed f (row.map g) path accessor ↔
      ∃ path', path'.map g = path ∧ Composed (fun a => f (g a)) row path' accessor := by
  constructor
  · rintro ⟨⟨last, hrow, hlast⟩, hpath⟩
    obtain ⟨path', last', rfl, rfl, rfl⟩ := List.map_eq_append_iff.1 hrow
    rw [List.forall_mem_map] at hpath
    rw [List.map_map] at hlast
    exact ⟨path', rfl, ⟨last', rfl, hlast⟩, hpath⟩
  · rintro ⟨path', rfl, ⟨last, rfl, hlast⟩, hpath⟩
    refine ⟨⟨last.map g, List.map_append, ?_⟩, List.forall_mem_map.2 hpath⟩
    rw [List.map_map]
    exact hlast

theorem stepMeaning_eq_some_iff {text : List Char} {m : Reach × Target} :
    stepMeaning text = some m ↔ ∃ s, Step.read text = .ok s ∧ s.meaning = m := by
  unfold stepMeaning
  cases Step.read text <;> simp [Except.toOption]

/-- Steps that all mean something are steps that are all read. -/
theorem map_stepMeaning_iff : ∀ {texts : List (List Char)} {row : List (Reach × Target)},
    texts.map stepMeaning = row.map some ↔
      ∃ steps : List Step, texts.map Step.read = steps.map .ok ∧ steps.map Step.meaning = row
  | [], row => by cases row <;> simp
  | text :: texts, [] => by simp
  | text :: texts, m :: row => by
    rw [List.map_cons, List.map_cons, List.cons.injEq, stepMeaning_eq_some_iff,
      map_stepMeaning_iff]
    constructor
    · rintro ⟨⟨s, hs, hm⟩, steps, hsteps, hrow⟩
      exact ⟨s :: steps, by simp [hs, hsteps], by simp [hm, hrow]⟩
    · rintro ⟨steps, hsteps, hrow⟩
      cases steps with
      | nil => cases hrow
      | cons s steps =>
        obtain ⟨hs, hsteps⟩ := List.cons.inj hsteps
        obtain ⟨hm, hrow⟩ := List.cons.inj hrow
        exact ⟨⟨s, hs, hm⟩, steps, hsteps, hrow⟩

/-- What a selector means is what its steps mean. -/
theorem reading_eq_some_iff {text : List Char} {path : List (Reach × Target)}
    {accessor : Option Accessor} : reading text = some (path, accessor) ↔
      splitSteps text ≠ [] ∧ ∃ row, (splitSteps text).map stepMeaning = row.map some ∧
        Composed meantAccessor? row path accessor := by
  have haccessor : (fun s : Step => meantAccessor? s.meaning) = Step.accessor? :=
    funext fun s => s.accessor?_eq.symm
  have hreading : reading text = some (path, accessor) ↔ ∃ s, read (String.ofList text) = .ok s ∧
      s.path.map Step.meaning = path ∧ s.accessor = accessor := by
    unfold reading
    cases read (String.ofList text) <;> simp [Except.toOption]
  rw [hreading]
  constructor
  · rintro ⟨s, hs, rfl, rfl⟩
    obtain ⟨hne, steps, hsteps, -, hcomposed⟩ := read_eq_ok_iff.1 hs
    rw [String.toList_ofList] at hne hsteps
    refine ⟨hne, steps.map Step.meaning, map_stepMeaning_iff.2 ⟨steps, hsteps, rfl⟩, ?_⟩
    rw [Composed.map_iff, haccessor]
    exact ⟨s.path, rfl, hcomposed⟩
  · rintro ⟨hne, row, hrow, hcomposed⟩
    obtain ⟨steps, hsteps, rfl⟩ := map_stepMeaning_iff.1 hrow
    rw [Composed.map_iff, haccessor] at hcomposed
    obtain ⟨path', hpath, hcomposed⟩ := hcomposed
    refine ⟨⟨String.ofList text, path', accessor⟩, read_eq_ok_iff.2 ?_, hpath, rfl⟩
    rw [String.toList_ofList]
    exact ⟨hne, steps, hsteps, rfl, hcomposed⟩

/-! ### Steps of their own -/

theorem stepBody_slashes (n : Nat) : stepBody (slashes n) = [] := by
  have htrim : trim (slashes n) = slashes n := by
    cases n with
    | zero => rfl
    | succ n =>
      refine (Solid.of_forall (List.cons_ne_nil _ _) fun c hc => ?_).trim_eq
      have hslash : c = '/' := List.eq_of_mem_replicate (n := n + 1) hc
      rw [hslash]
      decide
  rw [stepBody, htrim, ← List.append_nil (slashes n), dropWhile_slashes]
  rfl

/-- Slashes and blanks alone are a step to any element. -/
theorem stepMeaning_blanks (n : Nat) {blanks : List Char} (h : Blanks blanks) :
    ∃ reach, stepMeaning (slashes n ++ blanks) = some (reach, .element "*" []) := by
  refine ⟨stepReach (slashes n), ?_⟩
  rw [stepMeaning_congr (trim_append_blanks (slashes n) h), stepMeaning, Step.read,
    stepBody_slashes]
  rfl

/-- What blanks in front of a text add to what its steps mean: a step if nothing or a slash
follows. -/
theorem exists_front {before : List Char} (hbefore : Blanks before) (text : List Char) :
    ∃ front : List (Reach × Target),
      (splitSteps (before ++ text)).map stepMeaning =
          front.map some ++ (splitSteps text).map stepMeaning ∧
        (∀ m ∈ front, meantAccessor? m = none) ∧
        (front = [] ↔ before = [] ∨ text ≠ [] ∧ text.head? ≠ some '/') := by
  by_cases hne : before = []
  · exact ⟨[], by simp [hne], List.forall_mem_nil _, by simp [hne]⟩
  obtain ⟨k, hcut⟩ := exists_cut text
  have hclosed := closed_slash_blanks hbefore
  by_cases hown : text = [] ∨ text.head? = some '/'
  · obtain ⟨reach, hmeaning⟩ := stepMeaning_blanks 0 hbefore
    change stepMeaning before = _ at hmeaning
    have hsplit := hcut.prepend_own hown (StepText.of_free hne hclosed.2 hclosed.1)
    refine ⟨[(reach, .element "*" [])], ?_, List.forall_mem_singleton.2 rfl, ?_⟩
    · rw [hsplit.splitSteps_eq, List.map_cons, hmeaning]
      rfl
    · refine iff_of_false (List.cons_ne_nil _ _) ?_
      rintro (h | ⟨htext, hhead⟩)
      · exact hne h
      · exact hown.elim htext hhead
  · rw [not_or] at hown
    obtain ⟨c, rest, rfl⟩ := List.exists_cons_of_ne_nil hown.1
    have hc : c ≠ '/' := fun hc => hown.2 (congrArg some hc)
    obtain ⟨first, others, hsteps, hfirst⟩ := hcut.prepend hc hclosed
    have hsame := stepMeaning_congr (trim_blanks_append hbefore first)
    refine ⟨[], ?_, List.forall_mem_nil _, iff_of_true rfl (.inr hown)⟩
    rw [hfirst.splitSteps_eq, hsteps, List.map_cons, hsame]
    rfl

/-- What blanks behind a text add: a step if no step or a slash stands before them. -/
theorem exists_back {after : List Char} (hafter : Blanks after) (text : List Char) :
    ∃ back : List (Reach × Target),
      (splitSteps (text ++ after)).map stepMeaning =
          (splitSteps text).map stepMeaning ++ back.map some ∧
        (∀ m ∈ back, meantAccessor? m = none) ∧
        (back = [] ↔ after = [] ∨ splitSteps text ≠ [] ∧ ¬EndsInSlash text) := by
  by_cases hne : after = []
  · exact ⟨[], by simp [hne], List.forall_mem_nil _, by simp [hne]⟩
  obtain ⟨k, hcut⟩ := exists_cut text
  rw [hcut.endsInSlash_iff]
  by_cases hown : 0 < k ∨ splitSteps text = []
  · obtain ⟨reach, hmeaning⟩ := stepMeaning_blanks k hafter
    have hsplit := hcut.append_own hown hne (closed_slash_blanks hafter).2
    refine ⟨[(reach, .element "*" [])], ?_, List.forall_mem_singleton.2 rfl, ?_⟩
    · rw [hsplit.splitSteps_eq, List.map_append, List.map_singleton, hmeaning]
      rfl
    · refine iff_of_false (List.cons_ne_nil _ _) ?_
      rintro (h | ⟨hsteps, hslash⟩)
      · exact hne h
      · exact hown.elim hslash hsteps
  · rw [not_or] at hown
    obtain rfl : k = 0 := Nat.eq_zero_of_not_pos hown.1
    have hfree : ∀ quoted, freeOf isSlash quoted after = true := fun quoted =>
      freeOf_of_forall quoted fun c hc => Bool.eq_false_iff.2 fun hslash =>
        (not_separator_of_blanks hafter c hc).2 (separator_of_isSlash hslash)
    obtain ⟨init, last, hsteps, hlast⟩ := hcut.append hown.2 hfree
    have hsame := stepMeaning_congr (trim_append_blanks last hafter)
    refine ⟨[], ?_, List.forall_mem_nil _, iff_of_true rfl (.inr ⟨hown.2, hown.1⟩)⟩
    rw [hlast.splitSteps_eq, hsteps, List.map_append, List.map_append, List.map_singleton,
      List.map_singleton, hsame]
    simp

/-! ### Steps added at the ends -/

/-- Steps at the ends of a row that is a selector cut off leave one. -/
theorem Composed.middle {front row back path : List (Reach × Target)} {accessor : Option Accessor}
    (hback : ∀ m ∈ back, meantAccessor? m = none) (hrow : row ≠ [])
    (h : Composed meantAccessor? (front ++ row ++ back) path accessor) :
    ∃ path' accessor', Composed meantAccessor? row path' accessor' := by
  obtain ⟨⟨last, hwhole, hlast⟩, hpath⟩ := h
  cases accessor with
  | none =>
    rw [List.map_eq_nil_iff.1 hlast, List.append_nil] at hwhole
    refine ⟨row, none, ⟨[], (List.append_nil row).symm, rfl⟩, fun m hm => hpath m ?_⟩
    simp [← hwhole, hm]
  | some a =>
    obtain ⟨x, rfl, hx⟩ := List.map_eq_singleton_iff.1 hlast
    rcases back.eq_nil_or_concat' with rfl | ⟨init, y, rfl⟩
    · obtain ⟨init, y, rfl⟩ := row.eq_nil_or_concat'.resolve_left hrow
      rw [List.append_nil, ← List.append_assoc] at hwhole
      obtain ⟨hinit, hy⟩ := List.append_inj' hwhole rfl
      rw [List.singleton_inj] at hy
      refine ⟨init, some a, ⟨[y], rfl, by rw [hy]; exact hlast⟩, fun m hm => hpath m ?_⟩
      simp [← hinit, hm]
    · -- The last of the steps behind the row is no accessor.
      rw [← List.append_assoc] at hwhole
      obtain ⟨-, hy⟩ := List.append_inj' hwhole rfl
      rw [List.singleton_inj] at hy
      have hnone := hback y (by simp)
      rw [hy, hx] at hnone
      cases hnone

theorem Composed.length_eq {α : Type} {f : α → Option Accessor} {row path : List α}
    {accessor : Option Accessor} (h : Composed f row path accessor) :
    row.length = path.length + accessor.toList.length := by
  obtain ⟨⟨last, rfl, hlast⟩, -⟩ := h
  have hlength := congrArg List.length hlast
  rw [List.length_map, List.length_map] at hlength
  rw [List.length_append, hlength]

/-- Steps to elements at the ends of a selector change what it means, and make no selector of
what is none. -/
theorem reading_eq_iff_of_added {text padded : List Char} {front back : List (Reach × Target)}
    (hsteps : splitSteps text ≠ []) (hback : ∀ m ∈ back, meantAccessor? m = none)
    (hpadded : (splitSteps padded).map stepMeaning =
      front.map some ++ (splitSteps text).map stepMeaning ++ back.map some) :
    reading padded = reading text ↔ reading text = none ∨ front = [] ∧ back = [] := by
  have hmore : splitSteps padded ≠ [] := by
    intro hnil
    rw [hnil, List.map_nil, eq_comm, List.append_eq_nil_iff, List.append_eq_nil_iff] at hpadded
    exact hsteps (List.map_eq_nil_iff.1 hpadded.1.2)
  have hrow {path : List (Reach × Target)} {accessor : Option Accessor}
      (h : reading padded = some (path, accessor)) : ∃ row,
        (splitSteps text).map stepMeaning = row.map some ∧
          Composed meantAccessor? (front ++ row ++ back) path accessor := by
    obtain ⟨-, whole, hwhole, hcomposed⟩ := reading_eq_some_iff.1 h
    have hinj := List.map_injective_iff.2 (Option.some_injective (Reach × Target))
    rw [hpadded, eq_comm, List.map_eq_append_iff] at hwhole
    obtain ⟨others, last, rfl, hothers, hlast⟩ := hwhole
    obtain ⟨first, row, rfl, hfirst, hrow⟩ := List.map_eq_append_iff.1 hothers
    obtain rfl := hinj hfirst
    obtain rfl := hinj hlast
    exact ⟨row, hrow.symm, hcomposed⟩
  constructor
  · intro hsame
    cases htext : reading text with
    | none => exact .inl rfl
    | some r =>
      obtain ⟨path, accessor⟩ := r
      obtain ⟨-, row, hmeant, hcomposed⟩ := reading_eq_some_iff.1 htext
      obtain ⟨row', hmeant', hlonger⟩ := hrow (hsame.trans htext)
      obtain rfl : row = row' :=
        List.map_injective_iff.2 (Option.some_injective _) (hmeant.symm.trans hmeant')
      have hlength := hlonger.length_eq.trans hcomposed.length_eq.symm
      rw [List.length_append, List.length_append] at hlength
      exact .inr ⟨List.length_eq_zero_iff.1 (by omega), List.length_eq_zero_iff.1 (by omega)⟩
  · rintro (hnone | ⟨rfl, rfl⟩)
    · rw [hnone, Option.eq_none_iff_forall_ne_some]
      rintro ⟨path, accessor⟩ hsome
      obtain ⟨row, hmeant, hcomposed⟩ := hrow hsome
      have hne : row ≠ [] := by
        rintro rfl
        exact hsteps (List.map_eq_nil_iff.1 hmeant)
      obtain ⟨path', accessor', hmiddle⟩ := hcomposed.middle hback hne
      rw [reading_eq_some_iff.2 ⟨hsteps, row, hmeant, hmiddle⟩] at hnone
      cases hnone
    · have hmeant : (splitSteps padded).map stepMeaning = (splitSteps text).map stepMeaning := by
        simpa using hpadded
      apply Option.ext
      rintro ⟨path, accessor⟩
      rw [reading_eq_some_iff, reading_eq_some_iff, hmeant]
      simp only [ne_eq, hmore, hsteps]

/-! ### Elements and values -/

theorem applyStep_congr {s t : Step} (h : s.meaning = t.meaning) (d : Document) (scope : Scope) :
    applyStep d scope s = applyStep d scope t := by
  obtain ⟨raw, reach, target⟩ := s
  obtain ⟨hreach, htarget⟩ := Prod.mk.inj h
  dsimp only at hreach htarget
  subst hreach htarget
  rfl

theorem applySteps_congr (d : Document) : ∀ {p q : List Step} (scope : Scope),
    p.map Step.meaning = q.map Step.meaning → applySteps d scope p = applySteps d scope q
  | [], q, scope, h => by
    rw [List.map_nil, eq_comm, List.map_eq_nil_iff] at h
    rw [h]
  | s :: p, [], scope, h => by cases h
  | s :: p, t :: q, scope, h => by
    obtain ⟨hs, hrest⟩ := List.cons.inj h
    rw [applySteps, applySteps, applyStep_congr hs]
    congr 1
    funext scope'
    exact applySteps_congr d scope' hrest

/-- Texts that are read as the same yield the same values on every document. -/
theorem evaluate_congr {a b : List Char} (h : reading a = reading b) (d : Document) :
    (evaluate d (String.ofList a)).toOption = (evaluate d (String.ofList b)).toOption := by
  unfold reading at h
  unfold evaluate
  cases ha : read (String.ofList a) with
  | error f =>
    rw [ha] at h
    cases hb : read (String.ofList b) with
    | error f' => rfl
    | ok t => simp [hb, Except.toOption] at h
  | ok s =>
    rw [ha] at h
    cases hb : read (String.ofList b) with
    | error f' => simp [hb, Except.toOption] at h
    | ok t =>
      rw [hb] at h
      obtain ⟨hpath, haccessor⟩ := Prod.mk.inj (Option.some.inj h)
      simp only [bind, Except.bind, elements, applySteps_congr d .document hpath, haccessor]
      cases applySteps d .document t.path <;> rfl

/-! ### Blanks at the ends -/

theorem head_of_splitSteps_nil {text : List Char} (h : splitSteps text = []) :
    text = [] ∨ text.head? = some '/' := by
  obtain ⟨k, hcut⟩ := exists_cut text
  rw [h] at hcut
  cases hcut with
  | bare =>
    cases k with
    | zero => exact .inl rfl
    | succ k => exact .inr rfl

/-- Where there is no step, steps to elements make a selector. -/
theorem reading_eq_none_iff_of_added {padded : List Char} {row : List (Reach × Target)}
    (hrow : ∀ m ∈ row, meantAccessor? m = none)
    (hpadded : (splitSteps padded).map stepMeaning = row.map some) :
    reading padded = none ↔ row = [] := by
  constructor
  · intro hnone
    by_contra hne
    have hsteps : splitSteps padded ≠ [] := by
      intro hnil
      rw [hnil, List.map_nil, eq_comm, List.map_eq_nil_iff] at hpadded
      exact hne hpadded
    have hcomposed : Composed meantAccessor? row row none :=
      ⟨⟨[], (List.append_nil row).symm, rfl⟩, hrow⟩
    rw [reading_eq_some_iff.2 ⟨hsteps, row, hpadded, hcomposed⟩] at hnone
    cases hnone
  · rintro rfl
    rw [Option.eq_none_iff_forall_ne_some]
    rintro ⟨path, accessor⟩ hsome
    exact (reading_eq_some_iff.1 hsome).1 (List.map_eq_nil_iff.1 hpadded)

/-- **Blanks around a selector are neutral, but not beside a slash.** With blanks around it a text
is read as it was if no slash stands beside them, and if it is not read at all. A slash beside
them, or slashes alone, make a step of the blanks. Texts that are read as the same yield the same
values. -/
theorem padded_reading_iff {before after : List Char} (hbefore : Blanks before)
    (hafter : Blanks after) (text : List Char) :
    (reading (before ++ text ++ after) = reading text ↔
      before = [] ∧ after = [] ∨
        splitSteps text ≠ [] ∧ (reading text = none ∨
          (before = [] ∨ text.head? ≠ some '/') ∧ (after = [] ∨ ¬EndsInSlash text))) ∧
      (reading (before ++ text ++ after) = reading text → ∀ d,
        (evaluate d (String.ofList (before ++ text ++ after))).toOption =
          (evaluate d (String.ofList text)).toOption) := by
  refine ⟨?_, fun h d => evaluate_congr h d⟩
  obtain ⟨back, hbehind, hbacknone, hback⟩ := exists_back hafter text
  obtain ⟨front, hpadded, hfrontnone, hfront⟩ := exists_front hbefore (text ++ after)
  rw [hbehind, ← List.append_assoc, ← List.append_assoc] at hpadded
  by_cases hsteps : splitSteps text = []
  · have hnone : reading text = none := by
      rw [Option.eq_none_iff_forall_ne_some]
      exact fun r hr => (reading_eq_some_iff.1 hr).1 hsteps
    rw [hsteps, List.map_nil, List.append_nil, ← List.map_append] at hpadded
    rw [hnone, reading_eq_none_iff_of_added (List.forall_mem_append.2 ⟨hfrontnone, hbacknone⟩)
      hpadded, List.append_eq_nil_iff, hfront, hback]
    -- Nothing but slashes stands between the blanks, so those in front make a step as well.
    have hhead : ¬(text ≠ [] ∧ text.head? ≠ some '/') := fun h =>
      (head_of_splitSteps_nil hsteps).elim h.1 h.2
    constructor
    · rintro ⟨hbefore', hafter' | ⟨hne, -⟩⟩
      · rw [hafter', List.append_nil] at hbefore'
        exact .inl ⟨hbefore'.resolve_right hhead, hafter'⟩
      · exact absurd hsteps hne
    · rintro (⟨hbefore', hafter'⟩ | ⟨hne, -⟩)
      · exact ⟨.inl hbefore', .inl hafter'⟩
      · exact absurd hsteps hne
  · have hne : text ≠ [] := by
      rintro rfl
      exact hsteps rfl
    obtain ⟨c, rest, rfl⟩ := List.exists_cons_of_ne_nil hne
    have hcons : c :: rest ++ after ≠ [] := List.cons_ne_nil _ _
    have hhead : (c :: rest ++ after).head? = (c :: rest).head? := rfl
    rw [reading_eq_iff_of_added hsteps hbacknone hpadded, hfront, hback, and_iff_right hcons, hhead,
      and_iff_right hsteps, and_iff_right hsteps]
    refine ⟨.inr, ?_⟩
    rintro (⟨hbefore', hafter'⟩ | h)
    · exact .inr ⟨.inl hbefore', .inl hafter'⟩
    · exact h

/-- A blank in front of a slash is read as a step of its own. -/
theorem padded_reading_blank_slash :
    reading (" ".toList ++ "/p".toList ++ []) ≠ reading "/p".toList ∧
      reading (" ".toList ++ "p".toList ++ "\n".toList) = reading "p".toList := by
  have hblank : Blanks " ".toList := by decide
  have hslash := padded_reading_iff hblank Blanks.nil "/p".toList
  have hbreak : Blanks "\n".toList := by decide
  have hname := padded_reading_iff hblank hbreak "p".toList
  refine ⟨fun h => ?_, hname.1.2 (.inr ⟨by decide, .inr ⟨.inr (by decide), .inr (by decide)⟩⟩)⟩
  rcases hslash.1.1 h with ⟨hnil, -⟩ | ⟨-, hnone | ⟨hnil | hhead, -⟩⟩
  · exact absurd hnil (by decide)
  · exact absurd hnone (by decide +kernel)
  · exact absurd hnil (by decide)
  · exact hhead rfl

end Gleaner.Selector
