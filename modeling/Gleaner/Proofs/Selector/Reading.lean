/-
# Selectors that are read

A text is a selector exactly if it is cut into at least one step, all its steps are read, and none
of them but the last is an accessor.

Key definitions: `Composed`.
Key theorems: `allSteps_eq_ok_iff`, `ofSteps_eq_ok_iff`, `read_eq_ok_iff`.
-/
import Gleaner.Proofs.Selector.Written
import Gleaner.Proofs.Success
import Mathlib.Data.List.Basic

namespace Gleaner.Selector

theorem Step.accessor?_eq (s : Step) : s.accessor? = s.target.accessor? := by
  unfold Step.accessor? Target.accessor?
  cases s.target <;> rfl

/-- A row is a path, and behind it the accessor if there is one. -/
structure Composed {α : Type} (accessor? : α → Option Accessor) (row path : List α)
    (accessor : Option Accessor) : Prop where
  whole : ∃ last, row = path ++ last ∧ last.map accessor? = accessor.toList.map some
  steps : ∀ m ∈ path, accessor? m = none

theorem allSteps_eq_ok_iff : ∀ {read : List (Except Fault Step)} {steps : List Step},
    allSteps read = .ok steps ↔ read = steps.map .ok
  | [], steps => by cases steps <;> simp [allSteps]
  | .error f :: read, steps => by cases steps <;> simp [allSteps]
  | .ok s :: read, steps => by
    rw [allSteps, map_eq_ok_iff]
    simp only [allSteps_eq_ok_iff]
    cases steps with
    | nil => simp
    | cons s' rest => simp [and_left_comm]

theorem splitAccessor_whole (steps : List Step) : ∃ last,
    steps = (splitAccessor steps).1 ++ last ∧
      last.map Step.accessor? = (splitAccessor steps).2.toList.map some := by
  unfold splitAccessor
  split
  · next a h =>
    obtain ⟨s, hs, ha⟩ := Option.bind_eq_some_iff.1 h
    refine ⟨[s], (List.dropLast_append_getLast? s hs).symm, ?_⟩
    rw [List.map_singleton, ha]
    rfl
  · exact ⟨[], (List.append_nil steps).symm, rfl⟩

theorem ofSteps_eq_ok_iff {text : String} {steps : List Step} {s : Selector} :
    ofSteps text steps = .ok s ↔
      s.text = text ∧ Composed Step.accessor? steps s.path s.accessor := by
  constructor
  · intro h
    unfold ofSteps at h
    dsimp only at h
    split at h
    · cases h
    next hnone =>
    cases h
    refine ⟨rfl, splitAccessor_whole steps, fun m hm => ?_⟩
    have hm' := List.find?_eq_none.1 hnone m hm
    simpa using hm'
  · obtain ⟨text', path, accessor⟩ := s
    rintro ⟨rfl, ⟨last, rfl, hlast⟩, hpath⟩
    cases accessor with
    | none =>
      rw [List.map_eq_nil_iff.1 hlast, List.append_nil]
      exact ofSteps_path text' hpath
    | some a =>
      obtain ⟨s, rfl, ha⟩ := List.map_eq_singleton_iff.1 hlast
      exact ofSteps_accessor text' hpath ha

/-- What a text must be to be a selector. -/
theorem read_eq_ok_iff {text : String} {s : Selector} : read text = .ok s ↔
    splitSteps text.toList ≠ [] ∧ ∃ steps,
      (splitSteps text.toList).map Step.read = steps.map .ok ∧
        s.text = text ∧ Composed Step.accessor? steps s.path s.accessor := by
  unfold read
  cases splitSteps text.toList with
  | nil => simp
  | cons step rest =>
    dsimp only
    rw [and_iff_right (List.cons_ne_nil _ _)]
    constructor
    · intro h
      split at h
      · cases h
      obtain ⟨steps, hsteps, hs⟩ := bind_eq_ok_iff.1 h
      exact ⟨steps, allSteps_eq_ok_iff.1 hsteps, ofSteps_eq_ok_iff.1 hs⟩
    · rintro ⟨steps, hsteps, hs⟩
      rw [hsteps, firstGrammarFault?_ok, allSteps_ok]
      exact ofSteps_eq_ok_iff.2 hs

/-- The accessor of a selector is that of its last step. -/
theorem Composed.accessor_eq {steps path : List Step} {accessor : Option Accessor}
    (h : Composed Step.accessor? steps path accessor) :
    accessor = steps.getLast?.bind Step.accessor? := by
  obtain ⟨⟨last, rfl, hlast⟩, hpath⟩ := h
  cases accessor with
  | none =>
    rw [List.map_eq_nil_iff.1 hlast, List.append_nil, eq_comm, Option.bind_eq_none_iff]
    exact fun s hs => hpath s (List.mem_of_getLast? hs)
  | some a =>
    obtain ⟨s, rfl, ha⟩ := List.map_eq_singleton_iff.1 hlast
    rw [List.getLast?_concat, Option.bind_some, ha]

end Gleaner.Selector
