/-
# Harvests that break off

A harvest from markup never breaks off: selectors on a document fail in ways that are answered. One
from JSON breaks off at the first of its selectors that is not answered, if this is a path whose
evaluation breaks off; a path that cannot be read, before it, is answered as a failure.

Key theorems: `jsonPaths_eq_overflow_iff`, `Format.harvest_eq_overflow_iff`.
-/
import Gleaner.Proofs.Harvest.Grammar
import Gleaner.Proofs.JsonPath.Overflow

namespace Gleaner

open Gleaner.Markup

theorem stepwise_ne_overflow (d : Document) (text : String) :
    (stepwise d).evaluate text ≠ .error .overflow := by
  intro h
  obtain ⟨fault, -, hfault⟩ := mapError_eq_error_iff.1 h
  cases hfault

theorem queried_ne_overflow (d : Document) (text : String) :
    (queried d).evaluate text ≠ .error .overflow := by
  intro h
  obtain ⟨fault, -, hfault⟩ := mapError_eq_error_iff.1 h
  cases hfault

theorem harvestDocument_ne_overflow (d : Document) (policy : Policy) (selection : Selection) :
    harvestDocument d policy selection ≠ .error .overflow := by
  rw [harvestDocument, outcome_gatherWith_eq_ruling]
  intro h
  obtain ⟨e, -, hfirst | hsecond⟩ := Policy.exists_of_ruling_eq_error h
  · exact stepwise_ne_overflow d e.2 hfirst
  · exact queried_ne_overflow d e.2 hsecond

/-- A path that is read breaks off where a slice of it makes a sum of more than 64 bits. -/
theorem jsonPaths_eq_overflow_iff {root : Json} {text : String} :
    (jsonPaths root).evaluate text = .error .overflow ↔
      ∃ path, JsonPath.read text = .ok path ∧ ∃ sum, path.Oversteps root sum := by
  simp only [jsonPaths]
  cases hread : JsonPath.read text with
  | error fault => exact iff_of_false (by simp) (by rintro ⟨_, ⟨⟩, _⟩)
  | ok path =>
    simp only [Except.ok.injEq, exists_eq_left', ← JsonPath.select?_eq_none_iff hread root,
      JsonPath.evaluate?]
    cases path.select? root with
    | none => exact iff_of_true rfl rfl
    | some selected => exact iff_of_false (by simp) (by simp)

/-- Of a row of selectors that are asked for one after another, the first that fails decides. -/
theorem Strategy.outcome_askAll_eq_error_iff {s : Strategy} {entries : List (String × String)}
    {failure : Failure} :
    (askAll s entries).outcome = .error failure ↔
      ∃ before key selector after, entries = before ++ (key, selector) :: after ∧
        (∀ e ∈ before, s.answers e.2 = true) ∧ s.evaluate selector = .error failure := by
  have hanswers (text : String) :
      s.answers text = true ↔ ∀ f, s.evaluate text = .error f → true = false := by
    cases h : s.evaluate text with
    | ok found => exact iff_of_true (answers_of_ok h) (by simp)
    | error f => exact iff_of_false (by rw [answers_of_error h]; decide) (by simp)
  have hfirst : (askAll s entries).outcome = .error failure ↔
      s.firstFailure? (fun _ => true) entries = some failure := by
    rw [outcome_askAll]
    cases s.firstFailure? (fun _ => true) entries <;> simp
  rw [hfirst, firstFailure?_eq_some_iff]
  simp only [hanswers]
  constructor
  · rintro ⟨before, ⟨key, selector⟩, after, hentries, ⟨hfailure, -⟩, hbefore⟩
    exact ⟨before, key, selector, after, hentries, hbefore, hfailure⟩
  · rintro ⟨before, key, selector, after, hentries, hbefore, hfailure⟩
    exact ⟨before, (key, selector), after, hentries, ⟨hfailure, trivial⟩, hbefore⟩

/-- A selection breaks off on a JSON text: it has a value, all selectors before one of them are
answered on it, and this one is read as a path of which a slice makes a sum of more than 64 bits. -/
def Selection.BreaksOff (selection : Selection) (content : String) : Prop :=
  ∃ root before key selector after path sum, Json.read? content = some root ∧
    selection.entries = before ++ (key, selector) :: after ∧
    (∀ e ∈ before, (jsonPaths root).answers e.2 = true) ∧
    JsonPath.read selector = .ok path ∧ path.Oversteps root sum

/-- **Where a harvest breaks off.** Only one from JSON does, and it does if its selection breaks off
on the content. -/
theorem Format.harvest_eq_overflow_iff {format : Format} {content : String} {policy : Policy}
    {selection : Selection} :
    format.harvest content policy selection = .error .overflow ↔
      format = .json ∧ selection.BreaksOff content := by
  cases format with
  | html => exact iff_of_false (harvestDocument_ne_overflow _ policy selection) (by simp)
  | xml => exact iff_of_false (harvestDocument_ne_overflow _ policy selection) (by simp)
  | json =>
    rw [Format.harvest]
    cases hread : Json.read? content with
    | none =>
      refine iff_of_false (by simp) ?_
      rintro ⟨-, root, before, key, selector, after, path, sum, hroot, -⟩
      rw [hread] at hroot
      cases hroot
    | some root =>
      have hmap : harvestJson root selection = .error .overflow ↔
          (askAll (jsonPaths root) selection.entries).outcome = .error .overflow := by
        rw [harvestJson]
        cases (askAll (jsonPaths root) selection.entries).outcome <;> simp [Except.map]
      refine hmap.trans (Strategy.outcome_askAll_eq_error_iff.trans ?_)
      simp only [jsonPaths_eq_overflow_iff]
      constructor
      · rintro ⟨before, key, selector, after, hentries, hbefore, path, hpath, sum, hover⟩
        exact ⟨trivial, root, before, key, selector, after, path, sum, hread, hentries, hbefore, hpath,
          hover⟩
      · rintro ⟨-, other, before, key, selector, after, path, sum, hother, hentries, hbefore, hpath,
          hover⟩
        obtain rfl : root = other := Option.some.inj (hread.symm.trans hother)
        exact ⟨before, key, selector, after, hentries, hbefore, path, hpath, sum, hover⟩

end Gleaner
