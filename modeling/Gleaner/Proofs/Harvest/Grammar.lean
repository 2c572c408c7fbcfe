/-
# Failures of the grammar in a harvest

Whether a harvest from markup ends in a failure of the grammar is decided by the selectors alone:
by the first key, in the order of the keys, whose selector has a fault of the grammar. Neither the
content nor the policy has a say in it, nor what other keys fail on: the later stages of following a
selector, and all of reading it as a path query, fail in other ways only.

Key definitions: `Selection.FirstGrammarFault`.
Key theorems: `Policy.ruling_grammar_iff`, `harvest_grammar_iff`.
-/
import Gleaner.Harvest.Format
import Gleaner.Proofs.Harvest.Outcome

namespace Gleaner

open Gleaner.Markup

/-! ### Where failures of the grammar come from -/

/-- Where a selector that has been read comes to no elements, its grammar is not at fault. -/
theorem Selector.isGrammar_of_elements {s : Selector} {d : Document} {fault : Selector.Fault}
    (h : s.elements d = .error fault) : fault.isGrammar = false := by
  unfold elements at h
  split at h <;> cases h
  rfl

/-- A selector followed step by step fails by its grammar when it is read, or not at all. -/
theorem stepwise_grammar_iff {d : Document} {text : String} {failure : Failure} :
    (stepwise d).evaluate text = .error failure ∧ failure.isGrammar = true ↔
      ∃ fault, Selector.read text = .error fault ∧ fault.isGrammar = true ∧
        failure = .selector fault := by
  have heval : (stepwise d).evaluate text = (Selector.evaluate d text).mapError .selector := rfl
  rw [heval, Selector.evaluate]
  cases hread : Selector.read text with
  | error fault =>
    constructor
    · rintro ⟨h, hg⟩
      cases h
      exact ⟨fault, rfl, hg, rfl⟩
    · rintro ⟨other, h, hg, rfl⟩
      cases h
      exact ⟨rfl, hg⟩
  | ok selector =>
    constructor
    · rintro ⟨h, hg⟩
      cases hlist : selector.elements d with
      | ok list =>
        simp only [bind, Except.bind, hlist] at h
        cases h
      | error fault =>
        simp only [bind, Except.bind, hlist] at h
        cases h
        have hnot := Selector.isGrammar_of_elements hlist
        exact absurd (hnot.symm.trans hg) Bool.false_ne_true
    · rintro ⟨fault, h, -⟩
      cases h

/-- A path query never fails by the grammar of selectors. -/
theorem queried_isGrammar {d : Document} {text : String} {failure : Failure}
    (h : (queried d).evaluate text = .error failure) : failure.isGrammar = false := by
  change (Query.evaluate d text).mapError .query = .error failure at h
  cases hq : Query.evaluate d text with
  | ok found => rw [hq] at h; cases h
  | error fault => rw [hq] at h; cases h; rfl

/-! ### The first fault -/

namespace Strategy

variable {s : Strategy} {kind : Failure → Bool} {entries : List (String × String)}
  {failure : Failure}

/-- The first failure of a kind is met behind entries on which no failure is of that kind. -/
theorem firstFailure?_eq_some_iff :
    s.firstFailure? kind entries = some failure ↔
      ∃ before e after, entries = before ++ e :: after ∧
        (s.evaluate e.2 = .error failure ∧ kind failure = true) ∧
        ∀ b ∈ before, ∀ f, s.evaluate b.2 = .error f → kind f = false := by
  unfold firstFailure?
  rw [List.findSome?_eq_some_iff]
  refine exists_congr fun before => exists_congr fun e => exists_congr fun after =>
    and_congr_right fun _ => and_congr ?_ (forall_congr' fun b => imp_congr_right fun _ => ?_)
  · cases s.evaluate e.2 with
    | ok found => simp
    | error f =>
      by_cases hk : kind f = true
      · simp only [hk, if_true, Option.some.injEq, Except.error.injEq]
        constructor
        · intro h
          exact ⟨h, h ▸ hk⟩
        · intro h
          exact h.1
      · simp only [hk, Bool.false_eq_true, if_false, Except.error.injEq]
        constructor
        · intro h
          cases h
        · rintro ⟨rfl, hf⟩
          exact absurd hf hk
  · cases s.evaluate b.2 with
    | ok found => simp
    | error f => simp

/-- A failure that comes first is met on some entry. -/
theorem exists_of_firstFailure? (h : s.firstFailure? kind entries = some failure) :
    ∃ e ∈ entries, s.evaluate e.2 = .error failure ∧ kind failure = true := by
  obtain ⟨before, e, after, rfl, he, _⟩ := firstFailure?_eq_some_iff.1 h
  exact ⟨e, List.mem_append_right _ List.mem_cons_self, he⟩

/-- Where no failure of a kind comes first, none is met on any entry. -/
theorem kind_of_firstFailure?_eq_none (h : s.firstFailure? kind entries = none)
    {e : String × String} (he : e ∈ entries) (hf : s.evaluate e.2 = .error failure) :
    kind failure = false := by
  have hnone := List.findSome?_eq_none_iff.1 h e he
  rw [hf] at hnone
  by_cases hk : kind failure = true
  · simp [hk] at hnone
  · exact Bool.eq_false_iff.2 hk

end Strategy

namespace Policy

variable {policy : Policy} {first second : Strategy} {selection : Selection} {failure : Failure}

/-- A failure that is reported was met by one of the two strategies on some selector. -/
theorem exists_of_ruling_eq_error (h : policy.ruling first second selection = .error failure) :
    ∃ e ∈ selection.entries,
      first.evaluate e.2 = .error failure ∨ second.evaluate e.2 = .error failure := by
  have hfirst {kind : Failure → Bool}
      (h : first.firstFailure? kind selection.entries = some failure) :
      ∃ e ∈ selection.entries,
        first.evaluate e.2 = .error failure ∨ second.evaluate e.2 = .error failure :=
    let ⟨e, he, hf⟩ := Strategy.exists_of_firstFailure? h
    ⟨e, he, .inl hf.1⟩
  rw [ruling] at h
  split at h
  · next hg => exact hfirst (Except.error.inj h ▸ hg)
  split at h
  · cases h
  · next hsome =>
    cases policy with
    | disabled => exact hfirst (Except.error.inj h ▸ hsome)
    | wholeBatch =>
      simp only at h
      split at h
      · next hf =>
        obtain ⟨e, he, hf⟩ := Strategy.exists_of_firstFailure? (Except.error.inj h ▸ hf)
        exact ⟨e, he, .inr hf.1⟩
      · cases h
    | perKey =>
      simp only at h
      split at h
      · next hf =>
        obtain ⟨e, he, hf⟩ := Strategy.exists_of_firstFailure? (Except.error.inj h ▸ hf)
        exact ⟨e, (List.mem_filter.1 he).1, .inr hf.1⟩
      · cases h

/-- With a second strategy that does not fail by the grammar, the outcome is a failure of the
grammar when the first strategy meets one, and is then the first that it meets. -/
theorem ruling_grammar_iff
    (hsecond : ∀ text f, second.evaluate text = .error f → f.isGrammar = false) :
    policy.ruling first second selection = .error failure ∧ failure.isGrammar = true ↔
      first.firstFailure? Failure.isGrammar selection.entries = some failure := by
  cases hg : first.firstFailure? Failure.isGrammar selection.entries with
  | some f =>
    rw [ruling, hg]
    obtain ⟨e, _, _, hf⟩ := Strategy.exists_of_firstFailure? hg
    constructor
    · intro h
      exact congrArg some (Except.error.inj h.1)
    · intro h
      exact ⟨congrArg Except.error (Option.some.inj h), Option.some.inj h ▸ hf⟩
  | none =>
    have hnever : ¬(policy.ruling first second selection = .error failure ∧
        failure.isGrammar = true) := by
      rintro ⟨h, hf⟩
      obtain ⟨e, he, hmet⟩ := exists_of_ruling_eq_error h
      have hnot : failure.isGrammar = false := by
        rcases hmet with hmet | hmet
        · exact Strategy.kind_of_firstFailure?_eq_none hg he hmet
        · exact hsecond _ _ hmet
      rw [hnot] at hf
      cases hf
    exact iff_of_false hnever (by simp)

end Policy

/-! ### Harvests from markup -/

/-- A fault of the grammar is the first that the selectors of a selection have, in the order of the
keys. -/
def Selection.FirstGrammarFault (selection : Selection) (fault : Selector.Fault) : Prop :=
  ∃ before key selector after, selection.entries = before ++ (key, selector) :: after ∧
    (Selector.read selector = .error fault ∧ fault.isGrammar = true) ∧
    ∀ e ∈ before, ∀ f, Selector.read e.2 = .error f → f.isGrammar = false

/-- Following selectors step by step meets the first fault of the grammar that they have. -/
theorem stepwise_firstFailure?_iff {d : Document} {selection : Selection} {failure : Failure} :
    (stepwise d).firstFailure? Failure.isGrammar selection.entries = some failure ↔
      ∃ fault, selection.FirstGrammarFault fault ∧ failure = .selector fault := by
  have hbefore (b : String × String) :
      (∀ f, (stepwise d).evaluate b.2 = .error f → f.isGrammar = false) ↔
        ∀ f, Selector.read b.2 = .error f → f.isGrammar = false := by
    constructor
    · intro h f hf
      refine Bool.eq_false_iff.2 fun hg => ?_
      have hmet := stepwise_grammar_iff (d := d).2 ⟨f, hf, hg, rfl⟩
      exact Bool.false_ne_true ((h _ hmet.1).symm.trans hmet.2)
    · intro h f hf
      refine Bool.eq_false_iff.2 fun hg => ?_
      obtain ⟨fault, hread, hfault, _⟩ := stepwise_grammar_iff.1 ⟨hf, hg⟩
      exact Bool.false_ne_true ((h _ hread).symm.trans hfault)
  rw [Strategy.firstFailure?_eq_some_iff]
  simp only [hbefore, stepwise_grammar_iff]
  constructor
  · rintro ⟨before, ⟨key, selector⟩, after, hentries, ⟨fault, hread, hg, rfl⟩, hno⟩
    exact ⟨fault, ⟨before, key, selector, after, hentries, ⟨hread, hg⟩, hno⟩, rfl⟩
  · rintro ⟨fault, ⟨before, key, selector, after, hentries, ⟨hread, hg⟩, hno⟩, rfl⟩
    exact ⟨before, (key, selector), after, hentries, ⟨fault, hread, hg, rfl⟩, hno⟩

/-- A harvest from a document ends in a failure of the grammar when some selector has a fault of
the grammar, and the first such fault is reported. -/
theorem harvestDocument_grammar_iff {d : Document} {policy : Policy} {selection : Selection}
    {failure : Failure} :
    harvestDocument d policy selection = .error failure ∧ failure.isGrammar = true ↔
      ∃ fault, selection.FirstGrammarFault fault ∧ failure = .selector fault := by
  rw [harvestDocument, outcome_gatherWith_eq_ruling,
    Policy.ruling_grammar_iff fun _ _ => queried_isGrammar, stepwise_firstFailure?_iff]

/-- Some fault of the grammar is the first when any selector has one. -/
theorem exists_firstGrammarFault_iff {selection : Selection} :
    (∃ fault, selection.FirstGrammarFault fault) ↔
      ∃ e ∈ selection.entries, ∃ fault, Selector.read e.2 = .error fault ∧
        fault.isGrammar = true := by
  constructor
  · rintro ⟨fault, before, key, selector, after, hentries, hfault, _⟩
    refine ⟨(key, selector), ?_, fault, hfault⟩
    rw [hentries]
    exact List.mem_append_right _ List.mem_cons_self
  · rintro ⟨e, he, fault, hread, hg⟩
    have hsome : ((stepwise ⟨[]⟩).firstFailure? Failure.isGrammar selection.entries).isSome := by
      refine Option.isSome_iff_ne_none.2 fun hnone => ?_
      have hmet := stepwise_grammar_iff (d := ⟨[]⟩).2 ⟨fault, hread, hg, rfl⟩
      rw [Strategy.kind_of_firstFailure?_eq_none hnone he hmet.1] at hmet
      exact Bool.false_ne_true hmet.2
    obtain ⟨failure, hfirst⟩ := Option.isSome_iff_exists.1 hsome
    obtain ⟨first, hfault, _⟩ := stepwise_firstFailure?_iff.1 hfirst
    exact ⟨first, hfault⟩

/-- **An unknown filter is never swallowed.** A harvest from HTML or XML ends in a failure of the
grammar when some selector of the selection has a fault of the grammar, and reports the first of
them in the order of the keys. The right sides know nothing of the content and of the policy. -/
theorem harvest_grammar_iff (content : String) (policy : Policy) (selection : Selection) :
    (∀ failure,
      (Format.html.harvest content policy selection = .error failure ∧ failure.isGrammar = true ↔
        ∃ fault, selection.FirstGrammarFault fault ∧ failure = .selector fault) ∧
      (Format.xml.harvest content policy selection = .error failure ∧ failure.isGrammar = true ↔
        ∃ fault, selection.FirstGrammarFault fault ∧ failure = .selector fault)) ∧
    ((∃ fault, selection.FirstGrammarFault fault) ↔
      ∃ e ∈ selection.entries, ∃ fault, Selector.read e.2 = .error fault ∧
        fault.isGrammar = true) := by
  refine ⟨fun failure => ⟨?_, ?_⟩, exists_firstGrammarFault_iff⟩
  · rw [Format.harvest]
    exact harvestDocument_grammar_iff
  · rw [Format.harvest]
    exact harvestDocument_grammar_iff

end Gleaner
