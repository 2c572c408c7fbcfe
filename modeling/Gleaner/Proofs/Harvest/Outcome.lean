/-
# What a harvest by two strategies holds

The first strategy is asked for every key. If it meets a failure of the grammar, the first such
failure is the outcome; if it meets none at all, the outcome is what it found. Otherwise the policy
decides, and a key holds what the strategy chosen for its selector yields. A harvest has exactly the
keys of its selection, and a key is marked as not found only when nothing was matched.

Key definitions: `Strategy.firstFailure?`, `harvestBy`, `Policy.ruling`, `Policy.chosen`.
Key theorems: `outcome_askAll`, `outcome_firstPass`, `outcome_gatherWith`.
-/
import Gleaner.Harvest.Basic

namespace Gleaner

/-! ### What a strategy says of a selector -/

namespace Strategy

/-- The strategy answers a selector with matches. -/
def answers (s : Strategy) (selector : String) : Bool :=
  (s.evaluate selector).isOk

/-- The datum of the matches of a selector; where the strategy fails, nothing is found. -/
def datum (s : Strategy) (selector : String) : Datum :=
  match s.evaluate selector with
  | .ok found => .ofMatches found
  | .error _ => .notFound

/-- The first failure of a kind that a strategy meets on the selectors of some entries. -/
def firstFailure? (s : Strategy) (kind : Failure → Bool) (entries : List (String × String)) :
    Option Failure :=
  entries.findSome? fun e =>
    match s.evaluate e.2 with
    | .ok _ => none
    | .error failure => if kind failure then some failure else none

/-- The entries on which a strategy fails, each with its failure. -/
def failedOf (s : Strategy) (entries : List (String × String)) :
    List ((String × String) × Failure) :=
  entries.filterMap fun e =>
    match s.evaluate e.2 with
    | .ok _ => none
    | .error failure => some (e, failure)

/-- The data of the entries that a strategy answers. -/
def foundOf (s : Strategy) (entries : List (String × String)) : List (String × Datum) :=
  (entries.filter fun e => s.answers e.2).map fun e => (e.1, s.datum e.2)

variable {s : Strategy}

theorem answers_of_ok {selector : String} {found : List Datum}
    (h : s.evaluate selector = .ok found) : s.answers selector = true := by
  unfold answers
  rw [h]
  rfl

theorem answers_of_error {selector : String} {failure : Failure}
    (h : s.evaluate selector = .error failure) : s.answers selector = false := by
  unfold answers
  rw [h]
  rfl

theorem datum_of_ok {selector : String} {found : List Datum}
    (h : s.evaluate selector = .ok found) : s.datum selector = .ofMatches found := by
  unfold datum
  rw [h]

/-- A strategy that meets no failure answers. -/
theorem answers_iff {selector : String} :
    s.answers selector = true ↔ ∃ found, s.evaluate selector = .ok found := by
  unfold answers
  cases s.evaluate selector with
  | ok found => exact iff_of_true rfl ⟨found, rfl⟩
  | error failure =>
    refine iff_of_false Bool.false_ne_true ?_
    rintro ⟨found, h⟩
    cases h

theorem firstFailure?_cons_ok {kind : Failure → Bool} {e : String × String} {found : List Datum}
    (h : s.evaluate e.2 = .ok found) (rest : List (String × String)) :
    s.firstFailure? kind (e :: rest) = s.firstFailure? kind rest := by
  simp [firstFailure?, h]

theorem firstFailure?_cons_error {kind : Failure → Bool} {e : String × String} {failure : Failure}
    (h : s.evaluate e.2 = .error failure) (rest : List (String × String)) :
    s.firstFailure? kind (e :: rest) =
      if kind failure then some failure else s.firstFailure? kind rest := by
  by_cases hk : kind failure = true <;> simp [firstFailure?, h, hk]

/-- No failure is met when the strategy answers every selector. -/
theorem firstFailure?_any_eq_none_iff {entries : List (String × String)} :
    s.firstFailure? (fun _ => true) entries = none ↔ ∀ e ∈ entries, s.answers e.2 = true := by
  unfold firstFailure?
  rw [List.findSome?_eq_none_iff]
  refine forall_congr' fun e => imp_congr_right fun _ => ?_
  unfold answers
  cases s.evaluate e.2 with
  | ok found => exact iff_of_true rfl rfl
  | error failure => simp [Except.isOk, Except.toBool]

/-- The entries that are kept as failed are those that the strategy does not answer. -/
theorem map_fst_failedOf : ∀ entries : List (String × String),
    (s.failedOf entries).map (·.1) = entries.filter fun e => !s.answers e.2
  | [] => rfl
  | e :: rest => by
    have ih := map_fst_failedOf rest
    rw [failedOf] at ih ⊢
    cases h : s.evaluate e.2 with
    | ok found => simp [h, answers_of_ok h, ih]
    | error failure => simp [h, answers_of_error h, ih]

/-- The first entry that is kept as failed carries the first failure. -/
theorem head?_failedOf : ∀ entries : List (String × String),
    ((s.failedOf entries).head?).map (·.2) = s.firstFailure? (fun _ => true) entries
  | [] => rfl
  | e :: rest => by
    cases h : s.evaluate e.2 with
    | ok found =>
      rw [firstFailure?_cons_ok h, ← head?_failedOf rest]
      simp [failedOf, h]
    | error failure =>
      rw [firstFailure?_cons_error h]
      simp [failedOf, h]

end Strategy

/-! ### The two passes -/

/-- A strategy asked for each entry yields the first failure, or the data of all entries. -/
theorem outcome_askAll (s : Strategy) : ∀ entries : List (String × String),
    (askAll s entries).outcome =
      match s.firstFailure? (fun _ => true) entries with
      | some failure => .error failure
      | none => .ok (entries.map fun e => (e.1, s.datum e.2))
  | [] => rfl
  | (key, selector) :: rest => by
    unfold askAll
    simp only [Run.outcome_bind, Strategy.outcome_ask, Run.outcome_pure, outcome_askAll s rest]
    cases h : s.evaluate selector with
    | error failure =>
      rw [Strategy.firstFailure?_cons_error h]
      rfl
    | ok found =>
      rw [Strategy.firstFailure?_cons_ok h, List.map_cons, Strategy.datum_of_ok h]
      cases s.firstFailure? (fun _ => true) rest <;> rfl

/-- The first pass yields the first failure of the grammar, or else what was found and what
failed. -/
theorem outcome_firstPass (s : Strategy) : ∀ entries : List (String × String),
    (firstPass s entries).outcome =
      match s.firstFailure? Failure.isGrammar entries with
      | some failure => .error failure
      | none => .ok ⟨s.foundOf entries, s.failedOf entries⟩
  | [] => rfl
  | (key, selector) :: rest => by
    have ih := outcome_firstPass s rest
    rw [firstPass]
    simp only [Run.outcome_bind, Run.outcome_attempt, Strategy.outcome_ask, Except.bind]
    cases h : s.evaluate selector with
    | ok found =>
      rw [Strategy.firstFailure?_cons_ok (e := (key, selector)) h]
      simp only [Run.outcome_bind, Run.outcome_pure, ih]
      cases s.firstFailure? Failure.isGrammar rest with
      | some failure => rfl
      | none =>
        simp [Except.bind, Strategy.foundOf, Strategy.failedOf, h, Strategy.answers_of_ok h,
          Strategy.datum_of_ok h]
    | error failure =>
      rw [Strategy.firstFailure?_cons_error h]
      by_cases hg : failure.isGrammar = true
      · simp [hg]
      · simp only [hg, Bool.false_eq_true, if_false, Run.outcome_bind, Run.outcome_pure, ih]
        cases s.firstFailure? Failure.isGrammar rest with
        | some failure => rfl
        | none =>
          simp [Except.bind, Strategy.foundOf, Strategy.failedOf, h, Strategy.answers_of_error h]

/-! ### The harvest -/

/-- The harvest whose keys hold what the strategy chosen for their selector yields. -/
def harvestBy (chosen : String → Strategy) (selection : Selection) : Harvest :=
  ⟨selection.map fun selector => (chosen selector).datum selector⟩

namespace Policy

/-- The outcome that a policy asks for, said of whole selections. -/
def ruling (policy : Policy) (first second : Strategy) (selection : Selection) :
    Except Failure Harvest :=
  match first.firstFailure? Failure.isGrammar selection.entries with
  | some failure => .error failure
  | none =>
    match first.firstFailure? (fun _ => true) selection.entries with
    | none => .ok (harvestBy (fun _ => first) selection)
    | some failure =>
      match policy with
      | .disabled => .error failure
      | .wholeBatch =>
        match second.firstFailure? (fun _ => true) selection.entries with
        | some failure => .error failure
        | none => .ok (harvestBy (fun _ => second) selection)
      | .perKey =>
        let failing := selection.entries.filter fun e => !first.answers e.2
        match second.firstFailure? (fun _ => true) failing with
        | some failure => .error failure
        | none =>
          .ok (harvestBy (fun text => if first.answers text then first else second) selection)

/-- The strategy that decides on a selector of a selection. -/
def chosen (policy : Policy) (first second : Strategy) (selection : Selection)
    (selector : String) : Strategy :=
  match policy with
  | .disabled => first
  | .wholeBatch => if selection.entries.all fun e => first.answers e.2 then first else second
  | .perKey => if first.answers selector then first else second

end Policy

/-- The data of all entries, in the order of their keys, make up the harvest. -/
theorem ofList_map_datum (s : Strategy) (selection : Selection) :
    Harvest.ofList (selection.entries.map fun e => (e.1, s.datum e.2)) =
      harvestBy (fun _ => s) selection :=
  congrArg Harvest.mk (KeyMap.ofList_eq_of_perm (.refl _))

/-- What the first strategy found and what the second adds for the other entries make up the
harvest, in whichever order they were gathered. -/
theorem ofList_found_append (first second : Strategy) (selection : Selection) :
    Harvest.ofList (first.foundOf selection.entries ++
        (selection.entries.filter fun e => !first.answers e.2).map fun e =>
          (e.1, second.datum e.2)) =
      harvestBy (fun text => if first.answers text then first else second) selection := by
  refine congrArg Harvest.mk (KeyMap.ofList_eq_of_perm ?_)
  let g (e : String × String) : String × Datum :=
    (e.1, (if first.answers e.2 then first else second).datum e.2)
  have hfound : first.foundOf selection.entries =
      (selection.entries.filter fun e => first.answers e.2).map g := by
    refine List.map_congr_left fun e he => ?_
    simp [g, (List.mem_filter.1 he).2]
  have hfailed : ((selection.entries.filter fun e => !first.answers e.2).map fun e =>
        (e.1, second.datum e.2)) =
      (selection.entries.filter fun e => !first.answers e.2).map g := by
    refine List.map_congr_left fun e he => ?_
    have : first.answers e.2 = false := by simpa using (List.mem_filter.1 he).2
    simp [g, this]
  rw [hfound, hfailed, ← List.map_append]
  exact (List.filter_append_perm _ _).map g

/-- The outcome of a harvest is the one that the policy asks for. -/
theorem outcome_gatherWith_eq_ruling (first second : Strategy) (policy : Policy)
    (selection : Selection) :
    (gatherWith first second policy selection).outcome = policy.ruling first second selection := by
  unfold gatherWith
  rw [Run.outcome_bind, outcome_firstPass, Policy.ruling]
  cases hg : first.firstFailure? Failure.isGrammar selection.entries with
  | some failure => rfl
  | none =>
    have hhead := Strategy.head?_failedOf (s := first) selection.entries
    have hfst := Strategy.map_fst_failedOf (s := first) selection.entries
    simp only [Except.bind]
    cases hf : first.failedOf selection.entries with
    | nil =>
      rw [hf] at hhead hfst
      rw [← hhead]
      have hall : first.foundOf selection.entries =
          selection.entries.map fun e => (e.1, first.datum e.2) := by
        unfold Strategy.foundOf
        rw [List.filter_eq_self.2]
        intro e he
        simpa using List.filter_eq_nil_iff.1 hfst.symm e he
      simp only [List.head?_nil, Option.map_none, Run.outcome_pure]
      rw [hall, ofList_map_datum]
    | cons f others =>
      rw [hf] at hhead hfst
      rw [← hhead]
      cases policy with
      | disabled => rfl
      | wholeBatch =>
        simp only [List.head?_cons, Option.map_some, Run.outcome_bind, outcome_askAll]
        cases second.firstFailure? (fun _ => true) selection.entries with
        | some failure => rfl
        | none => simp [Except.bind, ofList_map_datum]
      | perKey =>
        simp only [List.head?_cons, Option.map_some, Run.outcome_bind, outcome_askAll, hfst]
        cases second.firstFailure? (fun _ => true)
            (selection.entries.filter fun e => !first.answers e.2) with
        | some failure => rfl
        | none => simp [Except.bind, ofList_found_append]

/-- Strategies that agree on the selectors of a selection make the same harvest. -/
theorem harvestBy_congr {chosen other : String → Strategy} {selection : Selection}
    (h : ∀ e ∈ selection.entries, chosen e.2 = other e.2) :
    harvestBy chosen selection = harvestBy other selection := by
  refine congrArg Harvest.mk (KeyMap.ext_entries (List.map_congr_left fun e he => ?_))
  exact congrArg (fun s : Strategy => (e.1, s.datum e.2)) (h e he)

/-- A harvest comes about in three ways: the first strategy answers every selector; or it does not,
and the second answers every selector of the whole batch; or the second answers those that the first
does not. -/
theorem Policy.ruling_cases {policy : Policy} {first second : Strategy} {selection : Selection}
    {harvest : Harvest} (h : policy.ruling first second selection = .ok harvest) :
    ((∀ e ∈ selection.entries, first.answers e.2 = true) ∧
        harvest = harvestBy (fun _ => first) selection) ∨
      (policy = .wholeBatch ∧ (¬∀ e ∈ selection.entries, first.answers e.2 = true) ∧
        (∀ e ∈ selection.entries, second.answers e.2 = true) ∧
        harvest = harvestBy (fun _ => second) selection) ∨
      (policy = .perKey ∧
        (∀ e ∈ selection.entries, first.answers e.2 = false → second.answers e.2 = true) ∧
        harvest =
          harvestBy (fun text => if first.answers text then first else second) selection) := by
  unfold ruling at h
  split at h
  · cases h
  split at h
  · next hnone =>
    have hall := Strategy.firstFailure?_any_eq_none_iff.1 hnone
    exact .inl ⟨hall, (Except.ok.inj h).symm⟩
  · next failure hsome =>
    have hnot : ¬∀ e ∈ selection.entries, first.answers e.2 = true := by
      intro hall
      rw [Strategy.firstFailure?_any_eq_none_iff.2 hall] at hsome
      cases hsome
    cases policy with
    | disabled => cases h
    | wholeBatch =>
      simp only at h
      split at h
      · cases h
      · next hnone =>
        have hsecond := Strategy.firstFailure?_any_eq_none_iff.1 hnone
        exact .inr (.inl ⟨rfl, hnot, hsecond, (Except.ok.inj h).symm⟩)
    | perKey =>
      simp only at h
      split at h
      · cases h
      · next hnone =>
        have hsecond := Strategy.firstFailure?_any_eq_none_iff.1 hnone
        refine .inr (.inr ⟨rfl, fun e he hfirst => ?_, (Except.ok.inj h).symm⟩)
        exact hsecond e (List.mem_filter.2 ⟨he, by rw [hfirst]; rfl⟩)

/-- Where the first strategy answers every selector, it is chosen for each of them. -/
theorem Policy.chosen_of_all {policy : Policy} {first second : Strategy} {selection : Selection}
    (hall : ∀ e ∈ selection.entries, first.answers e.2 = true) {e : String × String}
    (he : e ∈ selection.entries) : policy.chosen first second selection e.2 = first := by
  cases policy with
  | disabled => rfl
  | wholeBatch => exact if_pos (List.all_eq_true.2 hall)
  | perKey => exact if_pos (hall e he)

/-- A harvest that comes about holds what the chosen strategies answer, and they answer every
selector. -/
theorem Policy.ruling_eq_ok {policy : Policy} {first second : Strategy} {selection : Selection}
    {harvest : Harvest} (h : policy.ruling first second selection = .ok harvest) :
    harvest = harvestBy (policy.chosen first second selection) selection ∧
      ∀ e ∈ selection.entries, (policy.chosen first second selection e.2).answers e.2 = true := by
  obtain ⟨hall, rfl⟩ | ⟨rfl, hnot, hsecond, rfl⟩ | ⟨rfl, hsecond, rfl⟩ := ruling_cases h
  · have hchosen : ∀ e ∈ selection.entries, policy.chosen first second selection e.2 = first :=
      fun _ he => chosen_of_all hall he
    refine ⟨harvestBy_congr fun e he => (hchosen e he).symm, fun e he => ?_⟩
    rw [hchosen e he]
    exact hall e he
  · have hchosen (text : String) : chosen .wholeBatch first second selection text = second :=
      if_neg fun hall => hnot (List.all_eq_true.1 hall)
    refine ⟨harvestBy_congr fun e _ => (hchosen e.2).symm, fun e he => ?_⟩
    rw [hchosen]
    exact hsecond e he
  · refine ⟨rfl, fun e he => ?_⟩
    unfold chosen
    by_cases hfirst : first.answers e.2 = true
    · rw [if_pos hfirst]
      exact hfirst
    · rw [if_neg hfirst]
      exact hsecond e he (Bool.eq_false_iff.2 hfirst)

/-- **The outcome of a harvest.** It is the one that the policy asks for; and a harvest that comes
about has the keys of the selection, where a key is marked as not found when the strategy chosen for
its selector matched nothing, or nothing but the mark itself. -/
theorem outcome_gatherWith (first second : Strategy) (policy : Policy) (selection : Selection) :
    (gatherWith first second policy selection).outcome = policy.ruling first second selection ∧
    ∀ harvest, (gatherWith first second policy selection).outcome = .ok harvest →
      harvest.values.keys = selection.keys ∧
      ∀ key selector, selection.get? key = some selector →
        ∃ found, (policy.chosen first second selection selector).evaluate selector = .ok found ∧
          harvest.values.get? key = some (Datum.ofMatches found) ∧
          (harvest.values.get? key = some .notFound ↔ found = [] ∨ found = [.notFound]) := by
  refine ⟨outcome_gatherWith_eq_ruling first second policy selection, fun harvest h => ?_⟩
  rw [outcome_gatherWith_eq_ruling] at h
  obtain ⟨rfl, hanswers⟩ := Policy.ruling_eq_ok h
  refine ⟨KeyMap.keys_map .., fun key selector hkey => ?_⟩
  have hmem : (key, selector) ∈ selection.entries := KeyMap.get?_eq_some_iff.1 hkey
  obtain ⟨found, hfound⟩ := Strategy.answers_iff.1 (hanswers _ hmem)
  have hvalue : (harvestBy (policy.chosen first second selection) selection).values.get? key =
      some (Datum.ofMatches found) := by
    unfold harvestBy
    rw [KeyMap.get?_map, hkey, Option.map_some, Strategy.datum_of_ok hfound]
  refine ⟨found, hfound, hvalue, ?_⟩
  rw [hvalue, Option.some.injEq]
  exact Datum.ofMatches_eq_notFound_iff

end Gleaner
