/-
# The calls made for a harvest

The first strategy is asked for the keys in ascending order, up to its first failure of the grammar.
The second is asked only after that, and only if the first failed on some key but never by the
grammar: for every key or for the keys that failed, as the policy says, again in ascending order and
up to its own first failure. So neither is asked twice for one key.

Key definitions: `Strategy.failsOn`, `Strategy.upToFailure`, `Policy.askedAgain`.
Key theorems: `calls_askAll`, `calls_firstPass`, `calls_gatherWith`.
-/
import Gleaner.Proofs.Harvest.Outcome

namespace Gleaner

/-! ### Entries up to a failure -/

namespace Strategy

/-- The call of a strategy on the selector of an entry. -/
def callOn (s : Strategy) (entry : String × String) : Call :=
  ⟨s.name, entry.2⟩

/-- A strategy meets a failure of a kind on the selector of an entry. -/
def failsOn (s : Strategy) (kind : Failure → Bool) (entry : String × String) : Bool :=
  match s.evaluate entry.2 with
  | .ok _ => false
  | .error failure => kind failure

/-- The entries up to the first on which a strategy meets a failure of a kind, and that one; all
entries, if it meets none. -/
def upToFailure (s : Strategy) (kind : Failure → Bool) (entries : List (String × String)) :
    List (String × String) :=
  entries.takeWhile (fun e => !s.failsOn kind e) ++
    (entries.dropWhile fun e => !s.failsOn kind e).take 1

variable {s : Strategy} {kind : Failure → Bool}

theorem failsOn_of_ok {e : String × String} {found : List Datum}
    (h : s.evaluate e.2 = .ok found) : s.failsOn kind e = false := by
  unfold failsOn
  rw [h]

theorem failsOn_of_error {e : String × String} {failure : Failure}
    (h : s.evaluate e.2 = .error failure) : s.failsOn kind e = kind failure := by
  unfold failsOn
  rw [h]

theorem upToFailure_cons_of_passes {e : String × String} (h : s.failsOn kind e = false)
    (rest : List (String × String)) :
    s.upToFailure kind (e :: rest) = e :: s.upToFailure kind rest := by
  simp [upToFailure, h]

theorem upToFailure_cons_of_fails {e : String × String} (h : s.failsOn kind e = true)
    (rest : List (String × String)) : s.upToFailure kind (e :: rest) = [e] := by
  simp [upToFailure, h]

/-- What is taken stands at the front of the entries. -/
theorem upToFailure_prefix (s : Strategy) (kind : Failure → Bool)
    (entries : List (String × String)) : s.upToFailure kind entries <+: entries := by
  have hsplit : entries.takeWhile (fun e => !s.failsOn kind e) ++
      entries.dropWhile (fun e => !s.failsOn kind e) = entries :=
    List.takeWhile_append_dropWhile
  have htake := List.take_prefix 1 (entries.dropWhile fun e => !s.failsOn kind e)
  have happend := (List.prefix_append_right_inj
    (entries.takeWhile fun e => !s.failsOn kind e)).2 htake
  rw [hsplit] at happend
  exact happend

end Strategy

/-! ### The two passes -/

/-- A strategy asked for each entry is called up to its first failure. -/
theorem calls_askAll (s : Strategy) : ∀ entries : List (String × String),
    (askAll s entries).calls = (s.upToFailure (fun _ => true) entries).map s.callOn
  | [] => rfl
  | (key, selector) :: rest => by
    have ih := calls_askAll s rest
    rw [askAll, Run.calls_bind, Strategy.calls_ask, Strategy.outcome_ask]
    cases h : s.evaluate selector with
    | error failure =>
      rw [Strategy.upToFailure_cons_of_fails (Strategy.failsOn_of_error (e := (key, selector)) h)]
      rfl
    | ok found =>
      rw [Strategy.upToFailure_cons_of_passes (Strategy.failsOn_of_ok (e := (key, selector)) h)]
      simp only [Run.calls_bind_pure, ih, List.map_cons]
      rfl

/-- The first pass calls its strategy up to the first failure of the grammar. -/
theorem calls_firstPass (s : Strategy) : ∀ entries : List (String × String),
    (firstPass s entries).calls = (s.upToFailure Failure.isGrammar entries).map s.callOn
  | [] => rfl
  | (key, selector) :: rest => by
    have ih := calls_firstPass s rest
    rw [firstPass, Run.calls_bind, Run.calls_attempt, Strategy.calls_ask, Run.outcome_attempt,
      Strategy.outcome_ask]
    cases h : s.evaluate selector with
    | ok found =>
      rw [Strategy.upToFailure_cons_of_passes (Strategy.failsOn_of_ok (e := (key, selector)) h)]
      simp only [Run.calls_bind_pure, ih, List.map_cons]
      rfl
    | error failure =>
      have hfails : s.failsOn Failure.isGrammar (key, selector) = failure.isGrammar :=
        Strategy.failsOn_of_error (e := (key, selector)) h
      by_cases hg : failure.isGrammar = true
      · rw [Strategy.upToFailure_cons_of_fails (hfails.trans hg)]
        simp only [hg, if_true, Run.calls_fail, List.map_cons]
        rfl
      · have hpass : failure.isGrammar = false := Bool.eq_false_iff.2 hg
        rw [Strategy.upToFailure_cons_of_passes (hfails.trans hpass)]
        simp only [hpass, Bool.false_eq_true, if_false, Run.calls_bind_pure, ih, List.map_cons]
        rfl

/-! ### The harvest -/

/-- The entries for which a policy has the second strategy asked: none after a failure of the
grammar, none where the first strategy answers every selector. -/
def Policy.askedAgain (policy : Policy) (first second : Strategy) (selection : Selection) :
    List (String × String) :=
  match first.firstFailure? Failure.isGrammar selection.entries with
  | some _ => []
  | none =>
    match first.firstFailure? (fun _ => true) selection.entries with
    | none => []
    | some _ =>
      match policy with
      | .disabled => []
      | .wholeBatch => second.upToFailure (fun _ => true) selection.entries
      | .perKey =>
        second.upToFailure (fun _ => true) (selection.entries.filter fun e => !first.answers e.2)

/-- What is asked again is asked in the order of the entries. -/
theorem Policy.askedAgain_sublist (policy : Policy) (first second : Strategy)
    (selection : Selection) :
    (policy.askedAgain first second selection).Sublist selection.entries := by
  unfold askedAgain
  split
  · exact List.nil_sublist _
  split
  · exact List.nil_sublist _
  cases policy with
  | disabled => exact List.nil_sublist _
  | wholeBatch => exact (second.upToFailure_prefix _ _).sublist
  | perKey => exact (second.upToFailure_prefix _ _).sublist.trans List.filter_sublist

/-- The calls of a harvest: those of the first pass, and then those for what is asked again. -/
theorem calls_gatherWith_eq (first second : Strategy) (policy : Policy) (selection : Selection) :
    (gatherWith first second policy selection).calls =
      (first.upToFailure Failure.isGrammar selection.entries).map first.callOn ++
        (policy.askedAgain first second selection).map second.callOn := by
  unfold Policy.askedAgain
  rw [gatherWith, Run.calls_bind, calls_firstPass, outcome_firstPass]
  apply congrArg
  cases first.firstFailure? Failure.isGrammar selection.entries with
  | some failure => rfl
  | none =>
    have hhead := Strategy.head?_failedOf (s := first) selection.entries
    have hfst := Strategy.map_fst_failedOf (s := first) selection.entries
    cases hf : first.failedOf selection.entries with
    | nil =>
      rw [hf] at hhead
      rw [← hhead]
      simp only [List.head?_nil, Option.map_none, Run.calls_pure]
      rfl
    | cons f others =>
      rw [hf] at hhead hfst
      rw [← hhead]
      simp only [List.head?_cons, Option.map_some]
      cases policy with
      | disabled => rfl
      | wholeBatch => simp only [Run.calls_bind_pure, calls_askAll]
      | perKey => simp only [Run.calls_bind_pure, calls_askAll, hfst]

/-- Entries in the order of a selection have their keys in ascending order, so each key once. -/
theorem pairwise_keys_of_sublist {selection : Selection} {entries : List (String × String)}
    (h : entries.Sublist selection.entries) : (entries.map (·.1)).Pairwise (· < ·) := by
  have hascending : entries.Pairwise fun a b => a.1 < b.1 := selection.ascending.sublist h
  exact List.pairwise_map.2 hascending

/-- **The calls made for a harvest.** The first strategy is called for the keys, in ascending order
and each once, up to its first failure of the grammar; after that the second is called for the keys
that the policy has asked again, in ascending order and each once. Where the strategies have names
of their own, no call of the first comes after one of the second. -/
theorem calls_gatherWith (first second : Strategy) (policy : Policy) (selection : Selection) :
    (gatherWith first second policy selection).calls =
        (first.upToFailure Failure.isGrammar selection.entries).map first.callOn ++
          (policy.askedAgain first second selection).map second.callOn ∧
      ((first.upToFailure Failure.isGrammar selection.entries).map (·.1)).Pairwise (· < ·) ∧
      ((policy.askedAgain first second selection).map (·.1)).Pairwise (· < ·) ∧
      (first.name ≠ second.name →
        (gatherWith first second policy selection).calls.Pairwise fun earlier later =>
          earlier.strategy = second.name → later.strategy = second.name) := by
  have hcalls := calls_gatherWith_eq first second policy selection
  have hasked := (first.upToFailure_prefix Failure.isGrammar selection.entries).sublist
  have hagain := policy.askedAgain_sublist first second selection
  refine ⟨hcalls, pairwise_keys_of_sublist hasked, pairwise_keys_of_sublist hagain, ?_⟩
  intro hnames
  rw [hcalls, List.pairwise_append]
  refine ⟨?_, ?_, ?_⟩
  · apply List.pairwise_map.2
    apply List.pairwise_of_forall
    intro a b hfirst
    exact absurd hfirst hnames
  · apply List.pairwise_map.2
    apply List.pairwise_of_forall
    intro a b _
    rfl
  · intro a _ b hb _
    obtain ⟨e, _, rfl⟩ := List.mem_map.1 hb
    rfl

/-- The strategy of a name that refuses one selector and finds every other one itself. -/
def refusing (name refused : String) : Strategy :=
  ⟨name, fun selector =>
    if selector = refused then .error .notJson else .ok [.text selector]⟩

/-- A selection of three keys, of which the second has a selector that is refused. -/
def threeKeys : Selection :=
  .ofList [("a", "good"), ("b", "bad"), ("c", "fine")]

/-- The one key on which the first strategy fails is asked again. -/
theorem calls_gatherWith_threeKeys :
    "first" ≠ "second" ∧
      (gatherWith (refusing "first" "bad") (refusing "second" "fine") .perKey threeKeys).calls =
        [⟨"first", "good"⟩, ⟨"first", "bad"⟩, ⟨"first", "fine"⟩, ⟨"second", "bad"⟩] ∧
      (gatherWith (refusing "first" "bad") (refusing "second" "fine") .perKey
        threeKeys).calls.Pairwise fun earlier later =>
          earlier.strategy = "second" → later.strategy = "second" := by
  have hnames : "first" ≠ "second" := by decide
  obtain ⟨hcalls, -, -, horder⟩ :=
    calls_gatherWith (refusing "first" "bad") (refusing "second" "fine") .perKey threeKeys
  have hasked : (refusing "first" "bad").upToFailure Failure.isGrammar threeKeys.entries =
      [("a", "good"), ("b", "bad"), ("c", "fine")] := by decide
  have hagain : Policy.perKey.askedAgain (refusing "first" "bad") (refusing "second" "fine")
      threeKeys = [("b", "bad")] := by decide
  rw [hasked, hagain] at hcalls
  exact ⟨hnames, hcalls, horder hnames⟩

end Gleaner
