/-
# Harvests under other policies and from fewer keys

A harvest that comes about under a strict policy comes about under the more lenient ones too. Where
nothing may be asked again, the first strategy has answered every selector, and every policy keeps
what it found; where the whole batch may be asked again, the second strategy has answered what the
first did not, and so it does when it is asked for these keys alone. Under the policy that goes key
by key, and on JSON, whether a key has a datum and which one depends on its own selector, so that
leaving out other keys changes nothing.

Key definitions: `KeyMap.Within`, `Harvest.AgreeAt`, `Recovers`.
Key theorems: `Policy.ruling_perKey_eq_ok_iff`, `harvestJson_eq_ok_iff`, `gatherWith_refines`.
-/
import Gleaner.Proofs.Harvest.Calls
import Gleaner.Proofs.Harvest.Grammar

namespace Gleaner

/-- Each entry of a map is one of another. -/
def KeyMap.Within {α : Type} (part whole : KeyMap α) : Prop :=
  ∀ key value, part.get? key = some value → whole.get? key = some value

theorem KeyMap.Within.mem {α : Type} {part whole : KeyMap α} (h : part.Within whole)
    {e : String × α} (he : e ∈ part.entries) : e ∈ whole.entries :=
  KeyMap.get?_eq_some_iff.1 (h _ _ (KeyMap.get?_eq_some_iff.2 he))

/-- Two harvests have a datum at a key, and the same. -/
def Harvest.AgreeAt (key : String) (a b : Harvest) : Prop :=
  ∃ datum, a.values.get? key = some datum ∧ b.values.get? key = some datum

/-! ### Which harvests come about -/

/-- A selector has an answer where each key is asked for by itself: the first strategy answers it,
or fails on it other than by the grammar, and the second answers it. -/
def Recovers (first second : Strategy) (selector : String) : Prop :=
  (∀ failure, first.evaluate selector = .error failure → failure.isGrammar = false) ∧
    (first.answers selector = false → second.answers selector = true)

theorem Strategy.firstFailure?_eq_none_iff {s : Strategy} {kind : Failure → Bool}
    {entries : List (String × String)} :
    s.firstFailure? kind entries = none ↔
      ∀ e ∈ entries, ∀ failure, s.evaluate e.2 = .error failure → kind failure = false := by
  constructor
  · intro h e he failure hf
    exact kind_of_firstFailure?_eq_none h he hf
  · intro h
    cases hs : s.firstFailure? kind entries with
    | none => rfl
    | some failure =>
      obtain ⟨e, he, hf, hk⟩ := exists_of_firstFailure? hs
      rw [h e he failure hf] at hk
      cases hk

/-- The data of a harvest, key by key. -/
theorem get?_harvestBy (chosen : String → Strategy) (selection : Selection) (key : String) :
    (harvestBy chosen selection).values.get? key =
      (selection.get? key).map fun selector => (chosen selector).datum selector :=
  KeyMap.get?_map _ _ _

namespace Policy

variable {policy : Policy} {first second : Strategy} {selection : Selection} {harvest : Harvest}

/-- No harvest comes about where the first strategy fails by the grammar. -/
theorem isGrammar_of_ruling_eq_ok (h : policy.ruling first second selection = .ok harvest) :
    ∀ e ∈ selection.entries, ∀ failure,
      first.evaluate e.2 = .error failure → failure.isGrammar = false := by
  apply Strategy.firstFailure?_eq_none_iff.1
  unfold ruling at h
  split at h
  · cases h
  · assumption

/-- Where the first strategy answers every selector, every policy keeps what it found. -/
theorem ruling_of_all (hall : ∀ e ∈ selection.entries, first.answers e.2 = true) :
    policy.ruling first second selection = .ok (harvestBy (fun _ => first) selection) := by
  have hany : first.firstFailure? (fun _ => true) selection.entries = none :=
    Strategy.firstFailure?_any_eq_none_iff.2 hall
  have hgrammar : first.firstFailure? Failure.isGrammar selection.entries = none := by
    apply Strategy.firstFailure?_eq_none_iff.2
    intro e he failure hf
    have hanswers := hall e he
    rw [Strategy.answers_of_error hf] at hanswers
    cases hanswers
  rw [ruling, hgrammar, hany]

/-- Where nothing may be asked again, the first strategy has answered every selector. -/
theorem answers_of_ruling_disabled
    (h : Policy.disabled.ruling first second selection = .ok harvest) :
    (∀ e ∈ selection.entries, first.answers e.2 = true) ∧
      harvest = harvestBy (fun _ => first) selection := by
  obtain h | ⟨hpolicy, -⟩ | ⟨hpolicy, -⟩ := ruling_cases h
  · exact h
  · cases hpolicy
  · cases hpolicy

/-- Key by key, a harvest comes about exactly when each selector has an answer of its own, and then
it holds these answers. -/
theorem ruling_perKey_eq_ok_iff :
    Policy.perKey.ruling first second selection = .ok harvest ↔
      (∀ e ∈ selection.entries, Recovers first second e.2) ∧
        harvest = harvestBy (fun text => if first.answers text then first else second)
          selection := by
  constructor
  · intro h
    have hgrammar := isGrammar_of_ruling_eq_ok h
    obtain ⟨hall, rfl⟩ | ⟨hpolicy, -⟩ | ⟨-, hsecond, rfl⟩ := ruling_cases h
    · refine ⟨fun e he => ⟨hgrammar e he, fun hno => ?_⟩, ?_⟩
      · rw [hall e he] at hno
        cases hno
      · apply harvestBy_congr
        intro e he
        rw [if_pos (hall e he)]
    · cases hpolicy
    · exact ⟨fun e he => ⟨hgrammar e he, hsecond e he⟩, rfl⟩
  · rintro ⟨hrecovers, rfl⟩
    have hgrammar : first.firstFailure? Failure.isGrammar selection.entries = none :=
      Strategy.firstFailure?_eq_none_iff.2 fun e he => (hrecovers e he).1
    have hsecond : second.firstFailure? (fun _ => true)
        (selection.entries.filter fun e => !first.answers e.2) = none := by
      apply Strategy.firstFailure?_any_eq_none_iff.2
      intro e he
      obtain ⟨hmem, hno⟩ := List.mem_filter.1 he
      exact (hrecovers e hmem).2 (by simpa using hno)
    cases hany : first.firstFailure? (fun _ => true) selection.entries with
    | none =>
      have hall := Strategy.firstFailure?_any_eq_none_iff.1 hany
      rw [ruling_of_all hall]
      apply congrArg
      apply harvestBy_congr
      intro e he
      rw [if_pos (hall e he)]
    | some failure => simp only [ruling, hgrammar, hany, hsecond]

/-- Where the whole batch may be asked again and a harvest comes about, each selector has an answer
of its own, and the keys on which the first strategy fails hold what the second finds. -/
theorem recovers_of_ruling_wholeBatch
    (h : Policy.wholeBatch.ruling first second selection = .ok harvest) :
    (∀ e ∈ selection.entries, Recovers first second e.2) ∧
      ∀ key selector, selection.get? key = some selector → first.answers selector = false →
        harvest.values.get? key = some (second.datum selector) := by
  have hgrammar := isGrammar_of_ruling_eq_ok h
  obtain ⟨hall, rfl⟩ | ⟨-, -, hsecond, rfl⟩ | ⟨hpolicy, -⟩ := ruling_cases h
  · have hanswers (e : String × String) (he : e ∈ selection.entries)
        (hno : first.answers e.2 = false) : False := by
      rw [hall e he] at hno
      cases hno
    refine ⟨fun e he => ⟨hgrammar e he, fun hno => (hanswers e he hno).elim⟩, ?_⟩
    intro key selector hkey hno
    exact (hanswers (key, selector) (KeyMap.get?_eq_some_iff.1 hkey) hno).elim
  · refine ⟨fun e he => ⟨hgrammar e he, fun _ => hsecond e he⟩, ?_⟩
    intro key selector hkey _
    rw [get?_harvestBy, hkey, Option.map_some]
  · cases hpolicy

end Policy

/-- From JSON, a harvest comes about exactly when each selector is answered, and then it holds these
answers. -/
theorem harvestJson_eq_ok_iff {root : Json} {selection : Selection} {harvest : Harvest} :
    harvestJson root selection = .ok harvest ↔
      (∀ e ∈ selection.entries, (jsonPaths root).answers e.2 = true) ∧
        harvest = harvestBy (fun _ => jsonPaths root) selection := by
  rw [harvestJson, outcome_askAll]
  cases hf : (jsonPaths root).firstFailure? (fun _ => true) selection.entries with
  | some failure =>
    have hnot : ¬∀ e ∈ selection.entries, (jsonPaths root).answers e.2 = true := by
      intro hall
      rw [Strategy.firstFailure?_any_eq_none_iff.2 hall] at hf
      cases hf
    constructor
    · intro h
      cases h
    · rintro ⟨hall, -⟩
      exact absurd hall hnot
  | none =>
    have hall := Strategy.firstFailure?_any_eq_none_iff.1 hf
    simp only [Except.map, ofList_map_datum, Except.ok.injEq]
    constructor
    · rintro rfl
      exact ⟨hall, rfl⟩
    · rintro ⟨-, rfl⟩
      rfl

/-! ### Fewer keys -/

/-- The same choice of strategies gives the same data for fewer keys. -/
theorem harvestBy_agreeAt (chosen : String → Strategy) {part whole : Selection}
    (h : part.Within whole) :
    ∀ key ∈ part.keys,
      Harvest.AgreeAt key (harvestBy chosen part) (harvestBy chosen whole) := by
  intro key hkey
  obtain ⟨⟨k, selector⟩, hmem, rfl⟩ := List.mem_map.1 hkey
  have hpart : part.get? k = some selector := KeyMap.get?_eq_some_iff.2 hmem
  refine ⟨(chosen selector).datum selector, ?_, ?_⟩
  · rw [get?_harvestBy, hpart, Option.map_some]
  · rw [get?_harvestBy, h k selector hpart, Option.map_some]

/-- **Harvests under other policies and from fewer keys.** What comes about where nothing is asked
again comes about under every policy; what comes about where the whole batch is asked again comes
about key by key, with the same data wherever the first strategy fails. Key by key, and from JSON, a
part of a selection comes to the data that the whole has for its keys. -/
theorem gatherWith_refines (first second : Strategy) (selection : Selection) :
    (∀ harvest, (gatherWith first second .disabled selection).outcome = .ok harvest →
      (gatherWith first second .wholeBatch selection).outcome = .ok harvest ∧
        (gatherWith first second .perKey selection).outcome = .ok harvest) ∧
    (∀ harvest, (gatherWith first second .wholeBatch selection).outcome = .ok harvest →
      ∃ other, (gatherWith first second .perKey selection).outcome = .ok other ∧
        ∀ key selector failure, selection.get? key = some selector →
          first.evaluate selector = .error failure → Harvest.AgreeAt key other harvest) ∧
    ∀ part : Selection, part.Within selection →
      (∀ harvest, (gatherWith first second .perKey selection).outcome = .ok harvest →
        ∃ smaller, (gatherWith first second .perKey part).outcome = .ok smaller ∧
          ∀ key ∈ part.keys, Harvest.AgreeAt key smaller harvest) ∧
      ∀ content policy harvest, Format.json.harvest content policy selection = .ok harvest →
        ∃ smaller, Format.json.harvest content policy part = .ok smaller ∧
          ∀ key ∈ part.keys, Harvest.AgreeAt key smaller harvest := by
  simp only [outcome_gatherWith_eq_ruling]
  refine ⟨?_, ?_, ?_⟩
  · intro harvest h
    obtain ⟨hall, rfl⟩ := Policy.answers_of_ruling_disabled h
    exact ⟨Policy.ruling_of_all hall, Policy.ruling_of_all hall⟩
  · intro harvest h
    obtain ⟨hrecovers, hdata⟩ := Policy.recovers_of_ruling_wholeBatch h
    refine ⟨_, Policy.ruling_perKey_eq_ok_iff.2 ⟨hrecovers, rfl⟩, ?_⟩
    intro key selector failure hkey hfails
    have hno : first.answers selector = false := Strategy.answers_of_error hfails
    refine ⟨second.datum selector, ?_, hdata key selector hkey hno⟩
    rw [get?_harvestBy, hkey, Option.map_some, hno]
    rfl
  · intro part hpart
    refine ⟨?_, ?_⟩
    · intro harvest h
      obtain ⟨hrecovers, rfl⟩ := Policy.ruling_perKey_eq_ok_iff.1 h
      have hfewer : ∀ e ∈ part.entries, Recovers first second e.2 := by
        intro e he
        exact hrecovers e (hpart.mem he)
      exact ⟨_, Policy.ruling_perKey_eq_ok_iff.2 ⟨hfewer, rfl⟩, harvestBy_agreeAt _ hpart⟩
    · intro content policy harvest h
      unfold Format.harvest at h ⊢
      cases hread : Json.read? content with
      | none => simp [hread] at h
      | some root =>
        simp only [hread] at h ⊢
        obtain ⟨hanswers, rfl⟩ := harvestJson_eq_ok_iff.1 h
        have hfewer : ∀ e ∈ part.entries, (jsonPaths root).answers e.2 = true := by
          intro e he
          exact hanswers e (hpart.mem he)
        exact ⟨_, harvestJson_eq_ok_iff.2 ⟨hfewer, rfl⟩, harvestBy_agreeAt _ hpart⟩

/-- The second of the three keys alone. -/
def secondKey : Selection :=
  .ofList [("b", "bad")]

/-- A whole batch that is asked again, the same batch key by key, and a part of it. -/
theorem gatherWith_refines_threeKeys :
    ((gatherWith (refusing "first" "bad") (refusing "second" "none") .wholeBatch
          threeKeys).outcome =
        .ok (.ofList [("a", .text "good"), ("b", .text "bad"), ("c", .text "fine")]) ∧
      secondKey.Within threeKeys) ∧
    (∃ other, (gatherWith (refusing "first" "bad") (refusing "second" "none") .perKey
          threeKeys).outcome = .ok other ∧ other.values.get? "b" = some (.text "bad")) ∧
    ∃ smaller, (gatherWith (refusing "first" "bad") (refusing "second" "none") .perKey
        secondKey).outcome = .ok smaller ∧ smaller.values.get? "b" = some (.text "bad") := by
  have hwhole : (gatherWith (refusing "first" "bad") (refusing "second" "none") .wholeBatch
      threeKeys).outcome =
        .ok (.ofList [("a", .text "good"), ("b", .text "bad"), ("c", .text "fine")]) := rfl
  have hpart : secondKey.Within threeKeys := by
    intro key value hkey
    have hentry : (key, value) ∈ [("b", "bad")] := KeyMap.get?_eq_some_iff.1 hkey
    obtain ⟨rfl, rfl⟩ := Prod.mk.inj (List.mem_singleton.1 hentry)
    rfl
  obtain ⟨-, hlenient, hfewer⟩ :=
    gatherWith_refines (refusing "first" "bad") (refusing "second" "none") threeKeys
  obtain ⟨other, hother, hagree⟩ := hlenient _ hwhole
  obtain ⟨datum, hdatum, hsame⟩ := hagree "b" "bad" .notJson rfl rfl
  have hbad : datum = .text "bad" := (Option.some.inj hsame).symm
  obtain ⟨smaller, hsmaller, hparts⟩ := (hfewer secondKey hpart).1 other hother
  obtain ⟨found, hfound, hshared⟩ := hparts "b" List.mem_cons_self
  have hkept : found = .text "bad" := by
    rw [hdatum] at hshared
    rw [← hbad]
    exact (Option.some.inj hshared).symm
  refine ⟨⟨hwhole, hpart⟩, ⟨other, hother, ?_⟩, smaller, hsmaller, ?_⟩
  · rw [hdatum, hbad]
  · rw [hfound, hkept]

end Gleaner
