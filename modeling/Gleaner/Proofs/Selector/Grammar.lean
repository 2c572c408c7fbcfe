/-
# Where the grammar of a selector is at fault

The brackets of a selector are told apart step by step: it is cut at its slashes, each step is
trimmed and stripped of its slashes, and only then are its brackets counted and its groups read. The
scan over the whole selector comes to the same: it is a simulation of the reading of one step,
blanks and slashes outside of brackets do not change what is open, and where nothing is open it goes
on as it began.

Key definitions: `Passes`, `PassesIn`, `Ungrammatical`.
Key theorems: `passes_iff_run`, `Step.ungrammatical_iff`, `Cut.run_iff`, `read_grammar_iff`.
-/
import Gleaner.Proofs.Selector.Bracketing

namespace Gleaner.Selector

open Gleaner.Text

/-! ### Groups -/

/-- Every group that a step came apart into writes a filter. -/
def Brackets.Known (b : Brackets) : Prop :=
  ∀ g ∈ b.groups, (Filter.read? g).isSome = true

/-- Behind a mark outside of literals no text becomes a filter. -/
theorem read?_mark {g : List Char} (hg : quotedAfter false g = false) {c : Char}
    (hc : c = '[' ∨ c = '/') (more : List Char) : Filter.read? (g ++ c :: more) = none := by
  rw [Option.eq_none_iff_forall_ne_some]
  intro f hf
  have hfree {mark : Char → Bool} (h : Closed mark (g ++ c :: more)) : mark c = false := by
    have hrest := h.2
    rw [freeOf_append, hg, freeOf, Bool.and_eq_true, Bool.and_eq_true] at hrest
    simpa using hrest.2.1
  rcases hc with rfl | rfl
  · exact absurd (hfree (Filter.closed_of_read? (fun _ => separator_of_isBracket) hf)) (by decide)
  · exact absurd (hfree (Filter.closed_of_read? (fun _ => separator_of_isSlash) hf)) (by decide)

/-! ### One step -/

section

variable (stray cut : List Char) (opened : Bool)

/-- A step can be read from here on, outside of brackets. -/
def Passes (quoted : Bool) (text : List Char) : Prop :=
  ∃ b, scanBrackets stray cut opened 0 quoted text = .ok b ∧ b.Known

/-- A step can be read from here on, inside of a bracket of which `g` has been read. -/
def PassesIn (g text : List Char) : Prop :=
  ∃ b, scanBrackets stray cut opened 1 (quotedAfter false g) text = .ok b ∧
    (Filter.read? (g ++ b.text)).isSome = true ∧ b.Known

end

variable {stray cut : List Char} {opened quoted : Bool} {c : Char} {g text : List Char}

theorem passes_nil : Passes stray cut opened quoted [] ↔ quoted = false := by
  unfold Passes scanBrackets
  cases quoted <;> simp [Brackets.Known]

theorem passes_cons (hc : (quoted || !isBracket c) = true) :
    Passes stray cut opened quoted (c :: text) ↔
      Passes stray cut opened (if c = '\'' then !quoted else quoted) text := by
  unfold Passes
  simp [scanBrackets_pass _ _ _ _ _ hc, map_eq_ok_iff, Brackets.Known]

theorem passes_open : Passes stray cut opened false ('[' :: text) ↔
    PassesIn (if opened then stray else '[' :: text) text true [] text := by
  unfold Passes PassesIn
  simp [scanBrackets_open, map_eq_ok_iff, Brackets.Known, quotedAfter]

theorem not_passes_close : ¬Passes stray cut opened false (']' :: text) := by
  simp [Passes, scanBrackets_stray]

theorem not_passesIn_nil : ¬PassesIn stray cut opened g [] := by
  simp [PassesIn, scanBrackets]

theorem passesIn_cons (hc : (quotedAfter false g || !isBracket c) = true) :
    PassesIn stray cut opened g (c :: text) ↔ PassesIn stray cut opened (g ++ [c]) text := by
  unfold PassesIn
  simp [scanBrackets_pass _ _ _ _ _ hc, map_eq_ok_iff, Brackets.Known, quotedAfter_append,
    quotedAfter, Brackets.pass, Brackets.keep]

theorem passesIn_close (hg : quotedAfter false g = false) :
    PassesIn stray cut opened g (']' :: text) ↔
      (Filter.read? g).isSome = true ∧ Passes stray cut opened false text := by
  unfold Passes PassesIn
  rw [← exists_and_left]
  simp [hg, scanBrackets_close, map_eq_ok_iff, Brackets.Known, and_left_comm]

/-- What stands behind such a mark in a bracket is no filter, whether the scan goes on or not. -/
theorem not_passesIn_mark (hg : quotedAfter false g = false) (hc : c = '[' ∨ c = '/') :
    ¬PassesIn stray cut opened g (c :: text) := by
  rintro ⟨b, hb, hread, -⟩
  have htext : ∃ more, b.text = c :: more := by
    rw [hg] at hb
    rcases hc with rfl | rfl
    · rw [scanBrackets_nested] at hb
      obtain ⟨b', -, rfl⟩ := map_eq_ok_iff.1 hb
      exact ⟨b'.text, rfl⟩
    · rw [scanBrackets_pass _ _ _ _ _ (by decide)] at hb
      obtain ⟨b', -, rfl⟩ := map_eq_ok_iff.1 hb
      exact ⟨b'.text, rfl⟩
  obtain ⟨more, hmore⟩ := htext
  rw [hmore, read?_mark hg hc] at hread
  cases hread

/-- The scan of a whole text and the reading of a step go on side by side. -/
theorem passes_iff_run : ∀ (text : List Char) (stray cut : List Char) (opened : Bool),
    (∀ quoted, Passes stray cut opened quoted text ↔
      Scan.run ⟨quoted, none⟩ text = some Scan.start) ∧
    ∀ g, PassesIn stray cut opened g text ↔
      Scan.run ⟨quotedAfter false g, some g⟩ text = some Scan.start
  | [], stray, cut, opened => by
    refine ⟨fun quoted => ?_, fun g => ?_⟩
    · rw [passes_nil]
      simp [Scan.run, Scan.start]
    · exact iff_of_false not_passesIn_nil (by simp [Scan.run, Scan.start])
  | c :: text, stray, cut, opened => by
    refine ⟨fun quoted => ?_, fun g => ?_⟩
    · rcases bracket_cases quoted c with hc | ⟨rfl, rfl⟩ | ⟨rfl, rfl⟩
      · rw [passes_cons hc, (passes_iff_run text stray cut opened).1]
        rw [Scan.run, Scan.next_eq_keep hc (.inr (.inl rfl)), Option.bind_some]
        rfl
      · rw [passes_open, (passes_iff_run text _ _ _).2]
        rfl
      · exact iff_of_false not_passes_close (by simp [Scan.run, Scan.next])
    · rcases bracket_cases (quotedAfter false g) c with hc | ⟨hg, rfl⟩ | ⟨hg, rfl⟩
      · by_cases hkeep : quotedAfter false g = true ∨ some g = none ∨ c ≠ '/'
        · rw [passesIn_cons hc, (passes_iff_run text stray cut opened).2, Scan.run,
            Scan.next_eq_keep hc hkeep, Option.bind_some, quotedAfter_append]
          rfl
        · rw [not_or, not_or, Bool.not_eq_true, not_ne_iff] at hkeep
          obtain ⟨hg, -, rfl⟩ := hkeep
          exact iff_of_false (not_passesIn_mark hg (.inr rfl)) (by simp [Scan.run, Scan.next, hg])
      · exact iff_of_false (not_passesIn_mark hg (.inl rfl)) (by simp [Scan.run, Scan.next, hg])
      · rw [passesIn_close hg, (passes_iff_run text stray cut opened).1, Scan.run, hg]
        by_cases hread : (Filter.read? g).isSome = true
        · simp [Scan.next, hread, Scan.start]
        · simp [Scan.next, hread]

/-- A reading comes to a fault of the grammar. -/
def Ungrammatical {α : Type} (read : Except Fault α) : Prop :=
  ∃ f, read = .error f ∧ f.isGrammar = true

theorem exists_readFilters_iff : ∀ {groups : List (List Char)},
    (∃ filters, readFilters groups = .ok filters) ↔ ∀ g ∈ groups, (Filter.read? g).isSome = true
  | [] => by simp [readFilters]
  | g :: groups => by
    rw [List.forall_mem_cons, ← exists_readFilters_iff]
    cases hg : Filter.read? g with
    | none => simp [readFilters, hg]
    | some f => simp [readFilters, hg, map_eq_ok_iff]

/-- A step is at fault if it does not come apart into groups that write filters. -/
theorem Step.ungrammatical_iff_passes (text : List Char) : Ungrammatical (Step.read text) ↔
    ¬Passes (stepBody text) (stepBody text) false false (stepBody text) := by
  unfold Ungrammatical Passes Step.read
  dsimp only
  rw [readBrackets]
  cases scanBrackets (stepBody text) (stepBody text) false 0 false (stepBody text) with
  | error filter => simp [Fault.isGrammar]
  | ok b =>
    simp only [Except.ok.injEq, exists_eq_left', Brackets.Known]
    rw [← exists_readFilters_iff]
    cases readFilters b.groups with
    | error filter => simp [Fault.isGrammar]
    | ok filters =>
      cases b.trailing with
      | some c => simp [Fault.isGrammar]
      | none =>
        dsimp only
        cases readTarget (trim b.text) filters <;> simp [Fault.isGrammar]

/-! ### What surrounds a step -/

/-- Characters that mean nothing to a scan belong to what is open. -/
theorem Scan.run_plain : ∀ {text : List Char} (s : Scan),
    (∀ c ∈ text, c ≠ '\'' ∧ c ∉ separators) →
      s.run text = some ⟨s.quoted, s.group.map (· ++ text)⟩
  | [], s, _ => by simp [Scan.run]
  | c :: text, s, h => by
    rw [List.forall_mem_cons] at h
    obtain ⟨⟨hquote, hc⟩, hrest⟩ := h
    have hbracket : isBracket c = false := by
      rw [Bool.eq_false_iff]
      exact fun hmark => hc (separator_of_isBracket hmark)
    have hslash : c ≠ '/' := by
      rintro rfl
      exact hc (by decide)
    rw [Scan.run, Scan.next_eq_keep (by simp [hbracket]) (.inr (.inr hslash)), Option.bind_some,
      Scan.run_plain _ hrest]
    simp [Scan.keep, hquote, Function.comp_def]

/-- Where nothing is open, slashes open nothing. -/
theorem Scan.run_slashes (n : Nat) (text : List Char) :
    Scan.start.run (slashes n ++ text) = Scan.start.run text := by
  induction n with
  | zero => rfl
  | succ n ih => exact ih

/-- Blanks behind a text close nothing that is open there. -/
theorem Scan.run_blanks_iff {s : Scan} {text : List Char} (h : Blanks text) :
    s.run text = some Scan.start ↔ s = Scan.start := by
  rw [Scan.run_plain s (not_separator_of_blanks h)]
  obtain ⟨quoted, group⟩ := s
  cases group <;> simp [Scan.start]

theorem exists_stepBody (text : List Char) : ∃ before n after, Blanks before ∧ Blanks after ∧
    text = before ++ (slashes n ++ stepBody text) ++ after := by
  obtain ⟨before, after, hbefore, hafter, htext⟩ := exists_trim text
  have hslashes : trim text =
      slashes ((trim text).takeWhile (· == '/')).length ++ stepBody text := by
    have hrow : (trim text).takeWhile (· == '/') =
        slashes ((trim text).takeWhile (· == '/')).length :=
      List.eq_replicate_of_mem fun c hc =>
        beq_iff_eq.1 (List.all_eq_true.1 List.all_takeWhile c hc)
    rw [← hrow, stepBody, List.takeWhile_append_dropWhile]
  refine ⟨before, ((trim text).takeWhile (· == '/')).length, after, hbefore, hafter, ?_⟩
  rw [← hslashes]
  exact htext

/-- What is stripped of a step does not matter to the scan. -/
theorem run_stepBody_iff (text : List Char) :
    Scan.start.run (stepBody text) = some Scan.start ↔ Scan.start.run text = some Scan.start := by
  obtain ⟨before, n, after, hbefore, hafter, htext⟩ := exists_stepBody text
  have hfront : Scan.start.run before = some Scan.start := by
    rw [Scan.run_plain _ (not_separator_of_blanks hbefore)]
    rfl
  have hrun : Scan.start.run text =
      (Scan.start.run (stepBody text)).bind fun s => s.run after := by
    conv_lhs => rw [htext]
    rw [Scan.run_append, Scan.run_append, hfront, Option.bind_some, Scan.run_slashes]
  rw [hrun, Option.bind_eq_some_iff]
  constructor
  · intro hbody
    exact ⟨_, hbody, (Scan.run_blanks_iff hafter).2 rfl⟩
  · rintro ⟨s, hbody, hs⟩
    rw [hbody, (Scan.run_blanks_iff hafter).1 hs]

/-- A step is at fault as its own scan says. -/
theorem Step.ungrammatical_iff (text : List Char) :
    Ungrammatical (Step.read text) ↔ Scan.start.run text ≠ some Scan.start := by
  rw [Step.ungrammatical_iff_passes, (passes_iff_run _ _ _ _).1, ← Scan.start, run_stepBody_iff]

/-! ### The whole selector -/

/-- A selector is scanned as its steps are. A slash between steps stops the scan in a bracket, and
where nothing is open the scan begins anew. -/
theorem Cut.run_iff {text : List Char} {steps : List (List Char)} {k : Nat} (h : Cut text steps k) :
    Scan.start.run text = some Scan.start ↔
      ∀ step ∈ steps, Scan.start.run step = some Scan.start := by
  induction h with
  | bare n =>
    have hrun := Scan.run_slashes n []
    rw [List.append_nil] at hrun
    rw [hrun]
    exact iff_of_true rfl (List.forall_mem_nil _)
  | last n => rw [List.forall_mem_singleton]
  | @next n body rest steps k hbody _ ih =>
    rw [List.forall_mem_cons, ← ih, Scan.run_append, Option.bind_eq_some_iff]
    constructor
    · rintro ⟨s, hs, hrest⟩
      have hquoted : s.quoted = false := by
        rw [(Scan.behind_of_run hs).quoted, quotedAfter_append, quotedAfter_slashes,
          hbody.closed.1]
      have hgroup : s.group = none := by
        rw [Option.eq_none_iff_forall_ne_some]
        intro g hg
        have hstop : s.next '/' = none :=
          Scan.next_eq_none_iff.2 ⟨hquoted, .inr ⟨g, hg, .inr (.inl rfl)⟩⟩
        rw [Scan.run, hstop] at hrest
        cases hrest
      obtain ⟨quoted, group⟩ := s
      obtain rfl : quoted = false := hquoted
      obtain rfl : group = none := hgroup
      exact ⟨hs, hrest⟩
    · rintro ⟨hs, hrest⟩
      exact ⟨_, hs, hrest⟩

theorem firstGrammarFault?_eq_some {read : List (Except Fault Step)} {f : Fault}
    (h : firstGrammarFault? read = some f) : .error f ∈ read ∧ f.isGrammar = true := by
  obtain ⟨r, hr, hf⟩ := List.exists_of_findSome?_eq_some h
  cases r with
  | ok s => cases hf
  | error f' =>
    obtain ⟨hgrammar, hf⟩ := Option.ite_none_right_eq_some.1 hf
    cases hf
    exact ⟨hr, hgrammar⟩

theorem firstGrammarFault?_eq_none_iff {read : List (Except Fault Step)} :
    firstGrammarFault? read = none ↔ ∀ r ∈ read, ¬Ungrammatical r := by
  rw [firstGrammarFault?, List.findSome?_eq_none_iff]
  refine forall_congr' fun r => imp_congr_right fun _ => ?_
  cases r <;> simp [Ungrammatical]

/-- The first fault of the steps is that of one of them. -/
theorem mem_of_allSteps_eq_error : ∀ {read : List (Except Fault Step)} {f : Fault},
    allSteps read = .error f → .error f ∈ read
  | .error f' :: read, f, h => by
    cases h
    exact List.mem_cons_self
  | .ok s :: read, f, h => by
    rw [allSteps] at h
    cases hrest : allSteps read with
    | ok steps =>
      rw [hrest] at h
      cases h
    | error f' =>
      rw [hrest] at h
      cases h
      exact List.mem_cons_of_mem _ (mem_of_allSteps_eq_error hrest)

theorem ofSteps_grammatical (text : String) (steps : List Step) :
    ¬Ungrammatical (ofSteps text steps) := by
  rintro ⟨f, hf, hgrammar⟩
  unfold ofSteps at hf
  dsimp only at hf
  split at hf
  · cases hf
    cases hgrammar
  · cases hf

/-- A selector is at fault if one of its steps is. -/
theorem ungrammatical_read_iff (text : String) : Ungrammatical (read text) ↔
    ∃ step ∈ splitSteps text.toList, Ungrammatical (Step.read step) := by
  unfold read
  cases hsteps : splitSteps text.toList with
  | nil => simp [Ungrammatical, Fault.isGrammar]
  | cons step steps =>
    dsimp only
    cases hfirst : firstGrammarFault? ((step :: steps).map Step.read) with
    | some f =>
      obtain ⟨hmem, hgrammar⟩ := firstGrammarFault?_eq_some hfirst
      obtain ⟨t, ht, hread⟩ := List.mem_map.1 hmem
      exact iff_of_true ⟨f, rfl, hgrammar⟩ ⟨t, ht, f, hread, hgrammar⟩
    | none =>
      rw [firstGrammarFault?_eq_none_iff, List.forall_mem_map] at hfirst
      refine iff_of_false ?_ (fun ⟨t, ht, hfault⟩ => hfirst t ht hfault)
      rintro ⟨f, hf, hgrammar⟩
      dsimp only at hf
      cases hall : allSteps ((step :: steps).map Step.read) with
      | ok read =>
        rw [hall] at hf
        exact ofSteps_grammatical text read ⟨f, hf, hgrammar⟩
      | error f' =>
        rw [hall] at hf
        cases hf
        obtain ⟨t, ht, hread⟩ := List.mem_map.1 (mem_of_allSteps_eq_error hall)
        exact hfirst t ht ⟨f, hread, hgrammar⟩

/-- **The grammar of brackets is one of the whole selector.** A selector is at fault exactly if a
literal or a bracket is left open, a bracket is closed that is not open, a bracket or a slash stands
in an open bracket, or a group writes none of the filters. -/
theorem read_grammar_iff (text : String) :
    (∃ f, read text = .error f ∧ f.isGrammar = true) ↔ Misbracketed text.toList := by
  obtain ⟨k, hcut⟩ := exists_cut text.toList
  rw [misbracketed_iff_run, Ne, hcut.run_iff, ← Ungrammatical, ungrammatical_read_iff]
  simp only [Step.ungrammatical_iff, not_forall, ne_eq, exists_prop]

end Gleaner.Selector
