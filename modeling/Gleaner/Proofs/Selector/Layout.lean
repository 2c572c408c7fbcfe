/-
# Steps laid out at their brackets

A step is a head and behind it filters, each between brackets. A layout says which text belongs to
what, and nothing of a step is in none of these places. What stands behind a bracket, up to the next
one, is never read: blanks may stand there, and quotation marks in pairs, and with anything else the
step is none.

Key definitions: `Part`, `Layout`, `Layout.Sound`, `Filling`.
Key theorems: `readBrackets_text`, `exists_layout`, `of_readTarget`, `Step.read_iff_layout`.
-/
import Gleaner.Proofs.Selector.Written
import Gleaner.Proofs.Success
import Mathlib.Algebra.Ring.Parity

namespace Gleaner.Selector

open Gleaner.Text

/-! ### One character -/

/-- A character is reported where it stands behind a filter. -/
def isReported (c : Char) : Bool :=
  !isBlank c && c != '\''

/-- A scan passes a character that is no bracket; `inText` says that it belongs to the head or to a
group. -/
def Brackets.pass (inText : Bool) (c : Char) (b : Brackets) : Brackets :=
  if inText then b.keep c
  else if isReported c then { b with trailing := some c }
  else b

@[simp]
theorem Brackets.groups_pass (inText : Bool) (c : Char) (b : Brackets) :
    (b.pass inText c).groups = b.groups := by
  unfold pass
  split
  · rfl
  split <;> rfl

/-- Inside a literal every character is passed, outside of one every character but the brackets. -/
theorem bracket_cases (quoted : Bool) (c : Char) :
    (quoted || !isBracket c) = true ∨ quoted = false ∧ c = '[' ∨ quoted = false ∧ c = ']' := by
  cases quoted with
  | true => exact .inl rfl
  | false =>
    by_cases hopen : c = '['
    · exact .inr (.inl ⟨rfl, hopen⟩)
    by_cases hclose : c = ']'
    · exact .inr (.inr ⟨rfl, hclose⟩)
    · left
      simp [isBracket, hopen, hclose]

section

variable (stray cut : List Char) (opened : Bool) (depth : Nat) (rest : List Char)

theorem scanBrackets_pass {quoted : Bool} {c : Char} (h : (quoted || !isBracket c) = true) :
    scanBrackets stray cut opened depth quoted (c :: rest) =
      (scanBrackets stray cut opened depth (if c = '\'' then !quoted else quoted) rest).map
        (Brackets.pass (depth > 0 || !opened) c) := by
  have hmark : ∀ mark, isBracket mark = true → (decide (c = mark) && !quoted) = false := by
    rintro mark hmark
    cases quoted with
    | true => simp
    | false =>
      have hc : c ≠ mark := by
        rintro rfl
        rw [hmark] at h
        cases h
      simp [hc]
  rw [scanBrackets.eq_def]
  dsimp only
  by_cases hc : c = '\''
  · rw [if_pos hc, if_pos hc]
    congr 1
    funext b
    simp [Brackets.pass, isReported, hc]
  · rw [if_neg hc, if_neg hc, if_neg (by simp [hmark '[' rfl]), if_neg (by simp [hmark ']' rfl])]
    congr 1
    funext b
    cases hblank : isBlank c <;> simp [Brackets.pass, isReported, hc, hblank]

/-- A bracket inside a bracket belongs to the text of the group. -/
theorem scanBrackets_nested :
    scanBrackets stray cut opened (depth + 1) false ('[' :: rest) =
      (scanBrackets stray cut opened (depth + 2) false rest).map (·.keep '[') := by
  rw [scanBrackets.eq_def]
  dsimp only
  rw [if_neg (by decide), if_pos (by decide), if_neg (by omega)]

theorem scanBrackets_stray :
    scanBrackets stray cut opened 0 false (']' :: rest) = .error stray := by
  rw [scanBrackets, if_neg (by decide), if_neg (by decide), if_pos (by decide)]

end

/-! ### Layouts -/

/-- A filter as it stands in a step. -/
structure Part where
  /-- The text between the brackets. -/
  group : List Char
  /-- What stands behind the brackets, up to the next ones. -/
  behind : List Char

/-- A step as it is laid out. -/
structure Layout where
  /-- What stands in front of the first bracket. -/
  head : List Char
  parts : List Part

/-- A part of a step as it is written. -/
def Part.text (p : Part) : List Char :=
  '[' :: (p.group ++ ']' :: p.behind)

/-- A part whose brackets are the ones around its group. -/
structure Part.Sound (p : Part) : Prop where
  group : Closed isBracket p.group
  behind : Closed isBracket p.behind

namespace Layout

/-- The step that is laid out. -/
def text (l : Layout) : List Char :=
  l.head ++ l.parts.flatMap Part.text

/-- The texts between the brackets. -/
def groups (l : Layout) : List (List Char) :=
  l.parts.map Part.group

/-- The first character behind a filter that is reported. -/
def trailing (l : Layout) : Option Char :=
  (l.parts.flatMap Part.behind).find? isReported

/-- A layout in which no bracket stands but around a group, literals apart. -/
structure Sound (l : Layout) : Prop where
  head : Closed isBracket l.head
  parts : ∀ p ∈ l.parts, p.Sound

end Layout

/-- Behind a filter a text adds its first character that is reported. -/
theorem scanBrackets_behind (stray cut rest : List Char) :
    ∀ {text : List Char} {quoted : Bool}, freeOf isBracket quoted text = true →
      scanBrackets stray cut true 0 quoted (text ++ rest) =
        (scanBrackets stray cut true 0 (quotedAfter quoted text) rest).map fun b =>
          { b with trailing := (text.find? isReported).or b.trailing }
  | [], quoted, _ => by
    rw [List.nil_append, quotedAfter]
    cases scanBrackets stray cut true 0 quoted rest <;> rfl
  | c :: text, quoted, h => by
    unfold freeOf at h
    rw [Bool.and_eq_true] at h
    rw [List.cons_append, scanBrackets_pass _ _ _ _ _ h.1, scanBrackets_behind stray cut rest h.2,
      quotedAfter]
    cases scanBrackets stray cut true 0 (quotedAfter (if c = '\'' then !quoted else quoted) text)
      rest with
    | error e => rfl
    | ok b => cases hc : isReported c <;> simp [Except.map, Brackets.pass, hc]

theorem scanBrackets_parts : ∀ (parts : List Part) (stray cut : List Char) (opened : Bool),
    (∀ p ∈ parts, p.Sound) →
      scanBrackets stray cut opened 0 false (parts.flatMap Part.text) =
        .ok ⟨[], parts.map Part.group, (parts.flatMap Part.behind).find? isReported⟩
  | [], _, _, _, _ => rfl
  | p :: parts, stray, cut, opened, h => by
    have hp := h p List.mem_cons_self
    have htext : (p :: parts).flatMap Part.text =
        '[' :: (p.group ++ ']' :: (p.behind ++ parts.flatMap Part.text)) := by
      simp [Part.text]
    rw [htext, scanBrackets_open, scanBrackets_append _ _ rfl _ hp.group.2, hp.group.1,
      scanBrackets_close, scanBrackets_behind _ _ _ hp.behind.2, hp.behind.1,
      scanBrackets_parts parts _ _ _ fun q hq => h q (List.mem_cons_of_mem _ hq)]
    simp [Except.map]

/-- A step comes apart as it is laid out. -/
theorem readBrackets_text {l : Layout} (h : l.Sound) :
    readBrackets l.text = .ok ⟨l.head, l.groups, l.trailing⟩ := by
  rw [readBrackets, Layout.text, scanBrackets_append _ _ rfl _ h.head.2, h.head.1,
    scanBrackets_parts l.parts _ _ _ h.parts]
  simp [Except.map, Layout.groups, Layout.trailing]

/-! ### Every step is laid out -/

/-- A text that goes on with a step outside of brackets, with these groups in it. -/
def GoesOn (quoted : Bool) (groups : List (List Char)) (text : List Char) : Prop :=
  ∃ (behind : List Char) (parts : List Part), text = behind ++ parts.flatMap Part.text ∧
    quotedAfter quoted behind = false ∧ freeOf isBracket quoted behind = true ∧
    (∀ p ∈ parts, p.Sound) ∧ parts.map Part.group = groups

namespace GoesOn

variable {quoted : Bool} {groups : List (List Char)} {text : List Char}

theorem nil : GoesOn false [] [] :=
  ⟨[], [], rfl, rfl, rfl, List.forall_mem_nil _, rfl⟩

theorem cons {c : Char} (hc : (quoted || !isBracket c) = true)
    (h : GoesOn (if c = '\'' then !quoted else quoted) groups text) :
    GoesOn quoted groups (c :: text) := by
  obtain ⟨behind, parts, rfl, hquoted, hfree, hparts, hgroups⟩ := h
  refine ⟨c :: behind, parts, rfl, hquoted, ?_, hparts, hgroups⟩
  rw [freeOf, hc, hfree]
  rfl

theorem group {g : List Char} (hg : Closed isBracket g) (h : GoesOn false groups text) :
    GoesOn false (g :: groups) ('[' :: (g ++ ']' :: text)) := by
  obtain ⟨behind, parts, rfl, hquoted, hfree, hparts, hgroups⟩ := h
  refine ⟨[], ⟨g, behind⟩ :: parts, by simp [Part.text], rfl, rfl, ?_, by simp [hgroups]⟩
  rw [List.forall_mem_cons]
  exact ⟨⟨hg, hquoted, hfree⟩, hparts⟩

end GoesOn

/-- What a scan tells apart is there: outside of brackets the text goes on with the groups, and
inside of one the text of the group comes first. -/
theorem goesOn_of_scanBrackets : ∀ {text stray cut : List Char} {opened quoted : Bool}
    {b : Brackets}, (∀ g ∈ b.groups, freeOf isBracket false g = true) →
      (scanBrackets stray cut opened 0 quoted text = .ok b → GoesOn quoted b.groups text) ∧
      (scanBrackets stray cut opened 1 quoted text = .ok b → freeOf isBracket quoted b.text = true →
        ∃ rest, text = b.text ++ ']' :: rest ∧ quotedAfter quoted b.text = false ∧
          GoesOn false b.groups rest)
  | [], _, _, _, quoted, b, _ => by
    refine ⟨fun h => ?_, fun h => ?_⟩
    · cases quoted <;> cases h
      exact GoesOn.nil
    · cases h
  | c :: text, stray, cut, opened, quoted, b, hgroups => by
    rcases bracket_cases quoted c with hc | ⟨rfl, rfl⟩ | ⟨rfl, rfl⟩
    · rw [scanBrackets_pass _ _ _ _ _ hc, scanBrackets_pass _ _ _ _ _ hc]
      refine ⟨fun h => ?_, fun h hfree => ?_⟩
      · obtain ⟨b', hb', rfl⟩ := map_eq_ok_iff.1 h
        rw [Brackets.groups_pass] at hgroups ⊢
        exact ((goesOn_of_scanBrackets hgroups).1 hb').cons hc
      · obtain ⟨b', hb', rfl⟩ := map_eq_ok_iff.1 h
        rw [Brackets.groups_pass] at hgroups ⊢
        have htext : (b'.pass true c).text = c :: b'.text := rfl
        change freeOf isBracket quoted (b'.pass true c).text = true at hfree
        rw [htext, freeOf, hc, Bool.true_and] at hfree
        obtain ⟨rest, rfl, hquoted, hrest⟩ := (goesOn_of_scanBrackets hgroups).2 hb' hfree
        exact ⟨rest, rfl, hquoted, hrest⟩
    · refine ⟨fun h => ?_, fun h hfree => ?_⟩
      · rw [scanBrackets_open] at h
        obtain ⟨b', hb', rfl⟩ := map_eq_ok_iff.1 h
        rw [List.forall_mem_cons] at hgroups
        obtain ⟨rest, rfl, hquoted, hrest⟩ :=
          (goesOn_of_scanBrackets hgroups.2).2 hb' hgroups.1
        exact hrest.group ⟨hquoted, hgroups.1⟩
      · -- A bracket inside a bracket is in the text of the group.
        rw [scanBrackets_nested] at h
        obtain ⟨b', hb', rfl⟩ := map_eq_ok_iff.1 h
        cases hfree
    · refine ⟨fun h => ?_, fun h _ => ?_⟩
      · rw [scanBrackets_stray] at h
        cases h
      · rw [scanBrackets_close] at h
        obtain ⟨b', hb', rfl⟩ := map_eq_ok_iff.1 h
        exact ⟨text, rfl, rfl, (goesOn_of_scanBrackets (b := b') hgroups).1 hb'⟩

/-- A text that comes apart into groups without brackets is laid out so. -/
theorem exists_layout {body : List Char} {b : Brackets} (h : readBrackets body = .ok b)
    (hgroups : ∀ g ∈ b.groups, freeOf isBracket false g = true) :
    ∃ l : Layout, l.Sound ∧ l.text = body ∧ b = ⟨l.head, l.groups, l.trailing⟩ := by
  obtain ⟨head, parts, rfl, hquoted, hfree, hparts, -⟩ := (goesOn_of_scanBrackets hgroups).1 h
  have hsound : (Layout.mk head parts).Sound := ⟨⟨hquoted, hfree⟩, hparts⟩
  exact ⟨⟨head, parts⟩, hsound, rfl, Except.ok.inj (h.symm.trans (readBrackets_text hsound))⟩

/-! ### Steps that are read -/

theorem freeOf_of_forall {mark : Char → Bool} : ∀ {text : List Char} (quoted : Bool),
    (∀ c ∈ text, mark c = false) → freeOf mark quoted text = true
  | [], _, _ => rfl
  | c :: text, quoted, h => by
    have hrest := freeOf_of_forall (if c = '\'' then !quoted else quoted) fun a ha =>
      h a (List.mem_cons_of_mem _ ha)
    rw [freeOf, h c List.mem_cons_self, hrest]
    simp

/-- A literal is open behind a text as often as it has an odd number of quotation marks. -/
theorem quotedAfter_eq_false_iff : ∀ (text : List Char) (quoted : Bool),
    quotedAfter quoted text = false ↔ (quoted = false ↔ Even (text.count '\''))
  | [], quoted => by simp [quotedAfter]
  | c :: text, quoted => by
    rw [quotedAfter, quotedAfter_eq_false_iff text, List.count_cons]
    by_cases hc : c = '\''
    · cases quoted <;> simp [hc, Nat.even_add_one]
    · simp [hc]

theorem odd_count_iff {text : List Char} :
    Odd (text.count '\'') ↔ quotedAfter false text = true := by
  rw [← Nat.not_even_iff_odd, ← Bool.not_eq_false, quotedAfter_eq_false_iff]
  simp

/-- What may stand behind a filter: blanks, and quotation marks in pairs. -/
structure Filling (text : List Char) : Prop where
  only : ∀ c ∈ text, isBlank c = true ∨ c = '\''
  paired : Even (text.count '\'')

theorem filling_iff {text : List Char} :
    Filling text ↔ Closed isBracket text ∧ text.find? isReported = none := by
  have hreported : text.find? isReported = none ↔ ∀ c ∈ text, isBlank c = true ∨ c = '\'' := by
    rw [List.find?_eq_none]
    refine forall_congr' fun c => imp_congr_right fun _ => ?_
    cases hblank : isBlank c <;> simp [isReported, hblank]
  have hpaired : quotedAfter false text = false ↔ Even (text.count '\'') := by
    rw [quotedAfter_eq_false_iff]
    simp
  have hbracket : ∀ c, isBlank c = true ∨ c = '\'' → isBracket c = false := by
    rintro c (hc | rfl)
    · rw [Bool.eq_false_iff]
      intro hmark
      rw [isBracket, Bool.or_eq_true, beq_iff_eq, beq_iff_eq] at hmark
      rcases hmark with rfl | rfl <;> exact absurd hc (by decide)
    · rfl
  rw [hreported]
  constructor
  · rintro ⟨honly, heven⟩
    have hfree := freeOf_of_forall false fun c hc => hbracket c (honly c hc)
    exact ⟨⟨hpaired.2 heven, hfree⟩, honly⟩
  · rintro ⟨hclosed, honly⟩
    exact ⟨honly, hpaired.1 hclosed.1⟩

theorem readFilters_eq_ok_iff : ∀ {groups : List (List Char)} {filters : List Filter},
    readFilters groups = .ok filters ↔ groups.map Filter.read? = filters.map some
  | [], filters => by cases filters <;> simp [readFilters]
  | g :: groups, filters => by
    rw [readFilters]
    cases hg : Filter.read? g with
    | none => cases filters <;> simp [hg]
    | some f =>
      simp only [map_eq_ok_iff, readFilters_eq_ok_iff]
      constructor
      · rintro ⟨rest, hrest, rfl⟩
        simp [hg, hrest]
      · intro h
        cases filters with
        | nil => cases h
        | cons f' rest =>
          rw [List.map_cons, List.map_cons, List.cons.injEq, hg, Option.some.injEq] at h
          exact ⟨rest, h.2, by rw [h.1]⟩

/-- No filter of a step is left out, and it is an accessor exactly if its head is one. -/
theorem of_readTarget {head : List Char} {filters : List Filter} {t : Target}
    (h : readTarget head filters = .ok t) :
    t.filters = filters ∧ t.accessor? = Accessor.read? head := by
  have hbare {t' : Target}
      (h : (if filters.isEmpty then .ok t' else .error .filtersNotAllowed) =
        (.ok t : Except Reason Target))
      (hfilters : t'.filters = []) (haccessor : t'.accessor? = Accessor.read? head) :
      t.filters = filters ∧ t.accessor? = Accessor.read? head := by
    cases filters with
    | nil =>
      cases h
      exact ⟨hfilters, haccessor⟩
    | cons f rest => cases h
  unfold readTarget at h
  dsimp only at h
  split at h
  · next a hread => exact hbare h rfl hread.symm
  next hread =>
  split at h
  · exact hbare h rfl hread.symm
  split at h
  · exact hbare h rfl hread.symm
  split at h
  · split at h <;> cases h
    exact ⟨rfl, hread.symm⟩
  · cases h
    exact ⟨rfl, hread.symm⟩

theorem Step.filters_eq (s : Step) : s.filters = s.target.filters := by
  unfold Step.filters Target.filters
  cases s.target <;> rfl

namespace Step

variable {text : List Char} {s : Step}

theorem read_eq_ok_iff : Step.read text = .ok s ↔
    ∃ b, readBrackets (stepBody text) = .ok b ∧ readFilters b.groups = .ok s.filters ∧
      b.trailing = none ∧ readTarget (trim b.text) s.filters = .ok s.target ∧
      s.raw = String.ofList text ∧ s.reach = stepReach text := by
  unfold Step.read
  dsimp only
  constructor
  · intro h
    split at h
    · cases h
    next b hb =>
    split at h
    · cases h
    next filters hfilters =>
    split at h
    · cases h
    next htrailing =>
    split at h
    · cases h
    next target htarget =>
    cases h
    have hsame : (Step.mk (String.ofList text) (stepReach text) target).filters = filters := by
      rw [filters_eq]
      exact (of_readTarget htarget).1
    rw [hsame]
    exact ⟨b, hb, hfilters, htrailing, htarget, rfl, rfl⟩
  · rintro ⟨b, hb, hfilters, htrailing, htarget, hraw, hreach⟩
    simp only [hb, hfilters, htrailing, htarget, ← hraw, ← hreach]

end Step

/-- A layout in which the groups write the filters. -/
structure Layout.Readable (l : Layout) (filters : List Filter) : Prop where
  head : Closed isBracket l.head
  groups : l.groups.map Filter.read? = filters.map some
  behind : ∀ p ∈ l.parts, Closed isBracket p.behind

/-- Texts that write filters have no brackets outside of literals. -/
theorem closed_of_readFilters {groups : List (List Char)} {filters : List Filter}
    (h : groups.map Filter.read? = filters.map some) : ∀ g ∈ groups, Closed isBracket g := by
  intro g hg
  have hsome : Filter.read? g ∈ filters.map some := by
    rw [← h]
    exact List.mem_map_of_mem hg
  obtain ⟨f, -, hf⟩ := List.mem_map.1 hsome
  exact Filter.closed_of_read? (fun _ => separator_of_isBracket) hf.symm

theorem Layout.Readable.sound {l : Layout} {filters : List Filter} (h : l.Readable filters) :
    l.Sound :=
  ⟨h.head, fun p hp => ⟨closed_of_readFilters h.groups _ (List.mem_map_of_mem hp), h.behind p hp⟩⟩

theorem Layout.trailing_eq_none_iff {l : Layout} (h : l.Sound) :
    l.trailing = none ↔ ∀ p ∈ l.parts, Filling p.behind := by
  have hfilling : ∀ p ∈ l.parts, Filling p.behind ↔ ∀ c ∈ p.behind, ¬isReported c = true := by
    intro p hp
    rw [filling_iff, List.find?_eq_none]
    exact and_iff_right (h.parts p hp).behind
  rw [trailing, List.find?_eq_none]
  constructor
  · intro hall p hp
    exact (hfilling p hp).2 fun c hc => hall c (List.mem_flatMap.2 ⟨p, hp, hc⟩)
  · intro hall c hc
    obtain ⟨p, hp, hcp⟩ := List.mem_flatMap.1 hc
    exact (hfilling p hp).1 (hall p hp) c hcp

namespace Step

variable {text : List Char} {s : Step}

/-- A step that is read is laid out with its filters, and with nothing but fillings behind them. -/
theorem exists_layout_of_read (h : Step.read text = .ok s) :
    ∃ l : Layout, l.text = stepBody text ∧ l.Readable s.filters ∧
      (∀ p ∈ l.parts, Filling p.behind) ∧ readTarget (trim l.head) s.filters = .ok s.target := by
  obtain ⟨b, hb, hfilters, htrailing, htarget, -⟩ := read_eq_ok_iff.1 h
  rw [readFilters_eq_ok_iff] at hfilters
  obtain ⟨l, hsound, htext, rfl⟩ :=
    exists_layout hb fun g hg => (closed_of_readFilters hfilters g hg).2
  exact ⟨l, htext, ⟨hsound.head, hfilters, fun p hp => (hsound.parts p hp).behind⟩,
    (Layout.trailing_eq_none_iff hsound).1 htrailing, htarget⟩

/-- A text that is laid out so is a step. -/
theorem read_of_layout {l : Layout} (htext : l.text = stepBody text)
    (hreadable : l.Readable s.filters) (hfilling : ∀ p ∈ l.parts, Filling p.behind)
    (htarget : readTarget (trim l.head) s.filters = .ok s.target)
    (hraw : s.raw = String.ofList text) (hreach : s.reach = stepReach text) :
    Step.read text = .ok s := by
  have hbrackets := readBrackets_text hreadable.sound
  rw [htext] at hbrackets
  refine read_eq_ok_iff.2 ⟨_, hbrackets, ?_, ?_, htarget, hraw, hreach⟩
  · exact readFilters_eq_ok_iff.2 hreadable.groups
  · exact (Layout.trailing_eq_none_iff hreadable.sound).2 hfilling

/-- Behind a filter the first character that is reported makes the text no step. -/
theorem read_of_trailing {l : Layout} {filters : List Filter} {c : Char}
    (htext : l.text = stepBody text) (hreadable : l.Readable filters)
    (hc : l.trailing = some c) :
    Step.read text = .error (.unusable (String.ofList text) (.afterFilter c)) := by
  have hbrackets := readBrackets_text hreadable.sound
  rw [htext] at hbrackets
  unfold Step.read
  simp only [hbrackets, readFilters_eq_ok_iff.2 hreadable.groups, hc]

/-- **Nothing of a step is dropped but quotation marks behind its filters.** A text is a step
exactly if it is a head and behind it groups between brackets that write the filters of the step,
one after another, where blanks and quotation marks in pairs may follow each group. If any other
character stands behind a group, the first of them is reported. So the groups have nothing but
blanks behind them as long as no quotation mark stands there. -/
theorem read_iff_layout (text : List Char) :
    (∀ s, Step.read text = .ok s ↔
      (s.raw = String.ofList text ∧ s.reach = stepReach text) ∧
        ∃ l : Layout, l.text = stepBody text ∧ l.Readable s.filters ∧
          (∀ p ∈ l.parts, Filling p.behind) ∧
          readTarget (trim l.head) s.filters = .ok s.target) ∧
      ∀ (l : Layout) (filters : List Filter) (c : Char), l.text = stepBody text →
        l.Readable filters → l.trailing = some c →
        Step.read text = .error (.unusable (String.ofList text) (.afterFilter c)) := by
  refine ⟨fun s => ⟨fun h => ?_, ?_⟩, fun l filters c => read_of_trailing⟩
  · obtain ⟨-, -, -, -, -, hraw, hreach⟩ := read_eq_ok_iff.1 h
    exact ⟨⟨hraw, hreach⟩, exists_layout_of_read h⟩
  · rintro ⟨⟨hraw, hreach⟩, l, htext, hreadable, hfilling, htarget⟩
    exact read_of_layout htext hreadable hfilling htarget hraw hreach

/-- A step to `a` with the one filter `[0]` and a text behind it. -/
def indexedLayout (behind : List Char) : Layout :=
  ⟨['a'], [⟨['0'], behind⟩]⟩

/-- Quotation marks behind the filter are dropped, and a letter behind these is reported. -/
theorem read_iff_layout_marks :
    Step.read "//a[0]''".toList = .ok ⟨"//a[0]''", .below, .element "a" [.index 0]⟩ ∧
      (indexedLayout "''x".toList).text = stepBody "//a[0]''x".toList ∧
      (indexedLayout "''x".toList).Readable [.index 0] ∧
      (indexedLayout "''x".toList).trailing = some 'x' ∧
      Step.read "//a[0]''x".toList = .error (.unusable "//a[0]''x" (.afterFilter 'x')) := by
  have hclosed {behind : List Char} (h : Closed isBracket behind) :
      (indexedLayout behind).Readable [.index 0] :=
    ⟨⟨rfl, rfl⟩, rfl, List.forall_mem_singleton.2 h⟩
  have hmarks : Filling "''".toList := filling_iff.2 ⟨⟨rfl, rfl⟩, rfl⟩
  have hletter : (indexedLayout "''x".toList).Readable [.index 0] := hclosed ⟨rfl, rfl⟩
  obtain ⟨hread, -⟩ := read_iff_layout "//a[0]''".toList
  obtain ⟨-, hreport⟩ := read_iff_layout "//a[0]''x".toList
  refine ⟨(hread _).2 ⟨⟨rfl, rfl⟩, indexedLayout "''".toList, rfl, hclosed ⟨rfl, rfl⟩, ?_, rfl⟩,
    rfl, hletter, rfl, hreport _ _ _ rfl hletter rfl⟩
  exact List.forall_mem_singleton.2 hmarks

end Step

end Gleaner.Selector
