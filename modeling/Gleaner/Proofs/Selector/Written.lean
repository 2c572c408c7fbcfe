/-
# Selectors that are read as they were written

A filter, a step and a whole selector are put down in the one way that is meant for them: the
attribute and its value without blanks between them, the filters of a step between brackets behind
its head, a step behind its slashes. Each is then read back as what it was, whatever the values of
the filters hold besides a quotation mark.

Key definitions: `Filter.written`, `Filter.Legible`, `Target.written`, `Target.Legible`, `Leg`,
`written`.
Key theorems: `Filter.form_written`, `Filter.closed_of_form`, `Step.read_written`, `read_written`.
-/
import Gleaner.Proofs.Selector.Forms
import Gleaner.Proofs.Selector.Scanning
import Gleaner.Selector.Basic

namespace Gleaner.Selector

open Gleaner.Text

/-! ### Filters -/

/-- A filter as it is written between brackets. -/
def Filter.written : Filter → List Char
  | .attributeIs name value => '@' :: (name.toList ++ '=' :: '\'' :: (value.toList ++ ['\'']))
  | .attributeHolds name value =>
    containsStart ++ '@' :: (name.toList ++ ',' :: '\'' :: (value.toList ++ ['\'', ')']))
  | .textHolds value =>
    containsStart ++ (ownTextCall ++ ',' :: '\'' :: (value.toList ++ ['\'', ')']))
  | .index n => (toString n).toList
  | .hasAttribute name => '@' :: name.toList

/-- The filter can be written. -/
def Filter.Legible : Filter → Prop
  | .attributeIs name value | .attributeHolds name value =>
    isAttributeName name.toList = true ∧ Quotable value
  | .textHolds value => Quotable value
  | .index n => n < Number.twoTo 64
  | .hasAttribute name => isAttributeName name.toList = true

/-- Nothing needs to stand between the pieces. -/
theorem spaced_flatten : ∀ pieces : List (List Char), Spaced pieces pieces.flatten
  | [] => Blanks.nil
  | _ :: pieces => ⟨[], pieces.flatten, Blanks.nil, rfl, spaced_flatten pieces⟩

/-- What is written as a filter has the filter's form. -/
theorem Filter.form_written {f : Filter} (h : f.Legible) : f.Form f.written := by
  cases f with
  | attributeIs name value =>
    refine .attributeIs h.1 h.2 ?_
    have hspaced := spaced_flatten ['@' :: name.toList, ['='], quoted value]
    simpa [Filter.written, quoted] using hspaced
  | attributeHolds name value =>
    refine .attributeHolds h.1 h.2 ?_
    have hspaced := spaced_flatten
      [containsStart, '@' :: name.toList, [','], quoted value, [')']]
    simpa [Filter.written, quoted] using hspaced
  | textHolds value =>
    refine .textHolds h ?_
    have hspaced := spaced_flatten [containsStart, ownTextCall, [','], quoted value, [')']]
    simpa [Filter.written, quoted] using hspaced
  | index n =>
    obtain ⟨hne, hdigits⟩ := digits_toString n
    have hvalue := numeralValue_toString n
    have hform := Filter.Form.index hne hdigits (by rwa [hvalue])
      (spaced_flatten [(toString n).toList])
    rwa [hvalue, List.flatten_singleton] at hform
  | hasAttribute name =>
    refine .hasAttribute h ?_
    have hspaced := spaced_flatten ['@' :: name.toList]
    rwa [List.flatten_singleton] at hspaced

/-- A filter is read back as it was written. -/
theorem Filter.read?_written {f : Filter} (h : f.Legible) : Filter.read? f.written = some f :=
  Filter.read?_of_form (Filter.form_written h)

/-! ### Texts of filters as a whole -/

/-- The marks that separate steps or surround filters. -/
def separators : List Char :=
  ['/', '[', ']']

theorem separator_of_isSlash {c : Char} (h : isSlash c = true) : c ∈ separators := by
  rw [isSlash, beq_iff_eq] at h
  rw [h]
  decide

theorem separator_of_isBracket {c : Char} (h : isBracket c = true) : c ∈ separators := by
  rw [isBracket, Bool.or_eq_true, beq_iff_eq, beq_iff_eq] at h
  rcases h with rfl | rfl <;> decide

/-- Characters of a kind that no mark is of are no marks. -/
theorem not_separator_of_kind {kind : Char → Bool} (hno : ∀ m ∈ '\'' :: separators, kind m = false)
    {c : Char} (h : kind c = true) : c ≠ '\'' ∧ c ∉ separators := by
  have hne : ∀ m ∈ '\'' :: separators, c ≠ m := by
    rintro m hm rfl
    exact Bool.false_ne_true ((hno c hm).symm.trans h)
  exact ⟨hne _ List.mem_cons_self, fun hc => hne c (List.mem_cons_of_mem _ hc) rfl⟩

/-- No character of an attribute's name is a mark. -/
theorem not_separator_of_name {c : Char} (h : isNameStart c = true ∨ isNameChar c = true) :
    c ≠ '\'' ∧ c ∉ separators :=
  h.elim (not_separator_of_kind (by decide)) (not_separator_of_kind (by decide))

theorem not_separator_of_blanks {text : List Char} (h : Blanks text) :
    ∀ c ∈ text, c ≠ '\'' ∧ c ∉ separators :=
  fun c hc => not_separator_of_kind (by decide) (h c hc)

section

variable {mark : Char → Bool} (hmark : ∀ c, mark c = true → c ∈ separators)

include hmark

/-- Characters that are no separators make up a closed text. -/
theorem closed_of_not_separator {text : List Char}
    (h : ∀ c ∈ text, c ≠ '\'' ∧ c ∉ separators) : Closed mark text := by
  refine Closed.of_forall fun c hc => ⟨(h c hc).1, ?_⟩
  rw [Bool.eq_false_iff]
  exact fun hm => (h c hc).2 (hmark c hm)

theorem closed_attribute {name : List Char} (h : isAttributeName name = true) :
    Closed mark ('@' :: name) := by
  refine closed_of_not_separator hmark fun c hc => ?_
  rw [List.mem_cons] at hc
  rcases hc with rfl | hc
  · decide
  · obtain _ | ⟨d, rest⟩ := name
    · cases h
    · rw [isAttributeName, Bool.and_eq_true, List.all_eq_true] at h
      rw [List.mem_cons] at hc
      rcases hc with rfl | hc
      · exact not_separator_of_name (.inl h.1)
      · exact not_separator_of_name (.inr (h.2 c hc))

theorem closed_quoted {value : String} (h : Quotable value) : Closed mark (quoted value) := by
  refine Closed.literal ?_ h
  rw [Bool.eq_false_iff]
  exact fun hm => absurd (hmark _ hm) (by decide)

/-- Blanks and closed pieces make up a closed text. -/
theorem Spaced.closed : ∀ {pieces : List (List Char)} {text : List Char},
    Spaced pieces text → (∀ piece ∈ pieces, Closed mark piece) → Closed mark text
  | [], _, h, _ => closed_of_not_separator hmark (not_separator_of_blanks h)
  | piece :: pieces, _, ⟨blanks, rest, hblanks, htext, hrest⟩, hpieces => by
    obtain ⟨hpiece, hpieces⟩ := List.forall_mem_cons.1 hpieces
    have hfront := closed_of_not_separator hmark (not_separator_of_blanks hblanks)
    rw [htext]
    exact hfront.append (hpiece.append (hrest.closed hpieces))

/-- The text of a filter goes into a step, and into a group of it, as a whole. -/
theorem Filter.closed_of_form {f : Filter} {text : List Char} (h : f.Form text) :
    Closed mark text := by
  have hfixed {piece : List Char} (hpiece : ∀ c ∈ piece, c ≠ '\'' ∧ c ∉ separators) :
      Closed mark piece := closed_of_not_separator hmark hpiece
  cases h with
  | attributeIs hname hvalue h =>
    refine h.closed hmark ?_
    simp only [List.forall_mem_cons]
    exact ⟨closed_attribute hmark hname, hfixed (by decide), closed_quoted hmark hvalue, by simp⟩
  | attributeHolds hname hvalue h =>
    refine h.closed hmark ?_
    simp only [List.forall_mem_cons]
    exact ⟨hfixed (by decide), closed_attribute hmark hname, hfixed (by decide),
      closed_quoted hmark hvalue, hfixed (by decide), by simp⟩
  | textHolds hvalue h =>
    refine h.closed hmark ?_
    simp only [List.forall_mem_cons]
    exact ⟨hfixed (by decide), hfixed (by decide), hfixed (by decide),
      closed_quoted hmark hvalue, hfixed (by decide), by simp⟩
  | index hne hdigits hlt h =>
    refine h.closed hmark (List.forall_mem_singleton.2 (hfixed fun c hc => ?_))
    exact not_separator_of_kind (by decide) (hdigits c hc)
  | hasAttribute hname h =>
    exact h.closed hmark (List.forall_mem_singleton.2 (closed_attribute hmark hname))

theorem Filter.closed_written {f : Filter} (h : f.Legible) : Closed mark f.written :=
  Filter.closed_of_form hmark (Filter.form_written h)

/-- **A filter is written without marks outside of literals.** -/
theorem Filter.closed_of_read? {f : Filter} {text : List Char} (h : Filter.read? text = some f) :
    Closed mark text :=
  Filter.closed_of_form hmark (Filter.read?_eq_some_iff.1 h)

end

/-- Blanks go into a step as a whole. -/
theorem closed_slash_blanks {text : List Char} (h : Blanks text) : Closed isSlash text :=
  closed_of_not_separator (fun _ => separator_of_isSlash) (not_separator_of_blanks h)

/-! ### Steps -/

/-- A text with no blank at its ends and no mark in it. -/
structure Plain (text : List Char) : Prop where
  solid : Solid text
  unmarked : ∀ c ∈ text, c ≠ '\'' ∧ c ∉ separators

namespace Plain

theorem append {a b : List Char} (ha : Plain a) (hb : Plain b) : Plain (a ++ b) :=
  ⟨ha.solid.append hb.solid, fun c hc =>
    (List.mem_append.1 hc).elim (ha.unmarked c) (hb.unmarked c)⟩

theorem of_forall {text : List Char} (hne : text ≠ [])
    (h : ∀ c ∈ text, isBlank c = false ∧ c ≠ '\'' ∧ c ∉ separators) : Plain text :=
  ⟨Solid.of_forall hne fun c hc => (h c hc).1, fun c hc => (h c hc).2⟩

end Plain

/-- A name that is read as that of an element where it stands alone. -/
structure ElementName (name : String) : Prop where
  plain : Plain name.toList
  no_accessor : Accessor.read? name.toList = none
  no_self : name ≠ "."
  no_parent : name ≠ ".."
  no_axis : splitAtFirst? [':', ':'] name.toList = none

/-- The axis of later siblings, as it is written. -/
def siblingAxis : List Char :=
  "following-sibling".toList

/-- What a step goes to, as it is written before the filters. -/
def Target.head : Target → List Char
  | .element name _ => name.toList
  | .sibling name _ => siblingAxis ++ ':' :: ':' :: name.toList
  | .parent => ['.', '.']
  | .self => ['.']
  | .accessor a => a.display.toList

/-- The filters of a step that goes there. -/
def Target.filters : Target → List Filter
  | .element _ filters | .sibling _ filters => filters
  | .parent | .self | .accessor _ => []

/-- The name of the elements that a step goes to, if it goes to those of a name. -/
def Target.name? : Target → Option String
  | .element name _ | .sibling name _ => some name
  | .parent | .self | .accessor _ => none

/-- The accessor that a step is. -/
def Target.accessor? : Target → Option Accessor
  | .accessor a => some a
  | _ => none

/-- What a step goes to, as it is written. -/
def Target.written (t : Target) : List Char :=
  t.head ++ writtenGroups (t.filters.map Filter.written)

/-- A step can be written that goes there. -/
def Target.Legible : Target → Prop
  | .element name filters => ElementName name ∧ ∀ f ∈ filters, f.Legible
  | .sibling name filters => Plain name.toList ∧ ∀ f ∈ filters, f.Legible
  | .accessor (.attribute name) => Plain name.toList
  | .parent | .self | .accessor _ => True

theorem Target.legible_filters {t : Target} (h : t.Legible) : ∀ f ∈ t.filters, f.Legible := by
  cases t with
  | element name filters => exact h.2
  | sibling name filters => exact h.2
  | _ => simp [Target.filters]

theorem Target.plain_head : ∀ {t : Target}, t.Legible → Plain t.head
  | .element _ _, h => h.1.plain
  | .sibling name _, h => by
    have hcolons : siblingAxis ++ ':' :: ':' :: name.toList =
        (siblingAxis ++ [':', ':']) ++ name.toList := by simp
    rw [Target.head, hcolons]
    exact (Plain.of_forall (by decide) (by decide)).append h.1
  | .parent, _ => Plain.of_forall (by decide) (by decide)
  | .self, _ => Plain.of_forall (by decide) (by decide)
  | .accessor .text, _ => Plain.of_forall (by decide) (by decide)
  | .accessor .node, _ => Plain.of_forall (by decide) (by decide)
  | .accessor (.attribute name), h => by
    have hdisplay : (Accessor.attribute name).display.toList = ['@'] ++ name.toList := by
      simp [Accessor.display]
    rw [Target.head, hdisplay]
    exact (Plain.of_forall (by decide) (by decide)).append h

/-- The text of what a step goes to goes into a step as a whole. -/
theorem Target.closed_written {t : Target} (h : t.Legible) : Closed isSlash t.written := by
  have hmark : ∀ c, isSlash c = true → c ∈ separators := fun _ => separator_of_isSlash
  refine (closed_of_not_separator hmark (plain_head h).unmarked).append (Closed.flatMap ?_)
  intro text htext
  obtain ⟨f, hf, rfl⟩ := List.mem_map.1 htext
  have hopen : Closed isSlash ['['] := ⟨rfl, rfl⟩
  have hclose : Closed isSlash [']'] := ⟨rfl, rfl⟩
  exact (hopen.append (f.closed_written hmark (legible_filters h f hf))).append hclose

/-- Groups put no blank behind a text. -/
theorem solid_append_groups : ∀ {head : List Char} (_ : Solid head) (groups : List (List Char)),
    Solid (head ++ writtenGroups groups)
  | head, h, [] => by simpa [writtenGroups] using h
  | head, h, g :: rest => by
    have hgroup : Solid ('[' :: g ++ [']']) :=
      ⟨⟨'[', g ++ [']'], rfl, by decide⟩, ⟨'[' :: g, ']', rfl, by decide⟩⟩
    have hsplit : head ++ writtenGroups (g :: rest) =
        (head ++ ('[' :: g ++ [']'])) ++ writtenGroups rest := by
      simp [writtenGroups]
    rw [hsplit]
    exact solid_append_groups (h.append hgroup) rest

theorem Target.solid_written {t : Target} (h : t.Legible) : Solid t.written :=
  solid_append_groups (plain_head h).solid _

theorem Target.stepText_written {t : Target} (h : t.Legible) : StepText t.written := by
  obtain ⟨c, rest, hcons, _⟩ := (plain_head h).solid.first
  refine ⟨closed_written h, c, rest ++ writtenGroups (t.filters.map Filter.written), ?_, ?_⟩
  · rw [Target.written, hcons]
    rfl
  · rintro rfl
    exact ((plain_head h).unmarked '/' (by rw [hcons]; exact List.mem_cons_self)).2 (by decide)

theorem readFilters_written : ∀ {filters : List Filter}, (∀ f ∈ filters, f.Legible) →
    readFilters (filters.map Filter.written) = .ok filters
  | [], _ => rfl
  | f :: rest, h => by
    rw [List.map_cons, readFilters, Filter.read?_written (h f List.mem_cons_self),
      readFilters_written fun g hg => h g (List.mem_cons_of_mem _ hg)]
    rfl

/-- A text that begins as no accessor does is none. -/
theorem Accessor.read?_eq_none {text : List Char} (h : Solid text) (htext : text ≠ "text()".toList)
    (hnode : text ≠ "node()".toList) (hat : stripStart? ['@'] text = none)
    (hattribute : stripStart? "attribute::".toList text = none) : Accessor.read? text = none := by
  unfold Accessor.read?
  rw [h.trim_eq]
  simp only [if_neg htext, if_neg hnode, hat, hattribute, Option.orElse_eq_orElse,
    Option.orElse_eq_or, Option.or_none]

theorem Accessor.read?_display {name : String} (h : Plain name.toList) :
    Accessor.read? (Accessor.attribute name).display.toList = some (.attribute name) := by
  have hdisplay : (Accessor.attribute name).display.toList = '@' :: name.toList := by
    simp [Accessor.display]
  obtain ⟨init, z, hinit, hlast⟩ := h.solid.last
  have hsolid : Solid ('@' :: name.toList) :=
    ⟨⟨'@', name.toList, rfl, by decide⟩, ⟨'@' :: init, z, by rw [hinit]; rfl, hlast⟩⟩
  have hstrip : stripStart? ['@'] ('@' :: name.toList) = some name.toList := by
    rw [stripStart?_eq_some_iff]
    rfl
  have hne : name.toList.isEmpty = false := by simp [hinit]
  rw [hdisplay, Accessor.read?, hsolid.trim_eq, if_neg (by simp), if_neg (by simp), hstrip]
  simp only [Option.orElse_eq_orElse, Option.orElse_eq_or, Option.some_or, h.solid.trim_eq, hne,
    String.ofList_toList]
  rfl

/-- A head is read as what it was written for. -/
theorem readTarget_head {t : Target} (h : t.Legible) : readTarget t.head t.filters = .ok t := by
  have hname {name : String} (hplain : Plain name.toList) : elementName name.toList = name := by
    obtain ⟨c, rest, hcons, _⟩ := hplain.solid.first
    rw [elementName, hplain.solid.trim_eq, if_neg (by simp [hcons]), String.ofList_toList]
  match t, h with
  | .element name filters, h =>
    have hself : name.toList ≠ ['.'] := fun hdot => h.1.no_self (String.toList_inj.1 hdot)
    have hparent : name.toList ≠ ['.', '.'] := fun hdots =>
      h.1.no_parent (String.toList_inj.1 hdots)
    rw [Target.head, readTarget, h.1.no_accessor]
    simp only [if_neg hself, if_neg hparent, h.1.no_axis, hname h.1.plain, Target.filters]
  | .sibling name filters, h =>
    have hsolid : Solid (siblingAxis ++ ':' :: ':' :: name.toList) :=
      (Target.plain_head (t := .sibling name filters) h).solid
    have hhead : siblingAxis ++ ':' :: ':' :: name.toList =
        'f' :: ("ollowing-sibling".toList ++ ':' :: ':' :: name.toList) := rfl
    have hnone : Accessor.read? (siblingAxis ++ ':' :: ':' :: name.toList) = none :=
      Accessor.read?_eq_none hsolid (by simp [hhead]) (by simp [hhead]) rfl rfl
    have hself : siblingAxis ++ ':' :: ':' :: name.toList ≠ ['.'] := by simp [hhead]
    have hparent : siblingAxis ++ ':' :: ':' :: name.toList ≠ ['.', '.'] := by simp [hhead]
    have hsplit : splitAtFirst? [':', ':'] (siblingAxis ++ ':' :: ':' :: name.toList) =
        some (siblingAxis, name.toList) := rfl
    have haxis : trim siblingAxis = "following-sibling".toList := rfl
    rw [Target.head, readTarget, hnone]
    simp only [if_neg hself, if_neg hparent, hsplit, haxis, hname h.1, Target.filters, if_true]
  | .parent, _ => rfl
  | .self, _ => rfl
  | .accessor .text, _ => rfl
  | .accessor .node, _ => rfl
  | .accessor (.attribute name), h =>
    rw [Target.head, readTarget, Accessor.read?_display h]
    rfl

/-- A step as it is put down: how many slashes stand in front of it, and what it goes to. -/
structure Leg where
  slashes : Nat
  target : Target

namespace Leg

/-- A step as it is written. -/
def written (l : Leg) : List Char :=
  List.replicate l.slashes '/' ++ l.target.written

/-- The reach that the slashes give a step. -/
def reach (l : Leg) : Reach :=
  if l.slashes = 1 then .child else .below

/-- The step that is written. -/
def step (l : Leg) : Step :=
  ⟨String.ofList l.written, l.reach, l.target⟩

theorem solid_written {l : Leg} (h : l.target.Legible) : Solid l.written := by
  unfold written
  cases hn : l.slashes with
  | zero => exact Target.solid_written h
  | succ n =>
    have hslashes : Solid (List.replicate (n + 1) '/') :=
      Solid.of_forall (by simp) fun c hc => by
        rw [List.eq_of_mem_replicate hc]
        decide
    exact hslashes.append (Target.solid_written h)

/-- The slashes in front of a step and the rest of it are told apart. -/
theorem span_written {l : Leg} (h : l.target.Legible) :
    l.written.takeWhile (· == '/') = List.replicate l.slashes '/' ∧
      l.written.dropWhile (· == '/') = l.target.written := by
  obtain ⟨c, rest, hcons, hc⟩ := (Target.stepText_written h).head
  have hall : ∀ c ∈ List.replicate l.slashes '/', (c == '/') = true := fun c hc => by
    rw [List.eq_of_mem_replicate hc]
    rfl
  have hend : ∀ d ∈ l.target.written.head?, (d == '/') = false := by
    rw [hcons]
    rintro _ ⟨⟩
    exact beq_false_of_ne hc
  exact span_append hall hend

end Leg

/-- A step is read as it was written. -/
theorem Step.read_written {l : Leg} (h : l.target.Legible) : Step.read l.written = .ok l.step := by
  obtain ⟨htake, hdrop⟩ := Leg.span_written h
  have htrim := (Leg.solid_written h).trim_eq
  have hmark : ∀ c, isBracket c = true → c ∈ separators := fun _ => separator_of_isBracket
  have hgroups : ∀ g ∈ l.target.filters.map Filter.written, Closed isBracket g := by
    intro g hg
    obtain ⟨f, hf, rfl⟩ := List.mem_map.1 hg
    exact f.closed_written hmark (Target.legible_filters h f hf)
  have hplain := Target.plain_head h
  have hbrackets : readBrackets (stepBody l.written) =
      .ok ⟨l.target.head, l.target.filters.map Filter.written, none⟩ := by
    unfold stepBody
    rw [htrim, hdrop]
    exact readBrackets_written (closed_of_not_separator hmark hplain.unmarked) hgroups
  have hreach : stepReach l.written = l.reach := by
    unfold stepReach
    rw [htrim, htake, List.length_replicate, Leg.reach]
  rw [Step.read, hbrackets]
  simp only [readFilters_written (Target.legible_filters h), hplain.solid.trim_eq,
    readTarget_head h, hreach]
  rfl

/-! ### Selectors -/

/-- Steps written one after another. -/
def written (legs : List Leg) : List Char :=
  legs.flatMap Leg.written

/-- A selector can be written in these steps: each can, and behind the first each has slashes in
front of it. -/
structure Written (first : Leg) (later : List Leg) : Prop where
  legible : ∀ l ∈ first :: later, l.target.Legible
  apart : ∀ l ∈ later, 0 < l.slashes

/-- Steps written one after another come apart again. -/
theorem splitSteps_legs {first : Leg} {later : List Leg} (h : Written first later) :
    splitSteps (written (first :: later)) = (first :: later).map Leg.written := by
  have hlegible (l : Leg) (hl : l ∈ later) : StepText l.target.written :=
    Target.stepText_written (h.legible l (List.mem_cons_of_mem _ hl))
  have hwritten : ∀ l ∈ later,
      l.written = List.replicate (l.slashes - 1 + 1) '/' ++ l.target.written := fun l hl => by
    rw [Nat.sub_add_cancel (h.apart l hl), Leg.written]
  have hsteps : ∀ s ∈ later.map fun l => (l.slashes - 1, l.target.written), StepText s.2 := by
    intro s hs
    obtain ⟨l, hl, rfl⟩ := List.mem_map.1 hs
    exact hlegible l hl
  have hsplit := splitSteps_written first.slashes
    (Target.stepText_written (h.legible first List.mem_cons_self)) hsteps
  rw [List.flatMap_map, List.map_map] at hsplit
  rw [written, List.flatMap_cons, List.map_cons, List.map_congr_left hwritten, Leg.written]
  rw [List.flatMap_def, List.map_congr_left hwritten, ← List.flatMap_def]
  exact hsplit

theorem firstGrammarFault?_ok : ∀ steps : List Step,
    firstGrammarFault? (steps.map Except.ok) = none
  | [] => rfl
  | _ :: steps => firstGrammarFault?_ok steps

theorem allSteps_ok : ∀ steps : List Step, allSteps (steps.map Except.ok) = .ok steps
  | [] => rfl
  | s :: steps => by
    rw [List.map_cons, allSteps, allSteps_ok steps]
    rfl

/-- A selector is read as the steps in which it is written. -/
theorem read_written {first : Leg} {later : List Leg} (h : Written first later) :
    read (String.ofList (written (first :: later))) =
      ofSteps (String.ofList (written (first :: later))) ((first :: later).map Leg.step) := by
  have hread : ((first :: later).map Leg.written).map Step.read =
      ((first :: later).map Leg.step).map Except.ok := by
    rw [List.map_map, List.map_map]
    exact List.map_congr_left fun l hl => Step.read_written (h.legible l hl)
  rw [read, String.toList_ofList, splitSteps_legs h]
  simp only [List.map_cons] at hread ⊢
  rw [hread, ← List.map_cons, ← List.map_cons, firstGrammarFault?_ok, allSteps_ok]
  rfl

/-- Steps to elements are the path of a selector without an accessor. -/
theorem ofSteps_path (text : String) {steps : List Step} (h : ∀ s ∈ steps, s.accessor? = none) :
    ofSteps text steps = .ok ⟨text, steps, none⟩ := by
  have hlast : steps.getLast?.bind Step.accessor? = none := by
    cases hs : steps.getLast? with
    | none => rfl
    | some s => exact h s (List.mem_of_getLast? hs)
  have hfind : (steps.find? fun s => s.accessor?.isSome) = none := by
    rw [List.find?_eq_none]
    intro s hs
    simp [h s hs]
  rw [ofSteps, splitAccessor, hlast]
  simp only [hfind]

/-- Steps to elements and an accessor behind them are a selector with the accessor. -/
theorem ofSteps_accessor (text : String) {steps : List Step} (h : ∀ s ∈ steps, s.accessor? = none)
    {last : Step} {a : Accessor} (hlast : last.accessor? = some a) :
    ofSteps text (steps ++ [last]) = .ok ⟨text, steps, some a⟩ := by
  have hfind : (steps.find? fun s => s.accessor?.isSome) = none := by
    rw [List.find?_eq_none]
    intro s hs
    simp [h s hs]
  rw [ofSteps, splitAccessor, List.getLast?_concat, Option.bind_some, hlast]
  simp only [List.dropLast_concat, hfind]

end Gleaner.Selector
