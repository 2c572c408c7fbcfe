/-
# Outlines of selectors

An outline says what a selector is meant to be: its steps to elements, each with its reach, and what
is read from the elements at the end. It is put down behind one slash or two for each step, and the
selector that this text writes has the same steps, reaches and accessor.

Key definitions: `PlainName`, `Outline`, `Outline.text`, `Outline.Writable`.
Key theorems: `read_outline`.
-/
import Gleaner.Proofs.Selector.Written

namespace Gleaner.Selector

open Gleaner.Text

/-! ### Names -/

/-- A name that no selector takes for anything else: it has no marks and no blanks at its ends, holds
no axis, and is neither a step of dots nor an accessor. -/
structure PlainName (name : String) : Prop where
  plain : Plain name.toList
  no_axis : ¬[':', ':'] <:+: name.toList
  no_dots : name ≠ "." ∧ name ≠ ".."
  no_call : name ≠ "text()" ∧ name ≠ "node()"
  /-- The sign of an attribute stands alone, if it stands in front. -/
  no_attribute : ∀ rest, name.toList = '@' :: rest → rest = []

namespace PlainName

variable {name : String}

theorem splitAtFirst?_eq_none (h : PlainName name) :
    splitAtFirst? [':', ':'] name.toList = none := by
  cases hs : splitAtFirst? [':', ':'] name.toList with
  | none => rfl
  | some sides =>
    have hinfix : [':', ':'] <:+: name.toList := ⟨sides.1, sides.2, (eq_of_splitAtFirst? hs).symm⟩
    exact absurd hinfix h.no_axis

/-- The long form of an attribute's sign holds the mark of an axis. -/
theorem stripStart?_eq_none (h : PlainName name) :
    stripStart? "attribute::".toList name.toList = none := by
  cases hs : stripStart? "attribute::".toList name.toList with
  | none => rfl
  | some rest =>
    have htext : name.toList = "attribute".toList ++ [':', ':'] ++ rest :=
      stripStart?_eq_some_iff.1 hs
    exact absurd ⟨_, _, htext.symm⟩ h.no_axis

theorem read?_eq_none (h : PlainName name) : Accessor.read? name.toList = none := by
  obtain ⟨c, rest, hcons, _⟩ := h.plain.solid.first
  by_cases hc : c = '@'
  · have hrest : rest = [] := h.no_attribute rest (hc ▸ hcons)
    rw [hcons, hc, hrest]
    rfl
  · have hat : stripStart? ['@'] name.toList = none := by
      rw [hcons, stripStart?, if_neg (Ne.symm hc)]
    apply Accessor.read?_eq_none h.plain.solid
    · intro htext
      exact h.no_call.1 (String.toList_inj.1 htext)
    · intro hnode
      exact h.no_call.2 (String.toList_inj.1 hnode)
    · exact hat
    · exact h.stripStart?_eq_none

/-- Such a name is read as that of an element where it stands alone. -/
theorem elementName (h : PlainName name) : ElementName name :=
  ⟨h.plain, h.read?_eq_none, h.no_dots.1, h.no_dots.2, h.splitAtFirst?_eq_none⟩

end PlainName

/-! ### Outlines -/

/-- A selector as it is meant. -/
structure Outline where
  /-- The steps to elements. -/
  path : List (Reach × Target)
  /-- What is read at the end, and how far from the elements of the path. -/
  accessor : Option (Reach × Accessor)

/-- The slashes that are written for a reach. -/
def Reach.slashes : Reach → Nat
  | .child => 1
  | .below => 2

/-- A step to elements can be written that goes there. -/
def Target.Writable : Target → Prop
  | .element name filters => PlainName name ∧ ∀ f ∈ filters, f.Legible
  | .sibling name filters => Plain name.toList ∧ ∀ f ∈ filters, f.Legible
  | .parent | .self => True
  | .accessor _ => False

/-- An accessor can be written. -/
def Accessor.Writable : Accessor → Prop
  | .text | .node => True
  | .attribute name => Plain name.toList

namespace Outline

/-- The steps of an outline as they are put down, the accessor last. -/
def legs (o : Outline) : List Leg :=
  o.path.map (fun s => ⟨s.1.slashes, s.2⟩) ++
    o.accessor.toList.map fun s => ⟨s.1.slashes, .accessor s.2⟩

/-- An outline as it is written. -/
def text (o : Outline) : String :=
  String.ofList (written o.legs)

/-- An outline can be written: there is something in it, and each part can be written. -/
structure Writable (o : Outline) : Prop where
  some_step : o.path ≠ [] ∨ o.accessor ≠ none
  path : ∀ s ∈ o.path, s.2.Writable
  accessor : ∀ s ∈ o.accessor, s.2.Writable

end Outline

theorem Reach.slashes_pos (r : Reach) : 0 < r.slashes := by
  cases r <;> decide

theorem Leg.reach_slashes (r : Reach) (t : Target) : Leg.reach ⟨r.slashes, t⟩ = r := by
  cases r <;> rfl

theorem Target.legible_of_writable : ∀ {t : Target}, t.Writable → t.Legible
  | .element _ _, h => ⟨h.1.elementName, h.2⟩
  | .sibling _ _, h => h
  | .parent, _ => trivial
  | .self, _ => trivial

theorem Target.accessor?_of_writable {s : Step} (h : s.target.Writable) : s.accessor? = none := by
  unfold Step.accessor?
  cases hs : s.target with
  | accessor a =>
    rw [hs] at h
    exact h.elim
  | _ => rfl

theorem Accessor.legible_of_writable : ∀ {a : Accessor}, a.Writable → (Target.accessor a).Legible
  | .text, _ => trivial
  | .node, _ => trivial
  | .attribute _, h => h

namespace Outline

variable {o : Outline}

theorem forall_legs (h : o.Writable) : ∀ l ∈ o.legs, l.target.Legible ∧ 0 < l.slashes := by
  intro l hl
  rcases List.mem_append.1 hl with hpath | haccessor
  · obtain ⟨s, hs, rfl⟩ := List.mem_map.1 hpath
    exact ⟨Target.legible_of_writable (h.path s hs), s.1.slashes_pos⟩
  · obtain ⟨s, hs, rfl⟩ := List.mem_map.1 haccessor
    have hsome : s ∈ o.accessor := Option.mem_toList.1 hs
    exact ⟨Accessor.legible_of_writable (h.accessor s hsome), s.1.slashes_pos⟩

theorem legs_ne_nil (h : o.Writable) : o.legs ≠ [] := by
  intro hnil
  obtain ⟨hpath, haccessor⟩ := List.append_eq_nil_iff.1 hnil
  rcases h.some_step with hne | hne
  · exact hne (List.map_eq_nil_iff.1 hpath)
  · exact hne (Option.toList_eq_nil_iff.1 (List.map_eq_nil_iff.1 haccessor))

/-- The text of an outline is read step by step. -/
theorem read_text_eq (h : o.Writable) :
    read o.text = ofSteps o.text (o.legs.map Leg.step) := by
  obtain ⟨first, later, hlegs⟩ := List.exists_cons_of_ne_nil (legs_ne_nil h)
  have hall := forall_legs h
  rw [hlegs] at hall
  have hwritten : Written first later :=
    ⟨fun l hl => (hall l hl).1, fun l hl => (hall l (List.mem_cons_of_mem _ hl)).2⟩
  unfold text
  rw [hlegs]
  exact read_written hwritten

end Outline

/-- **A selector is read back as it was meant.** The text of an outline is read, and the selector has
the reaches, targets and accessor of the outline, whatever stands in the literals of its filters. -/
theorem read_outline {o : Outline} (h : o.Writable) :
    ∃ s, read o.text = .ok s ∧ s.text = o.text ∧
      s.path.map (fun step => (step.reach, step.target)) = o.path ∧
      s.accessor = o.accessor.map (·.2) := by
  let pathSteps : List Step := o.path.map fun s => Leg.step ⟨s.1.slashes, s.2⟩
  have hnone : ∀ s ∈ pathSteps, s.accessor? = none := by
    intro s hs
    obtain ⟨leg, hleg, rfl⟩ := List.mem_map.1 hs
    exact Target.accessor?_of_writable (h.path leg hleg)
  have hsame : pathSteps.map (fun step => (step.reach, step.target)) = o.path := by
    have hstep (s : Reach × Target) :
        ((Leg.step ⟨s.1.slashes, s.2⟩).reach, (Leg.step ⟨s.1.slashes, s.2⟩).target) = s :=
      Prod.ext (Leg.reach_slashes s.1 s.2) rfl
    rw [List.map_map]
    exact List.map_id'' hstep o.path
  have hread := Outline.read_text_eq h
  cases haccessor : o.accessor with
  | none =>
    have hsteps : o.legs.map Leg.step = pathSteps := by
      simp [Outline.legs, haccessor, pathSteps, Function.comp_def]
    rw [hsteps, ofSteps_path o.text hnone] at hread
    exact ⟨_, hread, rfl, hsame, rfl⟩
  | some last =>
    have hsteps : o.legs.map Leg.step =
        pathSteps ++ [Leg.step ⟨last.1.slashes, .accessor last.2⟩] := by
      simp [Outline.legs, haccessor, pathSteps, Function.comp_def]
    have hlast : (Leg.step ⟨last.1.slashes, .accessor last.2⟩).accessor? = some last.2 := rfl
    rw [hsteps, ofSteps_accessor o.text hnone hlast] at hread
    exact ⟨_, hread, rfl, hsame, rfl⟩

/-- An outline with marks in its literals, the greatest position, and steps of every kind. -/
def markedOutline : Outline where
  path := [
    (.below, .element "a:b c" [.attributeIs "x.y:z-1" "//[]\"::\n", .index 18446744073709551615]),
    (.child, .sibling "*" [.attributeHolds "id" "]", .textHolds "[/", .hasAttribute "_"]),
    (.child, .parent), (.below, .self), (.child, .element "@" [])]
  accessor := some (.below, .attribute "href")

/-- A case with marks in the literals. -/
theorem read_markedOutline :
    markedOutline.Writable ∧
      markedOutline.text =
        "//a:b c[@x.y:z-1='//[]\"::\n'][18446744073709551615]" ++
        "/following-sibling::*[contains(@id,']')][contains(text(),'[/')][@_]/..//./@//@href" ∧
      ∃ s, read markedOutline.text = .ok s ∧
        s.path.map (fun step => (step.reach, step.target)) = markedOutline.path ∧
        s.accessor = some (.attribute "href") := by
  have hfirst : PlainName "a:b c" := by
    refine ⟨⟨⟨⟨'a', _, rfl, by decide⟩, ⟨"a:b ".toList, 'c', rfl, by decide⟩⟩, by decide⟩, ?_,
      by decide, by decide, ?_⟩
    · rw [← occursIn_iff]
      decide
    · intro rest h
      cases h
  have hsign : PlainName "@" := by
    refine ⟨Plain.of_forall (by decide) (by decide), ?_, by decide, by decide, ?_⟩
    · rw [← occursIn_iff]
      decide
    · intro rest h
      exact (List.cons.inj h).2.symm
  have hstar : Plain "*".toList := Plain.of_forall (by decide) (by decide)
  have hhref : Plain "href".toList := Plain.of_forall (by decide) (by decide)
  have hwritable : markedOutline.Writable := by
    refine ⟨.inl (by simp [markedOutline]), ?_, ?_⟩
    · simp only [markedOutline, List.forall_mem_cons, Target.Writable, Filter.Legible, Quotable]
      exact ⟨⟨hfirst, ⟨by decide, by decide⟩, by decide, by simp⟩,
        ⟨hstar, ⟨by decide, by decide⟩, by decide, by decide, by simp⟩, trivial, trivial,
        ⟨hsign, by simp⟩, by simp⟩
    · rintro _ ⟨⟩
      exact hhref
  obtain ⟨s, hread, -, hpath, haccessor⟩ := read_outline hwritable
  exact ⟨hwritable, by decide +kernel, s, hread, hpath, haccessor⟩

end Gleaner.Selector
