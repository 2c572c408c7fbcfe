/-
# Whole selectors as path queries

The last separating slash of a selector stands in front of its last step. What follows it is taken
for the accessor if it is one; a name, with or without filters, is none. So the query of a selector
is what its steps to elements write, and behind an accessor with two slashes in front of it one step
more, to the elements and all below them.

Key definitions: `selfSegment`.
Key theorems: `splitAccessor_written`, `splitAccessor_accessor`, `splitAccessor_marked`,
`row_of_shared`, `evaluate_of_row`.
-/
import Gleaner.Proofs.Agreement.Spelled
import Gleaner.Query.Selecting
import Mathlib.Data.List.Basic

namespace Gleaner.Query

open Gleaner.Text Gleaner.Markup Gleaner.Selector

/-! ### The last slash -/

theorem quotedAfter_written : ∀ {legs : List Leg}, (∀ l ∈ legs, l.target.Legible) →
    quotedAfter false (written legs) = false
  | [], _ => rfl
  | l :: legs, h => by
    have hslashes : '\'' ∉ List.replicate l.slashes '/' := fun hc =>
      absurd (List.eq_of_mem_replicate hc) (by decide)
    rw [written, List.flatMap_cons, Leg.written, quotedAfter_append, quotedAfter_append,
      quotedAfter_of_no_quote hslashes, (Target.closed_written (h l List.mem_cons_self)).1]
    exact quotedAfter_written fun m hm => h m (List.mem_cons_of_mem _ hm)

/-- A selector comes apart at the last slash in front of its last step. -/
theorem splitLast_written {legs : List Leg} (h : ∀ l ∈ legs, l.target.Legible) {last : Leg}
    (hlast : last.target.Legible) {n : Nat} (hn : last.slashes = n + 1) :
    splitLast (written (legs ++ [last])) =
      (written legs ++ List.replicate n '/', last.target.written) := by
  have hslashes : '\'' ∉ List.replicate n '/' := fun hc =>
    absurd (List.eq_of_mem_replicate hc) (by decide)
  have hquoted : quotedAfter false (written legs ++ List.replicate n '/') = false := by
    rw [quotedAfter_append, quotedAfter_written h, quotedAfter_of_no_quote hslashes]
  have hsplit : written (legs ++ [last]) =
      (written legs ++ List.replicate n '/') ++ '/' :: last.target.written := by
    simp [written, Leg.written, hn, List.replicate_succ', List.append_assoc]
  rw [hsplit]
  exact splitLast_append hquoted (Target.closed_written hlast).2

theorem getLast?_writtenGroups {groups : List (List Char)} (h : groups ≠ []) :
    (writtenGroups groups).getLast? = some ']' := by
  obtain rfl | ⟨init, g, rfl⟩ := groups.eq_nil_or_concat'
  · exact absurd rfl h
  · have hsplit : writtenGroups (init ++ [g]) = (writtenGroups init ++ '[' :: g) ++ [']'] := by
      simp [writtenGroups]
    rw [hsplit, List.getLast?_concat]

/-- No step ends in a slash. -/
theorem getLast?_written_target {t : Target} (h : t.Legible) : t.written.getLast? ≠ some '/' := by
  have hplain := Target.plain_head h
  unfold Target.written
  by_cases hgroups : t.filters.map Filter.written = []
  · rw [hgroups]
    intro hlast
    rw [show writtenGroups [] = [] from rfl, List.append_nil] at hlast
    exact (hplain.unmarked '/' (List.mem_of_getLast? hlast)).2 (by decide)
  · rw [List.getLast?_append, getLast?_writtenGroups hgroups]
    simp

theorem getLast?_written_legs {legs : List Leg} (h : ∀ l ∈ legs, l.target.Legible) :
    (written legs).getLast? ≠ some '/' := by
  obtain rfl | ⟨init, l, rfl⟩ := legs.eq_nil_or_concat'
  · simp [written]
  · have hl := h l (by simp)
    obtain ⟨start, c, hc, -⟩ := (Target.solid_written hl).last
    have hlast := getLast?_written_target hl
    rw [hc, List.getLast?_concat] at hlast
    have hsplit : written (init ++ [l]) =
        (written init ++ List.replicate l.slashes '/' ++ start) ++ [c] := by
      simp [written, Leg.written, hc]
    rw [hsplit, List.getLast?_concat]
    exact hlast

/-! ### What is no accessor -/

/-- A text whose first character that is in no identifier begins no accessor is none. -/
theorem read?_eq_none_of_dropWhile {text : List Char} (h : Solid text)
    (hmark : ∀ c ∈ (text.dropWhile isIdentifierChar).head?, c ≠ '(' ∧ c ≠ '@' ∧ c ≠ ':') :
    Accessor.read? text = none := by
  have hno {start : List Char} {c : Char} (hhead : ∀ rest,
      ((start ++ rest).dropWhile isIdentifierChar).head? = some c)
      (hc : ¬(c ≠ '(' ∧ c ≠ '@' ∧ c ≠ ':')) : stripStart? start text = none := by
    cases hstrip : stripStart? start text with
    | none => rfl
    | some rest =>
      rw [stripStart?_eq_some_iff] at hstrip
      rw [hstrip] at hmark
      exact absurd (hmark c (hhead rest)) hc
  refine Accessor.read?_eq_none h ?_ ?_ (hno (fun _ => rfl) (by decide))
    (hno (fun _ => rfl) (by decide))
  · rintro rfl
    exact absurd (hmark '(' rfl) (by decide)
  · rintro rfl
    exact absurd (hmark '(' rfl) (by decide)

/-- No step that both readings know is an accessor. -/
theorem read?_written_eq_none {t : Target} (h : t.IsShared) : Accessor.read? t.written = none := by
  have hsolid := Target.solid_written (Target.legible_of_shared h)
  cases t with
  | element name filters =>
    refine read?_eq_none_of_dropWhile hsolid ?_
    unfold Target.written
    simp only [Target.head, Target.filters]
    rcases h.1 with rfl | hname
    · rintro c ⟨⟩
      decide
    · rw [List.dropWhile_append_of_pos (isIdentifierChar_of_mem hname)]
      cases filters with
      | nil => simp [writtenGroups]
      | cons f filters =>
        rintro c ⟨⟩
        decide
  | sibling name filters =>
    have hhead : (Target.sibling name filters).written = 'f' :: ("ollowing-sibling".toList ++
        ':' :: ':' :: name.toList ++ writtenGroups (filters.map Filter.written)) := rfl
    rw [hhead] at hsolid ⊢
    exact Accessor.read?_eq_none hsolid (by simp) (by simp) rfl rfl
  | parent => rfl
  | self => rfl
  | accessor a => exact h.elim

/-- An accessor is read as it is written. -/
theorem read?_accessor {a : Accessor} (h : (Target.accessor a).Legible) :
    Accessor.read? (Target.accessor a).written = some a := by
  have hwritten : (Target.accessor a).written = a.display.toList := List.append_nil _
  rw [hwritten]
  match a, h with
  | .text, _ => rfl
  | .node, _ => rfl
  | .attribute name, h => exact Accessor.read?_display h

/-! ### Queries and accessors -/

variable {first : Leg} {later : List Leg}

/-- Behind the last slash stands what the last step goes to. -/
theorem exists_last_written (h : Shared first later) :
    ∃ l ∈ first :: later, (splitLast (written (first :: later))).2 = l.target.written := by
  have hlegible := h.written.legible
  obtain rfl | ⟨init, l, rfl⟩ := later.eq_nil_or_concat'
  · refine ⟨first, List.mem_cons_self, ?_⟩
    cases hn : first.slashes with
    | zero =>
      have hwritten : written [first] = first.target.written := by
        simp [written, Leg.written, hn]
      rw [hwritten, splitLast_of_free (Target.closed_written (hlegible _ List.mem_cons_self)).2]
    | succ n =>
      have hempty : ∀ l ∈ ([] : List Leg), l.target.Legible := by simp
      have hsplit := splitLast_written hempty (hlegible _ List.mem_cons_self) hn
      exact congrArg Prod.snd hsplit
  · have hl : l ∈ first :: (init ++ [l]) := by simp
    refine ⟨l, hl, ?_⟩
    obtain ⟨n, hn⟩ := Nat.exists_eq_succ_of_ne_zero
      (Nat.ne_of_gt (h.written.apart l (List.mem_append_right _ List.mem_cons_self)))
    have hinit : ∀ m ∈ first :: init, m.target.Legible := fun m hm =>
      hlegible m (List.mem_append_left [l] hm)
    exact congrArg Prod.snd (splitLast_written hinit (hlegible l hl) hn)

/-- Steps that both readings know are all of the query. -/
theorem splitAccessor_written (h : Shared first later) :
    splitAccessor (written (first :: later)) = (written (first :: later), none) := by
  obtain ⟨l, hl, hsplit⟩ := exists_last_written h
  unfold splitAccessor
  simp only [hsplit, read?_written_eq_none (h.shared l hl)]

/-- An accessor behind one slash is apart from the query. -/
theorem splitAccessor_accessor (h : Shared first later) {a : Accessor}
    (ha : (Target.accessor a).Legible) :
    splitAccessor (written (first :: later ++ [⟨1, .accessor a⟩])) =
      (written (first :: later), some a) := by
  have hlegible : (Leg.mk 1 (.accessor a)).target.Legible := ha
  have hsplit := splitLast_written h.written.legible hlegible rfl
  rw [List.replicate_zero, List.append_nil] at hsplit
  unfold splitAccessor
  simp only [hsplit, read?_accessor ha]
  rw [if_neg (getLast?_written_legs h.written.legible)]

/-- Behind two slashes it is applied to the elements of the query and to all below them. -/
theorem splitAccessor_marked (h : Shared first later) {a : Accessor}
    (ha : (Target.accessor a).Legible) :
    splitAccessor (written (first :: later ++ [⟨2, .accessor a⟩])) =
      (written (first :: later) ++ '/' :: "descendant-or-self::*".toList, some a) := by
  have hlegible : (Leg.mk 2 (.accessor a)).target.Legible := ha
  have hsplit := splitLast_written h.written.legible hlegible rfl
  unfold splitAccessor
  simp only [hsplit, read?_accessor ha]
  simp

/-! ### Rows of segments -/

theorem written_segments (legs : List Leg) :
    (legs.map segmentOf).flatMap Segment.written = written legs := by
  rw [List.flatMap_map]
  rfl

theorem row_of_shared (h : Shared first later) :
    Row (segmentOf first) (later.map segmentOf) := by
  constructor
  · intro s hs
    rw [← List.map_cons] at hs
    obtain ⟨l, hl, rfl⟩ := List.mem_map.1 hs
    refine faithful_segment (h.shared l hl) ?_
    rw [List.mem_cons] at hl
    rcases hl with rfl | hl
    · exact h.first_slashes
    · rcases h.later_slashes l hl with hn | hn <;> omega
  · intro s hs
    obtain ⟨l, hl, rfl⟩ := List.mem_map.1 hs
    exact h.written.apart l hl

/-- The step from elements to themselves and all below them, as it is put behind a query. -/
def selfSegment : Segment where
  slashes := 1
  text := "descendant-or-self".toList ++ [':', ':', '*']
  tokens := [.name "descendant-or-self", .doubleColon, .star]
  step := ⟨.descendantOrSelf, .anyElement, []⟩

theorem faithful_selfSegment : selfSegment.Faithful := by
  refine ⟨fun rest _ => ?_, fun rest hrest => ?_, ⟨'d', _, rfl, by decide⟩, fun rest => rfl, ?_,
    by decide⟩
  · have hname (more : List Char) :
        Spells "descendant-or-self".toList [.name "descendant-or-self"] (':' :: ':' :: more) :=
      spells_identifier (by decide) (nameChars_doubleColon more)
    have hstar : signOf? '*' = some .star := rfl
    exact (hname _).append ((spells_doubleColon _).append (spells_sign hstar rest))
  · have hpredicates : Reads (parsePredicates rest) [] rest := parsePredicates_nil fun hopen => by
      rcases hrest _ hopen with h | h <;> cases h
    exact parseStep_axis (by decide) rfl (parseNodeTest_star hpredicates)
  · intro rest _ name more hcall
    cases (List.cons.inj (List.cons.inj hcall).2).1

/-- A row stays one with a faithful step behind it. -/
theorem Row.concat {first : Segment} {later : List Segment} (h : Row first later) {s : Segment}
    (hs : s.Faithful) (hslashes : 0 < s.slashes) : Row first (later ++ [s]) := by
  have hfaithful : ∀ r ∈ (first :: later) ++ [s], r.Faithful :=
    List.forall_mem_append.2 ⟨h.faithful, List.forall_mem_singleton.2 hs⟩
  have hapart : ∀ r ∈ later ++ [s], 0 < r.slashes :=
    List.forall_mem_append.2 ⟨h.apart, List.forall_mem_singleton.2 hslashes⟩
  exact ⟨hfaithful, hapart⟩

/-- A selector whose query is a row of steps yields what its accessor reads from the elements that
the steps lead to. -/
theorem evaluate_of_row {d : Document} {text : List Char} {accessor : Option Accessor}
    {first : Segment} {later : List Segment} (h : Row first later)
    (hsplit : splitAccessor text = ((first :: later).flatMap Segment.written, accessor))
    (hblank : ((first :: later).flatMap Segment.written).all isBlank = false) {nodes : List Node}
    (hsteps : followSteps d ((first :: later).flatMap Segment.steps) [.document] = .ok nodes) :
    evaluate d (String.ofList text) =
      .ok (readElements accessor (nodes.filterMap Node.element?)) := by
  unfold evaluate
  rw [String.toList_ofList, hsplit]
  simp only [hblank, read_written h, bind, Except.bind, elements_of_followSteps hsteps]
  rfl

/-- No query that both readings know is blank. -/
theorem not_blank_written (h : Shared first later) (more : List Char) :
    (written (first :: later) ++ more).all isBlank = false := by
  obtain ⟨c, rest, hc, hblank⟩ :=
    (Target.solid_written (h.written.legible first List.mem_cons_self)).first
  rw [List.all_eq_false]
  refine ⟨c, ?_, by rw [hblank]; exact Bool.false_ne_true⟩
  simp [written, Leg.written, hc]

end Gleaner.Query
