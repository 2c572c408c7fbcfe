/-
# What a position counts among

The attribute filters of a step are decided first, wherever they stand; its filters on text and its
position work one after another, as they are written. So in each group in which the step counts, a
position counts among the elements that pass the name, all attribute filters and the filters on text
in front of it, and the filters on text behind it only decide about the element at the position.
Where a filter on text stands behind the position, the step may select nothing although some
elements pass all its other filters; and the order of the filters matters only so far as it says
which filters on text stand in front of the position.

Key definitions: `Filter.passesText`, `atPositionIn`.
Key theorems: `applyFilters_position`, `Compound.accepts_of_perm`, `applyStep_position`.
-/
import Gleaner.Proofs.Selector.Counting

namespace Gleaner.Selector

open Gleaner.Text Gleaner.Markup

variable {d : Document}

/-! ### Filters in front of a position and behind it -/

/-- An element passes the filter if that is one on text; other filters do not look at the text. -/
def Filter.passesText (e : Element) : Filter → Bool
  | .textHolds needle => occursIn needle.toList e.ownText.toList
  | .attributeIs .. | .attributeHolds .. | .hasAttribute _ | .index _ => true

/-- Filters without a position leave the elements that pass those on text. -/
theorem applyFilters_unnumbered (perParent : Bool) : ∀ {filters : List Filter},
    (∀ n, .index n ∉ filters) → ∀ group,
      applyFilters perParent filters group =
        group.filter fun e => filters.all (·.passesText e)
  | [], _, group => by simp [applyFilters]
  | f :: rest, h, group => by
    have hrest : ∀ n, .index n ∉ rest := fun n hn => h n (List.mem_cons_of_mem _ hn)
    have hf : applyFilter perParent group f = group.filter (f.passesText ·) := by
      cases f with
      | index n => exact absurd List.mem_cons_self (h n)
      | textHolds needle => rfl
      | _ => exact (List.filter_eq_self.2 fun _ _ => rfl).symm
    have ih := applyFilters_unnumbered perParent hrest (group.filter (f.passesText ·))
    rw [List.filter_filter] at ih
    calc applyFilters perParent (f :: rest) group
        = applyFilters perParent rest (group.filter (f.passesText ·)) := by
          rw [← hf]
          rfl
      _ = group.filter fun e => (f :: rest).all (·.passesText e) := by
          rw [ih]
          simp only [List.all_cons, Bool.and_comm]

/-- In a group that is counted as a whole, filters around a position leave the element at the
position among those that pass the filters in front, if it passes those behind. -/
theorem applyFilters_position {before after : List Filter} (n : Nat)
    (hbefore : ∀ m, .index m ∉ before) (hafter : ∀ m, .index m ∉ after) (group : List Element) :
    applyFilters false (before ++ .index n :: after) group =
      ((group.filter fun e => before.all (·.passesText e))[n]?).toList.filter
        fun e => after.all (·.passesText e) := by
  have hparts : applyFilters false (before ++ .index n :: after) group =
      applyFilters false after
        ((applyFilters false before group)[n]?).toList := by
    unfold applyFilters
    rw [List.foldl_append]
    rfl
  rw [hparts, applyFilters_unnumbered false hbefore, applyFilters_unnumbered false hafter]

/-- The elements at a position: in each group the `n`-th of those that are counted, if it is also
kept. -/
def atPositionIn (groups : List (List Element)) (n : Nat) (counted kept : Element → Bool) :
    List Element :=
  groups.flatMap fun group => ((group.filter counted)[n]?).toList.filter kept

/-- With one position among its filters, a step takes the elements at the position. -/
theorem leftIn_position {before after : List Filter} (n : Nat)
    (hbefore : ∀ m, .index m ∉ before) (hafter : ∀ m, .index m ∉ after)
    (groups : List (List Element)) (test : Element → Bool) :
    leftIn groups test (before ++ .index n :: after) =
      atPositionIn groups n (fun e => test e && before.all (·.passesText e))
        fun e => after.all (·.passesText e) := by
  unfold leftIn atPositionIn
  refine congrArg groups.flatMap (funext fun group => ?_)
  rw [applyFilters_position n hbefore hafter, List.filter_filter]
  simp only [Bool.and_comm]

/-! ### Element tests of filters in another order -/

/-- A position has no part in the element test. -/
theorem Compound.ofStep?_position (name : String) (before after : List Filter) (n : Nat) :
    Compound.ofStep? name (before ++ .index n :: after) =
      Compound.ofStep? name (before ++ after) := by
  have htest : (Filter.index n).test? = none := rfl
  have hwritable : (Filter.index n).isWritable = true := rfl
  unfold Compound.ofStep?
  simp only [List.all_append, List.all_cons, List.filterMap_append, List.filterMap_cons, htest,
    hwritable, Bool.true_and]

/-- Filters in another order make an element test as well, which passes the same elements. -/
theorem Compound.accepts_of_perm {name : String} {filters other : List Filter} {test : Compound}
    (hperm : filters.Perm other) (htest : Compound.ofStep? name filters = some test) :
    ∃ test', Compound.ofStep? name other = some test' ∧ test'.accepts = test.accepts := by
  unfold Compound.ofStep? at htest ⊢
  rw [← hperm.all_eq]
  split at htest
  · next hwritable =>
    rw [if_pos hwritable]
    refine ⟨_, rfl, funext fun e => ?_⟩
    cases htest
    rw [accepts, accepts, (hperm.filterMap Filter.test?).all_eq]
  · cases htest

/-! ### The step -/

/-- Whether an element passes the filters on text depends on which of them there are. -/
theorem all_passesText_congr {filters other : List Filter}
    (h : ∀ needle, .textHolds needle ∈ filters ↔ .textHolds needle ∈ other) (e : Element) :
    filters.all (·.passesText e) = other.all (·.passesText e) := by
  have himp {a b : List Filter} (hab : ∀ needle, .textHolds needle ∈ b → .textHolds needle ∈ a)
      (ha : a.all (·.passesText e) = true) : b.all (·.passesText e) = true := by
    refine List.all_eq_true.2 fun f hf => ?_
    cases f with
    | textHolds needle => exact List.all_eq_true.1 ha _ (hab needle hf)
    | _ => rfl
  exact Bool.eq_iff_iff.2 ⟨himp fun needle => (h needle).2, himp fun needle => (h needle).1⟩

/-- Filters in another order lead to the same elements, as long as the position counts among the
same. -/
theorem leftIn_position_of_perm {before after before' after' : List Filter} {n : Nat}
    (hbefore : ∀ m, .index m ∉ before) (hafter : ∀ m, .index m ∉ after)
    (hperm : (before ++ .index n :: after).Perm (before' ++ .index n :: after'))
    (htext : ∀ needle, .textHolds needle ∈ before ↔ .textHolds needle ∈ before')
    (groups : List (List Element)) (test : Element → Bool) :
    leftIn groups test (before ++ .index n :: after) =
      leftIn groups test (before' ++ .index n :: after') := by
  have hrest : (before ++ after).Perm (before' ++ after') := by
    have hfirst : (Filter.index n :: (before ++ after)).Perm (before ++ .index n :: after) :=
      List.perm_middle.symm
    exact ((hfirst.trans hperm).trans List.perm_middle).cons_inv
  have hnone : ∀ m, .index m ∉ before' ++ after' := by
    intro m hm
    rcases List.mem_append.1 (hrest.mem_iff.2 hm) with hm | hm
    · exact hbefore m hm
    · exact hafter m hm
  have hbefore' : ∀ m, .index m ∉ before' := fun m hm => hnone m (List.mem_append_left _ hm)
  have hafter' : ∀ m, .index m ∉ after' := fun m hm => hnone m (List.mem_append_right _ hm)
  rw [leftIn_position n hbefore hafter, leftIn_position n hbefore' hafter']
  unfold atPositionIn
  refine congrArg groups.flatMap (funext fun group => ?_)
  have hcounted : (fun e => test e && before.all (Filter.passesText e)) =
      fun e => test e && before'.all (Filter.passesText e) :=
    funext fun e => by rw [all_passesText_congr htext e]
  rw [hcounted]
  refine List.filter_congr fun e he => ?_
  -- what is counted passes the filters in front, so all filters decide on it as those behind do
  have hfront : before'.all (·.passesText e) = true := by
    have hmem := List.mem_of_getElem? (Option.mem_toList.1 he)
    exact (Bool.and_eq_true_iff.1 (List.mem_filter.1 hmem).2).2
  have hall : (before ++ after).all (·.passesText e) = (before' ++ after').all (·.passesText e) :=
    hrest.all_eq
  rwa [List.all_append, List.all_append, all_passesText_congr htext e, hfront, Bool.true_and,
    Bool.true_and] at hall

/-- **What a position counts among.** A step with one position among its filters takes, of the
children of each parent or of the siblings of each element that it starts from, the element at the
position among those that pass its name, all its attribute filters and its filters on text in front
of the position, provided that this element passes the filters on text behind it. If none stands
behind it, this is the element at the position among those that pass all other filters. Filters in
another order lead to the same, as long as no filter on text changes sides. -/
theorem applyStep_position (d : Document) (scope : Scope) (raw : String) (reach : Reach)
    (sibling : Bool) (name : String) {before after : List Filter} (n : Nat)
    (hbefore : ∀ m, .index m ∉ before) (hafter : ∀ m, .index m ∉ after) :
    (∀ test, Compound.ofStep? name (before ++ after) = some test →
      applyStep d scope ⟨raw, reach, .named sibling name (before ++ .index n :: after)⟩ =
          .ok (.elements (d.inOrder (atPositionIn (countingGroups d sibling reach scope) n
            (fun e => test.accepts e && before.all (·.passesText e))
            fun e => after.all (·.passesText e)))) ∧
        ((∀ needle, .textHolds needle ∉ after) →
          applyStep d scope ⟨raw, reach, .named sibling name (before ++ .index n :: after)⟩ =
            .ok (.elements (d.inOrder (atPositionIn (countingGroups d sibling reach scope) n
              (fun e => test.accepts e && (before ++ after).all (·.passesText e))
              fun _ => true))))) ∧
    ∀ before' after', (before ++ .index n :: after).Perm (before' ++ .index n :: after') →
      (∀ needle, .textHolds needle ∈ before ↔ .textHolds needle ∈ before') →
        ∀ next,
          applyStep d scope ⟨raw, reach, .named sibling name (before ++ .index n :: after)⟩ =
              .ok next ↔
            applyStep d scope ⟨raw, reach, .named sibling name (before' ++ .index n :: after')⟩ =
              .ok next := by
  constructor
  · intro test htest
    rw [← Compound.ofStep?_position name before after n] at htest
    have hstep := applyStep_of_test (d := d) htest scope raw reach sibling
    rw [leftIn_position n hbefore hafter] at hstep
    refine ⟨hstep, fun hbehind => ?_⟩
    have hkept (e : Element) : after.all (·.passesText e) = ([] : List Filter).all (·.passesText e) :=
      all_passesText_congr (by simpa using hbehind) e
    rw [hstep]
    simp only [List.all_append, hkept, List.all_nil, Bool.and_true]
  · intro before' after' hperm htext next
    cases htest : Compound.ofStep? name (before ++ .index n :: after) with
    | none =>
      have htest' : Compound.ofStep? name (before' ++ .index n :: after') = none := by
        by_contra hsome
        obtain ⟨test, hsome⟩ := Option.ne_none_iff_exists'.1 hsome
        obtain ⟨test', hother, -⟩ := Compound.accepts_of_perm hperm.symm hsome
        rw [htest] at hother
        cases hother
      rw [applyStep_of_no_test htest, applyStep_of_no_test htest']
      simp only [reduceCtorEq]
    | some test =>
      obtain ⟨test', htest', haccepts⟩ := Compound.accepts_of_perm hperm htest
      rw [applyStep_of_test htest, applyStep_of_test htest', haccepts,
        leftIn_position_of_perm hbefore hafter hperm htext]

/-- A list of three items, of which the first and the last have an identifier. -/
def threeItems : Document :=
  ⟨[.element "ul" .empty [.element "li" (KeyMap.ofList [("id", "1")]) [.text "a"],
    .element "li" .empty [.text "b"], .element "li" (KeyMap.ofList [("id", "2")]) [.text "b"]]]⟩

/-- The first item that holds the text and has an identifier, wherever the filter on the identifier
stands. -/
theorem applyStep_position_threeItems :
    (∀ m, Filter.index m ∉ [.textHolds "b"]) ∧ (∀ m, Filter.index m ∉ [.hasAttribute "id"]) ∧
      (∀ needle, Filter.textHolds needle ∉ [.hasAttribute "id"]) ∧
      Compound.ofStep? "li" [.textHolds "b", .hasAttribute "id"] =
        some ⟨some "li", [.present "id"]⟩ ∧
      [Filter.textHolds "b", .index 0, .hasAttribute "id"].Perm
        [.hasAttribute "id", .textHolds "b", .index 0] ∧
      applyStep threeItems .document
          ⟨"//li", .below, .element "li" [.textHolds "b", .index 0, .hasAttribute "id"]⟩ =
        .ok (.elements [⟨[0, 2], "li", KeyMap.ofList [("id", "2")], [.text "b"], .html⟩]) ∧
      applyStep threeItems .document
          ⟨"//li", .below, .element "li" [.hasAttribute "id", .textHolds "b", .index 0]⟩ =
        .ok (.elements [⟨[0, 2], "li", KeyMap.ofList [("id", "2")], [.text "b"], .html⟩]) := by
  have hbefore : ∀ m, Filter.index m ∉ [.textHolds "b"] := by simp
  have hafter : ∀ m, Filter.index m ∉ [.hasAttribute "id"] := by simp
  have hbehind : ∀ needle, Filter.textHolds needle ∉ [.hasAttribute "id"] := by simp
  have htest : Compound.ofStep? "li" [.textHolds "b", .hasAttribute "id"] =
      some ⟨some "li", [.present "id"]⟩ := by rfl
  have hperm : [Filter.textHolds "b", .index 0, .hasAttribute "id"].Perm
      [.hasAttribute "id", .textHolds "b", .index 0] := by decide
  obtain ⟨hstep, horder⟩ :=
    applyStep_position threeItems .document "//li" .below false "li" 0 hbefore hafter
  have hfound := (hstep _ htest).2 hbehind
  have hlist : threeItems.inOrder (atPositionIn
      (countingGroups threeItems false .below .document) 0
      (fun e => Compound.accepts ⟨some "li", [.present "id"]⟩ e &&
        ([.textHolds "b"] ++ [.hasAttribute "id"] : List Filter).all (·.passesText e))
      fun _ => true) = [⟨[0, 2], "li", KeyMap.ofList [("id", "2")], [.text "b"], .html⟩] := by rfl
  rw [hlist] at hfound
  refine ⟨hbefore, hafter, hbehind, htest, hperm, hfound, ?_⟩
  exact (horder [.hasAttribute "id", .textHolds "b"] [] hperm (by simp) _).1 hfound

/-- A list of two items. -/
def twoItems : Document :=
  ⟨[.element "ul" .empty [.element "li" .empty [.text "a"], .element "li" .empty [.text "b"]]]⟩

/-- In front of a filter on text a position does not count among the elements that pass the filter:
the step selects nothing, although the first item of its list that passes all other filters is the
second item. With its filters exchanged the step selects this item. -/
theorem position_before_text :
    applyStep twoItems .document ⟨"//li", .below, .element "li" [.index 0, .textHolds "b"]⟩ =
        .ok (.elements []) ∧
      twoItems.inOrder (atPositionIn (countingGroups twoItems false .below .document) 0
          (fun e => Compound.accepts ⟨some "li", []⟩ e && Filter.passesText e (.textHolds "b"))
          fun _ => true) =
        [⟨[0, 1], "li", .empty, [.text "b"], .html⟩] ∧
      applyStep twoItems .document ⟨"//li", .below, .element "li" [.textHolds "b", .index 0]⟩ =
        .ok (.elements [⟨[0, 1], "li", .empty, [.text "b"], .html⟩]) ∧
      Selector.evaluate twoItems "//li[0][contains(text(),'b')]" = .ok [] ∧
      Selector.evaluate twoItems "//li[contains(text(),'b')][0]" = .ok [.text "b"] :=
  ⟨rfl, rfl, rfl, rfl, rfl⟩

end Gleaner.Selector
