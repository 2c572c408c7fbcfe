/-
# Slices by their positions

A slice of a list is told by a rule that walks nowhere: from its first position on, the positions
that lie whole steps apart are looked at, as many as the list is long, and those in front of the
stop are kept. Bounds count from the end if they are negative and are drawn into the list; towards
the front, the position before the list takes the part that the length has towards the back. No step
is so short that a position beyond these would still lie in front of the stop, so the walk of a
slice meets the same positions in the same order, and each of them holds an item. The walk breaks
off exactly if the sum of one of these positions and the step has more than 64 bits.

Key definitions: `inFront`, `drawn`, `firstPosition`, `stopPosition`, `referencePositions`.
Key theorems: `walk?_eq_filter`, `slicePositions?_eq`, `sliceOf?_reference`, `slices_are_reference`.
-/
import Gleaner.Proofs.JsonPath.Whole
import Mathlib.Data.List.Forall2
import Mathlib.Tactic.Linarith
import Mathlib.Tactic.Ring
import Mathlib.Tactic.SplitIfs

namespace Gleaner.JsonPath

open Gleaner.Number

/-! ### The rule -/

/-- A position lies in front of a stop, in the direction of the step. -/
def inFront (step stop i : Int) : Bool :=
  if 0 < step then decide (i < stop) else decide (stop < i)

/-- The least position of a bound: the first item, or what lies before it if the step leads back. -/
def lowest (step : Int) : Int :=
  if 0 < step then 0 else -1

/-- The greatest position of a bound: the end, or the last item if the step leads back. -/
def highest (length : Nat) (step : Int) : Int :=
  if 0 < step then length else length - 1

/-- The position that a bound names: a negative one counts from the end, and what lies outside of
the list is drawn into it. -/
def drawn (length : Nat) (step bound : Int) : Int :=
  max (lowest step) (min (highest length step) (if bound < 0 then length + bound else bound))

/-- Where a slice starts: at the first item or, if the step leads back, at the last one, unless a
bound is given. -/
def firstPosition (length : Nat) (step : Int) (start : Option Int) : Int :=
  start.elim (if 0 < step then 0 else length - 1) (drawn length step)

/-- Where a slice stops: at the end or, if the step leads back, before the first item, unless a
bound is given. -/
def stopPosition (length : Nat) (step : Int) (stop : Option Int) : Int :=
  stop.elim (if 0 < step then length else -1) (drawn length step)

/-- The positions of a slice by the rule: the first one, those one step, two steps, … away, as far
as they lie in front of the stop. -/
def referencePositions (length : Nat) (start stop : Option Int) (step : Int) : List Int :=
  ((List.range length).map fun (k : Nat) => firstPosition length step start + k * step).filter
    (inFront step (stopPosition length step stop))

/-- Positions of which each has a sum with the step of at most 64 bits; else nothing. -/
def sumsFit (step : Int) (positions : List Int) : Option (List Int) :=
  if ∀ i ∈ positions, fitsInt64 (i + step) then some positions else none

theorem sumsFit_cons (step i : Int) (positions : List Int) : sumsFit step (i :: positions) =
    if fitsInt64 (i + step) then (sumsFit step positions).map (i :: ·) else none := by
  unfold sumsFit
  simp only [List.forall_mem_cons]
  split_ifs <;> simp_all

/-! ### The walk of a slice -/

section

variable {step stop i : Int}

theorem walk?_of_inFront (h : inFront step stop i = true) (hstep : step ≠ 0) :
    walk? step stop i =
      if fitsInt64 (i + step) then (walk? step stop (i + step)).map (i :: ·) else none := by
  have hon : (0 < step ∧ i < stop) ∨ (step < 0 ∧ stop < i) := by
    unfold inFront at h
    split_ifs at h with hforth
    · exact .inl ⟨hforth, of_decide_eq_true h⟩
    · exact .inr ⟨by omega, of_decide_eq_true h⟩
  rw [walk?, if_pos hon]

theorem walk?_of_not_inFront (h : inFront step stop i = false) : walk? step stop i = some [] := by
  have hend : ¬((0 < step ∧ i < stop) ∨ (step < 0 ∧ stop < i)) := by
    unfold inFront at h
    split_ifs at h with hforth
    all_goals
      have := of_decide_eq_false h
      omega
  rw [walk?, if_neg hend]

/-- A step leads away from a stop that is met. -/
theorem not_inFront_add (h : inFront step stop i = false) :
    inFront step stop (i + step) = false := by
  unfold inFront at h ⊢
  by_cases hpos : 0 < step
  · rw [if_pos hpos, decide_eq_false_iff_not] at h ⊢
    omega
  · rw [if_neg hpos, decide_eq_false_iff_not] at h ⊢
    omega

/-- A walk that has met its stop after some steps goes over the positions of these steps that lie in
front of the stop, unless the sum of one of them and the step has more than 64 bits. -/
theorem walk?_eq_filter (hstep : step ≠ 0) : ∀ (n : Nat) (i : Int),
    inFront step stop (i + n * step) = false →
      walk? step stop i = sumsFit step
        (((List.range n).map fun (k : Nat) => i + k * step).filter (inFront step stop))
  | 0, i, h => by
    have hi : i + (0 : Nat) * step = i := by simp
    rw [hi] at h
    rw [walk?_of_not_inFront h]
    rfl
  | n + 1, i, h => by
    have hlast : i + (n + 1 : Nat) * step = i + step + n * step := by push_cast; ring
    have hnext (k : Nat) : i + (k + 1 : Nat) * step = i + step + k * step := by push_cast; ring
    rw [hlast] at h
    have hwalk := walk?_eq_filter hstep n (i + step) h
    have hrange : (List.range (n + 1)).map (fun (k : Nat) => i + k * step) =
        i :: (List.range n).map fun (k : Nat) => i + step + k * step := by
      rw [List.range_succ_eq_map, List.map_cons, List.map_map]
      congr 1
      · simp
      · exact List.map_congr_left fun k _ => hnext k
    rw [hrange, List.filter_cons]
    cases hi : inFront step stop i with
    | true => rw [walk?_of_inFront hi hstep, if_pos rfl, hwalk, sumsFit_cons]
    | false =>
      -- Neither here nor behind the next step is anything left to meet.
      rw [walk?_of_not_inFront hi, if_neg Bool.false_ne_true, ← hwalk,
        walk?_of_not_inFront (not_inFront_add hi)]

end

/-! ### The positions of a slice -/

section

variable (length : Nat) {step : Int}

theorem lowest_le_drawn (bound : Int) :
    lowest step ≤ drawn length step bound ∧ drawn length step bound ≤ highest length step := by
  unfold drawn lowest highest
  split_ifs <;> omega

theorem firstPosition_mem (step : Int) (start : Option Int) :
    lowest step ≤ firstPosition length step start ∧
      firstPosition length step start ≤ highest length step := by
  cases start with
  | none =>
    show lowest step ≤ (if 0 < step then (0 : Int) else length - 1) ∧
      (if 0 < step then (0 : Int) else length - 1) ≤ highest length step
    unfold lowest highest
    split_ifs <;> omega
  | some bound => exact lowest_le_drawn length bound

theorem stopPosition_mem (step : Int) (stop : Option Int) :
    lowest step ≤ stopPosition length step stop ∧
      stopPosition length step stop ≤ highest length step := by
  cases stop with
  | none =>
    show lowest step ≤ (if 0 < step then (length : Int) else -1) ∧
      (if 0 < step then (length : Int) else -1) ≤ highest length step
    unfold lowest highest
    split_ifs <;> omega
  | some bound => exact lowest_le_drawn length bound

theorem clamp_eq_drawn (step bound : Int) :
    clamp (lowest step) (highest length step) (fromEnd length bound) = drawn length step bound := by
  have hrange : lowest step ≤ highest length step := by
    unfold lowest highest
    split_ifs <;> omega
  unfold clamp drawn fromEnd
  split_ifs <;> omega

/-- The walk of a slice starts and stops where the rule says. -/
theorem slicePositions?_eq_walk? (start stop : Option Int) (step : Int) :
    slicePositions? length start stop step =
      walk? step (stopPosition length step stop) (firstPosition length step start) := by
  have hdrawn (bound : Int) := clamp_eq_drawn length step bound
  unfold lowest highest at hdrawn
  unfold slicePositions? firstPosition stopPosition
  by_cases hpos : 0 < step
  · simp only [if_pos hpos] at hdrawn ⊢
    cases start <;> cases stop <;> simp only [hdrawn, Option.elim]
  · simp only [if_neg hpos] at hdrawn ⊢
    cases start <;> cases stop <;> simp only [hdrawn, Option.elim]

/-- As many steps as the list is long lead from the start of a slice to its stop. -/
theorem not_inFront_length (start stop : Option Int) (hstep : step ≠ 0) :
    inFront step (stopPosition length step stop)
      (firstPosition length step start + length * step) = false := by
  have hfirst := firstPosition_mem length step start
  have hstop := stopPosition_mem length step stop
  unfold lowest highest at hfirst hstop
  unfold inFront
  by_cases hpos : 0 < step
  · rw [if_pos hpos] at hfirst hstop ⊢
    rw [if_pos hpos] at hfirst hstop
    have hway : (length : Int) * 1 ≤ length * step := by gcongr; omega
    rw [decide_eq_false_iff_not]
    omega
  · rw [if_neg hpos] at hfirst hstop ⊢
    rw [if_neg hpos] at hfirst hstop
    have hway : (length : Int) * step ≤ length * -1 := by gcongr; omega
    rw [decide_eq_false_iff_not]
    omega

theorem slicePositions?_eq (start stop : Option Int) (hstep : step ≠ 0) :
    slicePositions? length start stop step =
      sumsFit step (referencePositions length start stop step) := by
  have hstop := not_inFront_length length start stop hstep
  rw [slicePositions?_eq_walk?, walk?_eq_filter hstep length _ hstop]
  rfl

/-- Each position of a slice is that of an item. -/
theorem lt_of_mem_referencePositions {start stop : Option Int} {i : Int}
    (h : i ∈ referencePositions length start stop step) : 0 ≤ i ∧ i < length := by
  have hfirst := firstPosition_mem length step start
  have hstop := stopPosition_mem length step stop
  obtain ⟨hmem, hfront⟩ := List.mem_filter.1 h
  obtain ⟨k, -, rfl⟩ := List.mem_map.1 hmem
  unfold lowest highest at hfirst hstop
  unfold inFront at hfront
  by_cases hpos : 0 < step
  · rw [if_pos hpos] at hfirst hstop hfront
    rw [if_pos hpos] at hfirst hstop
    have hway : 0 ≤ (k : Int) * step := by positivity
    rw [decide_eq_true_iff] at hfront
    omega
  · rw [if_neg hpos] at hfirst hstop hfront
    rw [if_neg hpos] at hfirst hstop
    have hway : (k : Int) * step ≤ 0 := Int.mul_nonpos_of_nonneg_of_nonpos (by omega) (by omega)
    rw [decide_eq_true_iff] at hfront
    omega

end

/-! ### The items of a slice -/

section

variable {α : Type}

/-- The items that are found at positions of which each has one. -/
theorem forall₂_filterMap {β : Type} {find : α → Option β} : ∀ {positions : List α},
    (∀ i ∈ positions, ∃ item, find i = some item) →
      List.Forall₂ (fun i item => find i = some item) positions (positions.filterMap find)
  | [], _ => .nil
  | i :: positions, h => by
    obtain ⟨⟨item, hitem⟩, hmore⟩ := List.forall_mem_cons.1 h
    rw [List.filterMap_cons_some hitem]
    exact .cons hitem (forall₂_filterMap hmore)

theorem sliceOf?_eq {list : List α} (hlist : (list.length : Int) ≤ greatestInt64)
    (start stop : Option Int) {step : Int} (hstep : step ≠ 0) : sliceOf? list start stop step =
      (sumsFit step (referencePositions list.length start stop step)).map fun positions =>
        positions.filterMap fun i => list[i.toNat]? := by
  rw [sliceOf?, if_neg (Int.not_lt.2 hlist), slicePositions?_eq _ _ _ hstep]
  simp only [List.getElem?_toArray]

/-- The items of a slice are those at the positions that the rule tells, one after another, if none
of these has a sum with the step of more than 64 bits. -/
theorem sliceOf?_reference {list : List α} (hlist : (list.length : Int) ≤ greatestInt64)
    (start stop : Option Int) {step : Int} (hstep : step ≠ 0) :
    (∀ items, sliceOf? list start stop step = some items →
      List.Forall₂ (fun (i : Int) item => 0 ≤ i ∧ list[i.toNat]? = some item)
        (referencePositions list.length start stop step) items) ∧
    (sliceOf? list start stop step = none ↔
      ∃ i ∈ referencePositions list.length start stop step, fitsInt64 (i + step) = false) := by
  have hrange : ∀ i ∈ referencePositions list.length start stop step, 0 ≤ i ∧ i < list.length :=
    fun i hi => lt_of_mem_referencePositions _ hi
  have hitem : ∀ i ∈ referencePositions list.length start stop step,
      ∃ item, list[i.toNat]? = some item := by
    intro i hi
    obtain ⟨hlow, hhigh⟩ := hrange i hi
    exact ⟨_, List.getElem?_eq_getElem (by omega)⟩
  rw [sliceOf?_eq hlist start stop hstep, sumsFit]
  split_ifs with hfit
  · refine ⟨?_, iff_of_false nofun ?_⟩
    · rintro _ ⟨⟩
      rw [List.forall₂_and_left]
      exact ⟨fun i hi => (hrange i hi).1, forall₂_filterMap hitem⟩
    · rintro ⟨i, hi, hmany⟩
      exact Bool.false_ne_true (hmany.symm.trans (hfit i hi))
  · exact ⟨nofun, by simpa using hfit⟩

/-- The item at an index is the slice from the index to the next one, unless the index names the
last item from the end: what follows it is named from the front. -/
theorem toList_itemAt? (list : List α) {n : Int} (h : n ≠ -1) :
    some (itemAt? list n).toList = sliceOf? list (some n) (some (n + 1)) 1 := by
  unfold itemAt? sliceOf?
  dsimp only
  by_cases hlist : greatestInt64 < list.length
  · rw [if_pos (.inl hlist), if_pos hlist]
    rfl
  have hfirst : firstPosition list.length 1 (some n) =
      max 0 (min (list.length : Int) (fromEnd list.length n)) := rfl
  have hstop : stopPosition list.length 1 (some (n + 1)) =
      max 0 (min (list.length : Int) (fromEnd list.length (n + 1))) := rfl
  have hnext : fromEnd list.length (n + 1) = fromEnd list.length n + 1 := by
    unfold fromEnd
    split_ifs <;> omega
  have hforward (stop i : Int) : inFront 1 stop i = decide (i < stop) := if_pos (by decide)
  rw [if_neg hlist, slicePositions?_eq_walk?, hfirst, hstop, hnext]
  simp only [List.getElem?_toArray]
  generalize fromEnd list.length n = i
  by_cases hi : 0 ≤ i ∧ i < list.length
  · have hat : max 0 (min (list.length : Int) i) = i := by omega
    have hafter : max 0 (min (list.length : Int) (i + 1)) = i + 1 := by omega
    have hfits : fitsInt64 (i + 1) = true := by
      unfold greatestInt64 at hlist
      exact fitsInt64_iff.2 ⟨by omega, by omega⟩
    have hwalk : walk? 1 (i + 1) i = some [i] := by
      rw [walk?_of_inFront ((hforward _ _).trans (decide_eq_true (by omega))) one_ne_zero,
        if_pos hfits, walk?_of_not_inFront ((hforward _ _).trans (decide_eq_false (by omega)))]
      rfl
    obtain ⟨item, hitem⟩ : ∃ item, list[i.toNat]? = some item :=
      ⟨_, List.getElem?_eq_getElem (by omega)⟩
    rw [hat, hafter, hwalk, if_neg (by omega), Option.map_some, List.filterMap_cons, hitem]
    rfl
  · rw [walk?_of_not_inFront ((hforward _ _).trans (decide_eq_false (by omega))), Option.map_some,
      List.filterMap_nil]
    split_ifs with hneg
    · rfl
    · rw [List.getElem?_eq_none (by omega)]
      rfl

end

/-! ### Indexes and slices in paths -/

/-- A path of a single item between brackets selects what the item selects. -/
theorem read_singleItem {item : Item} (h : item.Legible) {text : String}
    (htext : text.toList = writtenPath true [.child (.item item)]) :
    ∃ path, JsonPath.read text = .ok path ∧ ∀ root, path.select? root = item.select? root := by
  have hlegible : ∀ segment ∈ [Segment.child (.item item)], segment.Legible := by
    rintro _ (_ | ⟨_, ⟨⟩⟩)
    exact h
  have hwritten : String.ofList (writtenPath true [.child (.item item)]) = text := by
    rw [← htext, String.ofList_toList]
  exact ⟨_, read_of_written true hwritten hlegible, select?_single _ _⟩

/-- **Slices are the reference slices.** Whatever the bounds and whatever the step but zero, the
items that a slice selects from an array are those at the positions that the rule tells, one after
another, as long as no sum of such a position and the step has more than 64 bits; the length of an
array has no more. And an index selects from every value what the slice from it to the next index
selects, unless it names the last item from the end or has no next one within 64 bits. -/
theorem slices_are_reference :
    (∀ (items : List Json) (start stop : Option Int) (step : Int), step ≠ 0 →
      (items.length : Int) ≤ greatestInt64 →
      (∀ i ∈ referencePositions items.length start stop step, IsInt64 (i + step)) →
      ∃ selected, (Item.slice start stop step).select? (.array items) = some selected ∧
        List.Forall₂ (fun (i : Int) item => 0 ≤ i ∧ items[i.toNat]? = some item)
          (referencePositions items.length start stop step) selected) ∧
    ∀ n : Int, IsInt64 n → n ≠ -1 → n ≠ greatestInt64 →
      ∃ index slice, JsonPath.read ("$[" ++ toString n ++ "]") = .ok index ∧
        JsonPath.read ("$[" ++ toString n ++ ":" ++ toString (n + 1) ++ "]") = .ok slice ∧
          ∀ root, index.select? root = slice.select? root := by
  refine ⟨fun items start stop step hstep hitems hsums => ?_, fun n hn hlast hgreatest => ?_⟩
  · obtain ⟨hselected, hnone⟩ := sliceOf?_reference hitems start stop hstep
    cases hslice : sliceOf? items start stop step with
    | some selected => exact ⟨selected, hslice, hselected selected hslice⟩
    | none =>
      obtain ⟨i, hi, hmany⟩ := hnone.1 hslice
      exact absurd (fitsInt64_iff.2 (hsums i hi)) (by rw [hmany]; exact Bool.false_ne_true)
  have hnext : IsInt64 (n + 1) := by
    unfold IsInt64 greatestInt64 at *
    omega
  have hslice : (Item.slice (some n) (some (n + 1)) 1).Legible :=
    ⟨by rintro _ ⟨⟩; exact hn, by rintro _ ⟨⟩; exact hnext, by decide, by decide⟩
  have hindexText : ("$[" ++ toString n ++ "]").toList =
      writtenPath true [.child (.item (.index n))] := by
    simp [writtenPath, Segment.written, Choice.written, Item.written, writtenInteger]
  have hsliceText : ("$[" ++ toString n ++ ":" ++ toString (n + 1) ++ "]").toList =
      writtenPath true [.child (.item (.slice (some n) (some (n + 1)) 1))] := by
    simp [writtenPath, Segment.written, Choice.written, Item.written, writtenInteger, writtenBound,
      writtenStep]
  have hindex : (Item.index n).Legible := hn
  obtain ⟨index, hreadIndex, hselectIndex⟩ := read_singleItem hindex hindexText
  obtain ⟨slice, hreadSlice, hselectSlice⟩ := read_singleItem hslice hsliceText
  refine ⟨index, slice, hreadIndex, hreadSlice, fun root => ?_⟩
  rw [hselectIndex, hselectSlice]
  cases root with
  | array items => exact toList_itemAt? items hlast
  | _ => rfl

/-- A slice that leads back, and an index that counts from the end. -/
theorem slices_are_reference_backwards :
    (∃ selected, (Item.slice none (some (-4)) (-2)).select?
        (.array [.null, .null, .boolean true, .null, .boolean false]) = some selected ∧
      List.Forall₂ (fun (i : Int) item => 0 ≤ i ∧
          [Json.null, .null, .boolean true, .null, .boolean false][i.toNat]? = some item)
        [4, 2] selected) ∧
    ∃ index slice, JsonPath.read "$[-3]" = .ok index ∧ JsonPath.read "$[-3:-2]" = .ok slice ∧
      ∀ root, index.select? root = slice.select? root := by
  have hpositions : referencePositions 5 none (some (-4)) (-2) = [4, 2] := by decide
  have hindex : "$[" ++ toString (-3 : Int) ++ "]" = "$[-3]" := by rfl
  have hslice : "$[" ++ toString (-3 : Int) ++ ":" ++ toString (-3 + 1 : Int) ++ "]" =
      "$[-3:-2]" := by rfl
  constructor
  · rw [← hpositions]
    exact slices_are_reference.1 [.null, .null, .boolean true, .null, .boolean false] none
      (some (-4)) (-2) (by decide) (by decide) (by decide)
  · rw [← hindex, ← hslice]
    exact slices_are_reference.2 (-3) (by decide) (by decide) (by decide)

end Gleaner.JsonPath
