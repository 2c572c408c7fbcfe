/-
# Integers compared by conditions

A condition compares numbers as doubles. So it compares integers of 64 bits, with or without a sign,
as they are when rounded to 53 binary digits: two integers that are rounded to the same count as
equal, and all others stand to each other as they do as integers. For two to be rounded to the same,
neither may lie strictly between -2^53 and 2^53.

Key definitions: `Comparison.holds`, `comparedText`.
Key theorems: `Comparison.accepts_compare`, `Comparison.holds_rounded_iff`,
`Condition.accepts_integer`, `select_compared_integers`.
-/
import Gleaner.Proofs.Json.Below
import Gleaner.Proofs.JsonPath.Whole
import Gleaner.Proofs.Number.Nearest

namespace Gleaner

open Gleaner.Number

/-! ### Comparisons of integers -/

/-- What a comparison says of two integers. -/
def Comparison.holds : Comparison → Int → Int → Prop
  | .equal, a, b => a = b
  | .notEqual, a, b => a ≠ b
  | .less, a, b => a < b
  | .atMost, a, b => a ≤ b
  | .greater, a, b => b < a
  | .atLeast, a, b => b ≤ a

/-- A comparison accepts the order of two integers if it holds of them. -/
theorem Comparison.accepts_compare (comparison : Comparison) (a b : Int) :
    comparison.accepts (some (compare a b)) = true ↔ comparison.holds a b := by
  rcases lt_trichotomy a b with h | h | h
  · rw [compare_lt_iff_lt.2 h]
    cases comparison <;> simp [accepts, holds] <;> omega
  · rw [compare_eq_iff_eq.2 h]
    cases comparison <;> simp [accepts, holds] <;> omega
  · rw [compare_gt_iff_gt.2 h]
    cases comparison <;> simp [accepts, holds] <;> omega

/-- Integers that are not rounded to the same stand to each other as the rounded ones do. -/
theorem Comparison.holds_rounded_iff (comparison : Comparison) {a b : Int}
    (h : a = b ∨ rounded a ≠ rounded b) :
    comparison.holds (rounded a) (rounded b) ↔ comparison.holds a b := by
  rcases h with rfl | hne
  · cases comparison <;> simp [holds]
  · have hle : a ≤ b ↔ rounded a ≤ rounded b := by
      refine ⟨rounded_mono, fun hle => ?_⟩
      by_contra hgt
      have hge := rounded_mono (show b ≤ a by omega)
      omega
    have hge : b ≤ a ↔ rounded b ≤ rounded a := by
      refine ⟨rounded_mono, fun hge => ?_⟩
      by_contra hlt
      have hle := rounded_mono (show a ≤ b by omega)
      omega
    cases comparison <;> simp only [holds] <;> omega

namespace JsonPath

open Gleaner.Text

/-- Integers of 64 bits, with or without a sign, have no more than 65 binary digits. -/
theorem log2_natAbs_le {n : Int} (h : (Json.Numeric.integer n).Proper) : n.natAbs.log2 ≤ 64 := by
  obtain ⟨hlow, hhigh⟩ : -9223372036854775808 ≤ n ∧ n < 18446744073709551616 := h
  by_cases hzero : n.natAbs = 0
  · rw [hzero]
    decide
  · exact Nat.le_of_lt_succ ((Nat.log2_lt hzero).2 (by omega))

/-- Integers of 64 bits, with or without a sign, are compared as they are when rounded. -/
theorem Condition.accepts_integer (comparison : Comparison) {a b : Int}
    (ha : (Json.Numeric.integer a).Proper) (hb : (Json.Numeric.integer b).Proper) :
    (Condition.compare [] comparison (.number (.integer b))).accepts (.number (.integer a)) = true ↔
      comparison.holds (rounded a) (rounded b) := by
  have horder := orderOfFloats?_floatOfInt (log2_natAbs_le ha) (log2_natAbs_le hb)
  show comparison.accepts (orderOfFloats? (floatOfInt a) (floatOfInt b)) = true ↔ _
  rw [horder, Comparison.accepts_compare]

/-! ### Filters with an integer in them -/

variable {before between : List Char} {b : Int} (comparison : Comparison)

/-- A condition that compares a value with an integer, with blanks around the sign. -/
def comparedText (before : List Char) (comparison : Comparison) (between : List Char) (b : Int) :
    List Char :=
  '?' :: '(' :: '@' :: (before ++ (writtenSign comparison ++ (between ++ (writtenInteger b ++ [')']))))

theorem readLiteral_integer (hbetween : Blanks between) (hb : (Json.Numeric.integer b).Proper)
    {rest : List Char} (hrest : Ends rest) :
    Reads (readLiteral (between ++ (writtenInteger b ++ rest))) (.number (.integer b)) rest := by
  obtain ⟨c, more, hcons, hc⟩ := writtenInteger_eq_cons b
  have hread := readLiteralHere_integer hb.1 hb.2 hrest
  rw [hcons, List.cons_append] at hread ⊢
  exact readLiteral_blanks hbetween (not_blank_of_startsInteger hc) hread

/-- Neither a blank nor an integer makes the sign of a comparison longer. -/
theorem head?_integer_ne (hbetween : Blanks between) (b : Int) (rest : List Char) :
    (between ++ (writtenInteger b ++ rest)).head? ≠ some '=' := by
  have hhead : ∀ c ∈ (between ++ (writtenInteger b ++ rest)).head?, c ≠ '=' := by
    refine forall_head?_append hbetween (fun c hblank => ?_) ?_
    · rintro rfl
      exact absurd hblank (by decide)
    · obtain ⟨c, more, hcons, hc⟩ := writtenInteger_eq_cons b
      rw [hcons]
      rintro _ ⟨⟩
      exact ne_of_startsInteger hc (by decide)
  exact fun heq => hhead '=' heq rfl

/-- A condition that compares a value with an integer is read. -/
theorem readChoice_compared (hbefore : Blanks before) (hbetween : Blanks between)
    (hb : (Json.Numeric.integer b).Proper) (rest : List Char) :
    Reads (readChoice (comparedText before comparison between b ++ rest))
      (.filter (.compare [] comparison (.number (.integer b)))) rest := by
  have hcloses := closes_parenthesis
  have hliteral := readLiteral_integer hbetween hb (hcloses 0 rest).1
  have hcompared : Reads (readComparedPath (before ++ (writtenSign comparison ++
        (between ++ (writtenInteger b ++ ')' :: rest)))))
      (.compare [] comparison (.number (.integer b))) (')' :: rest) :=
    readComparedPath_literal comparison (fun _ hkey => absurd hkey List.not_mem_nil) hbefore
      (head?_integer_ne hbetween b (')' :: rest)) hliteral
  have htwo := readCondition_two (readTerm_path hcompared)
  have hone := readCondition_of_lt (by decide) htwo (readConnected_closes (hcloses 1 rest) _)
  have hzero := readCondition_of_lt (by decide) hone (readConnected_closes (hcloses 0 rest) _)
  have htext : comparedText before comparison between b ++ rest =
      '?' :: '(' :: '@' :: (before ++ (writtenSign comparison ++
        (between ++ (writtenInteger b ++ ')' :: rest)))) := by
    simp [comparedText]
  rw [htext]
  exact readChoice_filter hzero

/-- Behind other segments a filter keeps some of the children of each value that these select. -/
theorem select?_filter_behind (text : String) (front : List Segment) (condition : Condition)
    (root : Json) : JsonPath.select? ⟨text, front ++ [.child (.filter condition)]⟩ root =
      (selectAll? front [root]).map fun values =>
        values.flatMap fun json => json.children.filter condition.accepts := by
  have hlast (values : List Json) : selectAll? [.child (.filter condition)] values =
      some (values.flatMap fun json => json.children.filter condition.accepts) := by
    rw [selectAll?]
    exact congrArg (Option.bind · _) (gatherEach?_some _ values)
  rw [JsonPath.select?, selectAll?_append, Option.map_eq_bind]
  exact congrArg _ (funext hlast)

/-- **Integers compared by conditions.** A filter that compares values with an integer is read
behind any segments, and keeps an integer exactly if the comparison holds of the two integers as
they are rounded to 53 binary digits. So the comparison is exact, but for different integers that
are rounded to the same: these count as equal, and neither of them lies strictly between -2^53
and 2^53. -/
theorem select_compared_integers (brief : Bool) {front : List Segment}
    (hfront : ∀ segment ∈ front, segment.Legible) (hbefore : Blanks before)
    (hbetween : Blanks between) (hb : (Json.Numeric.integer b).Proper) :
    ∃ (path : JsonPath) (keeps : Json → Bool),
      JsonPath.read (String.ofList (writtenPath brief front ++
          '[' :: (comparedText before comparison between b ++ [']']))) = .ok path ∧
        (∀ root, path.select? root = (selectAll? front [root]).map fun values =>
          values.flatMap fun json => json.children.filter keeps) ∧
        ∀ a, (Json.Numeric.integer a).Proper →
          (keeps (.number (.integer a)) = true ↔ comparison.holds (rounded a) (rounded b)) ∧
          (a = b ∨ rounded a ≠ rounded b →
            (keeps (.number (.integer a)) = true ↔ comparison.holds a b)) ∧
          (a ≠ b → rounded a = rounded b → twoTo 53 ≤ a.natAbs ∧ twoTo 53 ≤ b.natAbs) := by
  have hread := readChoice_compared comparison hbefore hbetween hb [']']
  refine ⟨_, _, read_behind brief hfront hread.readsTo, fun root => select?_filter_behind _ _ _ root,
    fun a ha => ?_⟩
  have hrounded := Condition.accepts_integer comparison ha hb
  refine ⟨hrounded, fun h => hrounded.trans (comparison.holds_rounded_iff h), fun hne hsame => ?_⟩
  constructor
  · exact Nat.not_lt.1 fun hlt => rounded_ne hne hlt hsame
  · exact Nat.not_lt.1 fun hlt => rounded_ne hne.symm hlt hsame.symm

/-- The integers behind 2^53: the first is no double and is rounded to 2^53, the second is one. -/
theorem select_compared_integers_large :
    (∀ segment ∈ [Segment.child (.item (.name "ids"))], segment.Legible) ∧ Blanks [' '] ∧
      (Json.Numeric.integer 9007199254740992).Proper ∧
      ∃ (path : JsonPath) (keeps : Json → Bool),
        JsonPath.read "$['ids'][?(@ > 9007199254740992)]" = .ok path ∧
          (∀ root, path.select? root = (selectAll? [.child (.item (.name "ids"))] [root]).map
            fun values => values.flatMap fun json => json.children.filter keeps) ∧
          keeps (.number (.integer 9007199254740993)) = false ∧
          keeps (.number (.integer 9007199254740994)) = true := by
  have hfront : ∀ segment ∈ [Segment.child (.item (.name "ids"))], segment.Legible :=
    fun _ hmem => List.mem_singleton.1 hmem ▸ trivial
  have hblank : Blanks [' '] := by decide
  have hproper : (Json.Numeric.integer 9007199254740992).Proper := ⟨by decide, by decide⟩
  obtain ⟨path, keeps, hread, hselect, hkeeps⟩ :=
    select_compared_integers .greater true hfront hblank hblank hproper
  obtain ⟨hfirst, -, -⟩ := hkeeps 9007199254740993 ⟨by decide, by decide⟩
  obtain ⟨hsecond, -, -⟩ := hkeeps 9007199254740994 ⟨by decide, by decide⟩
  have hsame : ¬Comparison.greater.holds (rounded 9007199254740993) (rounded 9007199254740992) := by
    show ¬rounded 9007199254740992 < rounded 9007199254740993
    decide +kernel
  have hgreater : Comparison.greater.holds (rounded 9007199254740994) (rounded 9007199254740992) := by
    show rounded 9007199254740992 < rounded 9007199254740994
    decide +kernel
  exact ⟨hfront, hblank, hproper, path, keeps, hread, hselect,
    Bool.eq_false_iff.2 fun hkept => hsame (hfirst.1 hkept), hsecond.2 hgreater⟩

/-- Different integers that are rounded to the same count as equal: the integer behind 2^53 is kept
where 2^53 is asked for. -/
theorem select_equal_integers_apart :
    ∃ path, JsonPath.read "$[?(@ == 9007199254740992)]" = .ok path ∧
      path.select? (.array [.number (.integer 9007199254740993)]) =
        some [.number (.integer 9007199254740993)] ∧
      ¬Comparison.equal.holds 9007199254740993 9007199254740992 := by
  have hblank : Blanks [' '] := by decide
  have hproper : (Json.Numeric.integer 9007199254740992).Proper := ⟨by decide, by decide⟩
  have hread := read_bracketed (readChoice_compared .equal hblank hblank hproper [']']).readsTo
  have htext : String.ofList (bracketed (comparedText [' '] .equal [' '] 9007199254740992)) =
      "$[?(@ == 9007199254740992)]" := by decide +kernel
  have hbehind : (Json.Numeric.integer 9007199254740993).Proper := ⟨by decide, by decide⟩
  have hkept := (Condition.accepts_integer .equal hbehind hproper).2
    (show rounded 9007199254740993 = rounded 9007199254740992 by decide +kernel)
  rw [htext] at hread
  refine ⟨_, hread, ?_, show ¬(9007199254740993 : Int) = 9007199254740992 by decide⟩
  rw [select?_single]
  exact congrArg some (List.filter_eq_self.2 fun child hchild => List.mem_singleton.1 hchild ▸ hkept)

end JsonPath
end Gleaner
