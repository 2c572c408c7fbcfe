/-
# Numbers in decimal digits

A natural number is written as a row of digits that is not empty, holds nothing else and does not
begin with a zero unless it is one; an integer below zero has a minus sign in front. What is written
so is read back, by the readings of whole texts and by that of JSON numerals.

Key definitions: `IsInt64`, `SpelledInteger`.
Key theorems: `numeralValue_toString`, `digits_toString`, `head?_toString`, `toString_int`,
`readInt64_spelled`, `readInt64_toString`, `isInt64_of_readInt64`, `readNumeric?_toString`.
-/
import Gleaner.Json.Read
import Gleaner.Number.Read
import Gleaner.Proofs.Success

namespace Gleaner.Text

theorem numeralValue_toString (n : Nat) : numeralValue (toString n).toList = n := by
  have h : (toString n).toList = Nat.toDigits 10 n := by simp
  rw [h, numeralValue]
  refine Eq.trans ?_ (Nat.ofDigitChars_ten_toDigits (n := n))
  rw [Nat.ofDigitChars_eq_foldl]
  refine congrArg (fun f => List.foldl f 0 _) (funext fun m => funext fun c => ?_)
  rw [digitValue, Nat.mul_comm]
  rfl

/-- The digits of a number: there is one, and no character is anything else. -/
theorem digits_toString (n : Nat) :
    (toString n).toList ≠ [] ∧ ∀ c ∈ (toString n).toList, isDigit c = true := by
  refine ⟨by simp, fun c hc => ?_⟩
  have h : c ∈ Nat.toDigits 10 n := by simpa using hc
  have hdigit := Nat.isDigit_of_mem_toDigits (by decide) (by decide) h
  rw [isDigit, ← hdigit]
  rfl

theorem ne_of_isDigit {c m : Char} (h : isDigit c = true) (hm : isDigit m = false) : c ≠ m := by
  rintro rfl
  rw [h] at hm
  cases hm

/-- The digits of a number above zero do not begin with a zero. -/
theorem head?_toString {n : Nat} (h : 0 < n) : (toString n).toList.head? ≠ some '0' := by
  have hdigits : (toString n).toList = Nat.toDigits 10 n := by simp
  rw [hdigits]
  clear hdigits
  induction n using Nat.strongRecOn with
  | ind n ih =>
    by_cases hn : n < 10
    · have hall : ∀ k < 10, 0 < k → [k.digitChar].head? ≠ some '0' := by decide
      rw [Nat.toDigits_of_lt_base hn]
      exact hall n hn h
    · have hle : 10 ≤ n := by omega
      have hfront := ih (n / 10) (by omega) (by omega)
      obtain ⟨c, rest, hcons⟩ := List.exists_cons_of_ne_nil (Nat.toDigits_ne_nil (n := n / 10))
      rw [hcons] at hfront
      rw [Nat.toDigits_of_base_le (by decide) hle, hcons]
      exact hfront

/-- An integer is written as its sign and its digits. -/
theorem toString_int (n : Int) :
    (toString n).toList = (if n < 0 then ['-'] else []) ++ (toString n.natAbs).toList := by
  cases n with
  | ofNat m =>
    rw [if_neg (by simp)]
    rfl
  | negSucc m =>
    have hrepr : toString (Int.negSucc m) = "-" ++ toString (m + 1) := rfl
    rw [if_pos (Int.negSucc_lt_zero m), hrepr, String.toList_append]
    rfl

end Gleaner.Text

namespace Gleaner.Number

open Gleaner.Text

/-- An integer of 64 bits with a sign. -/
def IsInt64 (n : Int) : Prop :=
  -(twoTo 63 : Int) ≤ n ∧ n < twoTo 63

instance (n : Int) : Decidable (IsInt64 n) :=
  inferInstanceAs (Decidable (_ ∧ _))

theorem fitsInt64_iff {n : Int} : fitsInt64 n = true ↔ IsInt64 n := by
  rw [fitsInt64, Bool.and_eq_true, decide_eq_true_iff, decide_eq_true_iff, IsInt64, leastInt64,
    greatestInt64]
  omega

/-- Further digits make a number no smaller. -/
theorem le_foldl_digits : ∀ (digits : List Char) (n : Nat),
    n ≤ digits.foldl (fun n c => n * 10 + digitValue c) n
  | [], n => Nat.le_refl n
  | c :: cs, n => by
    have hrest := le_foldl_digits cs (n * 10 + digitValue c)
    rw [List.foldl_cons]
    omega

/-- Digits are read as the number they write, if that is within the limit. -/
theorem readDigits_eq_ok {limit : Nat} {overflow : IntegerFault} :
    ∀ {digits : List Char} {n : Nat}, (∀ c ∈ digits, isDigit c = true) →
      digits.foldl (fun n c => n * 10 + digitValue c) n ≤ limit →
      readDigits limit overflow n digits =
        .ok (digits.foldl (fun n c => n * 10 + digitValue c) n)
  | [], _, _, _ => rfl
  | c :: cs, n, hdigits, hlimit => by
    have hc : isDigit c = true := hdigits c List.mem_cons_self
    have hfits : ¬limit < n * 10 + digitValue c := by
      have hrest := le_foldl_digits cs (n * 10 + digitValue c)
      rw [List.foldl_cons] at hlimit
      omega
    rw [readDigits, hc, if_neg (by simp), if_neg hfits, List.foldl_cons]
    exact readDigits_eq_ok (fun d hd => hdigits d (List.mem_cons_of_mem _ hd)) hlimit

/-- An integer of 64 bits as it may be written: digits, of which there is at least one, behind a
minus sign or none. -/
inductive SpelledInteger : List Char → Int → Prop where
  | natural {digits : List Char} (hne : digits ≠ []) (hdigits : ∀ c ∈ digits, isDigit c = true)
      (h : numeralValue digits < twoTo 63) : SpelledInteger digits (numeralValue digits)
  | negative {digits : List Char} (hne : digits ≠ []) (hdigits : ∀ c ∈ digits, isDigit c = true)
      (h : numeralValue digits ≤ twoTo 63) :
      SpelledInteger ('-' :: digits) (-(numeralValue digits : Int))

/-- An integer of 64 bits may be written as its shortest text. -/
theorem spelledInteger_toString {n : Int} (h : IsInt64 n) :
    SpelledInteger (toString n).toList n := by
  obtain ⟨hlow, hhigh⟩ := h
  obtain ⟨hne, hdigits⟩ := digits_toString n.natAbs
  have hvalue := numeralValue_toString n.natAbs
  rw [toString_int]
  by_cases hneg : n < 0
  · have hspelled := SpelledInteger.negative hne hdigits (by omega)
    rw [hvalue, show -(n.natAbs : Int) = n by omega] at hspelled
    rwa [if_pos hneg, List.singleton_append]
  · have hspelled := SpelledInteger.natural hne hdigits (by omega)
    rw [hvalue, show (n.natAbs : Int) = n by omega] at hspelled
    rwa [if_neg hneg, List.nil_append]

/-- An integer of 64 bits is read however it is written. -/
theorem readInt64_spelled {text : List Char} {n : Int} (h : SpelledInteger text n) :
    readInt64 (String.ofList text) = .ok n := by
  have hread {digits : List Char} {limit : Nat} {overflow : IntegerFault}
      (hdigits : ∀ c ∈ digits, isDigit c = true) (hlimit : numeralValue digits ≤ limit) :
      readDigits limit overflow 0 digits = .ok (numeralValue digits) :=
    readDigits_eq_ok hdigits hlimit
  rw [readInt64, readInteger, String.toList_ofList]
  cases h with
  | natural hne hdigits h =>
    obtain ⟨c, rest, rfl⟩ := List.exists_cons_of_ne_nil hne
    have hc : isDigit c = true := hdigits c List.mem_cons_self
    split
    · next heq => cases heq
    · next heq => cases heq; exact absurd hc (by decide)
    · next heq => cases heq; exact absurd hc (by decide)
    · next heq => cases heq; exact absurd hc (by decide)
    · next heq => cases heq; exact absurd hc (by decide)
    · rw [hread hdigits (Nat.le_sub_one_of_lt h)]
      rfl
  | negative hne hdigits h =>
    obtain ⟨c, rest, rfl⟩ := List.exists_cons_of_ne_nil hne
    simp only
    rw [if_neg (by decide), hread hdigits h]
    rfl

/-- An integer of 64 bits is read back from its text. -/
theorem readInt64_toString {n : Int} (h : IsInt64 n) : readInt64 (toString n) = .ok n := by
  have hread := readInt64_spelled (spelledInteger_toString h)
  rwa [String.ofList_toList] at hread

theorem readDigits_le {limit : Nat} {overflow : IntegerFault} : ∀ {digits : List Char} {n m : Nat},
    n ≤ limit → readDigits limit overflow n digits = .ok m → m ≤ limit
  | [], n, m, hn, h => Except.ok.inj h ▸ hn
  | c :: cs, n, m, hn, h => by
    rw [readDigits] at h
    split at h
    · cases h
    · split at h
      · cases h
      · exact readDigits_le (by omega) h

/-- What is read as an integer of 64 bits is one. -/
theorem isInt64_of_readInt64 {text : String} {n : Int} (h : readInt64 text = .ok n) :
    IsInt64 n := by
  have hpos : 0 < twoTo 63 := twoTo_pos 63
  have hsize {limit : Nat} {overflow : IntegerFault} {digits : List Char} {signed : Int → Int}
      (h : (readDigits limit overflow 0 digits >>= fun m => pure (m : Int)).map signed = .ok n) :
      ∃ m : Nat, m ≤ limit ∧ signed m = n := by
    obtain ⟨size, hread, hn⟩ := map_eq_ok_iff.1 h
    obtain ⟨m, hm, hsize⟩ := bind_eq_ok_iff.1 hread
    exact ⟨m, readDigits_le (Nat.zero_le _) hm, by rw [Except.ok.inj hsize, hn]⟩
  unfold readInt64 readInteger at h
  split at h
  · cases h
  · cases h
  · cases h
  · obtain ⟨m, hm, rfl⟩ := hsize h
    exact ⟨by omega, by omega⟩
  · rw [if_neg (by omega)] at h
    obtain ⟨m, hm, rfl⟩ := hsize h
    exact ⟨by omega, by omega⟩
  · obtain ⟨m, hm, rfl⟩ := hsize h
    exact ⟨by omega, by omega⟩

end Gleaner.Number

namespace Gleaner.Json

open Gleaner.Number Gleaner.Text

/-- The digits of a number are the whole digits of a numeral, if no digit stands behind them. -/
theorem wholeDigits?_toString (n : Nat) {rest : List Char}
    (hrest : ∀ c ∈ rest.head?, isDigit c = false) :
    wholeDigits? ((toString n).toList ++ rest) = some ((toString n).toList, rest) := by
  obtain ⟨hne, hdigits⟩ := digits_toString n
  obtain ⟨htake, hdrop⟩ := span_append hdigits hrest
  have hread : digits? ((toString n).toList ++ rest) = some ((toString n).toList, rest) := by
    rw [digits?, htake, hdrop, if_neg (by simp)]
  rw [wholeDigits?, hread]
  split
  · next d more left heq =>
    have hzero : (toString n).toList = '0' :: d :: more := congrArg Prod.fst (Option.some.inj heq)
    rcases Nat.eq_zero_or_pos n with rfl | hpos
    · simp at hzero
    · exact absurd (congrArg List.head? hzero) (head?_toString hpos)
  · rfl

/-- An integer of 64 bits, with or without a sign, is the number that its text writes. -/
theorem readNumeric?_toString {n : Int} (hlow : leastInt64 ≤ n) (hhigh : n < twoTo 64) :
    readNumeric? (toString n).toList = some (.integer n) := by
  unfold leastInt64 at hlow
  obtain ⟨c, rest, hcons⟩ := List.exists_cons_of_ne_nil (digits_toString n.natAbs).1
  have hc : isDigit c = true := (digits_toString n.natAbs).2 c (by rw [hcons]; exact .head _)
  have hend : ∀ c ∈ ([] : List Char).head?, isDigit c = false := nofun
  have hwhole := wholeDigits?_toString n.natAbs hend
  have hvalue := numeralValue_toString n.natAbs
  rw [List.append_nil] at hwhole
  rw [hcons] at hwhole hvalue
  rw [readNumeric?, toString_int, hcons]
  by_cases hneg : n < 0
  · have hnumeral : readNumeral? ('-' :: c :: rest) = some (⟨true, c :: rest, [], none⟩, []) := by
      simp only [readNumeral?, hwhole]
      rfl
    have hpositive : 0 < n.natAbs := by omega
    have habs : n.natAbs ≤ twoTo 63 := by omega
    have hresult : -(n.natAbs : Int) = n := by omega
    rw [if_pos hneg, List.singleton_append, hnumeral]
    simp only [Numeral.value?, Numeral.isPlain, List.isEmpty_nil, Option.isNone_none, Bool.and_self,
      Bool.not_true, Bool.and_false, Bool.false_and, Bool.false_eq_true, if_false, decide_true,
      if_true, hvalue, hpositive, habs, hresult]
  · have hnumeral : readNumeral? (c :: rest) = some (⟨false, c :: rest, [], none⟩, []) := by
      have hsign : c ≠ '-' := ne_of_isDigit hc (by decide)
      rw [readNumeral?]
      · rw [hwhole]
        rfl
      · intro cs heq
        exact hsign (List.cons.inj heq).1
    have habs : n.natAbs < twoTo 64 := by omega
    have hresult : (n.natAbs : Int) = n := by omega
    rw [if_neg hneg, List.nil_append, hnumeral]
    simp only [Numeral.value?, Numeral.isPlain, List.isEmpty_nil, Option.isNone_none, Bool.and_self,
      Bool.not_false, decide_true, if_true, hvalue, habs, hresult]

end Gleaner.Json
