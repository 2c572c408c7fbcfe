/-
# Looking for a text inside another

Occurrence, removal of a fixed start, the first place where a mark occurs, and comparison of names
without regard to the case of ASCII letters.

Key definitions: `occursIn`, `stripStart?`, `splitAtFirst?`, `lowerAscii`.
Key theorems: `occursIn_iff`, `stripStart?_eq_some_iff`, `eq_of_splitAtFirst?`.
-/

namespace Gleaner.Text

/-- What is asked of the characters of a text is decided by asking each of them, not each of all
characters. -/
instance decidableForallMem (text : List Char) (p : Char → Prop) [DecidablePred p] :
    Decidable (∀ c ∈ text, p c) :=
  List.decidableBAll p text

/-- The text `needle` occurs somewhere in a text. -/
def occursIn (needle : List Char) : List Char → Bool
  | [] => needle.isEmpty
  | c :: cs => needle.isPrefixOf (c :: cs) || occursIn needle cs

/-- A text occurs in another exactly when it is a contiguous piece of it. -/
theorem occursIn_iff {needle text : List Char} :
    occursIn needle text = true ↔ needle <:+: text := by
  induction text with
  | nil => simp [occursIn, List.infix_nil]
  | cons c cs ih =>
    simp only [occursIn, Bool.or_eq_true, List.isPrefixOf_iff_prefix, ih, List.infix_cons_iff]

/-- What follows the given start, if the text has it. -/
def stripStart? : List Char → List Char → Option (List Char)
  | [], text => some text
  | _ :: _, [] => none
  | p :: ps, c :: cs => if p = c then stripStart? ps cs else none

theorem stripStart?_eq_some_iff {start text rest : List Char} :
    stripStart? start text = some rest ↔ text = start ++ rest := by
  induction start generalizing text with
  | nil => simp [stripStart?, eq_comm]
  | cons p ps ih =>
    cases text with
    | nil => simp [stripStart?]
    | cons c cs =>
      by_cases h : p = c
      · simp [stripStart?, h, ih]
      · simp [stripStart?, h, Ne.symm h]

/-- The two sides of the first occurrence of `mark`. -/
def splitAtFirst? (mark : List Char) : List Char → Option (List Char × List Char)
  | [] => if mark.isEmpty then some ([], []) else none
  | c :: cs =>
    match stripStart? mark (c :: cs) with
    | some rest => some ([], rest)
    | none => (splitAtFirst? mark cs).map fun (before, after) => (c :: before, after)

/-- The two sides and the mark between them make up the text. -/
theorem eq_of_splitAtFirst? {mark text before after : List Char}
    (h : splitAtFirst? mark text = some (before, after)) : text = before ++ mark ++ after := by
  induction text generalizing before with
  | nil =>
    cases mark with
    | nil => simp [splitAtFirst?] at h; simp [h]
    | cons m ms => simp [splitAtFirst?] at h
  | cons c cs ih =>
    rw [splitAtFirst?] at h
    split at h
    · next rest hr =>
      obtain ⟨rfl, rfl⟩ := Prod.mk.injEq .. ▸ Option.some.injEq .. ▸ h
      simpa using stripStart?_eq_some_iff.1 hr
    · next hr =>
      obtain ⟨⟨a, b⟩, hab, hc⟩ := Option.map_eq_some_iff.1 h
      obtain ⟨rfl, rfl⟩ := Prod.mk.injEq .. ▸ hc
      simp [ih hab]

/-- A text does not begin with a text of which it lacks a character. -/
theorem stripStart?_eq_none_of_not_mem {m : Char} {start text : List Char} (hm : m ∈ start)
    (h : m ∉ text) : stripStart? start text = none := by
  cases hs : stripStart? start text with
  | none => rfl
  | some rest =>
    rw [stripStart?_eq_some_iff] at hs
    exact absurd (hs ▸ List.mem_append_left rest hm) h

/-- Nor does it hold one anywhere. -/
theorem splitAtFirst?_eq_none {m : Char} {mark : List Char} :
    ∀ {text : List Char}, m ∉ text → splitAtFirst? (m :: mark) text = none
  | [], _ => rfl
  | c :: rest, h => by
    rw [splitAtFirst?, stripStart?_eq_none_of_not_mem List.mem_cons_self h,
      splitAtFirst?_eq_none fun hm => h (List.mem_cons_of_mem _ hm)]
    rfl

/-- A character with the ASCII capitals made small. -/
def lowerChar (c : Char) : Char :=
  if 'A' ≤ c ∧ c ≤ 'Z' then Char.ofNat (c.toNat + 32) else c

/-- A text with the ASCII capitals made small; other letters stay. -/
def lowerAscii (text : String) : String :=
  String.ofList (text.toList.map lowerChar)

/-- Two names agree up to the case of ASCII letters. -/
def sameName (a b : String) : Bool :=
  lowerAscii a == lowerAscii b

theorem sameName_comm (a b : String) : sameName a b = sameName b a := by
  simp [sameName, Bool.beq_comm]

/-- A decimal digit of ASCII. -/
def isDigit (c : Char) : Bool :=
  decide ('0' ≤ c) && decide (c ≤ '9')

theorem toNat_of_isDigit {c : Char} (h : isDigit c = true) : 48 ≤ c.toNat ∧ c.toNat ≤ 57 := by
  rw [isDigit, Bool.and_eq_true, decide_eq_true_eq, decide_eq_true_eq] at h
  exact h

/-- The value of a decimal digit. -/
def digitValue (c : Char) : Nat :=
  c.toNat - 48

/-- The number that a row of decimal digits writes, most significant digit first. -/
def numeralValue (digits : List Char) : Nat :=
  digits.foldl (fun n c => n * 10 + digitValue c) 0

/-- A letter of ASCII. -/
def isAsciiLetter (c : Char) : Bool :=
  (decide ('a' ≤ c) && decide (c ≤ 'z')) || (decide ('A' ≤ c) && decide (c ≤ 'Z'))

theorem toNat_of_isAsciiLetter {c : Char} (h : isAsciiLetter c = true) :
    65 ≤ c.toNat ∧ c.toNat ≤ 122 := by
  simp only [isAsciiLetter, Bool.or_eq_true, Bool.and_eq_true, decide_eq_true_eq] at h
  rcases h with ⟨hlow, hhigh⟩ | ⟨hlow, hhigh⟩
  · exact ⟨Nat.le_trans (by decide) (show 97 ≤ c.toNat from hlow), hhigh⟩
  · exact ⟨hlow, Nat.le_trans (show c.toNat ≤ 90 from hhigh) (by decide)⟩

end Gleaner.Text
