/-
# Texts with blanks around them

What is cut off the ends of a text is blanks and nothing else. So blanks that are put around a text
are cut off together with those that it had.

Key definitions: `Blanks`.
Key theorems: `exists_trimEnd`, `exists_trim`, `trim_padded`, `trim_append_cons`.
-/
import Gleaner.Text.Blank
import Mathlib.Data.List.TakeWhile

namespace Gleaner.Text

/-- A text of blanks alone. -/
def Blanks (text : List Char) : Prop :=
  ∀ c ∈ text, isBlank c = true

instance (text : List Char) : Decidable (Blanks text) :=
  decidable_of_iff (text.all isBlank = true) List.all_eq_true

namespace Blanks

theorem nil : Blanks [] :=
  List.forall_mem_nil _

theorem reverse {text : List Char} (h : Blanks text) : Blanks text.reverse :=
  fun c hc => h c (List.mem_reverse.1 hc)

theorem takeWhile (text : List Char) : Blanks (text.takeWhile isBlank) :=
  fun _ hc => List.all_eq_true.1 List.all_takeWhile _ hc

theorem trimStart {text : List Char} (h : Blanks text) : Text.trimStart text = [] :=
  List.dropWhile_eq_nil_iff.2 h

end Blanks

theorem exists_trimStart (text : List Char) :
    ∃ before, Blanks before ∧ text = before ++ trimStart text :=
  ⟨text.takeWhile isBlank, Blanks.takeWhile text, List.takeWhile_append_dropWhile.symm⟩

theorem exists_trimEnd (text : List Char) :
    ∃ after, Blanks after ∧ text = trimEnd text ++ after := by
  obtain ⟨after, hafter, htext⟩ := exists_trimStart text.reverse
  refine ⟨after.reverse, hafter.reverse, ?_⟩
  rw [trimEnd, ← List.reverse_append]
  exact List.reverse_eq_iff.1 htext

/-- What is cut off a text is blanks. -/
theorem exists_trim (text : List Char) :
    ∃ before after, Blanks before ∧ Blanks after ∧ text = before ++ trim text ++ after := by
  obtain ⟨before, hbefore, htext⟩ := exists_trimStart text
  obtain ⟨after, hafter, hrest⟩ := exists_trimEnd (trimStart text)
  refine ⟨before, after, hbefore, hafter, ?_⟩
  rw [trim, List.append_assoc, ← hrest]
  exact htext

theorem trimStart_append {before : List Char} (h : Blanks before) (text : List Char) :
    trimStart (before ++ text) = trimStart text :=
  List.dropWhile_append_of_pos h

/-- What all blanks and the first character of a text have, the first character has with blanks in
front. -/
theorem forall_head?_append {p : Char → Prop} {before text : List Char} (h : Blanks before)
    (hblank : ∀ c, isBlank c = true → p c) (htext : ∀ c ∈ text.head?, p c) :
    ∀ c ∈ (before ++ text).head?, p c := by
  cases before with
  | nil => exact htext
  | cons blank before =>
    rintro _ ⟨⟩
    exact hblank blank (h blank List.mem_cons_self)

theorem trimEnd_append (text : List Char) {after : List Char} (h : Blanks after) :
    trimEnd (text ++ after) = trimEnd text := by
  have hreverse := trimStart_append h.reverse text.reverse
  rw [trimStart, trimStart] at hreverse
  rw [trimEnd, List.reverse_append, hreverse, trimEnd]

/-- Where something stays of the end of a text, all that stands before it stays. -/
theorem trimEnd_append_of_ne_nil (text : List Char) {rest : List Char} (h : trimEnd rest ≠ []) :
    trimEnd (text ++ rest) = text ++ trimEnd rest := by
  have hstays : ¬(rest.reverse.dropWhile isBlank).isEmpty = true := by
    rw [List.isEmpty_iff]
    exact fun hnil => h (by rw [trimEnd, hnil, List.reverse_nil])
  rw [trimEnd, List.reverse_append, List.dropWhile_append, if_neg hstays, List.reverse_append,
    List.reverse_reverse, trimEnd]

/-- A text that does not begin with a blank loses nothing in front. -/
theorem trimStart_cons {c : Char} (h : isBlank c = false) (rest : List Char) :
    trimStart (c :: rest) = c :: rest :=
  List.dropWhile_cons_of_neg (by simp [h])

/-- Blanks around a text are cut off. -/
theorem trim_padded {before after : List Char} (hbefore : Blanks before) (hafter : Blanks after)
    (text : List Char) : trim (before ++ text ++ after) = trim text := by
  rw [List.append_assoc, trim, trimStart_append hbefore, trim]
  cases htext : trimStart text with
  | nil =>
    -- A text of blanks is one with what follows it.
    have hblank : Blanks text := List.dropWhile_eq_nil_iff.1 htext
    rw [trimStart_append hblank, hafter.trimStart]
  | cons c rest =>
    have hkept : trimStart (text ++ after) = trimStart text ++ after := by
      rw [trimStart, List.dropWhile_append, ← trimStart, htext]
      rfl
    rw [hkept, htext, trimEnd_append _ hafter]

theorem trim_append_blanks (text : List Char) {after : List Char} (h : Blanks after) :
    trim (text ++ after) = trim text :=
  trim_padded Blanks.nil h text

theorem trim_blanks_append {before : List Char} (h : Blanks before) (text : List Char) :
    trim (before ++ text) = trim text := by
  have hpadded := trim_padded h Blanks.nil text
  rw [List.append_nil] at hpadded
  exact hpadded

/-! ### Texts with a character that stays -/

/-- A character that is no blank keeps what follows it. -/
theorem trimStart_append_cons {c : Char} (hc : isBlank c = false) (text rest : List Char) :
    trimStart (text ++ c :: rest) = trimStart text ++ c :: rest := by
  have hstart : (c :: rest).dropWhile isBlank = c :: rest :=
    List.dropWhile_cons_of_neg (by simp [hc])
  rw [trimStart, trimStart, List.dropWhile_append, hstart]
  split
  · next h => rw [List.isEmpty_iff.1 h, List.nil_append]
  · rfl

/-- It keeps what stands before it. -/
theorem trimEnd_append_cons {c : Char} (hc : isBlank c = false) (text rest : List Char) :
    trimEnd (text ++ c :: rest) = text ++ c :: trimEnd rest := by
  have hreverse := trimStart_append_cons hc rest.reverse text.reverse
  rw [trimStart, trimStart] at hreverse
  rw [trimEnd, trimEnd, List.reverse_append, List.reverse_cons, List.append_assoc,
    List.singleton_append, hreverse]
  simp

/-- So blanks before it are cut off as those at the end of the text alone are. -/
theorem trim_append_cons {c : Char} (hc : isBlank c = false) (text rest : List Char) :
    ∃ blanks, Blanks blanks ∧
      trim (text ++ c :: rest) = trim text ++ (blanks ++ c :: trimEnd rest) := by
  obtain ⟨blanks, hblanks, hend⟩ := exists_trimEnd (trimStart text)
  refine ⟨blanks, hblanks, ?_⟩
  rw [trim, trimStart_append_cons hc, trimEnd_append_cons hc, trim, ← List.append_assoc, ← hend]

theorem trimEnd_trimEnd (text : List Char) : trimEnd (trimEnd text) = trimEnd text := by
  have hstart := dropWhile_isBlank_idem text.reverse
  rw [trimStart, trimStart] at hstart
  rw [trimEnd, trimEnd, List.reverse_reverse, hstart]

theorem trim_trim (text : List Char) : trim (trim text) = trim text := by
  obtain ⟨before, after, hbefore, hafter, htext⟩ := exists_trim text
  have hpadded := trim_padded hbefore hafter (trim text)
  rw [← htext] at hpadded
  exact hpadded.symm

theorem blanks_of_trim {text : List Char} (h : trim text = []) : Blanks text := by
  obtain ⟨before, after, hbefore, hafter, htext⟩ := exists_trim text
  rw [h, List.append_nil] at htext
  rw [htext]
  intro c hc
  exact (List.mem_append.1 hc).elim (hbefore c) (hafter c)

end Gleaner.Text
