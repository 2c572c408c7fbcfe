/-
# JSON text without control characters

A control character inside a string is escaped, and all else that is written of a value is digits,
letters, signs and marks. So no character of a JSON text stands before the blank in ASCII, whatever
characters the texts and keys of the value hold; and as the keys of objects are texts, there is
nothing in a value for which it would not be written.

Key definitions: `Json.Printed`.
Key theorems: `Json.printed_writeString`, `Layout.printed_write`, `Json.printed_write`,
`Json.write?_toSerial`.
-/
import Gleaner.Json.Serial
import Gleaner.Proofs.Json.Below
import Gleaner.Proofs.Number.Decimal

namespace Gleaner

open Gleaner.Number Gleaner.Text

namespace Json

/-- No character of a text stands before the blank in ASCII. -/
def Printed (text : List Char) : Prop :=
  ∀ c ∈ text, 32 ≤ c.toNat

instance (text : List Char) : Decidable (Printed text) :=
  decidable_of_iff (text.all (fun c => decide (32 ≤ c.toNat)) = true) (by simp [Printed])

variable {first second text : List Char} {c : Char}

theorem Printed.append (hfirst : Printed first) (hsecond : Printed second) :
    Printed (first ++ second) :=
  List.forall_mem_append.2 ⟨hfirst, hsecond⟩

theorem Printed.cons (hc : 32 ≤ c.toNat) (h : Printed text) : Printed (c :: text) :=
  List.forall_mem_cons.2 ⟨hc, h⟩

theorem Printed.sublist (h : Printed text) (hpart : first.Sublist text) : Printed first :=
  fun c hc => h c (hpart.subset hc)

theorem Printed.replicate (hc : 32 ≤ c.toNat) (n : Nat) : Printed (List.replicate n c) := by
  intro d hd
  rw [List.eq_of_mem_replicate hd]
  exact hc

theorem Printed.zero_notMem (h : Printed text) : '\x00' ∉ text :=
  fun hmem => absurd (h _ hmem) (by decide)

/-! ### Numbers -/

theorem printed_toDigits (n : Nat) : Printed (Nat.toDigits 10 n) := by
  intro c hc
  have hdigit : isDigit c = true := (digits_toString n).2 c (by simpa using hc)
  exact Nat.le_trans (by decide) (toNat_of_isDigit hdigit).1

theorem printed_integer (n : Int) : Printed (toString n).toList := by
  have hdigits : (toString n.natAbs).toList = Nat.toDigits 10 n.natAbs := by simp
  rw [toString_int, hdigits]
  refine Printed.append ?_ (printed_toDigits _)
  split <;> decide

end Json

open Json

/-- A decimal number without an exponent mark is written with digits and a point. -/
theorem Number.printed_writePositional (layout : Layout) (d : Decimal) :
    Printed (writePositional layout d) := by
  have hdigits : Printed d.digits := printed_toDigits d.significand
  have hzero : 32 ≤ '0'.toNat := by decide
  have hpoint : 32 ≤ '.'.toNat := by decide
  unfold writePositional
  simp only
  split
  · refine (hdigits.append (.replicate hzero _)).append ?_
    split <;> decide
  split
  · exact (hdigits.sublist (List.take_sublist _ _)).append
      (.cons hpoint (hdigits.sublist (List.drop_sublist _ _)))
  · exact .cons hzero (.cons hpoint ((Printed.replicate hzero _).append hdigits))

/-- With an exponent mark there are signs beside them. -/
theorem Number.printed_writeScientific (layout : Layout) (d : Decimal) :
    Printed (writeScientific layout d) := by
  have hdigits : Printed d.digits := printed_toDigits d.significand
  unfold writeScientific
  simp only
  refine ((Printed.append ?_ (.cons (by decide) ?_)).append (printed_toDigits _))
  · split
    · exact hdigits
    · exact (hdigits.sublist (List.take_sublist _ _)).append
        (.cons (by decide) (hdigits.sublist (List.drop_sublist _ _)))
  · split
    · decide
    · split <;> decide

/-- Every text of a double is printed. -/
theorem Number.Layout.printed_write (layout : Layout) (x : Float) :
    Printed (layout.write x).toList := by
  unfold Layout.write
  split
  · decide
  · split <;> decide
  · rw [String.toList_ofList]
    refine Printed.append (by split <;> decide) ?_
    simp only
    split
    · exact printed_writePositional layout _
    split
    · exact printed_writePositional layout _
    split
    · exact printed_writePositional layout _
    · exact printed_writeScientific layout _

namespace Json

/-! ### Values -/

theorem printed_writeNumeric (n : Numeric) : Printed (writeNumeric n) := by
  cases n with
  | integer n => exact printed_integer n
  | float x =>
    rw [writeNumeric]
    split
    · exact floatLayout.printed_write x
    · decide

/-- A character inside a string is escaped if it is a control character. -/
theorem printed_escapeChar (c : Char) : Printed (escapeChar c) := by
  unfold escapeChar
  split
  · next hmark => rcases hmark with rfl | rfl <;> decide
  iterate 5
    split
    · decide
  split
  · next hcontrol =>
    have hdigit : ∀ k < 16, 32 ≤ (Nat.digitChar k).toNat := by decide
    have hfront : Printed ['\\', 'u', '0', '0'] := by decide
    refine hfront.append (.cons (hdigit _ ?_) (.cons (hdigit _ ?_) (List.forall_mem_nil _)))
    · omega
    · exact Nat.mod_lt _ (by decide)
  · next hlarge => exact .cons (Nat.not_lt.1 hlarge) (List.forall_mem_nil _)

theorem printed_writeString (text : String) : Printed (writeString text) := by
  have hmark : 32 ≤ '"'.toNat := by decide
  refine .cons hmark (.append ?_ (.cons hmark (List.forall_mem_nil _)))
  intro c hc
  obtain ⟨source, -, hsource⟩ := List.mem_flatMap.1 hc
  exact printed_escapeChar source c hsource

theorem printed_joinWritten {written : List (List Char)} (h : ∀ text ∈ written, Printed text) :
    Printed (joinWritten written) := by
  induction written with
  | nil => exact List.forall_mem_nil _
  | cons text rest ih =>
    obtain ⟨htext, hrest⟩ := List.forall_mem_cons.1 h
    cases rest with
    | nil => rwa [joinWritten, List.intercalate_singleton]
    | cons next others =>
      rw [joinWritten, List.intercalate_cons_cons]
      exact (htext.append (by decide)).append (ih hrest)

theorem writeItems_eq_map (items : List Json) : writeItems items = items.map writeChars := by
  induction items with
  | nil => rfl
  | cons item rest ih => rw [writeItems, ih, List.map_cons]

theorem writeFields_eq_map (fields : List (String × Json)) :
    writeFields fields = fields.map fun e => writeString e.1 ++ ':' :: e.2.writeChars := by
  induction fields with
  | nil => rfl
  | cons field rest ih => rw [writeFields, ih, List.map_cons]

/-- **A value is written without control characters.** -/
theorem printed_writeChars (json : Json) : Printed json.writeChars := by
  induction json using induction_children with
  | step json ih =>
    cases json with
    | null => decide
    | boolean b => cases b <;> decide
    | number n => exact printed_writeNumeric n
    | string s => exact printed_writeString s
    | array items =>
      rw [writeChars, writeItems_eq_map]
      refine .cons (by decide) (.append (printed_joinWritten ?_) (by decide))
      exact List.forall_mem_map.2 ih
    | object fields =>
      rw [writeChars, writeFields_eq_map]
      refine .cons (by decide) (.append (printed_joinWritten ?_) (by decide))
      refine List.forall_mem_map.2 fun e he => ?_
      exact (printed_writeString e.1).append (.cons (by decide) (ih e.2 (List.mem_map_of_mem he)))

theorem printed_write (json : Json) : Printed json.write.toList := by
  rw [write, String.toList_ofList]
  exact printed_writeChars json

example : (object [("a\x00", .string "\x00")]).write = "\x7b\"a\\u0000\":\"\\u0000\"\x7d" := by
  decide

/-! ### Values that are handed over -/

theorem writeItems?_serialItems {items : List Json}
    (h : ∀ item ∈ items, item.toSerial.writeChars? = .ok item.writeChars) :
    Serial.writeItems? (serialItems items) = .ok (writeItems items) := by
  induction items with
  | nil => rfl
  | cons item rest ih =>
    obtain ⟨hitem, hrest⟩ := List.forall_mem_cons.1 h
    rw [serialItems, Serial.writeItems?, hitem, ih hrest]
    rfl

theorem writeEntries?_serialFields {fields : List (String × Json)}
    (h : ∀ e ∈ fields, e.2.toSerial.writeChars? = .ok e.2.writeChars) :
    Serial.writeEntries? (serialFields fields) = .ok (writeFields fields) := by
  induction fields with
  | nil => rfl
  | cons field rest ih =>
    obtain ⟨hfield, hrest⟩ := List.forall_mem_cons.1 h
    rw [serialFields, Serial.writeEntries?, hfield, ih hrest]
    rfl

/-- What is written of a value that is handed over is its text: the keys are texts, and no part
refuses. -/
theorem writeChars?_toSerial (json : Json) : json.toSerial.writeChars? = .ok json.writeChars := by
  induction json using induction_children with
  | step json ih =>
    cases json with
    | array items =>
      have hitems : ∀ item ∈ items, item.toSerial.writeChars? = .ok item.writeChars := ih
      rw [toSerial, Serial.writeChars?, writeItems?_serialItems hitems]
      rfl
    | object fields =>
      have hfields : ∀ e ∈ fields, e.2.toSerial.writeChars? = .ok e.2.writeChars :=
        fun e he => ih e.2 (List.mem_map_of_mem he)
      rw [toSerial, Serial.writeChars?, writeEntries?_serialFields hfields]
      rfl
    | _ => rfl

/-- **A value that is handed over is written.** -/
theorem write?_toSerial (json : Json) : json.toSerial.write? = .ok json.write := by
  rw [Serial.write?, writeChars?_toSerial]
  rfl

/-- Data beside JSON values may have keys that are not written. -/
example : (Serial.map [(.null, .string "a")]).write? = .error .keyNotText := rfl

end Json
end Gleaner
