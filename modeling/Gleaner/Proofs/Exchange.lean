/-
# Which exchanges are answered

An exchange that is answered yields one text and never two: the JSON text of a harvest if the content
and the request can be read and the harvest comes about, and else the text of the first fault that is
met. A harvest is always written, and its text holds no zero byte even where its keys and values do.
The text of a fault is never empty, and a blank stands in it for each zero byte. An exchange is not
answered exactly where its harvest breaks off, at a sum of more than 64 bits in a JSON path.

Key definitions: `Exchange.Holds`, `Exchange.Asks`, `Exchange.Yields`, `Exchange.Fails`.
Key theorems: `Exchange.sealed_eq`, `Exchange.answer_eq_ok_iff`, `Exchange.answer_eq_error_iff`,
`Exchange.reply_tells_outcome`.
-/
import Gleaner.Exchange
import Gleaner.Proofs.Harvest.Overflow
import Gleaner.Proofs.Json.Control
import Gleaner.Proofs.Success

namespace Gleaner

/-! ### Harvests that are handed over -/

theorem serialItems_eq_map (items : List Json) : serialItems items = items.map Json.toSerial := by
  induction items with
  | nil => rfl
  | cons item rest ih => rw [serialItems, ih, List.map_cons]

theorem serialFields_eq_map (fields : List (String × Json)) :
    serialFields fields = fields.map fun e => (.string e.1, e.2.toSerial) := by
  induction fields with
  | nil => rfl
  | cons field rest ih => rw [serialFields, ih, List.map_cons]

/-- A harvest is handed over as its JSON value is. -/
theorem Harvest.toSerial_eq (harvest : Harvest) : harvest.toSerial = harvest.toJson.toSerial := by
  simp only [toSerial, toJson, Json.toSerial, serialFields_eq_map, serialItems_eq_map,
    List.map_cons, List.map_nil, List.map_map, Function.comp_def]

theorem Harvest.write?_toSerial (harvest : Harvest) :
    harvest.toSerial.write? = .ok harvest.write := by
  rw [harvest.toSerial_eq, Json.write?_toSerial, write]

namespace Exchange

variable {format : Format} {content request : Option ByteArray} {fault : Fault}

theorem terminated?_of_notMem {text : String} (h : '\x00' ∉ text.toList) :
    terminated? text = some text :=
  if_neg (by rwa [List.contains_iff_mem])

/-- **A harvest is always written**, and a zero byte can end its text. -/
theorem sealed_eq (harvest : Harvest) : sealed harvest = .ok harvest.write := by
  have hzero : '\x00' ∉ harvest.write.toList := (Json.printed_write harvest.toJson).zero_notMem
  rw [sealed, harvest.write?_toSerial]
  simp only [terminated?_of_notMem hzero]

/-! ### What is handed over and what it leads to -/

/-- A content holds a text: it is not there and the text is empty, or it is the text in UTF-8. -/
def Holds (content : Option ByteArray) (text : String) : Prop :=
  (content = none ∧ text = "") ∨ ∃ bytes, content = some bytes ∧ String.fromUTF8? bytes = some text

/-- A request asks for something: its bytes before the first zero byte are UTF-8 that writes it. -/
def Asks (request : Option ByteArray) (asked : Request) : Prop :=
  ∃ bytes text, request = some bytes ∧ String.fromUTF8? (untilZero bytes) = some text ∧
    Request.read? text = some asked

/-- An exchange yields a harvest. -/
def Yields (format : Format) (content request : Option ByteArray) (harvest : Harvest) : Prop :=
  ∃ text asked, Holds content text ∧ Asks request asked ∧
    format.harvest text asked.options.fallback asked.selection = .ok harvest

/-- An exchange fails with a fault: it is met where all that is looked at before can be used. -/
def Fails (format : Format) (content request : Option ByteArray) : Fault → Prop
  | .contentNotUtf8 => ∃ bytes, content = some bytes ∧ String.fromUTF8? bytes = none
  | .noRequest => (∃ text, Holds content text) ∧ request = none
  | .requestNotUtf8 =>
    (∃ text, Holds content text) ∧
      ∃ bytes, request = some bytes ∧ String.fromUTF8? (untilZero bytes) = none
  | .unreadableRequest =>
    (∃ text, Holds content text) ∧
      ∃ bytes text, request = some bytes ∧ String.fromUTF8? (untilZero bytes) = some text ∧
        Request.read? text = none
  | .failed failure =>
    ∃ text asked, Holds content text ∧ Asks request asked ∧
      format.harvest text asked.options.fallback asked.selection = .error failure
  | .unwritten _ | .zeroInHarvest => False

theorem contentOf_eq_ok_iff {text : String} :
    contentOf content = .ok text ↔ Holds content text := by
  cases content with
  | none => simp [contentOf, Holds, eq_comm]
  | some bytes =>
    rw [contentOf]
    cases h : String.fromUTF8? bytes <;> simp [Holds, h]

theorem contentOf_eq_error_iff :
    contentOf content = .error fault ↔
      fault = .contentNotUtf8 ∧ ∃ bytes, content = some bytes ∧ String.fromUTF8? bytes = none := by
  cases content with
  | none => simp [contentOf]
  | some bytes =>
    rw [contentOf]
    cases h : String.fromUTF8? bytes <;> simp [h, eq_comm]

theorem requestOf_eq_ok_iff {asked : Request} :
    requestOf request = .ok asked ↔ Asks request asked := by
  cases request with
  | none => simp [requestOf, Asks]
  | some bytes =>
    rw [requestOf]
    cases htext : String.fromUTF8? (untilZero bytes) with
    | none => simp [Asks, htext]
    | some text =>
      cases hasked : Request.read? text <;> simp [Asks, htext, hasked]

theorem requestOf_eq_error_iff :
    requestOf request = .error fault ↔
      (fault = .noRequest ∧ request = none) ∨
      (fault = .requestNotUtf8 ∧
        ∃ bytes, request = some bytes ∧ String.fromUTF8? (untilZero bytes) = none) ∨
      (fault = .unreadableRequest ∧
        ∃ bytes text, request = some bytes ∧ String.fromUTF8? (untilZero bytes) = some text ∧
          Request.read? text = none) := by
  cases request with
  | none => simp [requestOf, eq_comm]
  | some bytes =>
    rw [requestOf]
    cases htext : String.fromUTF8? (untilZero bytes) with
    | none => simp [htext, eq_comm]
    | some text =>
      cases hasked : Request.read? text <;> simp [htext, hasked, eq_comm]

theorem answer_eq_ok_iff {json : String} :
    answer format content request = .ok json ↔
      ∃ harvest, Yields format content request harvest ∧ json = harvest.write := by
  simp only [answer, bind_eq_ok_iff, contentOf_eq_ok_iff, requestOf_eq_ok_iff, mapError_eq_ok_iff,
    sealed_eq, Except.ok.injEq]
  constructor
  · rintro ⟨text, htext, asked, hasked, harvest, hharvest, rfl⟩
    exact ⟨harvest, ⟨text, asked, htext, hasked, hharvest⟩, rfl⟩
  · rintro ⟨harvest, ⟨text, asked, htext, hasked, hharvest⟩, rfl⟩
    exact ⟨text, htext, asked, hasked, harvest, hharvest, rfl⟩

/-- An exchange has the fault that is met first. -/
theorem answer_eq_error_iff :
    answer format content request = .error fault ↔ Fails format content request fault := by
  have hsteps : answer format content request = .error fault ↔
      contentOf content = .error fault ∨ ∃ text, Holds content text ∧
        (requestOf request = .error fault ∨ ∃ asked, Asks request asked ∧
          ∃ failure, format.harvest text asked.options.fallback asked.selection = .error failure ∧
            .failed failure = fault) := by
    simp only [answer, bind_eq_error_iff, contentOf_eq_ok_iff, requestOf_eq_ok_iff,
      mapError_eq_ok_iff, mapError_eq_error_iff, sealed_eq, reduceCtorEq, and_false, exists_false,
      or_false]
  rw [hsteps, contentOf_eq_error_iff, requestOf_eq_error_iff]
  cases fault <;> simp [Fails]

/-! ### Texts of faults -/

theorem zero_notMem_blanked (text : String) : '\x00' ∉ (blanked text).toList := by
  rw [blanked, String.toList_ofList]
  intro hmem
  obtain ⟨c, -, hc⟩ := List.mem_map.1 hmem
  split at hc
  · cases hc
  · next hne => exact hne hc

theorem blanked_ne_empty {text : String} (h : text ≠ "") : blanked text ≠ "" := by
  intro hempty
  have hchars := congrArg String.toList hempty
  rw [blanked, String.toList_ofList] at hchars
  exact h (String.toList_eq_nil_iff.1 (List.map_eq_nil_iff.1 hchars))

/-- The wording of a fault begins with words of its own. -/
theorem told_ne_empty (remark : Fault → String) (fault : Fault) : fault.told remark ≠ "" := by
  have hfront (front text : String) (h : front ≠ "") : front ++ text ≠ "" :=
    fun hempty => h (String.append_eq_empty_iff.1 hempty).1
  have hmessage : fault.message ≠ "" := by
    cases fault with
    | failed failure => exact hfront "Extraction failed: " _ (by decide)
    | unwritten fault => exact hfront "Failed to serialize result: " _ (by decide)
    | _ => decide
  unfold Fault.told
  split
  · exact hfront _ _ hmessage
  · exact hmessage

/-- What is told of an error is its whole wording. -/
theorem Reply.ofMessage_eq (message : String) :
    Reply.ofMessage message = ⟨none, some (blanked message)⟩ := by
  rw [ofMessage, terminated?_of_notMem (zero_notMem_blanked message)]
  rfl

/-! ### Replies -/

/-- The harvest for which an exchange asks breaks off. -/
def Oversteps (content request : Option ByteArray) : Prop :=
  ∃ text asked, Holds content text ∧ Asks request asked ∧ asked.selection.BreaksOff text

theorem reply_of_ok {remark : Fault → String} {json : String}
    (h : answer format content request = .ok json) :
    reply remark format content request = some ⟨some json, none⟩ := by
  rw [reply, h]

theorem reply_of_error {remark : Fault → String}
    (h : answer format content request = .error fault) (hfault : fault ≠ .failed .overflow) :
    reply remark format content request = some ⟨none, some (blanked (fault.told remark))⟩ := by
  rw [reply, h]
  split
  · next heq => cases heq
  · next heq => exact absurd (Except.error.inj heq) hfault
  · next heq => rw [← Except.error.inj heq, Reply.ofMessage_eq]

theorem answer_eq_overflow_iff : answer format content request = .error (.failed .overflow) ↔
    format = .json ∧ Oversteps content request := by
  rw [answer_eq_error_iff]
  constructor
  · rintro ⟨text, asked, htext, hasked, hharvest⟩
    obtain ⟨hformat, hover⟩ := Format.harvest_eq_overflow_iff.1 hharvest
    exact ⟨hformat, text, asked, htext, hasked, hover⟩
  · rintro ⟨hformat, text, asked, htext, hasked, hover⟩
    exact ⟨text, asked, htext, hasked, Format.harvest_eq_overflow_iff.2 ⟨hformat, hover⟩⟩

/-- There is no reply where the harvest breaks off, and only there. -/
theorem reply_eq_none_iff {remark : Fault → String} :
    reply remark format content request = none ↔ format = .json ∧ Oversteps content request := by
  rw [← answer_eq_overflow_iff]
  cases h : answer format content request with
  | ok json =>
    rw [reply_of_ok h]
    exact iff_of_false (by simp) (by simp)
  | error fault =>
    by_cases hfault : fault = .failed .overflow
    · subst hfault
      rw [reply, h]
      exact iff_of_true rfl rfl
    · rw [reply_of_error h hfault]
      exact iff_of_false (by simp) fun heq => hfault (Except.error.inj heq)

/-- A reply has the JSON text of the harvest, or the text of the fault that the exchange has. -/
theorem reply_eq_some_iff {remark : Fault → String} {r : Reply} :
    reply remark format content request = some r ↔
      (∃ json, answer format content request = .ok json ∧ r = ⟨some json, none⟩) ∨
      ∃ fault, answer format content request = .error fault ∧ fault ≠ .failed .overflow ∧
        r = ⟨none, some (blanked (fault.told remark))⟩ := by
  cases h : answer format content request with
  | ok json => simp [reply_of_ok h, eq_comm]
  | error fault =>
    by_cases hfault : fault = .failed .overflow
    · subst hfault
      simp [reply, h]
    · simp [reply_of_error h hfault, hfault, eq_comm]

/-- **Which exchanges are answered.** There is no reply exactly where the format is JSON and the
harvest for which the exchange asks breaks off. In each reply exactly one of the two texts is there.
It is the JSON text of the harvest if the exchange yields one, and else it is the wording of the
fault that is met first, with the remark of a library that met it and with a blank for each zero
byte, and it is not empty. That a harvest is not written, or that its text holds a zero byte, is
never met, and no harvest at all leads to it. -/
theorem reply_tells_outcome (remark : Fault → String) (format : Format)
    (content request : Option ByteArray) :
    (reply remark format content request = none ↔ format = .json ∧ Oversteps content request) ∧
      (∀ r, reply remark format content request = some r →
        r.json.isSome = !r.error.isSome ∧
        (∀ json, r.json = some json ↔
          ∃ harvest, Yields format content request harvest ∧ json = harvest.write) ∧
        (∀ error, r.error = some error ↔
          ∃ fault, Fails format content request fault ∧ error = blanked (fault.told remark)) ∧
        (∀ error, r.error = some error → error ≠ "" ∧ '\x00' ∉ error.toList)) ∧
      (∀ fault, answer format content request ≠ .error (.unwritten fault)) ∧
      answer format content request ≠ .error .zeroInHarvest ∧
      ∀ harvest, sealed harvest = .ok harvest.write := by
  refine ⟨reply_eq_none_iff, fun r hr => ?_, fun fault h => answer_eq_error_iff.1 h,
    fun h => answer_eq_error_iff.1 h, sealed_eq⟩
  simp only [← answer_eq_ok_iff, ← answer_eq_error_iff]
  rcases reply_eq_some_iff.1 hr with ⟨json, hok, rfl⟩ | ⟨fault, herror, -, rfl⟩
  · simp only [hok, Except.ok.injEq, Option.some.injEq, reduceCtorEq, false_and, exists_false,
      iff_self, false_implies, implies_true, Option.isSome_some, Option.isSome_none, Bool.not_false,
      and_self]
  · simp only [herror, Except.error.injEq, Option.some.injEq, reduceCtorEq, exists_eq_left',
      Option.isSome_some, Option.isSome_none, Bool.not_true, true_and, iff_self, implies_true]
    refine ⟨fun error => eq_comm, ?_⟩
    rintro _ rfl
    exact ⟨blanked_ne_empty (told_ne_empty remark fault), zero_notMem_blanked _⟩

/-- The content is looked at before the request. -/
example : reply (fun _ => "") .json (some ⟨#[0xff]⟩) none =
    some ⟨none, some "Invalid UTF-8 in content"⟩ := by decide

end Exchange
end Gleaner
