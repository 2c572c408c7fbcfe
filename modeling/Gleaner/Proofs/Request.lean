/-
# Requests are read back

A request that is written as JSON text is read as the same request: of its texts each character comes
back, and its options are written out even where they are the default ones. A number of workers is
read up to 64 bits; as no reading gives a greater one, whatever is read of a text is read back from
what is written of it, however the text spelled it.

Key definitions: `Selection.parts`, `Options.parts`, `Request.parts`.
Key theorems: `Selection.ofWritten?_parts`, `Options.ofWritten?_parts`, `Request.ofWritten?_parts`,
`Request.workers_lt_of_read?`, `Request.read?_rewritten`.
-/
import Gleaner.Proofs.Json.ReadBack
import Gleaner.Request

namespace Gleaner

open Gleaner.Json Gleaner.Number Gleaner.Text

/-- A record that is written as an object of its two fields has both. -/
theorem recordOf?_object {first second : String} (h : first ≠ second) (a b : Written) :
    recordOf? first second (.object [(piecesOf first, a), (piecesOf second, b)]) =
      some (some a, some b) := by
  simp [recordOf?, namedFields?, soleField?, h, h.symm]

/-! ### Selections -/

/-- What a selection is taken apart as. -/
def Selection.parts (selection : Selection) : Written :=
  .object (selection.entries.map fun e => (piecesOf e.1, .string (piecesOf e.2)))

theorem textFields?_pieces (entries : List (String × String)) :
    textFields? (entries.map fun e => (piecesOf e.1, .string (piecesOf e.2))) = some entries := by
  induction entries with
  | nil => rfl
  | cons entry rest ih => simp [textFields?, stringOf?, ih]

/-- The entries of a selection give it back: no key stands twice, so none gives way. -/
theorem Selection.ofWritten?_parts (selection : Selection) :
    Selection.ofWritten? selection.parts = some selection := by
  rw [parts, ofWritten?, textFields?_pieces, Option.map_some, KeyMap.ofList_eq_of_perm (.refl _)]

theorem Selection.spells_parts (selection : Selection) :
    Spells (Selection.toJson selection).writeChars selection.parts := by
  have hspells := spells_object
    (selection.entries.map fun e => (e.1, .string e.2, .string (piecesOf e.2))) ?_
  · rw [List.map_map, Fields.parts, List.map_map] at hspells
    exact hspells
  · intro f hf
    obtain ⟨e, -, rfl⟩ := List.mem_map.1 hf
    exact spells_string e.2

/-! ### Options -/

/-- What options are taken apart as. -/
def Options.parts (options : Options) : Written :=
  .object [
    (piecesOf "fallback", .string (piecesOf options.fallback.name)),
    (piecesOf "workers", match options.workers with
      | some n => .numeral (numeralOf n)
      | none => .null)]

theorem Policy.ofWritten?_name (policy : Policy) :
    Policy.ofWritten? (.string (piecesOf policy.name)) = some policy := by
  rw [ofWritten?, textOf?_piecesOf]
  exact policy.ofName?_name

/-- A number of workers is read if 64 bits hold it. -/
theorem workersOf?_numeralOf {n : Nat} (h : n < twoTo 64) :
    workersOf? (.numeral (numeralOf n)) = some (some n) := by
  have hvalue : (numeralOf n).value? = some (.integer (n : Int)) := by
    have hplain : (numeralOf n).isPlain = true := rfl
    have hsize : numeralValue (numeralOf n).whole = n := numeralValue_toString n
    simp only [Numeral.value?, hplain, hsize, h]
    rfl
  rw [workersOf?, hvalue]

/-- No greater number of workers is read. -/
theorem lt_of_workersOf? {written : Written} {n : Nat} (h : workersOf? written = some (some n)) :
    n < twoTo 64 := by
  unfold workersOf? at h
  split at h
  · cases h
  · split at h
    · next k hvalue =>
      obtain rfl : k = n := Option.some.inj (Option.some.inj h)
      exact Int.ofNat_lt.1 (Numeral.value?_proper hvalue).2
    · cases h
  · cases h

theorem Options.ofWritten?_parts {options : Options} (h : ∀ n ∈ options.workers, n < twoTo 64) :
    Options.ofWritten? options.parts = some options := by
  obtain ⟨fallback, workers⟩ := options
  rw [parts, ofWritten?, recordOf?_object (by decide)]
  cases workers with
  | none => simp [Policy.ofWritten?_name, workersOf?]
  | some n => simp [Policy.ofWritten?_name, workersOf?_numeralOf (h n rfl)]

theorem Options.spells_parts (options : Options) : Spells options.toJson.writeChars options.parts := by
  obtain ⟨fallback, workers⟩ := options
  cases workers with
  | none =>
    refine spells_object [("fallback", _, _), ("workers", .null, .null)] ?_
    exact List.forall_mem_cons.2 ⟨spells_string _, List.forall_mem_singleton.2 spells_null⟩
  | some n =>
    refine spells_object [("fallback", _, _), ("workers", .number (.integer n), _)] ?_
    exact List.forall_mem_cons.2 ⟨spells_string _, List.forall_mem_singleton.2 (spells_natural n)⟩

theorem Options.workers_lt_of_ofWritten? {written : Written} {options : Options}
    (h : Options.ofWritten? written = some options) : ∀ n ∈ options.workers, n < twoTo 64 := by
  obtain ⟨⟨fallback?, workers?⟩, -, h⟩ := Option.bind_eq_some_iff.1 h
  have hfields : ∃ fallback workers, options = ⟨fallback, workers⟩ ∧
      (workers = none ∨ ∃ w, workersOf? w = some workers) := by
    cases fallback? <;> cases workers? <;>
      simp only [Option.bind_eq_bind, Option.bind_some, Option.bind_eq_some_iff] at h
    · exact ⟨_, none, (Option.some.inj h).symm, .inl rfl⟩
    · obtain ⟨workers, hworkers, h⟩ := h
      exact ⟨_, workers, (Option.some.inj h).symm, .inr ⟨_, hworkers⟩⟩
    · obtain ⟨fallback, -, h⟩ := h
      exact ⟨fallback, none, (Option.some.inj h).symm, .inl rfl⟩
    · obtain ⟨fallback, -, workers, hworkers, h⟩ := h
      exact ⟨fallback, workers, (Option.some.inj h).symm, .inr ⟨_, hworkers⟩⟩
  obtain ⟨fallback, workers, rfl, rfl | ⟨w, hw⟩⟩ := hfields
  · rintro n ⟨⟩
  · rintro n rfl
    exact lt_of_workersOf? hw

/-! ### Requests -/

namespace Request

/-- What a request is taken apart as. -/
def parts (request : Request) : Written :=
  .object [
    (piecesOf "selection", request.selection.parts),
    (piecesOf "options", request.options.parts)]

theorem ofWritten?_parts {request : Request} (h : ∀ n ∈ request.options.workers, n < twoTo 64) :
    ofWritten? request.parts = some request := by
  rw [parts, ofWritten?, recordOf?_object (by decide)]
  simp [Selection.ofWritten?_parts, Options.ofWritten?_parts h]

theorem spells_parts (request : Request) : Spells request.toJson.writeChars request.parts := by
  refine spells_object [("selection", _, _), ("options", _, _)] ?_
  exact List.forall_mem_cons.2
    ⟨request.selection.spells_parts, List.forall_mem_singleton.2 request.options.spells_parts⟩

theorem read?_write {request : Request} (h : ∀ n ∈ request.options.workers, n < twoTo 64) :
    read? request.write = some request := by
  rw [read?, write, writtenOf?_write request.spells_parts]
  exact ofWritten?_parts h

/-- The number of workers in a request that is read is one of 64 bits, or there is none. -/
theorem workers_lt_of_read? {text : String} {request : Request} (h : read? text = some request) :
    ∀ n ∈ request.options.workers, n < twoTo 64 := by
  obtain ⟨written, -, h⟩ := Option.bind_eq_some_iff.1 h
  obtain ⟨⟨selection?, options?⟩, -, h⟩ := Option.bind_eq_some_iff.1 h
  obtain ⟨selection, -, h⟩ := Option.bind_eq_some_iff.1 h
  cases options? with
  | none =>
    obtain rfl := Option.some.inj h
    exact nofun
  | some written =>
    obtain ⟨options, hoptions, h⟩ := Option.bind_eq_some_iff.1 h
    obtain rfl := Option.some.inj h
    exact Options.workers_lt_of_ofWritten? hoptions

/-- **Requests survive being written.** A request is read back from the JSON text that is written of
it, and so is every request that is read from any text. -/
theorem read?_rewritten :
    (∀ request : Request, (∀ n ∈ request.options.workers, n < twoTo 64) →
      read? request.write = some request) ∧
    ∀ (text : String) (request : Request), read? text = some request →
      read? request.write = some request :=
  ⟨fun _ h => read?_write h, fun _ _ h => read?_write (workers_lt_of_read? h)⟩

/-- A request whose key holds a quotation mark, a backslash and a zero byte, with the greatest number
of workers. -/
def escapedRequest : Request :=
  ⟨.ofList [("k\"\\\x00", "\n\x1f\x7fé")], ⟨.perKey, some 18446744073709551615⟩⟩

/-- A text where the later of two fields with one key counts, an unknown field does not, and the
options are left out. -/
def looseText : String :=
  "\x7b\"selection\":\x7b\"a\":\"//a\",\"a\":\"\\u0000\"\x7d,\"more\":null\x7d"

theorem read?_looseText : read? looseText = some ⟨.ofList [("a", "\x00")], {}⟩ := by
  have hselection := spells_object
    [("a", .string "//a", .string (piecesOf "//a")), ("a", .string "\x00", .string (piecesOf "\x00"))]
    (List.forall_mem_cons.2 ⟨spells_string _, List.forall_mem_singleton.2 (spells_string _)⟩)
  have hrequest := spells_object [("selection", _, _), ("more", .null, .null)]
    (List.forall_mem_cons.2 ⟨hselection, List.forall_mem_singleton.2 spells_null⟩)
  have htext : looseText = Json.write (.object [
      ("selection", .object [("a", .string "//a"), ("a", .string "\x00")]), ("more", .null)]) := by
    decide
  rw [htext, read?]
  refine (congrArg (Option.bind · ofWritten?) (writtenOf?_write hrequest)).trans ?_
  decide

theorem read?_rewritten_spelled :
    ((∀ n ∈ escapedRequest.options.workers, n < twoTo 64) ∧
      read? escapedRequest.write = some escapedRequest) ∧
    read? looseText = some ⟨.ofList [("a", "\x00")], {}⟩ ∧
    read? (write ⟨.ofList [("a", "\x00")], {}⟩) = some ⟨.ofList [("a", "\x00")], {}⟩ := by
  have hworkers : ∀ n ∈ escapedRequest.options.workers, n < twoTo 64 := by
    rintro n ⟨⟩
    decide
  exact ⟨⟨hworkers, read?_rewritten.1 _ hworkers⟩, read?_looseText,
    read?_rewritten.2 _ _ read?_looseText⟩

end Request
end Gleaner
