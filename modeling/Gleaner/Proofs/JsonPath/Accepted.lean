/-
# Paths that are read

What a reader takes for an index, a bound of a slice or a step is an integer of 64 bits, and no step
is zero. So it is in every path that is read, whatever its text: each reader passes on what the
readers of the parts say.

Key definitions: `Condition.keys`, `Choice.items`, `Segment.choice`, `Choice.Counted`.
Key theorems: `readItem_legible`, `readCondition_legible`, `readChoice_counted`, `read_counted`.
-/
import Gleaner.JsonPath.Basic
import Gleaner.Proofs.JsonPath.Clauses

namespace Gleaner.JsonPath

open Gleaner.Text Gleaner.Number

variable {c : Char} {text rest : List Char}

theorem readInteger_isInt64 {found? : Option Int} (h : Reads (readInteger text) found? rest) :
    ∀ n ∈ found?, IsInt64 n := by
  obtain ⟨-, ⟨-, rfl⟩ | ⟨-, n, hn, rfl⟩⟩ := reads_readInteger_iff.1 h
  · nofun
  · rintro _ ⟨⟩
    exact isInt64_of_readInt64 hn

theorem readStep_legible {step : Int} (h : Reads (readStep text) step rest) :
    IsInt64 step ∧ step ≠ 0 := by
  obtain ⟨tail, step?, -, hread, hzero, rfl⟩ | ⟨-, rfl, -⟩ := reads_readStep_iff.1 h
  · refine ⟨?_, hzero⟩
    cases step? with
    | none => decide
    | some n => exact readInteger_isInt64 hread n rfl
  · decide

theorem readPositions_legible {item : Item} (h : Reads (readPositions text) item rest) :
    item.Legible := by
  obtain ⟨start, middle, hstart, h⟩ := reads_readPositions_iff.1 h
  obtain ⟨tail, stop, after, step, -, hstop, hstep, rfl⟩ | ⟨-, -, n, rfl, rfl⟩ := h
  · exact ⟨readInteger_isInt64 hstart, readInteger_isInt64 hstop, readStep_legible hstep⟩
  · exact readInteger_isInt64 hstart n rfl

theorem readItem_legible {item : Item} (h : Reads (readItem text) item rest) : item.Legible := by
  obtain ⟨c, tail, -, ⟨-, chars, -, rfl⟩ | ⟨-, rfl, -⟩ | ⟨-, -, h⟩⟩ := reads_readItem_iff.1 h
  · trivial
  · trivial
  · exact readPositions_legible h

theorem readMoreItems_legible {text : List Char} {items : List Item}
    (h : Reads (readMoreItems text) items rest) : ∀ item ∈ items, item.Legible := by
  obtain ⟨tail, first, middle, others, htext, hfirst, hothers, rfl⟩ | ⟨-, rfl, -⟩ :=
    reads_readMoreItems_iff.1 h
  · have hshorter : middle.length < text.length :=
      Nat.lt_of_le_of_lt hfirst.left (length_lt_of_trimStart htext)
    exact List.forall_mem_cons.2 ⟨readItem_legible hfirst, readMoreItems_legible hothers⟩
  · exact List.forall_mem_nil _
termination_by text.length

theorem readKey_legible {key : Key} (h : Reads (readKey text) key rest) : key.Legible := by
  obtain ⟨c, tail, -, ⟨-, chars, -, rfl⟩ | ⟨-, n, hindex, rfl⟩⟩ := reads_readKey_iff.1 h
  · trivial
  · exact readInteger_isInt64 hindex n rfl

theorem readKeys_legible {text : List Char} {keys : List Key}
    (h : Reads (readKeys text) keys rest) : ∀ key ∈ keys, key.Legible := by
  obtain ⟨tail, name, middle, others, rfl, hname, hothers, rfl⟩ |
    ⟨tail, key, inner, middle, others, rfl, hkey, hclose, hothers, rfl⟩ | ⟨-, -, rfl, -⟩ :=
    reads_readKeys_iff.1 h
  · have hshorter : middle.length < tail.length := hname.left
    exact List.forall_mem_cons.2 ⟨trivial, readKeys_legible hothers⟩
  · have hinner : middle.length < inner.length := length_lt_of_trimStart hclose
    have hshorter : inner.length ≤ tail.length := hkey.left
    exact List.forall_mem_cons.2 ⟨readKey_legible hkey, readKeys_legible hothers⟩
  · exact List.forall_mem_nil _
termination_by text.length
decreasing_by all_goals grind

/-- The keys of the paths in a condition. -/
def Condition.keys : Condition → List Key
  | .present path => path
  | .compare path _ _ => path
  | .not condition => condition.keys
  | .and left right | .or left right => left.keys ++ right.keys

theorem readComparedPath_legible {condition : Condition}
    (h : Reads (readComparedPath text) condition rest) : ∀ key ∈ condition.keys, key.Legible := by
  obtain ⟨path, middle, hpath, h⟩ := reads_readComparedPath_iff.1 h
  obtain ⟨comparison, tail, literal, -, -, -, rfl⟩ | ⟨-, rfl, -⟩ := h
  · exact readKeys_legible hpath
  · exact readKeys_legible hpath

theorem connect_keys (level : Nat) (left right : Condition) :
    (connect level left right).keys = left.keys ++ right.keys := by
  unfold connect
  split <;> rfl

mutual

/-- The keys that are read in a condition are those of its parts. -/
theorem readCondition_legible {level : Nat} {text rest : List Char} {condition : Condition}
    (h : Reads (readCondition level text) condition rest) :
    ∀ key ∈ condition.keys, key.Legible := by
  obtain ⟨hlevel, first, middle, hfirst, hwhole⟩ | ⟨-, hterm⟩ := reads_readCondition_iff.1 h
  · have hshorter : middle.length < text.length := hfirst.left
    exact readConnected_legible (readCondition_legible hfirst) hwhole
  · exact readTerm_legible hterm
termination_by (text.length, 2 + (2 - level))

theorem readConnected_legible {level : Nat} {first : Condition} {text rest : List Char}
    {condition : Condition} (hkeys : ∀ key ∈ first.keys, key.Legible)
    (h : Reads (readConnected level first text) condition rest) :
    ∀ key ∈ condition.keys, key.Legible := by
  obtain ⟨tail, second, middle, -, htext, hsecond, hwhole⟩ | ⟨-, rfl, -⟩ :=
    reads_readConnected_iff.1 h
  · have htail : tail.length < text.length := Nat.lt_of_succ_lt (length_lt_of_trimStart htext)
    have hshorter : middle.length < tail.length := hsecond.left
    refine readConnected_legible ?_ hwhole
    rw [connect_keys]
    exact List.forall_mem_append.2 ⟨hkeys, readCondition_legible hsecond⟩
  · exact hkeys
termination_by (text.length, 0)

theorem readTerm_legible {text rest : List Char} {condition : Condition}
    (h : Reads (readTerm text) condition rest) : ∀ key ∈ condition.keys, key.Legible := by
  obtain ⟨c, tail, htext, h⟩ := reads_readTerm_iff.1 h
  have hshorter := length_lt_of_trimStart htext
  obtain ⟨-, inner, hinside, -⟩ | ⟨-, -, denied, hdenied, rfl⟩ | ⟨-, hvalue⟩ := h
  · exact readCondition_legible hinside
  · have hkeys : ∀ key ∈ denied.keys, key.Legible := readTerm_legible hdenied
    exact hkeys
  · exact readComparedPath_legible hvalue
termination_by (text.length, 1)
decreasing_by all_goals grind

end

/-- The items of a choice. -/
def Choice.items : Choice → List Item
  | .item single => [single]
  | .union items => items
  | .filter _ => []

/-- The keys in the condition of a choice. -/
def Choice.keys : Choice → List Key
  | .filter condition => condition.keys
  | _ => []

/-- What a segment selects among the children of each value that it comes to. -/
def Segment.choice : Segment → Choice
  | .child choice | .descendant choice => choice

/-- A choice in which each number has 64 bits, and no step is zero. -/
structure Choice.Counted (choice : Choice) : Prop where
  items : ∀ item ∈ choice.items, item.Legible
  keys : ∀ key ∈ choice.keys, key.Legible

theorem readFilter_counted {choice : Choice} (h : Reads (readFilter text) choice rest) :
    choice.Counted := by
  obtain ⟨tail, condition, inner, -, hcondition, -, rfl⟩ := reads_readFilter_iff.1 h
  exact ⟨nofun, readCondition_legible hcondition⟩

theorem Choice.counted_ofItems {first : Item} {others : List Item} (hfirst : first.Legible)
    (hothers : ∀ item ∈ others, item.Legible) : (Choice.ofItems first others).Counted := by
  cases others with
  | nil => exact ⟨List.forall_mem_singleton.2 hfirst, nofun⟩
  | cons second others => exact ⟨List.forall_mem_cons.2 ⟨hfirst, hothers⟩, nofun⟩

theorem readItems_counted {choice : Choice} (h : Reads (readItems text) choice rest) :
    choice.Counted := by
  obtain ⟨first, middle, others, hfirst, hothers, rfl⟩ := reads_readItems_iff.1 h
  exact Choice.counted_ofItems (readItem_legible hfirst) (readMoreItems_legible hothers)

theorem Choice.counted_wildcard : (Choice.item .wildcard).Counted :=
  ⟨List.forall_mem_singleton.2 trivial, nofun⟩

theorem readChoice_counted {choice : Choice} (h : Reads (readChoice text) choice rest) :
    choice.Counted := by
  obtain ⟨-, rfl⟩ | ⟨tail, -, hfilter⟩ | ⟨-, -, hitems⟩ := reads_readChoice_iff.1 h
  · exact Choice.counted_wildcard
  · exact readFilter_counted hfilter
  · exact readItems_counted hitems

theorem readBrackets_counted {choice : Choice} (h : Reads (readBrackets text) choice rest) :
    choice.Counted := by
  obtain ⟨inner, hinside, -⟩ := reads_readBrackets_iff.1 h
  exact readChoice_counted hinside

theorem readMember_counted {choice : Choice} (h : Reads (readMember text) choice rest) :
    choice.Counted := by
  obtain ⟨-, rfl⟩ | ⟨-, name, -, rfl⟩ := reads_readMember_iff.1 h
  · exact Choice.counted_wildcard
  · exact ⟨List.forall_mem_singleton.2 trivial, nofun⟩

theorem readBelow_counted {choice : Choice} (h : Reads (readBelow text) choice rest) :
    choice.Counted := by
  obtain ⟨tail, -, hbrackets⟩ | ⟨-, hmember⟩ := reads_readBelow_iff.1 h
  · exact readBrackets_counted hbrackets
  · exact readMember_counted hmember

theorem readSegment_counted {segment : Segment} (h : Reads (readSegment c text) segment rest) :
    segment.choice.Counted := by
  obtain ⟨-, choice, hchoice, rfl⟩ | ⟨-, ⟨tail, choice, -, hchoice, rfl⟩ |
    ⟨-, choice, hchoice, rfl⟩⟩ := reads_readSegment_iff.1 h
  · exact readBrackets_counted hchoice
  · exact readBelow_counted hchoice
  · exact readMember_counted hchoice

theorem readSegments_counted {text : List Char} {segments : List Segment}
    (h : readSegments text = .ok segments) : ∀ segment ∈ segments, segment.choice.Counted := by
  obtain ⟨c, tail, htext⟩ | hblanks := nextSign?_cases text
  · rw [readSegments_of_trimStart htext] at h
    obtain ⟨⟨first, left⟩, hfirst, h⟩ := bind_eq_ok_iff.1 h
    obtain ⟨others, hothers, rfl⟩ := map_eq_ok_iff.1 h
    have hshorter := length_lt_of_trimStart htext
    have hleft := left.property
    exact List.forall_mem_cons.2
      ⟨readSegment_counted ⟨left.property, hfirst⟩, readSegments_counted hothers⟩
  · rw [readSegments_of_blanks hblanks] at h
    cases h
    exact List.forall_mem_nil _
termination_by text.length
decreasing_by grind

/-- **The numbers of a path that is read have 64 bits.** -/
theorem read_counted {text : String} {path : JsonPath} (h : JsonPath.read text = .ok path) :
    ∀ segment ∈ path.segments, segment.choice.Counted := by
  unfold JsonPath.read at h
  dsimp only at h
  split at h
  · next segments hsegments =>
    cases h
    obtain ⟨rest, -, hsegments⟩ := bind_eq_ok_iff.1 hsegments
    exact readSegments_counted hsegments
  · cases h

end Gleaner.JsonPath
