/-
# What lies below a JSON value

A value lies below another when it is reached through items of arrays and values of fields; a
property that goes from the children of a value to the value itself holds of all values. What a path
selects lies below the values from which it starts, and what is read from a text has no number but
integers of 64 bits and doubles that are numbers, and no object with a key twice.

Key definitions: `Json.Numeric.Proper`, `Json.Proper`, `Json.Hereditary`, `Json.Keyed`.
Key theorems: `Json.induction_children`, `Json.selfAndBelow_trans`, `Numeral.value?_proper`,
`Hereditary.read?`, `read?_proper`, `read?_keyed`, `JsonPath.select_below`.
-/
import Gleaner.Json.Read
import Gleaner.JsonPath.Basic
import Gleaner.Proofs.Number.Finite

namespace Gleaner

/-! ### Children and all below them -/

namespace Json

theorem belowItems_eq_flatMap : ∀ items : List Json,
    belowItems items = items.flatMap selfAndBelow
  | [] => rfl
  | item :: rest => by rw [belowItems, List.flatMap_cons, belowItems_eq_flatMap rest]

theorem belowFields_eq_flatMap : ∀ fields : List (String × Json),
    belowFields fields = (fields.map (·.2)).flatMap selfAndBelow
  | [] => rfl
  | (key, field) :: rest => by
    rw [belowFields, List.map_cons, List.flatMap_cons, belowFields_eq_flatMap rest]

/-- Below a value lie its children and what lies below them. -/
theorem selfAndBelow_eq (json : Json) :
    json.selfAndBelow = json :: json.children.flatMap selfAndBelow := by
  cases json with
  | array items => rw [selfAndBelow, belowItems_eq_flatMap]; rfl
  | object fields => rw [selfAndBelow, belowFields_eq_flatMap]; rfl
  | _ => rfl

theorem mem_selfAndBelow_iff {json below : Json} :
    below ∈ json.selfAndBelow ↔
      below = json ∨ ∃ child ∈ json.children, below ∈ child.selfAndBelow := by
  rw [selfAndBelow_eq, List.mem_cons, List.mem_flatMap]

theorem self_mem_selfAndBelow (json : Json) : json ∈ json.selfAndBelow :=
  mem_selfAndBelow_iff.2 (.inl rfl)

theorem child_mem_selfAndBelow {json child : Json} (h : child ∈ json.children) :
    child ∈ json.selfAndBelow :=
  mem_selfAndBelow_iff.2 (.inr ⟨child, h, self_mem_selfAndBelow child⟩)

theorem sizeOf_child_lt {json child : Json} (h : child ∈ json.children) :
    sizeOf child < sizeOf json := by
  cases json with
  | array items =>
    have hlt := List.sizeOf_lt_of_mem (show child ∈ items from h)
    simp only [array.sizeOf_spec]
    omega
  | object fields =>
    obtain ⟨⟨key, field⟩, hmem, rfl⟩ := List.mem_map.1 h
    have hlt := List.sizeOf_lt_of_mem hmem
    simp only [Prod.mk.sizeOf_spec] at hlt
    simp only [object.sizeOf_spec]
    omega
  | _ => exact absurd h List.not_mem_nil

/-- What a value has whenever all its children have it, all values have. -/
@[elab_as_elim]
theorem induction_children {motive : Json → Prop}
    (step : ∀ json, (∀ child ∈ json.children, motive child) → motive json) (json : Json) :
    motive json :=
  step json fun child h =>
    have := sizeOf_child_lt h
    induction_children step child
termination_by sizeOf json

theorem selfAndBelow_trans {json middle below : Json} (hmiddle : middle ∈ json.selfAndBelow)
    (hbelow : below ∈ middle.selfAndBelow) : below ∈ json.selfAndBelow := by
  induction json using induction_children with
  | step json ih =>
    rcases mem_selfAndBelow_iff.1 hmiddle with rfl | ⟨child, hchild, hmem⟩
    · exact hbelow
    · exact mem_selfAndBelow_iff.2 (.inr ⟨child, hchild, ih child hchild hmem⟩)

/-! ### Numbers that are written as numbers -/

/-- An integer of 64 bits, with or without a sign, or a double that is a number. -/
def Numeric.Proper : Numeric → Prop
  | .integer n => Number.leastInt64 ≤ n ∧ n < Number.twoTo 64
  | .float x => Number.isFiniteFloat x = true

/-- All numbers in a value are proper. -/
def Proper (json : Json) : Prop :=
  ∀ n, .number n ∈ json.selfAndBelow → n.Proper

theorem proper_number {n : Numeric} (h : n.Proper) : (number n).Proper := by
  intro other hmem
  rcases mem_selfAndBelow_iff.1 hmem with heq | ⟨child, hchild, -⟩
  · cases heq
    exact h
  · exact absurd hchild List.not_mem_nil

/-- A value that is no number is proper as soon as its children are. -/
theorem proper_of_children {json : Json} (hnumber : ∀ n, json ≠ .number n)
    (h : ∀ child ∈ json.children, child.Proper) : json.Proper := by
  intro n hmem
  rcases mem_selfAndBelow_iff.1 hmem with heq | ⟨child, hchild, hbelow⟩
  · exact absurd heq.symm (hnumber n)
  · exact h child hchild n hbelow

theorem proper_string (text : String) : (string text).Proper :=
  proper_of_children (fun _ heq => by cases heq) (fun _ hchild => absurd hchild List.not_mem_nil)

theorem proper_array {items : List Json} (h : ∀ item ∈ items, item.Proper) :
    (array items).Proper :=
  proper_of_children (fun _ heq => by cases heq) h

theorem proper_object {fields : List (String × Json)} (h : ∀ e ∈ fields, e.2.Proper) :
    (object fields).Proper := by
  refine proper_of_children (fun _ heq => by cases heq) fun child hchild => ?_
  obtain ⟨e, he, rfl⟩ := List.mem_map.1 hchild
  exact h e he

theorem Proper.below {json below : Json} (h : json.Proper) (hbelow : below ∈ json.selfAndBelow) :
    below.Proper :=
  fun n hmem => h n (selfAndBelow_trans hbelow hmem)

theorem Proper.child {json child : Json} (h : json.Proper) (hchild : child ∈ json.children) :
    child.Proper :=
  h.below (child_mem_selfAndBelow hchild)

/-! ### Numerals -/

theorem dividedBy_finite {x : Float} (hx : Number.isFiniteFloat x = true) {n : Nat} (hn : 0 < n) :
    Number.isFiniteFloat (dividedBy x n) = true := by
  fun_induction dividedBy x n with
  | case1 x n hle => exact Number.isFiniteFloat_div_powerOfTen hx hn hle
  | case2 x n hgt hzero => exact hx
  | case3 x n hgt hzero ih =>
    exact ih (Number.isFiniteFloat_div_powerOfTen hx (by decide) (Nat.le_refl _)) (by omega)

/-- A significand of 64 bits that is scaled is a number. -/
theorem scaled?_finite {significand : Nat} {exponent : Int} {x : Float}
    (hsignificand : significand < Number.twoTo 64) (h : scaled? significand exponent = some x) :
    Number.isFiniteFloat x = true := by
  have hstart : Number.isFiniteFloat (Number.floatOfInt significand) = true :=
    Number.isFiniteFloat_floatOfInt (Nat.le_of_lt hsignificand)
  simp only [scaled?] at h
  split at h
  · obtain rfl := Option.some.inj h
    exact dividedBy_finite hstart (by omega)
  split at h
  · split at h
    · next hfinite =>
      obtain rfl := Option.some.inj h
      exact hfinite
    · cases h
  split at h
  · obtain rfl := Option.some.inj h
    exact hstart
  · cases h

theorem keepDigits_lt {n : Nat} (h : n < Number.twoTo 64) : ∀ text : List Char,
    (keepDigits n text).1 < Number.twoTo 64
  | [] => h
  | c :: cs => by
    rw [keepDigits]
    split
    · next hroom => exact keepDigits_lt hroom cs
    · exact h

theorem Numeral.size?_finite {n : Numeral} {x : Float} (h : n.size? = some x) :
    Number.isFiniteFloat x = true := by
  have hkept : (keepDigits 0 n.whole).1 < Number.twoTo 64 := keepDigits_lt (by decide) n.whole
  have hsignificand := keepDigits_lt hkept n.fraction
  unfold size? at h
  simp only at h
  split at h
  · exact scaled?_finite hsignificand h
  split at h
  · split at h
    · obtain rfl := Option.some.inj h
      decide
    · cases h
  · exact scaled?_finite hsignificand h

/-- The number that a numeral writes is proper. -/
theorem Numeral.value?_proper {n : Numeral} {value : Numeric} (h : n.value? = some value) :
    value.Proper := by
  unfold value? at h
  simp only [Bool.and_eq_true, decide_eq_true_eq] at h
  split at h
  · next hplain =>
    obtain rfl := Option.some.inj h
    exact ⟨Int.le_trans (by decide) (Int.natCast_nonneg _), Int.ofNat_lt.2 hplain.2⟩
  split at h
  · next hplain =>
    obtain rfl := Option.some.inj h
    refine ⟨Int.neg_le_neg (Int.ofNat_le.2 hplain.2), ?_⟩
    exact Int.lt_of_le_of_lt (Int.neg_nonpos_of_nonneg (Int.natCast_nonneg _)) (by decide)
  · obtain ⟨x, hx, rfl⟩ := Option.map_eq_some_iff.1 h
    have hfinite := size?_finite hx
    by_cases hnegative : n.negative = true
    · rw [if_pos hnegative]
      exact Number.isFiniteFloat_neg hfinite
    · rw [if_neg hnegative]
      exact hfinite

end Json

/-! ### Values of texts -/

theorem KeyMap.mem_of_mem_ofList {α : Type} {entries : List (String × α)} {e : String × α}
    (h : e ∈ (KeyMap.ofList entries).entries) : e ∈ entries := by
  have hfold : ∀ (added : List (String × α)) (m : KeyMap α),
      e ∈ (added.foldl (fun m e => m.insert e.1 e.2) m).entries →
        e ∈ added ∨ e ∈ m.entries := by
    intro added
    induction added with
    | nil => exact fun m hm => .inr hm
    | cons first rest ih =>
      intro m hm
      rcases ih _ hm with hrest | hinsert
      · exact .inl (List.mem_cons_of_mem _ hrest)
      · rcases mem_insertEntry hinsert with rfl | hold
        · exact .inl List.mem_cons_self
        · exact .inr hold
  exact (hfold entries KeyMap.empty h).resolve_right List.not_mem_nil

namespace Json

/-- A property of null, truths, strings and the numbers of numerals that goes from items to an array
and from the values of a map to an object. -/
structure Hereditary (motive : Json → Prop) : Prop where
  null : motive .null
  boolean : ∀ b, motive (.boolean b)
  number : ∀ {n : Numeral} {value : Numeric}, n.value? = some value → motive (.number value)
  string : ∀ text, motive (.string text)
  array : ∀ {items : List Json}, (∀ item ∈ items, motive item) → motive (.array items)
  object : ∀ fields : KeyMap Json, (∀ e ∈ fields.entries, motive e.2) →
    motive (.object fields.entries)

section

variable {motive : Json → Prop}

mutual

/-- The value of every text has each such property. -/
theorem Hereditary.value? (h : Hereditary motive) {depth : Nat} {json : Json} :
    (written : Written) → written.value? depth = some json → motive json
  | .null, hvalue => by
    obtain rfl := Option.some.inj hvalue
    exact h.null
  | .boolean b, hvalue => by
    obtain rfl := Option.some.inj hvalue
    exact h.boolean b
  | .numeral n, hvalue => by
    obtain ⟨value, hnumber, rfl⟩ := Option.map_eq_some_iff.1 hvalue
    exact h.number hnumber
  | .string pieces, hvalue => by
    obtain ⟨text, -, rfl⟩ := Option.map_eq_some_iff.1 hvalue
    exact h.string text
  | .array items, hvalue => by
    rw [Written.value?] at hvalue
    split at hvalue
    · cases hvalue
    · obtain ⟨values, hvalues, rfl⟩ := Option.map_eq_some_iff.1 hvalue
      exact h.array (Hereditary.itemValues? h items hvalues)
  | .object fields, hvalue => by
    rw [Written.value?] at hvalue
    split at hvalue
    · cases hvalue
    · obtain ⟨entries, hentries, rfl⟩ := Option.map_eq_some_iff.1 hvalue
      refine h.object (KeyMap.ofList entries) fun e he => ?_
      exact Hereditary.fieldValues? h fields hentries e (KeyMap.mem_of_mem_ofList he)

theorem Hereditary.itemValues? (h : Hereditary motive) {depth : Nat} {values : List Json} :
    (items : List Written) → itemValues? depth items = some values → ∀ value ∈ values, motive value
  | [], hvalues => by
    obtain rfl := Option.some.inj hvalues
    exact fun _ hmem => absurd hmem List.not_mem_nil
  | item :: rest, hvalues => by
    simp only [Json.itemValues?, Option.bind_eq_bind, Option.bind_eq_some_iff, Option.pure_def,
      Option.some.injEq] at hvalues
    obtain ⟨value, hvalue, others, hothers, rfl⟩ := hvalues
    intro other hmem
    rcases List.mem_cons.1 hmem with rfl | hmem
    · exact Hereditary.value? h item hvalue
    · exact Hereditary.itemValues? h rest hothers other hmem

theorem Hereditary.fieldValues? (h : Hereditary motive) {depth : Nat}
    {entries : List (String × Json)} :
    (fields : List (List Piece × Written)) → fieldValues? depth fields = some entries →
      ∀ e ∈ entries, motive e.2
  | [], hentries => by
    obtain rfl := Option.some.inj hentries
    exact fun _ hmem => absurd hmem List.not_mem_nil
  | (pieces, field) :: rest, hentries => by
    simp only [Json.fieldValues?, Option.bind_eq_bind, Option.bind_eq_some_iff, Option.pure_def,
      Option.some.injEq] at hentries
    obtain ⟨key, -, value, hvalue, others, hothers, rfl⟩ := hentries
    intro e hmem
    rcases List.mem_cons.1 hmem with rfl | hmem
    · exact Hereditary.value? h field hvalue
    · exact Hereditary.fieldValues? h rest hothers e hmem

end

theorem Hereditary.read? (h : Hereditary motive) {text : String} {json : Json}
    (hread : Json.read? text = some json) : motive json := by
  obtain ⟨written, -, hvalue⟩ := Option.bind_eq_some_iff.1 hread
  exact h.value? written hvalue

end

theorem hereditary_proper : Hereditary Proper where
  null := proper_of_children (fun _ heq => by cases heq) (fun _ hchild => by cases hchild)
  boolean _ := proper_of_children (fun _ heq => by cases heq) (fun _ hchild => by cases hchild)
  number hvalue := proper_number (Numeral.value?_proper hvalue)
  string := proper_string
  array := proper_array
  object _ := proper_object

/-- **Numbers of a text.** The value of a JSON text has no number but integers of 64 bits and
doubles that are numbers. -/
theorem read?_proper {text : String} {json : Json} (h : read? text = some json) :
    json.Proper :=
  hereditary_proper.read? h

/-- No object at or below a value has a key twice. -/
def Keyed (json : Json) : Prop :=
  ∀ fields, .object fields ∈ json.selfAndBelow → (fields.map (·.1)).Nodup

theorem Keyed.below {json below : Json} (h : json.Keyed) (hbelow : below ∈ json.selfAndBelow) :
    below.Keyed :=
  fun fields hmem => h fields (selfAndBelow_trans hbelow hmem)

theorem Keyed.child {json child : Json} (h : json.Keyed) (hchild : child ∈ json.children) :
    child.Keyed :=
  h.below (child_mem_selfAndBelow hchild)

theorem keyed_of_children {json : Json}
    (hfields : ∀ fields, json = .object fields → (fields.map (·.1)).Nodup)
    (h : ∀ child ∈ json.children, child.Keyed) : json.Keyed := by
  intro fields hmem
  rcases mem_selfAndBelow_iff.1 hmem with heq | ⟨child, hchild, hbelow⟩
  · exact hfields fields heq.symm
  · exact h child hchild fields hbelow

theorem hereditary_keyed : Hereditary Keyed where
  null := keyed_of_children nofun nofun
  boolean _ := keyed_of_children nofun nofun
  number _ := keyed_of_children nofun nofun
  string _ := keyed_of_children nofun nofun
  array h := keyed_of_children nofun h
  object fields h := by
    refine keyed_of_children ?_ fun child hchild => ?_
    · rintro _ ⟨⟩
      exact fields.nodup_keys
    · obtain ⟨e, he, rfl⟩ := List.mem_map.1 hchild
      exact h e he

/-- **Keys of a text.** No object in the value of a JSON text has a key twice. -/
theorem read?_keyed {text : String} {json : Json} (h : read? text = some json) : json.Keyed :=
  hereditary_keyed.read? h

end Json

/-! ### What a path selects -/

namespace JsonPath

theorem field?_mem_children {json found : Json} {key : String} (h : json.field? key = some found) :
    found ∈ json.children := by
  cases json with
  | object fields =>
    obtain ⟨before, after, hfields, -⟩ := List.lookup_eq_some_iff.1 h
    refine List.mem_map.2 ⟨(key, found), ?_, rfl⟩
    rw [hfields]
    exact List.mem_append_right _ List.mem_cons_self
  | _ => cases h

theorem item?_mem_children {json found : Json} {index : Int} (h : json.item? index = some found) :
    found ∈ json.children := by
  cases json with
  | array items =>
    simp only [Json.item?, itemAt?] at h
    split at h
    · cases h
    · exact List.mem_of_getElem? h
  | _ => cases h

theorem mem_of_sliceOf? {α : Type} {list members : List α} {start stop : Option Int} {step : Int}
    (h : sliceOf? list start stop step = some members) {member : α} (hmember : member ∈ members) :
    member ∈ list := by
  unfold sliceOf? at h
  split at h
  · cases h
    cases hmember
  · obtain ⟨positions, -, rfl⟩ := Option.map_eq_some_iff.1 h
    obtain ⟨i, -, hi⟩ := List.mem_filterMap.1 hmember
    exact List.mem_of_getElem? (List.getElem?_toArray ▸ hi)

section

variable {json found : Json} {selected : List Json}

theorem Item.children_of_select? {item : Item} (h : item.select? json = some selected)
    (hfound : found ∈ selected) : found ∈ json.children := by
  cases item with
  | name key =>
    cases h
    exact field?_mem_children (Option.mem_toList.1 hfound)
  | wildcard =>
    cases h
    exact hfound
  | index i =>
    cases h
    exact item?_mem_children (Option.mem_toList.1 hfound)
  | slice start stop step =>
    cases json with
    | array items => exact mem_of_sliceOf? h hfound
    | _ =>
      cases h
      cases hfound

theorem Choice.children_of_select? {choice : Choice} (h : choice.select? json = some selected)
    (hfound : found ∈ selected) : found ∈ json.children := by
  cases choice with
  | item single => exact Item.children_of_select? h hfound
  | union items =>
    obtain ⟨single, -, part, hpart, hmem⟩ := exists_of_mem_gatherEach? h hfound
    exact Item.children_of_select? hpart hmem
  | filter condition =>
    cases h
    exact (List.mem_filter.1 hfound).1

theorem Segment.below_of_select? {segment : Segment} (h : segment.select? json = some selected)
    (hfound : found ∈ selected) : found ∈ json.selfAndBelow := by
  cases segment with
  | child choice => exact Json.child_mem_selfAndBelow (Choice.children_of_select? h hfound)
  | descendant choice =>
    obtain ⟨below, hbelow, part, hpart, hmem⟩ := exists_of_mem_gatherEach? h hfound
    exact Json.selfAndBelow_trans hbelow
      (Json.child_mem_selfAndBelow (Choice.children_of_select? hpart hmem))

/-- What segments select lies below one of the values from which they start. -/
theorem below_of_selectAll? : ∀ (segments : List Segment) {values : List Json},
    selectAll? segments values = some selected → found ∈ selected →
      ∃ value ∈ values, found ∈ value.selfAndBelow
  | [], _, h, hfound => by
    cases h
    exact ⟨found, hfound, Json.self_mem_selfAndBelow found⟩
  | segment :: rest, values, h, hfound => by
    obtain ⟨middles, hmiddles, hrest⟩ := Option.bind_eq_some_iff.1 h
    obtain ⟨middle, hmiddle, hbelow⟩ := below_of_selectAll? rest hrest hfound
    obtain ⟨value, hvalue, part, hpart, hmem⟩ := exists_of_mem_gatherEach? hmiddles hmiddle
    exact ⟨value, hvalue, Json.selfAndBelow_trans (Segment.below_of_select? hpart hmem) hbelow⟩

/-- What a path selects lies below the value from which it starts. -/
theorem below_of_select? {path : JsonPath} {root : Json} (h : path.select? root = some selected)
    (hfound : found ∈ selected) : found ∈ root.selfAndBelow := by
  obtain ⟨value, hvalue, hbelow⟩ := below_of_selectAll? path.segments h hfound
  obtain rfl := List.mem_singleton.1 hvalue
  exact hbelow

end

end JsonPath
end Gleaner
