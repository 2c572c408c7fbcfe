/-
# Maps from texts, in key order

A `KeyMap` holds its entries in strictly ascending order of their keys, so a key occurs once and a
walk over the map meets the keys in order. Selections and harvests are such maps, and so are the
fields of a JSON object.

Key definitions: `insertEntry`, `KeyMap`, `KeyMap.insert`, `KeyMap.ofList`, `KeyMap.get?`.
Key theorems: `KeyMap.get?_insert_self`, `KeyMap.get?_insert_of_ne`, `KeyMap.ext_entries`,
`KeyMap.ofList_eq_of_perm`, `KeyMap.get?_eq_some_iff`.
-/

namespace Gleaner

universe u v

variable {α : Type u} {β : Type v}

/-- A list of entries with one entry put at the place of its key; an entry of the same key gives
way. -/
def insertEntry (key : String) (value : α) : List (String × α) → List (String × α)
  | [] => [(key, value)]
  | entry :: rest =>
    if key < entry.1 then (key, value) :: entry :: rest
    else if key = entry.1 then (key, value) :: rest
    else entry :: insertEntry key value rest

/-- Entries in strictly ascending order of their keys. -/
abbrev Ascending (entries : List (String × α)) : Prop :=
  entries.Pairwise fun a b => a.1 < b.1

theorem mem_insertEntry {key : String} {value : α} {entries : List (String × α)}
    {entry : String × α} (h : entry ∈ insertEntry key value entries) :
    entry = (key, value) ∨ entry ∈ entries := by
  induction entries with
  | nil => simpa [insertEntry] using h
  | cons e es ih =>
    rw [insertEntry] at h
    split at h
    · simpa using h
    · split at h
      · rcases List.mem_cons.1 h with h | h
        · exact .inl h
        · exact .inr (List.mem_cons_of_mem _ h)
      · rcases List.mem_cons.1 h with rfl | h
        · exact .inr List.mem_cons_self
        · exact (ih h).imp_right (List.mem_cons_of_mem _)

/-- A key that is neither below nor equal to another is above it. -/
theorem lt_of_not_lt_of_ne {a b : String} (h : ¬a < b) (hne : a ≠ b) : b < a :=
  String.not_le.1 fun hle => hne (String.le_antisymm hle (String.not_lt.1 h))

theorem ascending_insertEntry (key : String) (value : α) {entries : List (String × α)}
    (h : Ascending entries) : Ascending (insertEntry key value entries) := by
  induction entries with
  | nil => simp [insertEntry, Ascending]
  | cons e es ih =>
    obtain ⟨he, hes⟩ := List.pairwise_cons.1 h
    rw [insertEntry]
    split
    · next hk =>
      refine List.pairwise_cons.2 ⟨fun x hx => ?_, h⟩
      rcases List.mem_cons.1 hx with rfl | hx
      · exact hk
      · exact String.lt_trans hk (he x hx)
    · next hk =>
      split
      · next hkey => exact List.pairwise_cons.2 ⟨fun x hx => hkey ▸ he x hx, hes⟩
      · next hkey =>
        refine List.pairwise_cons.2 ⟨fun x hx => ?_, ih hes⟩
        rcases mem_insertEntry hx with rfl | hx
        · exact lt_of_not_lt_of_ne hk hkey
        · exact he x hx

/-- A map from keys to values, as the list of its entries in ascending order of the keys. -/
structure KeyMap (α : Type u) where
  entries : List (String × α)
  ascending : Ascending entries

namespace KeyMap

/-- A map is known by its entries. -/
theorem ext_entries {m n : KeyMap α} (h : m.entries = n.entries) : m = n := by
  cases m; cases n; cases h; rfl

instance [DecidableEq α] : DecidableEq (KeyMap α) := fun m n =>
  if h : m.entries = n.entries then isTrue (ext_entries h)
  else isFalse fun e => h (congrArg entries e)

/-- The map without entries. -/
def empty : KeyMap α :=
  ⟨[], .nil⟩

instance : Inhabited (KeyMap α) := ⟨empty⟩

/-- The map with `value` at `key`, whatever stood there. -/
def insert (m : KeyMap α) (key : String) (value : α) : KeyMap α :=
  ⟨insertEntry key value m.entries, ascending_insertEntry key value m.ascending⟩

/-- The map of a list of entries; of two entries with one key the later stays. -/
def ofList (entries : List (String × α)) : KeyMap α :=
  entries.foldl (fun m e => m.insert e.1 e.2) empty

/-- The value at `key`. -/
def get? (m : KeyMap α) (key : String) : Option α :=
  m.entries.lookup key

/-- The map has an entry at `key`. -/
def contains (m : KeyMap α) (key : String) : Bool :=
  (m.get? key).isSome

/-- The keys, ascending. -/
def keys (m : KeyMap α) : List String :=
  m.entries.map (·.1)

/-- The number of entries. -/
def size (m : KeyMap α) : Nat :=
  m.entries.length

/-- The map whose value at a key is `f` of the value that `m` has there. -/
def map (f : α → β) (m : KeyMap α) : KeyMap β :=
  ⟨m.entries.map fun e => (e.1, f e.2), List.pairwise_map.2 m.ascending⟩

theorem lookup_insertEntry_self (key : String) (value : α) (entries : List (String × α)) :
    (insertEntry key value entries).lookup key = some value := by
  induction entries with
  | nil => simp [insertEntry]
  | cons e es ih =>
    obtain ⟨k, v⟩ := e
    rw [insertEntry]
    split
    · simp
    · split
      · simp
      · next hk => simp [List.lookup_cons, show (key == k) = false by simpa using hk, ih]

theorem lookup_insertEntry_of_ne {key other : String} (h : other ≠ key) (value : α)
    (entries : List (String × α)) :
    (insertEntry key value entries).lookup other = entries.lookup other := by
  have hne : (other == key) = false := by simpa using h
  induction entries with
  | nil => simp [insertEntry, List.lookup_cons, hne]
  | cons e es ih =>
    obtain ⟨k, v⟩ := e
    rw [insertEntry]
    split
    · simp [List.lookup_cons, hne]
    · split
      · next hk =>
        cases hk
        simp [List.lookup_cons, hne]
      · simp [List.lookup_cons, ih]

@[simp] theorem get?_empty (key : String) : (empty : KeyMap α).get? key = none := rfl

@[simp] theorem get?_insert_self (m : KeyMap α) (key : String) (value : α) :
    (m.insert key value).get? key = some value :=
  lookup_insertEntry_self key value m.entries

theorem get?_insert_of_ne (m : KeyMap α) {key other : String} (h : other ≠ key) (value : α) :
    (m.insert key value).get? other = m.get? other :=
  lookup_insertEntry_of_ne h value m.entries

@[simp] theorem keys_map (f : α → β) (m : KeyMap α) : (m.map f).keys = m.keys := by
  simp [keys, map, Function.comp_def]

/-! ### Maps of lists with distinct keys -/

theorem insertEntry_perm {key : String} (value : α) :
    ∀ {entries : List (String × α)}, key ∉ entries.map (·.1) →
      (insertEntry key value entries).Perm ((key, value) :: entries)
  | [], _ => .refl _
  | e :: es, h => by
    obtain ⟨hne, hes⟩ := not_or.1 (mt List.mem_cons.2 (List.map_cons ▸ h))
    rw [insertEntry]
    split
    · exact .refl _
    · exact ((insertEntry_perm value hes).cons e).trans (.swap ..)

theorem foldl_insert_perm : ∀ (entries : List (String × α)) (m : KeyMap α),
    ((entries ++ m.entries).map (·.1)).Nodup →
      (entries.foldl (fun m e => m.insert e.1 e.2) m).entries.Perm (entries ++ m.entries)
  | [], _, _ => .refl _
  | e :: es, m, h => by
    have hperm : (m.insert e.1 e.2).entries.Perm (e :: m.entries) := by
      refine insertEntry_perm e.2 fun hmem => ?_
      rw [List.cons_append, List.map_cons, List.nodup_cons, List.map_append] at h
      exact h.1 (List.mem_append_right _ hmem)
    have hmiddle : (es ++ (m.insert e.1 e.2).entries).Perm (e :: (es ++ m.entries)) :=
      (hperm.append_left es).trans List.perm_middle
    rw [List.foldl_cons]
    refine (foldl_insert_perm es _ ?_).trans hmiddle
    exact (hmiddle.map _).nodup_iff.2 h

/-- Keys in strictly ascending order are distinct. -/
theorem nodup_keys (m : KeyMap α) : (m.entries.map (·.1)).Nodup := by
  refine List.pairwise_map.2 (m.ascending.imp fun h e => ?_)
  exact String.lt_irrefl _ (e ▸ h)

/-- Ascending entries are known by what they are, whatever the order in which they are given. -/
theorem entries_eq_of_perm {m n : KeyMap α} (h : m.entries.Perm n.entries) : m = n := by
  refine ext_entries (h.eq_of_pairwise (fun a b _ _ hab hba => ?_) m.ascending n.ascending)
  exact absurd (String.lt_trans hab hba) (String.lt_irrefl _)

/-- A list with the entries of a map, in any order, gives back the map. -/
theorem ofList_eq_of_perm {entries : List (String × α)} {m : KeyMap α}
    (h : entries.Perm m.entries) : ofList entries = m := by
  have hnodup : ((entries ++ (empty : KeyMap α).entries).map (·.1)).Nodup := by
    rw [empty, List.append_nil]
    exact (h.map _).nodup_iff.2 m.nodup_keys
  have hfold := foldl_insert_perm entries empty hnodup
  rw [show (empty : KeyMap α).entries = [] from rfl, List.append_nil] at hfold
  exact entries_eq_of_perm (hfold.trans h)

/-- Where keys are distinct, the value found at a key is that of the only entry with the key. -/
theorem lookup_eq_some_iff {key : String} {value : α} : ∀ {entries : List (String × α)},
    (entries.map (·.1)).Nodup → (entries.lookup key = some value ↔ (key, value) ∈ entries)
  | [], _ => by simp
  | (k, v) :: rest, h => by
    obtain ⟨hnot, hrest⟩ := List.nodup_cons.1 (List.map_cons ▸ h)
    rw [List.lookup_cons, List.mem_cons, Prod.mk.injEq]
    by_cases hk : key = k
    · have hout : (key, value) ∉ rest := fun hmem => hnot (List.mem_map.2 ⟨_, hmem, hk⟩)
      rw [hk, beq_self_eq_true]
      exact ⟨fun hv => .inl ⟨rfl, (Option.some.inj hv).symm⟩,
        fun hv => (hv.resolve_right (hk ▸ hout)).2 ▸ rfl⟩
    · rw [beq_false_of_ne hk, lookup_eq_some_iff hrest]
      exact ⟨.inr, fun hv => hv.resolve_left fun hkv => hk hkv.1⟩

theorem get?_eq_some_iff {m : KeyMap α} {key : String} {value : α} :
    m.get? key = some value ↔ (key, value) ∈ m.entries :=
  lookup_eq_some_iff m.nodup_keys

theorem lookup_map_snd (f : α → β) (key : String) : ∀ entries : List (String × α),
    (entries.map fun e => (e.1, f e.2)).lookup key = (entries.lookup key).map f
  | [] => rfl
  | (k, v) :: rest => by
    rw [List.map_cons, List.lookup_cons, List.lookup_cons, lookup_map_snd f key rest]
    cases key == k <;> rfl

@[simp] theorem get?_map (f : α → β) (m : KeyMap α) (key : String) :
    (m.map f).get? key = (m.get? key).map f :=
  lookup_map_snd f key m.entries

end KeyMap
end Gleaner
