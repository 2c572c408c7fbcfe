/-
# Places of selected values

A place in a JSON value is a row of keys that leads to a value at or below it: names, and positions
counted from the front, so no value has two places because of a negative position. What a path
selects lies at places of the value it starts from. Segments that go to children make each place
longer by one key, and what a single choice takes among the children of one value has different last
keys; so places that are all different stay so. Two points are followed by places of any length, but
up to there all places are of one length, and none lies below another: what is below them is
different, too.

Not covered: unions, which may name a child twice, and paths with two points twice, which come to a
value from two values above it.

Key definitions: `Json.At`, `Located`, `Choice.isUnion`, `Segment.descends`.
Key theorems: `Located.flatMap`, `located_selfAndBelow`, `located_choice`, `located_selectAll?`,
`select_at_places`.
-/
import Gleaner.Proofs.Json.Below
import Gleaner.Proofs.JsonPath.Accepted
import Gleaner.Proofs.JsonPath.Slice
import Mathlib.Data.List.Nodup

namespace Gleaner

open Gleaner.JsonPath Gleaner.Number

/-- A value lies at a place of another one: at the end of a row of positions in arrays and of names
in objects. -/
inductive Json.At : Json → List Key → Json → Prop
  | here (json : Json) : At json [] json
  | item {items : List Json} {i : Nat} {item value : Json} {place : List Key}
      (hitem : items[i]? = some item) (h : At item place value) :
      At (.array items) (.index i :: place) value
  | field {fields : List (String × Json)} {name : String} {field value : Json} {place : List Key}
      (hfield : fields.lookup name = some field) (h : At field place value) :
      At (.object fields) (.name name :: place) value

variable {json value : Json}

/-- A place in a value that lies at a place. -/
theorem Json.At.append {middle : Json} {place tail : List Key} (h : json.At place middle)
    (htail : middle.At tail value) : json.At (place ++ tail) value := by
  induction h with
  | here => exact htail
  | item hitem _ ih => exact .item hitem (ih htail)
  | field hfield _ ih => exact .field hfield (ih htail)

namespace JsonPath

/-! ### Values at different places -/

/-- Values lie at different places of a kind. -/
def Located (json : Json) (P : List Key → Prop) (values : List Json) : Prop :=
  ∃ places : List (List Key), places.Nodup ∧ (∀ place ∈ places, P place) ∧
    List.Forall₂ json.At places values

section

variable {P Q R : List Key → Prop} {values : List Json}

theorem Located.mono (h : Located json P values) (hPQ : ∀ place, P place → Q place) :
    Located json Q values := by
  obtain ⟨places, hnodup, hplaces, hat⟩ := h
  exact ⟨places, hnodup, fun place hplace => hPQ place (hplaces place hplace), hat⟩

theorem exists_at_of_mem {places : List (List Key)} (h : List.Forall₂ json.At places values)
    (hvalue : value ∈ values) : ∃ place ∈ places, json.At place value := by
  induction h with
  | nil => cases hvalue
  | @cons place first places values hfirst _ ih =>
    rcases List.mem_cons.1 hvalue with rfl | hvalue
    · exact ⟨place, List.mem_cons_self, hfirst⟩
    · obtain ⟨other, hother, hat⟩ := ih hvalue
      exact ⟨other, List.mem_cons_of_mem place hother, hat⟩

theorem Located.nil : Located json P [] :=
  ⟨[], .nil, List.forall_mem_nil _, .nil⟩

/-- Some of the values lie at some of the places. -/
theorem Located.sublist {some : List Json} (h : Located json P values) (hsome : some.Sublist values) :
    Located json P some := by
  obtain ⟨places, hnodup, hP, hat⟩ := h
  suffices hchosen : ∃ chosen, chosen.Sublist places ∧ List.Forall₂ json.At chosen some by
    obtain ⟨chosen, hchosen, hsome⟩ := hchosen
    exact ⟨chosen, hnodup.sublist hchosen, fun place hplace => hP place (hchosen.mem hplace), hsome⟩
  clear hnodup hP
  induction hsome generalizing places with
  | slnil =>
    cases hat
    exact ⟨[], .slnil, .nil⟩
  | cons value _ ih =>
    cases hat with
    | cons _ hat =>
      obtain ⟨chosen, hchosen, hsome⟩ := ih _ hat
      exact ⟨chosen, hchosen.cons _, hsome⟩
  | cons_cons value _ ih =>
    cases hat with
    | cons hvalue hat =>
      obtain ⟨chosen, hchosen, hsome⟩ := ih _ hat
      exact ⟨_ :: chosen, hchosen.cons_cons _, hsome.cons hvalue⟩

/-- What is found from each of several values lies at different places, if no two of their places
go on to the same one. -/
theorem Located.flatMap {follow : Json → List Json} (h : Located json P values)
    (hfollow : ∀ value ∈ values, Located value Q (follow value))
    (happart : ∀ {place other tail rest : List Key}, P place → P other → Q tail → Q rest →
      place ++ tail = other ++ rest → place = other)
    (hR : ∀ {place tail : List Key}, P place → Q tail → R (place ++ tail)) :
    Located json R (values.flatMap follow) := by
  obtain ⟨places, hnodup, hP, hat⟩ := h
  -- Each place found begins with one of the places from which it was found.
  suffices hfound : ∃ found : List (List Key), found.Nodup ∧
      (∀ place ∈ found, ∃ front ∈ places, ∃ tail, Q tail ∧ place = front ++ tail) ∧
        List.Forall₂ json.At found (values.flatMap follow) by
    obtain ⟨found, hdistinct, hparts, hfound⟩ := hfound
    refine ⟨found, hdistinct, fun place hplace => ?_, hfound⟩
    obtain ⟨front, hfront, tail, htail, rfl⟩ := hparts place hplace
    exact hR (hP front hfront) htail
  induction hat with
  | nil => exact ⟨[], .nil, List.forall_mem_nil _, .nil⟩
  | @cons place value places values hvalue hat ih =>
    obtain ⟨hnew, hnodup⟩ := List.nodup_cons.1 hnodup
    obtain ⟨hplace, hP⟩ := List.forall_mem_cons.1 hP
    obtain ⟨hhere, hfollow⟩ := List.forall_mem_cons.1 hfollow
    obtain ⟨tails, htails, hQ, hbelow⟩ := hhere
    obtain ⟨found, hdistinct, hparts, hfound⟩ := ih hfollow hnodup hP
    refine ⟨tails.map (place ++ ·) ++ found, ?_, ?_, ?_⟩
    · refine (htails.map (List.append_right_injective place)).append hdistinct ?_
      intro both hleft hright
      obtain ⟨tail, htail, rfl⟩ := List.mem_map.1 hleft
      obtain ⟨front, hfront, rest, hrest, heq⟩ := hparts _ hright
      obtain rfl := happart hplace (hP front hfront) (hQ tail htail) hrest heq
      exact hnew hfront
    · intro both hboth
      rcases List.mem_append.1 hboth with hboth | hboth
      · obtain ⟨tail, htail, rfl⟩ := List.mem_map.1 hboth
        exact ⟨place, List.mem_cons_self, tail, hQ tail htail, rfl⟩
      · obtain ⟨front, hfront, rest⟩ := hparts both hboth
        exact ⟨front, List.mem_cons_of_mem place hfront, rest⟩
    · rw [List.flatMap_cons]
      refine List.rel_append ?_ hfound
      rw [List.forall₂_map_left_iff]
      exact hbelow.imp fun _ _ htail => hvalue.append htail

theorem Located.gatherEach? {follow : Json → Option (List Json)} {found : List Json}
    (h : Located json P values) (hfound : JsonPath.gatherEach? follow values = some found)
    (hfollow : ∀ value ∈ values, ∀ part, follow value = some part → Located value Q part)
    (happart : ∀ {place other tail rest : List Key}, P place → P other → Q tail → Q rest →
      place ++ tail = other ++ rest → place = other)
    (hR : ∀ {place tail : List Key}, P place → Q tail → R (place ++ tail)) :
    Located json R found := by
  obtain ⟨hsome, rfl⟩ := gatherEach?_eq_some_iff.1 hfound
  refine h.flatMap (fun value hvalue => hfollow value hvalue _ ?_) happart hR
  obtain ⟨part, hpart⟩ := Option.isSome_iff_exists.1 (hsome value hvalue)
  rw [hpart]
  rfl

end

/-! ### Children -/

/-- A place of a single key. -/
def Short (place : List Key) : Prop :=
  place.length = 1

/-- Places that go on to the same one by a single key are the same. -/
theorem Short.apart {place other tail rest : List Key} (htail : Short tail) (hrest : Short rest)
    (h : place ++ tail = other ++ rest) : place = other :=
  List.append_inj_left' h (by rw [htail, hrest])

/-- Items at different positions lie at different places. -/
theorem located_positions {items found : List Json} {positions : List Int}
    (hnodup : positions.Nodup)
    (h : List.Forall₂ (fun (i : Int) item => 0 ≤ i ∧ items[i.toNat]? = some item) positions found) :
    Located (.array items) Short found := by
  refine ⟨positions.map fun i => [.index i], ?_, ?_, ?_⟩
  · apply hnodup.map
    rintro i j ⟨⟩
    rfl
  · rintro _ hplace
    obtain ⟨i, -, rfl⟩ := List.mem_map.1 hplace
    rfl
  · rw [List.forall₂_map_left_iff]
    refine h.imp fun i item hitem => ?_
    obtain ⟨n, rfl⟩ := Int.eq_ofNat_of_zero_le hitem.1
    exact .item hitem.2 (.here item)

theorem located_items (items : List Json) : Located (.array items) Short items := by
  apply located_positions ((List.nodup_range (n := items.length)).map Int.ofNat_injective)
  rw [List.forall₂_map_left_iff, List.forall₂_iff_get]
  refine ⟨List.length_range, fun i hi hitem => ⟨Int.natCast_nonneg _, ?_⟩⟩
  simp at hitem ⊢

theorem located_fields {fields : List (String × Json)} (h : (fields.map (·.1)).Nodup) :
    Located (.object fields) Short (fields.map (·.2)) := by
  refine ⟨fields.map fun e => [.name e.1], ?_, ?_, ?_⟩
  · have hnames := h.map (f := fun name => [Key.name name]) (by rintro a b ⟨⟩; rfl)
    rwa [List.map_map] at hnames
  · rintro _ hplace
    obtain ⟨e, -, rfl⟩ := List.mem_map.1 hplace
    rfl
  · rw [List.forall₂_map_left_iff, List.forall₂_map_right_iff, List.forall₂_same]
    exact fun e he => .field ((KeyMap.lookup_eq_some_iff h).2 he) (.here e.2)

theorem located_children (h : json.Keyed) : Located json Short json.children := by
  cases json with
  | array items => exact located_items items
  | object fields => exact located_fields (h fields (Json.self_mem_selfAndBelow _))
  | _ => exact .nil

/-- A value and all that lies below it lie at different places of it. -/
theorem located_selfAndBelow (h : json.Keyed) : Located json (fun _ => True) json.selfAndBelow := by
  induction json using Json.induction_children with
  | step json ih =>
    obtain ⟨places, hnodup, hbelow, hat⟩ :
        Located json (· ≠ []) (json.children.flatMap Json.selfAndBelow) := by
      refine (located_children h).flatMap (fun child hchild => ih child hchild (h.child hchild))
        ?_ ?_
      · intro place other tail rest hplace hother _ _ heq
        exact List.append_inj_left heq (by rw [hplace, hother])
      · rintro place tail hplace - heq
        rw [(List.append_eq_nil_iff.1 heq).1] at hplace
        cases hplace
    rw [Json.selfAndBelow_eq]
    exact ⟨[] :: places, List.nodup_cons.2 ⟨fun hnil => hbelow [] hnil rfl, hnodup⟩,
      fun _ _ => trivial, hat.cons (.here json)⟩

/-! ### Items and choices -/

/-- The positions of a slice are all different. -/
theorem nodup_referencePositions (length : Nat) (start stop : Option Int) {step : Int}
    (h : step ≠ 0) : (referencePositions length start stop step).Nodup := by
  refine List.Nodup.filter _ (List.nodup_range.map ?_)
  intro j k hjk
  have hsteps : (j : Int) * step = k * step := by
    dsimp only at hjk
    omega
  exact Int.ofNat_injective (Int.eq_of_mul_eq_mul_right h hsteps)

theorem located_sliceOf? {items selected : List Json} {start stop : Option Int} {step : Int}
    (h : sliceOf? items start stop step = some selected) :
    Located (.array items) Short selected := by
  by_cases hitems : (items.length : Int) ≤ greatestInt64
  · by_cases hstep : step = 0
    · -- A step of zero leads nowhere.
      rw [sliceOf?, if_neg (Int.not_lt.2 hitems), slicePositions?_eq_walk?, hstep, walk?] at h
      cases h
      exact .nil
    · exact located_positions (nodup_referencePositions items.length start stop hstep)
        ((sliceOf?_reference hitems start stop hstep).1 selected h)
  · rw [sliceOf?, if_pos (Int.not_le.1 hitems)] at h
    cases h
    exact .nil

theorem located_option {found : Option Json}
    (h : ∀ value ∈ found, ∃ key : Key, json.At [key] value) : Located json Short found.toList := by
  cases found with
  | none => exact .nil
  | some value =>
    obtain ⟨key, hkey⟩ := h value rfl
    exact ⟨[[key]], List.nodup_singleton _, List.forall_mem_singleton.2 rfl, .cons hkey .nil⟩

/-- The children that an item takes lie at different places. -/
theorem located_item {item : Item} {selected : List Json} (hkeyed : json.Keyed)
    (h : item.select? json = some selected) : Located json Short selected := by
  cases item with
  | name name =>
    cases h
    refine located_option fun value hvalue => ?_
    cases json with
    | object fields => exact ⟨.name name, .field hvalue (.here value)⟩
    | _ => cases hvalue
  | wildcard =>
    cases h
    exact located_children hkeyed
  | index i =>
    cases h
    refine located_option fun value hvalue => ?_
    cases json with
    | array items =>
      have hitem : itemAt? items i = some value := hvalue
      unfold itemAt? at hitem
      dsimp only at hitem
      split at hitem
      · cases hitem
      · exact ⟨.index (fromEnd items.length i).toNat, .item hitem (.here value)⟩
    | _ => cases hvalue
  | slice start stop step =>
    cases json with
    | array items => exact located_sliceOf? h
    | _ =>
      cases h
      exact .nil

/-- A choice of several items. -/
def Choice.isUnion : Choice → Bool
  | .union _ => true
  | _ => false

/-- The children that a single choice takes lie at different places. -/
theorem located_choice {choice : Choice} {selected : List Json} (hunion : choice.isUnion = false)
    (hkeyed : json.Keyed) (h : choice.select? json = some selected) :
    Located json Short selected := by
  cases choice with
  | item single => exact located_item hkeyed h
  | union items => cases hunion
  | filter condition =>
    cases h
    exact (located_children hkeyed).sublist List.filter_sublist

/-! ### Segments -/

/-- A segment goes to all that lies below a value. -/
def Segment.descends : Segment → Bool
  | .child _ => false
  | .descendant _ => true

/-- What a segment finds from a value lies at different places: one key further if it goes to
children, anywhere if it goes below. -/
theorem located_segment {segment : Segment} {selected : List Json}
    (hunion : segment.choice.isUnion = false) (hkeyed : json.Keyed)
    (h : segment.select? json = some selected) :
    Located json (fun place => segment.descends = false → Short place) selected := by
  cases segment with
  | child choice => exact (located_choice hunion hkeyed h).mono fun place hplace _ => hplace
  | descendant choice =>
    refine (located_selfAndBelow hkeyed).gatherEach? h (fun below hbelow part hpart => ?_)
      (fun _ _ htail hrest heq => Short.apart htail hrest heq) (fun _ _ => nofun)
    exact located_choice hunion (hkeyed.below hbelow) hpart

section

variable {root : Json} {segments : List Segment} {values selected : List Json}

theorem keyed_of_gatherEach? {segment : Segment} {found : List Json}
    (hvalues : ∀ value ∈ values, value.Keyed)
    (h : gatherEach? (fun value => segment.select? value) values = some found) :
    ∀ value ∈ found, value.Keyed := by
  intro value hvalue
  obtain ⟨source, hsource, part, hpart, hmem⟩ := exists_of_mem_gatherEach? h hvalue
  exact (hvalues source hsource).below (Segment.below_of_select? hpart hmem)

/-- Segments that go to children keep different places different. -/
theorem located_selectAll?_children (hsegments : ∀ segment ∈ segments,
      segment.choice.isUnion = false ∧ segment.descends = false)
    (hkeyed : ∀ value ∈ values, value.Keyed) (hselect : selectAll? segments values = some selected)
    (h : Located root (fun _ => True) values) : Located root (fun _ => True) selected := by
  induction segments generalizing values with
  | nil =>
    cases hselect
    exact h
  | cons segment rest ih =>
    obtain ⟨⟨hunion, hchild⟩, hrest⟩ := List.forall_mem_cons.1 hsegments
    obtain ⟨found, hfound, hselect⟩ := Option.bind_eq_some_iff.1 hselect
    refine ih hrest (keyed_of_gatherEach? hkeyed hfound) hselect ?_
    refine h.gatherEach? hfound (fun value hvalue part hpart =>
      located_segment hunion (hkeyed value hvalue) hpart) ?_ (fun _ _ => trivial)
    exact fun _ _ htail hbelow heq => Short.apart (htail hchild) (hbelow hchild) heq

/-- Segments of which at most one goes below lead from different places of one length to different
places. -/
theorem located_selectAll? (hunion : ∀ segment ∈ segments, segment.choice.isUnion = false)
    (honce : segments.countP Segment.descends ≤ 1) (hkeyed : ∀ value ∈ values, value.Keyed)
    (hselect : selectAll? segments values = some selected) {depth : Nat}
    (h : Located root (fun place => place.length = depth) values) :
    Located root (fun _ => True) selected := by
  induction segments generalizing values depth with
  | nil =>
    cases hselect
    exact h.mono fun _ _ => trivial
  | cons segment rest ih =>
    obtain ⟨hhere, hrest⟩ := List.forall_mem_cons.1 hunion
    obtain ⟨found, hfound, hselect⟩ := Option.bind_eq_some_iff.1 hselect
    have hfollow : ∀ value ∈ values, ∀ part, segment.select? value = some part →
        Located value (fun place => segment.descends = false → Short place) part :=
      fun value hvalue part hpart => located_segment hhere (hkeyed value hvalue) hpart
    have happart {place other tail below : List Key} (hplace : place.length = depth)
        (hother : other.length = depth) (heq : place ++ tail = other ++ below) : place = other :=
      List.append_inj_left heq (by rw [hplace, hother])
    cases hdescends : segment.descends with
    | false =>
      rw [List.countP_cons_of_neg (by rw [hdescends]; decide)] at honce
      have hnext : Located root (fun place => place.length = depth + 1) found := by
        refine h.gatherEach? hfound hfollow (fun hplace hother _ _ => happart hplace hother) ?_
        intro place tail hplace htail
        rw [List.length_append, hplace, htail hdescends]
      exact ih hrest honce (keyed_of_gatherEach? hkeyed hfound) hselect hnext
    | true =>
      -- All that follows goes to children.
      rw [List.countP_cons_of_pos hdescends] at honce
      have hnone := List.countP_eq_zero.1 (Nat.le_zero.1 (Nat.le_of_succ_le_succ honce))
      have hchildren : ∀ later ∈ rest, later.choice.isUnion = false ∧ later.descends = false :=
        fun later hlater => ⟨hrest later hlater, Bool.eq_false_iff.2 (hnone later hlater)⟩
      have hnext : Located root (fun _ => True) found :=
        h.gatherEach? hfound hfollow (fun hplace hother _ _ => happart hplace hother)
          (fun _ _ => trivial)
      exact located_selectAll?_children hchildren (keyed_of_gatherEach? hkeyed hfound) hselect hnext

end

/-- Values at different places are different, if each value has one place. -/
theorem nodup_of_forall₂_at {root : Json} {places : List (List Key)} {values : List Json}
    (hat : List.Forall₂ root.At places values) (hnodup : places.Nodup)
    (hplace : ∀ place other value, root.At place value → root.At other value → place = other) :
    values.Nodup := by
  induction hat with
  | nil => exact .nil
  | @cons place value places values hvalue hat ih =>
    obtain ⟨hnew, hnodup⟩ := List.nodup_cons.1 hnodup
    refine List.nodup_cons.2 ⟨fun hagain => hnew ?_, ih hnodup⟩
    obtain ⟨other, hother, hat⟩ := exists_at_of_mem hat hagain
    rw [hplace place other value hvalue hat]
    exact hother

/-- **A path selects values at places of the document, without duplication.** Whatever the path,
where its evaluation does not break off, each value that it selects from the value of a JSON text
lies at a place of it. If the path has no union and goes below at most once, these places are all
different; so no value is selected twice where values at different places differ. -/
theorem select_at_places {content : String} {root : Json} (hread : Json.read? content = some root)
    (path : JsonPath) {selected : List Json} (hselect : path.select? root = some selected) :
    (∀ value ∈ selected, ∃ place, root.At place value) ∧
      ((∀ segment ∈ path.segments, segment.choice.isUnion = false) →
        path.segments.countP Segment.descends ≤ 1 →
          (∃ places : List (List Key), places.Nodup ∧ List.Forall₂ root.At places selected) ∧
          ((∀ place other value, root.At place value → root.At other value → place = other) →
            selected.Nodup)) := by
  have hkeyed : root.Keyed := Json.read?_keyed hread
  refine ⟨fun value hvalue => ?_, fun hunion honce => ?_⟩
  · obtain ⟨places, -, -, hat⟩ := located_selfAndBelow hkeyed
    obtain ⟨place, -, hplace⟩ := exists_at_of_mem hat (below_of_select? hselect hvalue)
    exact ⟨place, hplace⟩
  have hroot : Located root (fun place => place.length = 0) [root] :=
    ⟨[[]], List.nodup_singleton _, List.forall_mem_singleton.2 rfl, .cons (.here root) .nil⟩
  obtain ⟨places, hnodup, -, hat⟩ := located_selectAll? hunion honce
    (List.forall_mem_singleton.2 hkeyed) hselect hroot
  exact ⟨⟨places, hnodup, hat⟩, nodup_of_forall₂_at hat hnodup⟩

/-- A null, and a truth in an array of its own. -/
def nullAndTruth : Json :=
  .array [.null, .array [.boolean true]]

theorem read_nullAndTruth : Json.read? "[null,[true]]" = some nullAndTruth := by
  have hinner : Json.readWritten? ['[', 't', 'r', 'u', 'e', ']', ']'] =
      some (.array [.boolean true], ⟨[']'], by decide⟩) := by
    rw [Json.readWritten?]
    show ((Json.readItems? _).bind _) = _
    rw [Json.readItems?, Json.readWritten?]
    rfl
  have hsecond : Json.readItems? ['[', 't', 'r', 'u', 'e', ']', ']'] =
      some ([.array [.boolean true]], ⟨[], by decide⟩) := by
    rw [Json.readItems?, hinner]
    rfl
  have hwritten : Json.writtenOf? "[null,[true]]" =
      some (.array [.null, .array [.boolean true]]) := by
    show (Json.readWritten?
      ['[', 'n', 'u', 'l', 'l', ',', '[', 't', 'r', 'u', 'e', ']', ']']).bind _ = _
    rw [Json.readWritten?]
    show ((Json.readItems? _).bind _).bind _ = _
    rw [Json.readItems?, Json.readWritten?]
    show (((Json.readItems? ['[', 't', 'r', 'u', 'e', ']', ']']).bind _).bind _).bind _ = _
    rw [hsecond]
    rfl
  rw [Json.read?, hwritten]
  rfl

/-- Each value in `nullAndTruth` lies at one of four places. -/
theorem at_nullAndTruth {place : List Key} {value : Json} (h : nullAndTruth.At place value) :
    (place, value) ∈ [([], nullAndTruth), ([.index 0], .null), ([.index 1], .array [.boolean true]),
      ([.index 1, .index 0], .boolean true)] := by
  cases h with
  | here => exact .head _
  | @item _ i item _ place hitem hrest =>
    match i with
    | 0 =>
      cases hitem
      cases hrest
      exact .tail _ (.head _)
    | 1 =>
      cases hitem
      cases hrest with
      | here => exact .tail _ (.tail _ (.head _))
      | @item _ j truth _ place htruth hrest =>
        match j with
        | 0 =>
          cases htruth
          cases hrest
          exact .tail _ (.tail _ (.tail _ (.head _)))

theorem select_at_places_backwards :
    ∃ path selected, JsonPath.read "$..[::-1]" = .ok path ∧
      Json.read? "[null,[true]]" = some nullAndTruth ∧
      path.select? nullAndTruth = some selected ∧ selected.Nodup ∧
      ∀ value ∈ selected, ∃ place, nullAndTruth.At place value := by
  have hlegible : ∀ segment ∈ [Segment.descendant (.item (.slice none none (-1)))],
      segment.Legible :=
    List.forall_mem_singleton.2 ⟨nofun, nofun, by decide, by decide⟩
  have htext : String.ofList (writtenPath true
      [Segment.descendant (.item (.slice none none (-1)))]) = "$..[::-1]" := by
    decide +kernel
  have hpath := read_of_written true htext hlegible
  have hselect : JsonPath.select? ⟨"$..[::-1]", [.descendant (.item (.slice none none (-1)))]⟩
      nullAndTruth = some [.array [.boolean true], .null, .boolean true] := by
    have houter : sliceOf? [.null, .array [.boolean true]] none none (-1) =
        some [Json.array [.boolean true], .null] := by
      rw [sliceOf?_eq (by decide) none none (by decide)]
      rfl
    have hinner : sliceOf? [.boolean true] none none (-1) = some [Json.boolean true] := by
      rw [sliceOf?_eq (by decide) none none (by decide)]
      rfl
    have hbelow : nullAndTruth.selfAndBelow = [.array [.null, .array [.boolean true]], .null,
        .array [.boolean true], .boolean true] := rfl
    rw [select?_single, Segment.select?, hbelow]
    simp only [gatherEach?, Choice.select?, Item.select?, houter, hinner]
    rfl
  obtain ⟨hat, hdistinct⟩ := select_at_places read_nullAndTruth
    ⟨"$..[::-1]", [.descendant (.item (.slice none none (-1)))]⟩ hselect
  refine ⟨_, _, hpath, read_nullAndTruth, hselect, ?_, hat⟩
  refine (hdistinct (List.forall_mem_singleton.2 rfl) (Nat.le_refl 1)).2 ?_
  intro place other value hplace hother
  have hplace := at_nullAndTruth hplace
  have hother := at_nullAndTruth hother
  simp only [List.mem_cons, List.not_mem_nil, or_false, Prod.mk.injEq] at hplace hother
  rcases hplace with ⟨rfl, rfl⟩ | ⟨rfl, rfl⟩ | ⟨rfl, rfl⟩ | ⟨rfl, rfl⟩ <;>
    simpa [nullAndTruth, eq_comm] using hother

end JsonPath
end Gleaner
