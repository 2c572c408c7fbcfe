/-
# The last step and the last segment

A selector is read in two ways: cut into steps, of which the last may be an accessor, and cut at its
last slash, behind which an accessor may stand. What stands behind the last slash is the last step
without its slashes. As an accessor it is taken for the same on both ways: a step with filters is
none, and its brackets make the segment none either, unless nothing but the sign of an attribute
stands before them.

Key definitions: `beforeMark`, `stepHead`.
Key theorems: `Accessor.read?_eq_none_iff`, `Accessor.read?_bracket`, `accessor_of_read`,
`splitters_agree`.
-/
import Gleaner.Proofs.Selector.Cutting
import Gleaner.Proofs.Selector.Layout
import Gleaner.Proofs.Selector.Reading
import Gleaner.Query.Selecting

namespace Gleaner.Selector

open Gleaner.Text

/-! ### Heads of steps -/

/-- A text up to its first mark outside of literals; `quoted` says that a literal is open. -/
def beforeMark (mark : Char → Bool) (quoted : Bool) : List Char → List Char
  | [] => []
  | c :: rest =>
    if !quoted && mark c then []
    else c :: beforeMark mark (if c = '\'' then !quoted else quoted) rest

/-- What stands before the first bracket of a step, without blanks at its ends. -/
def stepHead (step : List Char) : List Char :=
  trim (beforeMark isBracket false (stepBody step))

theorem beforeMark_append (mark : Char → Bool) (rest : List Char) :
    ∀ {text : List Char} {quoted : Bool}, freeOf mark quoted text = true →
      beforeMark mark quoted (text ++ rest) =
        text ++ beforeMark mark (quotedAfter quoted text) rest
  | [], _, _ => rfl
  | c :: text, quoted, h => by
    unfold freeOf at h
    rw [Bool.and_eq_true] at h
    have hc : (!quoted && mark c) = false := by
      have hpass := h.1
      cases quoted <;> simp_all
    rw [List.cons_append, beforeMark, if_neg (by simp [hc]), beforeMark_append mark rest h.2]
    rfl

/-- The head of a step is the one that it is laid out with. -/
theorem stepHead_of_layout {step : List Char} {l : Layout} (h : l.Sound)
    (htext : l.text = stepBody step) : stepHead step = trim l.head := by
  rw [stepHead, ← htext, Layout.text, beforeMark_append _ _ h.head.2, h.head.1]
  cases l.parts with
  | nil => simp [beforeMark]
  | cons p parts => simp [beforeMark, Part.text, isBracket]

/-! ### Accessors -/

/-- What an attribute's name stands behind. -/
def attributeSigns : List (List Char) :=
  [['@'], "attribute::".toList]

/-- What follows a sign of a text, whichever of the two it is. -/
theorem stripSign_eq_some_iff {text rest : List Char} :
    (stripStart? ['@'] text <|> stripStart? "attribute::".toList text) = some rest ↔
      ∃ sign ∈ attributeSigns, text = sign ++ rest := by
  rw [Option.orElse_eq_orElse, Option.orElse_eq_or, Option.or_eq_some_iff, stripStart?_eq_some_iff,
    stripStart?_eq_some_iff, attributeSigns]
  constructor
  · rintro (h | ⟨-, h⟩)
    · exact ⟨_, List.mem_cons_self, h⟩
    · exact ⟨_, List.mem_cons_of_mem _ List.mem_cons_self, h⟩
  · rintro ⟨sign, hsign, rfl⟩
    rw [List.mem_pair] at hsign
    rcases hsign with rfl | rfl
    · exact .inl rfl
    · exact .inr ⟨rfl, rfl⟩

/-- A segment is no accessor if it is neither of the two calls, and no name stands behind a sign. -/
theorem Accessor.read?_eq_none_iff {segment : List Char} : Accessor.read? segment = none ↔
    trim segment ≠ "text()".toList ∧ trim segment ≠ "node()".toList ∧
      ∀ sign ∈ attributeSigns, ∀ rest, trim segment = sign ++ rest → trim rest = [] := by
  unfold Accessor.read?
  dsimp only
  by_cases htext : trim segment = "text()".toList
  · rw [if_pos htext]
    exact iff_of_false (by simp) fun h => h.1 htext
  by_cases hnode : trim segment = "node()".toList
  · rw [if_neg htext, if_pos hnode]
    exact iff_of_false (by simp) fun h => h.2.1 hnode
  rw [if_neg htext, if_neg hnode, and_iff_right htext, and_iff_right hnode]
  cases hstrip : (stripStart? ['@'] (trim segment) <|>
      stripStart? "attribute::".toList (trim segment)) with
  | none =>
    refine iff_of_true rfl fun sign hsign rest hrest => ?_
    rw [stripSign_eq_some_iff.2 ⟨sign, hsign, hrest⟩] at hstrip
    cases hstrip
  | some name =>
    have hname : (∀ sign ∈ attributeSigns, ∀ rest, trim segment = sign ++ rest → trim rest = []) ↔
        trim name = [] := by
      constructor
      · intro h
        obtain ⟨sign, hsign, hrest⟩ := stripSign_eq_some_iff.1 hstrip
        exact h sign hsign name hrest
      · intro h sign hsign rest hrest
        rw [stripSign_eq_some_iff.2 ⟨sign, hsign, hrest⟩] at hstrip
        rw [Option.some.inj hstrip, h]
    rw [hname]
    simp

/-- An accessor is one of the two calls, or stands behind a sign. -/
theorem Accessor.read?_cases {segment : List Char} {a : Accessor}
    (h : Accessor.read? segment = some a) :
    a = .text ∧ trim segment = "text()".toList ∨ a = .node ∧ trim segment = "node()".toList ∨
      ∃ sign ∈ attributeSigns, ∃ rest name, trim segment = sign ++ rest ∧ a = .attribute name := by
  unfold Accessor.read? at h
  dsimp only at h
  split at h
  · next htext => exact .inl ⟨(Option.some.inj h).symm, htext⟩
  split at h
  · next hnode => exact .inr (.inl ⟨(Option.some.inj h).symm, hnode⟩)
  split at h
  · next rest hstrip =>
    obtain ⟨sign, hsign, hrest⟩ := stripSign_eq_some_iff.1 hstrip
    split at h
    · cases h
    · exact .inr (.inr ⟨sign, hsign, rest, _, hrest, (Option.some.inj h).symm⟩)
  · cases h

theorem Accessor.read?_trim (segment : List Char) :
    Accessor.read? (trim segment) = Accessor.read? segment := by
  unfold Accessor.read?
  rw [trim_trim]

/-- Where no accessor stands, a bracket and what follows make none, unless a sign alone stands
there. -/
theorem Accessor.read?_bracket {head : List Char} (hread : Accessor.read? head = none)
    (hsign : trim head ∉ attributeSigns) (more : List Char) :
    Accessor.read? (head ++ '[' :: more) = none := by
  obtain ⟨blanks, hblanks, htrim⟩ := trim_append_cons (c := '[') (by decide) head more
  have hcall {call : List Char} (hcall : '[' ∉ call) : trim (head ++ '[' :: more) ≠ call := by
    rintro rfl
    rw [htrim] at hcall
    simp at hcall
  refine Accessor.read?_eq_none_iff.2 ⟨hcall (by decide), hcall (by decide), ?_⟩
  intro sign hmem rest hrest
  -- Whatever the sign begins, it ends in the head, where only itself could be.
  exfalso
  rw [htrim, List.append_eq_append_iff] at hrest
  rcases hrest with ⟨front, rfl, hfront⟩ | ⟨name, hhead, -⟩
  · cases front with
    | nil =>
      rw [List.append_nil] at hmem
      exact hsign hmem
    | cons c front =>
      have hplain : ∀ sign ∈ attributeSigns, ∀ c ∈ sign, isBlank c = false ∧ c ≠ '[' := by decide
      obtain ⟨hblank, hbracket⟩ := hplain _ hmem c (by simp)
      cases blanks with
      | nil => exact hbracket (List.cons.inj hfront).1.symm
      | cons b blanks =>
        rw [← (List.cons.inj hfront).1, hblanks b List.mem_cons_self] at hblank
        cases hblank
  · have hname : Blanks name :=
      blanks_of_trim ((Accessor.read?_eq_none_iff.1 hread).2.2 sign hmem name hhead)
    have hend : ∀ sign ∈ attributeSigns, trimEnd sign = sign := by decide
    have halone : trim head = sign := by
      calc trim head = trimEnd (trim head) := (trimEnd_trimEnd _).symm
        _ = trimEnd (sign ++ name) := by rw [hhead]
        _ = sign := by rw [trimEnd_append _ hname, hend sign hmem]
    exact hsign (halone ▸ hmem)

/-! ### The last step -/

/-- Behind blanks too no slash stands in a text without slashes outside of literals. -/
theorem dropWhile_slash_of_free {front text back : List Char} (hfront : Blanks front)
    (hfree : freeOf isSlash false (front ++ text ++ back) = true) :
    text.dropWhile (· == '/') = text := by
  rw [freeOf_append, freeOf_append, Bool.and_eq_true, Bool.and_eq_true,
    (closed_slash_blanks hfront).1] at hfree
  cases text with
  | nil => rfl
  | cons c text =>
    have hc : isSlash c = false := by
      have hhead := hfree.1.2
      rw [freeOf, Bool.and_eq_true] at hhead
      simpa using hhead.1
    exact List.dropWhile_cons_of_neg (by rw [← isSlash, hc]; exact Bool.false_ne_true)

/-- What is stripped of a step is cut off its segment too. -/
theorem trim_stepBody {body : List Char} (hfree : freeOf isSlash false body = true) :
    ∀ n : Nat, trim (stepBody (slashes n ++ body)) = trim body
  | 0 => by
    obtain ⟨before, after, hbefore, -, hbody⟩ := exists_trim body
    rw [hbody] at hfree
    change trim ((trim body).dropWhile (· == '/')) = trim body
    rw [dropWhile_slash_of_free hbefore hfree, trim_trim]
  | n + 1 => by
    obtain ⟨after, hafter, hbody⟩ := exists_trimEnd body
    have hstart : trimStart (slashes (n + 1) ++ body) = slashes (n + 1) ++ body :=
      trimStart_cons (by decide) (slashes n ++ body)
    have htrim : trim (slashes (n + 1) ++ body) = slashes (n + 1) ++ trimEnd body := by
      rw [trim, hstart, slashes_succ, List.append_assoc, List.append_assoc]
      exact trimEnd_append_cons (by decide) (slashes n) body
    have hend := trim_append_blanks (trimEnd body) hafter
    rw [← hbody] at hend
    rw [hbody, ← List.nil_append (trimEnd body)] at hfree
    rw [stepBody, htrim, dropWhile_slashes, dropWhile_slash_of_free Blanks.nil hfree, hend]

/-- With filters a step is no accessor. -/
theorem Target.accessor?_of_filters {t : Target} (h : t.filters ≠ []) : t.accessor? = none := by
  cases t with
  | accessor a => exact absurd rfl h
  | _ => rfl

/-- The sign of an attribute that is an axis is the head of no step. -/
theorem readTarget_attribute (filters : List Filter) :
    readTarget "attribute::".toList filters = .error (.unsupportedAxis "attribute") :=
  rfl

/-- A step is an accessor as the segment that it is made of is. -/
theorem accessor_of_read {n : Nat} {body : List Char} {s : Step}
    (hfree : freeOf isSlash false body = true) (h : Step.read (slashes n ++ body) = .ok s)
    (hhead : stepHead (slashes n ++ body) ≠ ['@']) : s.accessor? = Accessor.read? body := by
  obtain ⟨l, htext, hreadable, -, htarget⟩ := Step.exists_layout_of_read h
  rw [stepHead_of_layout hreadable.sound htext] at hhead
  have hbody : Accessor.read? body = Accessor.read? l.text := by
    rw [← Accessor.read?_trim body, ← trim_stepBody hfree n, ← htext, Accessor.read?_trim]
  obtain ⟨hfilters, haccessor⟩ := of_readTarget htarget
  rw [Accessor.read?_trim] at haccessor
  rw [hbody, Step.accessor?_eq, haccessor, Layout.text]
  have hgroups := hreadable.groups
  rw [Layout.groups] at hgroups
  cases hparts : l.parts with
  | nil => simp
  | cons p parts =>
    have hsome : s.target.filters ≠ [] := by
      rintro hnil
      rw [hparts, ← hfilters, hnil] at hgroups
      cases hgroups
    have hnone := haccessor.symm.trans (Target.accessor?_of_filters hsome)
    have hsign : trim l.head ∉ attributeSigns := by
      rw [attributeSigns, List.mem_pair, not_or]
      refine ⟨hhead, fun hattribute => ?_⟩
      rw [hattribute, readTarget_attribute] at htarget
      cases htarget
    rw [hnone, List.flatMap_cons, Part.text, List.cons_append]
    exact (Accessor.read?_bracket hnone hsign _).symm

/-! ### The whole selector -/

/-- The accessor of a selector is the one that its last step is, if it is one. -/
theorem exists_last_of_read {text last : List Char} {s : Selector}
    (h : read (String.ofList text) = .ok s) (hlast : (splitSteps text).getLast? = some last) :
    ∃ step, Step.read last = .ok step ∧ s.accessor = step.accessor? := by
  obtain ⟨-, steps, hsteps, -, hcomposed⟩ := read_eq_ok_iff.1 h
  rw [String.toList_ofList] at hsteps
  have hread := congrArg List.getLast? hsteps
  rw [List.getLast?_map, List.getLast?_map, hlast, Option.map_some, eq_comm,
    Option.map_eq_some_iff] at hread
  obtain ⟨step, hstep, hok⟩ := hread
  refine ⟨step, hok.symm, ?_⟩
  rw [hcomposed.accessor_eq, hstep]
  rfl

theorem splitAccessor_snd (text : List Char) :
    (Query.splitAccessor text).2 = Accessor.read? (splitLast text).2 := by
  unfold Query.splitAccessor
  dsimp only
  split
  · next hread => exact hread.symm
  · next a hread => split <;> exact hread.symm

/-- The two sides of the last slash, by what stands behind it. -/
theorem splitLast_of_segment {text body : List Char} (hfree : freeOf isSlash false body = true)
    (h : text = body ∨ ∃ before, text = before ++ '/' :: body ∧ quotedAfter false before = false) :
    (splitLast text).2 = body ∧
      (freeOf isSlash false text = false → (splitLast text).1 ++ '/' :: body = text) := by
  rcases h with rfl | ⟨before, rfl, hbefore⟩
  · rw [splitLast_of_free hfree, hfree]
    exact ⟨rfl, fun hslash => by cases hslash⟩
  · rw [splitLast_append hbefore hfree]
    exact ⟨rfl, fun _ => rfl⟩

/-- **The two ways to take a selector apart agree.** Of a text that does not end in a separating
slash, what follows the last one is the last step without its slashes, and the two sides and the
slash are all of the text. If the text is a selector whose last step is more than the sign of an
attribute before its brackets, then both ways find the same accessor, or none. -/
theorem splitters_agree {text : List Char} (hne : text ≠ []) (hend : ¬EndsInSlash text) :
    (splitSteps text).getLast?.map (List.dropWhile (· == '/')) = some (splitLast text).2 ∧
      (freeOf isSlash false text = false →
        (splitLast text).1 ++ '/' :: (splitLast text).2 = text) ∧
      ∀ s, read (String.ofList text) = .ok s →
        (∀ last ∈ (splitSteps text).getLast?, stepHead last ≠ ['@']) →
        (Query.splitAccessor text).2 = s.accessor := by
  obtain ⟨k, hcut⟩ := exists_cut text
  obtain rfl : k = 0 := Nat.eq_zero_of_not_pos fun hk => hend (hcut.endsInSlash_iff.2 hk)
  obtain ⟨n, body, hlast, hfree, hsplit⟩ := hcut.last_segment hne
  obtain ⟨hsegment, hwhole⟩ := splitLast_of_segment hfree hsplit
  rw [splitAccessor_snd, hlast, hsegment]
  refine ⟨?_, hwhole, fun s hs hhead => ?_⟩
  · have hwhole : freeOf isSlash false ([] ++ body ++ []) = true := by
      rw [List.nil_append, List.append_nil, hfree]
    rw [Option.map_some, dropWhile_slashes, dropWhile_slash_of_free Blanks.nil hwhole]
  · obtain ⟨step, hok, haccessor⟩ := exists_last_of_read hs hlast
    rw [haccessor]
    exact (accessor_of_read hfree hok (hhead _ rfl)).symm

theorem splitters_agree_behind_literal :
    (splitSteps "//a[@b='/']//@id".toList).getLast?.map (List.dropWhile (· == '/')) =
        some "@id".toList ∧
      (Query.splitAccessor "//a[@b='/']//@id".toList).2 = some (.attribute "id") := by
  have hread : read (String.ofList "//a[@b='/']//@id".toList) =
      .ok ⟨"//a[@b='/']//@id", [⟨"//a[@b='/']", .below, .element "a" [.attributeIs "b" "/"]⟩],
        some (.attribute "id")⟩ := by
    decide +kernel
  have hne : "//a[@b='/']//@id".toList ≠ [] := by decide
  have hend : ¬EndsInSlash "//a[@b='/']//@id".toList := by decide
  obtain ⟨hsegment, -, haccessor⟩ := splitters_agree hne hend
  exact ⟨hsegment, haccessor _ hread (by decide)⟩

end Gleaner.Selector
