/-
# Queries that are taken for a query and an accessor

A selector is read as a path query once what stands behind its last slash is taken off it, if that
is a value accessor. The slash is looked for with an eye on single quotation marks alone. In a text
that is a query to elements the sign of an attribute behind that slash stands in a condition, or in
a literal between double marks, for a step that reads values would end the query. What is left
before the slash is then no query: a bracket of it is open, or a literal.

Not covered is `node()` as the last step, which is a step to nodes and an accessor both.

Key definitions: `EndsInNode`, `SlashBeforeSign`.
Key theorems: `not_balanced_before`, `readExpr_before_ne_ok`, `evaluate_of_slashBeforeSign`,
`evaluate_eq_elements_iff`.
-/
import Gleaner.Proofs.Query.Cutting
import Gleaner.Proofs.Selector.LastSegment
import Mathlib.Data.List.Induction
import Mathlib.Data.List.Permutation

namespace Gleaner.Query

open Gleaner.Text Gleaner.Markup Gleaner.Selector

variable {a segment rest : List Char} {n : Nat} {expr : Expr}

/-! ### What stands before the slash -/

/-- What stands behind a slash, up to the end, and begins a step that reads values. -/
structure ValueSegment (segment : List Char) : Prop where
  head : segment.head? ≠ some '/'
  value : ∀ tokens, tokenize segment = .ok tokens → startsValue tokens = true

theorem ValueSegment.readExpr_ne_ok (h : ValueSegment segment) :
    readExpr segment ≠ .ok expr := by
  intro hread
  obtain ⟨tokens, htokens, htells⟩ := tells_of_readExpr hread
  exact htells.noValue trivial (.inl (h.value tokens htokens))

/-- Before a slash and a value a bracket of the query is open. -/
theorem not_balanced_before {tokens : List Token} (ha : SpellsAlone a tokens)
    (hsegment : ValueSegment segment)
    (hread : readExpr (a ++ (slashes (n + 1) ++ segment)) = .ok expr) : ¬Balanced tokens := by
  intro hbalanced
  obtain ⟨whole, hwhole, htells⟩ := tells_of_readExpr hread
  rw [ha _ (endsText_slashes n segment), spells_slashes hsegment.head (n + 1)] at hwhole
  obtain ⟨behind, hbehind, rfl⟩ := map_eq_ok_iff.1 hwhole
  obtain ⟨value, hvalue, rfl⟩ := map_eq_ok_iff.1 hbehind
  obtain ⟨front, last, hslashes, hlast, hfront⟩ := slashTokens_succ n
  refine htells.noValue trivial (.inr ⟨tokens ++ front, last, value, ?_, hlast, ?_, ?_⟩)
  · simp [hslashes]
  · exact hbalanced.append (balanced_of_forall hfront)
  · exact hsegment.value value hvalue

/-- Characters that open or close nothing. -/
def Loose (text : List Char) : Prop :=
  ∀ c ∈ text, c ∉ ['\'', '"', '[', ']']

instance (text : List Char) : Decidable (Loose text) :=
  inferInstanceAs (Decidable (∀ c ∈ text, c ∉ ['\'', '"', '[', ']']))

theorem Loose.append {u v : List Char} (hu : Loose u) (hv : Loose v) : Loose (u ++ v) :=
  List.forall_mem_append.2 ⟨hu, hv⟩

theorem loose_slashes (n : Nat) : Loose (slashes n) := by
  intro c hc
  rw [List.eq_of_mem_replicate hc]
  decide

theorem loose_blanks {blanks : List Char} (h : Blanks blanks) : Loose blanks := by
  have hnone : ∀ c ∈ ['\'', '"', '[', ']'], isBlank c = false := by decide
  intro c hc hmem
  exact Bool.false_ne_true ((hnone c hmem).symm.trans (h c hc))

/-- **What stands before a slash and a value is no query**, nor with more behind a slash that closes
nothing. -/
theorem readExpr_before_ne_ok (ha : a.getLast? ≠ some '/') (hsegment : ValueSegment segment)
    (hread : readExpr (a ++ (slashes (n + 1) ++ segment)) = .ok expr) (hends : EndsText rest)
    (hloose : Loose rest) (e : Expr) : readExpr (a ++ rest) ≠ .ok e := by
  intro hrest
  obtain ⟨tokens, htokens, htells⟩ := tells_of_readExpr hrest
  have hnone {c : Char} (hc : c ∈ ['\'', '"', '[', ']']) : c ∉ rest := fun hmem => hloose c hmem hc
  rcases tokenize_cut a ha with ⟨before, hbefore⟩ | ⟨reason, hreason⟩
  · rw [hbefore rest hends] at htokens
    obtain ⟨behind, hbehind, rfl⟩ := map_eq_ok_iff.1 htokens
    have hclear := balanced_of_forall
      (not_isBracket_of_tokenize hbehind (hnone (by decide)) (hnone (by decide)))
    refine not_balanced_before hbefore hsegment hread ?_
    have hwhole := htells.balanced
    rw [Balanced, depth?_append] at hwhole
    obtain ⟨k, hk, hdepth⟩ := Option.bind_eq_some_iff.1 hwhole
    rw [hclear.depth? k] at hdepth
    rw [Balanced, hk, hdepth]
  · rw [hreason rest hends (hnone (by decide)) (hnone (by decide))] at htokens
    cases htokens

/-- Nor is it blank. -/
theorem not_blanks_before (ha : a.getLast? ≠ some '/') (hsegment : ValueSegment segment)
    (hread : readExpr (a ++ (slashes (n + 1) ++ segment)) = .ok expr) : ¬Blanks a := by
  intro hblanks
  have hnone : tokenize (a ++ []) = .ok [] := by
    rw [tokenize_blanks hblanks, tokenize]
  rcases tokenize_cut a ha with ⟨before, hbefore⟩ | ⟨reason, hreason⟩
  · have htokens := hbefore [] endsText_nil
    rw [Spells, hnone, tokenize] at htokens
    obtain rfl : before = [] := by
      simpa [Except.map] using htokens
    exact not_balanced_before hbefore hsegment hread .nil
  · rw [hreason [] endsText_nil (by simp) (by simp)] at hnone
    cases hnone

/-! ### Signs -/

theorem head?_append_of_blanks {blanks text : List Char} (hblanks : Blanks blanks)
    (h : text.head? ≠ some '/') : (blanks ++ text).head? ≠ some '/' := by
  cases blanks with
  | nil => exact h
  | cons b blanks =>
    rintro ⟨⟩
    exact absurd (hblanks _ List.mem_cons_self) (by decide)

theorem spells_plainName {name : List Char} (h : IsName name) {c : Char}
    (hchar : isNameChar c = false) (hcolon : c ≠ ':' ∨ rest.head?.any isNameStart = false) :
    Spells name [.name (String.ofList name)] (c :: rest) := by
  refine spells_name h ?_
  rw [nameChars, if_neg (by simp [hchar]), if_neg]
  rcases hcolon with hcolon | hcolon <;> simp [hcolon]

/-- The sign of an attribute begins a step that reads values. -/
theorem valueSegment_attribute {blanks sign : List Char} (hblanks : Blanks blanks)
    (hsign : sign ∈ attributeSigns) (name : List Char) :
    ValueSegment (blanks ++ (sign ++ name)) := by
  rw [attributeSigns, List.mem_pair] at hsign
  refine ⟨head?_append_of_blanks hblanks ?_, fun tokens htokens => ?_⟩
  · rcases hsign with rfl | rfl <;> simp
  · rw [tokenize_blanks hblanks] at htokens
    rcases hsign with rfl | rfl
    · rw [spells_sign (c := '@') rfl name] at htokens
      obtain ⟨more, -, rfl⟩ := map_eq_ok_iff.1 htokens
      rfl
    · have hname : IsName "attribute".toList :=
        ⟨'a', "ttribute".toList, rfl, by decide, by decide, by decide⟩
      have hspells : Spells ("attribute".toList ++ [':', ':'])
          ([.name (String.ofList "attribute".toList)] ++ [.doubleColon]) name :=
        (spells_plainName hname (by decide) (.inr rfl)).append (spells_doubleColon name)
      rw [show "attribute::".toList = "attribute".toList ++ [':', ':'] from rfl, hspells] at htokens
      obtain ⟨more, -, rfl⟩ := map_eq_ok_iff.1 htokens
      rfl

/-- So does the call for own text. -/
theorem valueSegment_text {blanks : List Char} (hblanks : Blanks blanks) (after : List Char) :
    ValueSegment (blanks ++ ("text()".toList ++ after)) := by
  refine ⟨head?_append_of_blanks hblanks (by simp), fun tokens htokens => ?_⟩
  have hname : IsName "text".toList := ⟨'t', "ext".toList, rfl, by decide, by decide, by decide⟩
  have hspells : Spells ("text".toList ++ ['('])
      ([.name (String.ofList "text".toList)] ++ [.openParen]) (')' :: after) :=
    (spells_plainName hname (by decide) (.inl (by decide))).append (spells_sign rfl _)
  rw [tokenize_blanks hblanks,
    show "text()".toList ++ after = "text".toList ++ ['('] ++ ')' :: after from rfl,
    hspells] at htokens
  obtain ⟨more, -, rfl⟩ := map_eq_ok_iff.1 htokens
  rfl

/-! ### The two readings -/

/-- Nothing but `node()` stands behind the last slash of the text, or in all of it. -/
def EndsInNode (text : List Char) : Prop :=
  ∃ front last, text = front ++ last ∧ trim last = "node()".toList ∧ ∀ c ∈ front.getLast?, c = '/'

/-- Whether `node()` is all that stands from the `i`-th character on, behind a slash or nothing. -/
def endsInNodeAt (text : List Char) (i : Nat) : Bool :=
  trim (text.drop i) == "node()".toList && (text.take i).getLast?.all (· == '/')

theorem any_endsInNodeAt_iff {text : List Char} :
    (List.range (text.length + 1)).any (endsInNodeAt text) = true ↔ EndsInNode text := by
  have hat (i : Nat) : endsInNodeAt text i = true ↔ trim (text.drop i) = "node()".toList ∧
      ∀ c ∈ (text.take i).getLast?, c = '/' := by
    rw [endsInNodeAt, Bool.and_eq_true, beq_iff_eq]
    cases (text.take i).getLast? <;> simp
  simp only [List.any_eq_true, List.mem_range, hat]
  constructor
  · rintro ⟨i, -, hcall, hslash⟩
    exact ⟨text.take i, text.drop i, (List.take_append_drop i text).symm, hcall, hslash⟩
  · rintro ⟨front, last, rfl, hcall, hslash⟩
    have hlength : front.length < (front ++ last).length + 1 := by
      rw [List.length_append]
      omega
    exact ⟨front.length, hlength, by rwa [List.drop_left], by rwa [List.take_left]⟩

instance (text : List Char) : Decidable (EndsInNode text) :=
  decidable_of_iff _ any_endsInNodeAt_iff

/-- The last slash that is outside of single quotation marks stands before the sign of an
attribute. -/
def SlashBeforeSign (text : List Char) : Prop :=
  ∃ before blanks sign name, text = before ++ '/' :: (blanks ++ (sign ++ name)) ∧
    quotedAfter false before = false ∧
    freeOf isSlash false (blanks ++ (sign ++ name)) = true ∧
    Blanks blanks ∧ sign ∈ attributeSigns

/-- The slashes at the end of a text, and what they follow. -/
theorem exists_slashes (text : List Char) :
    ∃ a n, text = a ++ slashes n ∧ a.getLast? ≠ some '/' := by
  induction text using List.reverseRecOn with
  | nil => exact ⟨[], 0, rfl, by simp⟩
  | append_singleton text c ih =>
    by_cases hc : c = '/'
    · obtain ⟨a, n, rfl, ha⟩ := ih
      exact ⟨a, n + 1, by rw [hc, slashes_succ, List.append_assoc], ha⟩
    · exact ⟨text ++ [c], 0, by simp [slashes], by simpa using hc⟩

/-- One more slash behind the slashes. -/
theorem append_slash (n : Nat) :
    a ++ slashes n ++ '/' :: segment = a ++ (slashes (n + 1) ++ segment) := by
  rw [slashes_succ]
  simp

theorem not_blanks_of_readExpr {text : List Char} (h : readExpr text = .ok expr) :
    ¬Blanks text := by
  intro hblanks
  have htokens : tokenize text = .ok [] := by
    rw [← List.append_nil text, tokenize_blanks hblanks, tokenize]
  obtain ⟨tokens, hread, h⟩ := bind_eq_ok_iff.1 h
  rw [htokens] at hread
  cases hread
  obtain ⟨e, he, -⟩ := bind_eq_ok_iff.1 h
  obtain ⟨⟨e', rest, hrest⟩, -, -⟩ := bind_eq_ok_iff.1 he
  exact Nat.not_lt_zero _ hrest

theorem read_eq_ok_iff {text : String} {q : Query} :
    read text = .ok q ↔ readExpr text.toList = .ok q.expr ∧ q.text = text := by
  unfold read
  constructor
  · intro h
    split at h
    · next e he =>
      cases h
      exact ⟨he, rfl⟩
    · cases h
  · rintro ⟨h, rfl⟩
    rw [h]

/-- Without an accessor a query is evaluated as it is. -/
theorem evaluate_of_none {text : String} {q : Query} (hread : read text = .ok q)
    (haccessor : Accessor.read? (splitLast text.toList).2 = none) (d : Document) :
    evaluate d text = (q.elements d).map (readElements none) := by
  have hsplit : splitAccessor text.toList = (text.toList, none) := by
    unfold splitAccessor
    dsimp only
    rw [haccessor]
  have hsolid : text.toList.all isBlank = false := by
    rw [Bool.eq_false_iff]
    exact fun hall => not_blanks_of_readExpr (read_eq_ok_iff.1 hread).1 (List.all_eq_true.1 hall)
  rw [evaluate, hsplit]
  dsimp only
  rw [hsolid, String.ofList_toList, hread]
  cases h : q.elements d <;> simp [h, bind, Except.bind, Except.map, pure, Except.pure]

/-- What is read as the query where an accessor stands behind the last slash: the text before the
slashes, with nothing behind it, or with a step to all below behind some of them. -/
theorem splitAccessor_of_some {text before segment : List Char} {accessor : Accessor}
    (hsplit : splitLast text = (before, segment))
    (haccessor : Accessor.read? segment = some accessor) :
    ∃ a n, ∃ rest, before = a ++ slashes n ∧ a.getLast? ≠ some '/' ∧ EndsText rest ∧ Loose rest ∧
      splitAccessor text = (a ++ rest, some accessor) := by
  obtain ⟨a, n, rfl, ha⟩ := exists_slashes before
  unfold splitAccessor
  rw [hsplit]
  dsimp only
  rw [haccessor]
  cases n with
  | zero =>
    refine ⟨a, 0, [], rfl, ha, endsText_nil, List.forall_mem_nil _, ?_⟩
    rw [slashes, List.replicate_zero, List.append_nil]
    simp [ha]
  | succ n =>
    refine ⟨a, n + 1, slashes (n + 1) ++ "descendant-or-self::*".toList, rfl, ha,
      endsText_slashes n _, (loose_slashes _).append (by decide), ?_⟩
    simp [slashes_succ]

/-- **With an accessor taken off, what is left of a query is none.** -/
theorem evaluate_of_attribute {text : String} {before : List Char} {accessor : Accessor}
    (hread : readExpr text.toList = .ok expr) (htext : text.toList = before ++ '/' :: segment)
    (hsplit : splitLast text.toList = (before, segment)) (hsegment : ValueSegment segment)
    (haccessor : Accessor.read? segment = some accessor) (d : Document) :
    ∃ fault, evaluate d text = .error fault ∧ fault.query ≠ text := by
  obtain ⟨a, n, rest, rfl, ha, hends, hloose, hquery⟩ := splitAccessor_of_some hsplit haccessor
  have hwhole : text.toList = a ++ (slashes (n + 1) ++ segment) := htext.trans (append_slash n)
  rw [hwhole] at hread
  have hnone (e : Expr) : readExpr (a ++ rest) ≠ .ok e :=
    readExpr_before_ne_ok ha hsegment hread hends hloose e
  have hsolid : (a ++ rest).all isBlank = false := by
    rw [Bool.eq_false_iff]
    intro hall
    have hblanks := List.all_eq_true.1 hall
    exact not_blanks_before ha hsegment hread fun c hc => hblanks c (List.mem_append_left _ hc)
  cases hrest : readExpr (a ++ rest) with
  | ok e => exact absurd hrest (hnone e)
  | error reason =>
    refine ⟨⟨String.ofList (a ++ rest), reason⟩, ?_, fun heq => ?_⟩
    · rw [evaluate, hquery]
      dsimp only
      rw [hsolid, read, String.toList_ofList, hrest]
      rfl
    · have hsame := congrArg String.toList heq
      rw [String.toList_ofList, hwhole] at hsame
      rw [hsame] at hrest
      rw [hread] at hrest
      cases hrest

/-- A segment with the sign of an attribute in front is read as an attribute, unless it goes on with
blanks alone. -/
theorem read?_of_sign {blanks sign : List Char} (hblanks : Blanks blanks)
    (hsign : sign ∈ attributeSigns) (name : List Char) :
    Blanks name ∨ ∃ accessor, Accessor.read? (blanks ++ (sign ++ name)) = some accessor := by
  cases hread : Accessor.read? (blanks ++ (sign ++ name)) with
  | some accessor => exact .inr ⟨accessor, rfl⟩
  | none =>
    have htrim : trim (blanks ++ (sign ++ name)) = sign ++ trimEnd name := by
      rw [trim_blanks_append hblanks]
      rw [attributeSigns, List.mem_pair] at hsign
      rcases hsign with rfl | rfl
      · exact trimEnd_append_cons (c := '@') (by decide) [] name
      · exact trimEnd_append_cons (c := ':') (by decide) "attribute:".toList name
    have hname := (Accessor.read?_eq_none_iff.1 hread).2.2 sign hsign _ htrim
    obtain ⟨after, hafter, hend⟩ := exists_trimEnd name
    rw [hend]
    left
    intro c hc
    exact (List.mem_append.1 hc).elim (blanks_of_trim hname c) (hafter c)

/-- A text that has been read as a query to elements has no value behind its last slashes, if
nothing that could be open closes there. -/
theorem not_loose_of_readExpr {before : List Char} (hsegment : ValueSegment segment)
    (hread : readExpr (before ++ '/' :: segment) = .ok expr) : ¬Loose segment := by
  intro hloose
  obtain ⟨a, n, rfl, ha⟩ := exists_slashes before
  rw [append_slash] at hread
  exact readExpr_before_ne_ok ha hsegment hread (endsText_slashes n segment)
    ((loose_slashes _).append hloose) expr hread

/-- What is read as a query to elements has no accessor behind its last slash, but for the calls of
a step to nodes and the signs of attributes. -/
theorem read?_splitLast_eq_none {text : List Char} (hread : readExpr text = .ok expr)
    (hnode : ¬EndsInNode text) (hsign : ¬SlashBeforeSign text) :
    Accessor.read? (splitLast text).2 = none := by
  rw [Option.eq_none_iff_forall_not_mem]
  intro accessor haccessor
  have hcases := Accessor.read?_cases haccessor
  obtain ⟨blanks, after, hblanks, hafter, hsegment⟩ := exists_trim (splitLast text).2
  rw [List.append_assoc] at hsegment
  have hvalue (h : trim (splitLast text).2 = "text()".toList) :
      ValueSegment (splitLast text).2 := by
    rw [hsegment, h]
    exact valueSegment_text hblanks after
  cases hsplit : splitLast? false text with
  | none =>
    have hlast : (splitLast text).2 = text := by rw [splitLast, hsplit]; rfl
    rw [hlast] at hcases hsegment hvalue
    rcases hcases with ⟨-, htext⟩ | ⟨-, hcall⟩ | ⟨sign, hmem, name, _, htrim, -⟩
    · exact (hvalue htext).readExpr_ne_ok hread
    · exact hnode ⟨[], text, rfl, hcall, by simp⟩
    · have hvalue := valueSegment_attribute hblanks hmem (name ++ after)
      rw [← List.append_assoc sign, ← htrim, ← hsegment] at hvalue
      exact hvalue.readExpr_ne_ok hread
  | some split =>
    obtain ⟨before, last⟩ := split
    have hlast : (splitLast text).2 = last := by rw [splitLast, hsplit]; rfl
    have hwhole := eq_of_splitLast? hsplit
    obtain ⟨hbefore, hfree⟩ := separates_of_splitLast? hsplit
    rw [hlast] at hcases hsegment hvalue
    rcases hcases with ⟨-, htext⟩ | ⟨-, hcall⟩ | ⟨sign, hmem, name, _, htrim, -⟩
    · refine not_loose_of_readExpr (hvalue htext) (hwhole ▸ hread) ?_
      rw [hsegment, htext]
      have hcall : Loose "text()".toList := by decide
      exact (loose_blanks hblanks).append (hcall.append (loose_blanks hafter))
    · exact hnode ⟨before ++ ['/'], last, by simpa using hwhole, hcall, by simp⟩
    · rw [htrim, List.append_assoc] at hsegment
      rw [hsegment] at hwhole hfree
      exact hsign ⟨before, blanks, sign, name ++ after, hwhole, hbefore, hfree, hblanks, hmem⟩

/-- Where it stands before the sign of an attribute, the last slash parts a query that cannot be
read from an accessor. -/
theorem evaluate_of_slashBeforeSign {text : String} (hread : readExpr text.toList = .ok expr)
    (h : SlashBeforeSign text.toList) (d : Document) :
    ∃ fault, evaluate d text = .error fault ∧ fault.query ≠ text := by
  obtain ⟨before, blanks, sign, name, htext, hbefore, hfree, hblanks, hsign⟩ := h
  have hsegment := valueSegment_attribute hblanks hsign name
  have hsplit := splitLast_append hbefore hfree
  rw [← htext] at hsplit
  rcases read?_of_sign hblanks hsign name with hname | ⟨accessor, haccessor⟩
  · -- A sign with nothing behind it is loose.
    have hsigns : ∀ sign ∈ attributeSigns, Loose sign := by decide
    rw [htext] at hread
    refine absurd ?_ (not_loose_of_readExpr hsegment hread)
    exact (loose_blanks hblanks).append ((hsigns sign hsign).append (loose_blanks hname))
  · exact evaluate_of_attribute hread htext hsplit hsegment haccessor d

/-- **A query to elements that does not end in `node()` is evaluated as it is unless its last slash
outside of single quotation marks stands before the sign of an attribute.** If it does, a part of a
condition, or of a literal between double marks, is taken for an accessor: what stands before it is
no query, and no values are given on any document. -/
theorem evaluate_eq_elements_iff {text : String} {q : Query} (hread : read text = .ok q)
    (hnode : ¬EndsInNode text.toList) (d : Document) :
    (evaluate d text = (q.elements d).map (readElements none) ↔ ¬SlashBeforeSign text.toList) ∧
      (SlashBeforeSign text.toList → ∃ fault, evaluate d text = .error fault) := by
  obtain ⟨hexpr, htext⟩ := read_eq_ok_iff.1 hread
  constructor
  · constructor
    · intro heq hsign
      obtain ⟨fault, hfault, hquery⟩ := evaluate_of_slashBeforeSign hexpr hsign d
      rw [hfault, elements] at heq
      cases helements : elementsOf d q.expr with
      | ok list =>
        rw [helements] at heq
        cases heq
      | error reason =>
        rw [helements] at heq
        cases heq
        exact hquery htext
    · intro hsign
      exact evaluate_of_none hread (read?_splitLast_eq_none hexpr hnode hsign) d
  · intro hsign
    obtain ⟨fault, hfault, -⟩ := evaluate_of_slashBeforeSign hexpr hsign d
    exact ⟨fault, hfault⟩

/-- The query `//div[p/@id]`. -/
def conditionQuery : Query :=
  ⟨"//div[p/@id]", .path ⟨true, [.selfAndBelow, ⟨.child, .named "div",
    [.path ⟨false, [⟨.child, .named "p", []⟩], some (.attribute (some "id"))⟩]⟩], none⟩⟩

/-- The document `<div>x<p id="1">y</p></div>`. -/
def conditionPage : Document :=
  ⟨[.element "div" .empty [.text "x", .element "p" (KeyMap.empty.insert "id" "1") [.text "y"]]]⟩

/-- A condition on an attribute selects an element, but gives an error in place of its text. -/
theorem evaluate_condition_with_attribute :
    read "//div[p/@id]" = .ok conditionQuery ∧ ¬EndsInNode "//div[p/@id]".toList ∧
      (conditionQuery.elements conditionPage).map (readElements none) = .ok [.text "x"] ∧
      evaluate conditionPage "//div[p/@id]" ≠ .ok [.text "x"] ∧
      ∃ fault, evaluate conditionPage "//div[p/@id]" = .error fault := by
  have hread : read "//div[p/@id]" = .ok conditionQuery := by
    unfold conditionQuery
    cbv
  have hnode : ¬EndsInNode "//div[p/@id]".toList := by decide +kernel
  have helements : (conditionQuery.elements conditionPage).map (readElements none) =
      .ok [.text "x"] := by rfl
  have hsign : SlashBeforeSign "//div[p/@id]".toList :=
    ⟨"//div[p".toList, [], ['@'], "id]".toList, rfl, rfl, rfl, .nil, List.mem_cons_self⟩
  obtain ⟨hiff, hfault⟩ := evaluate_eq_elements_iff hread hnode conditionPage
  rw [helements] at hiff
  exact ⟨hread, hnode, helements, fun heq => hiff.1 heq hsign, hfault hsign⟩

end Gleaner.Query
