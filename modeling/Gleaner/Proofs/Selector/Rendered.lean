/-
# What can be told from the CSS text of a step

Names and values are written so that their end can be found, whatever stands in them, and so are
positions. The literal of a filter on own text is written as it is, between parentheses: where it
holds a closing one, the text may be that of a shorter literal with other filters behind it. So a
name and filters are told from their CSS text up to the first literal that runs into what follows
it, and two rows of filters that look alike part at two such literals.

Key definitions: `EndsName`, `Asked`, `filtersText`, `RunsInto`.
Key theorems: `cssName_append_inj`, `cssString_append_inj`, `Filter.cssChars_append_cases`,
`filtersText_eq_iff`, `eq_of_filtersText`, `css_eq_iff`.
-/
import Gleaner.Proofs.Number.Decimal
import Gleaner.Proofs.Selector.Written
import Gleaner.Selector.Css
import Mathlib.Data.List.Basic

namespace Gleaner.Selector

open Gleaner.Text

/-! ### Codes -/

/-- Characters written one after another are told apart if each is told from what follows it, and
the end from each of them. -/
theorem flatMap_append_inj {code : Char → List Char} {ends : List Char → Prop}
    (hcode : ∀ a b u v, code a ++ u = code b ++ v → a = b ∧ u = v)
    (hends : ∀ a u v, ends v → code a ++ u ≠ v) {u v : List Char} (hu : ends u) (hv : ends v) :
    ∀ {x y : List Char}, x.flatMap code ++ u = y.flatMap code ++ v → x = y ∧ u = v
  | [], [], h => ⟨rfl, h⟩
  | [], b :: y, h => by
    rw [List.flatMap_cons, List.append_assoc] at h
    exact absurd h.symm (hends b _ u hu)
  | a :: x, [], h => by
    rw [List.flatMap_cons, List.append_assoc] at h
    exact absurd h (hends a _ v hv)
  | a :: x, b :: y, h => by
    rw [List.flatMap_cons, List.flatMap_cons, List.append_assoc, List.append_assoc] at h
    obtain ⟨rfl, hrest⟩ := hcode a b _ _ h
    obtain ⟨rfl, huv⟩ := flatMap_append_inj hcode hends hu hv hrest
    exact ⟨rfl, huv⟩

/-! ### Names -/

/-- No character of a name stands at the front. -/
def EndsName (rest : List Char) : Prop :=
  ∀ c ∈ rest.head?, isPlainNameChar c = false ∧ c ≠ '\\'

/-- A character of a name is itself or follows a backslash, which is none. -/
theorem cssNameChar_append_inj {a b : Char} {u v : List Char}
    (h : cssNameChar a ++ u = cssNameChar b ++ v) : a = b ∧ u = v := by
  have hplain : ∀ c, isPlainNameChar c = true → c ≠ '\\' := by
    rintro c hc rfl
    exact absurd hc (by decide)
  unfold cssNameChar at h
  split at h
  · next ha =>
    split at h
    · simpa using h
    · simp [hplain a ha] at h
  · split at h
    · next hb => simp [(hplain b hb).symm] at h
    · simpa using h

theorem cssNameChar_append_ne {a : Char} {u v : List Char} (hv : EndsName v) :
    cssNameChar a ++ u ≠ v := by
  rintro rfl
  unfold cssNameChar at hv
  split at hv
  · next ha =>
    have hend := (hv a rfl).1
    rw [ha] at hend
    cases hend
  · exact (hv '\\' rfl).2 rfl

theorem cssName_append_inj {a b : String} {u v : List Char} (hu : EndsName u) (hv : EndsName v)
    (h : cssName a ++ u = cssName b ++ v) : a = b ∧ u = v := by
  obtain ⟨hab, huv⟩ := flatMap_append_inj (fun _ _ _ _ => cssNameChar_append_inj)
    (fun _ _ _ => cssNameChar_append_ne) hu hv h
  exact ⟨String.toList_inj.1 hab, huv⟩

/-! ### Values -/

theorem cssStringChar_append_inj {a b : Char} {u v : List Char}
    (h : cssStringChar a ++ u = cssStringChar b ++ v) : a = b ∧ u = v := by
  unfold cssStringChar at h
  split at h
  · next ha =>
    split at h
    · simpa using h
    · split at h
      · rcases ha with rfl | rfl <;> simp at h
      · next hb _ => simp [(not_or.1 hb).2, eq_comm] at h
  · next ha =>
    split at h
    · next hline =>
      split at h
      · next hb => rcases hb with rfl | rfl <;> simp at h
      · split at h
        · next hline' => exact ⟨hline.trans hline'.symm, by simpa using h⟩
        · next hb _ => simp [(not_or.1 hb).2, eq_comm] at h
    · split at h
      · simp [(not_or.1 ha).2] at h
      · split at h
        · simp [(not_or.1 ha).2] at h
        · simpa using h

/-- A quotation mark that stands alone is no part of a value. -/
theorem cssStringChar_append_ne {a : Char} {u v : List Char} (hv : v.head? = some '"') :
    cssStringChar a ++ u ≠ v := by
  rintro rfl
  unfold cssStringChar at hv
  split at hv
  · simp at hv
  · next ha =>
    split at hv
    · simp at hv
    · simp [(not_or.1 ha).1] at hv

theorem cssString_append_inj {a b : String} {u v : List Char}
    (h : cssString a ++ '"' :: u = cssString b ++ '"' :: v) : a = b ∧ u = v := by
  obtain ⟨hab, huv⟩ := flatMap_append_inj (fun _ _ _ _ => cssStringChar_append_inj)
    (fun _ _ _ => cssStringChar_append_ne) rfl rfl h
  exact ⟨String.toList_inj.1 hab, (List.cons.inj huv).2⟩

/-! ### One filter -/

/-- What a filter asks of an attribute: an operator and a value if it asks for one, and else that it
is there. -/
structure Asked where
  name : String
  value : Option (List Char × String)
  deriving DecidableEq, Repr

def Filter.asked? : Filter → Option Asked
  | .attributeIs name value => some ⟨name, some (['='], value)⟩
  | .attributeHolds name value => some ⟨name, some (['*', '='], value)⟩
  | .hasAttribute name => some ⟨name, none⟩
  | .textHolds _ | .index _ => none

/-- What stands behind the name of the attribute. -/
def Asked.behind (a : Asked) : List Char :=
  match a.value with
  | some (op, value) => op ++ '"' :: (cssString value ++ ['"', ']'])
  | none => [']']

variable {f g : Filter} {a b : Asked} {u v : List Char}

theorem Filter.cssChars_of_asked (h : f.asked? = some a) :
    f.cssChars = '[' :: (cssName a.name ++ a.behind) := by
  cases f <;> cases h <;> simp [cssTest, Asked.behind]

/-- The filters on attributes are those that ask something of one. -/
theorem Filter.onAttributes_eq (f : Filter) : f.onAttributes = f.asked?.isSome := by
  cases f <;> rfl

/-- What is asked of an attribute says which filter it is. -/
theorem Filter.eq_of_asked (hf : f.asked? = some a) (hg : g.asked? = some a) : f = g := by
  cases f <;> cases hf <;> cases g <;> cases hg <;> rfl

/-- The operators of filters. -/
def operators : List (List Char) :=
  [['='], ['*', '=']]

theorem Filter.operator_mem (h : f.asked? = some a) {op : List Char} {value : String}
    (hvalue : a.value = some (op, value)) : op ∈ operators := by
  cases f <;> cases h <;> cases hvalue <;> decide

theorem Filter.endsName_behind (h : f.asked? = some a) (rest : List Char) :
    EndsName (a.behind ++ rest) := by
  have hsigns : ∀ c ∈ ['=', '*', ']'], isPlainNameChar c = false ∧ c ≠ '\\' := by decide
  have hhead : ∃ c ∈ ['=', '*', ']'], (a.behind ++ rest).head? = some c := by
    cases f <;> cases h <;> simp [Asked.behind]
  obtain ⟨c, hc, hhead⟩ := hhead
  rintro d hd
  rw [hhead] at hd
  cases hd
  exact hsigns c hc

/-- An operator and a value are told from what follows them, and from a bracket that closes. -/
theorem Filter.behind_append_inj (hf : f.asked? = some a) (hg : g.asked? = some b)
    (h : a.behind ++ u = b.behind ++ v) : a.value = b.value ∧ u = v := by
  unfold Asked.behind at h
  split at h
  · next op value ha =>
    split at h
    · next op' value' hb =>
      have hop : op = op' ∧ cssString value ++ '"' :: ']' :: u =
          cssString value' ++ '"' :: ']' :: v := by
        have hmem := operator_mem hf ha
        have hmem' := operator_mem hg hb
        rw [operators, List.mem_pair] at hmem hmem'
        rcases hmem with rfl | rfl <;> rcases hmem' with rfl | rfl <;> simp at h
        · exact ⟨rfl, h⟩
        · exact ⟨rfl, h⟩
      obtain ⟨rfl, hstring⟩ := hop
      obtain ⟨rfl, hrest⟩ := cssString_append_inj hstring
      exact ⟨ha.trans hb.symm, (List.cons.inj hrest).2⟩
    · next hb =>
      have hmem := operator_mem hf ha
      rw [operators, List.mem_pair] at hmem
      rcases hmem with rfl | rfl <;> simp at h
  · next ha =>
    split at h
    · next op' value' hb =>
      have hmem := operator_mem hg hb
      rw [operators, List.mem_pair] at hmem
      rcases hmem with rfl | rfl <;> simp at h
    · next hb => exact ⟨ha.trans hb.symm, (List.cons.inj h).2⟩

theorem Filter.asked_append_inj (hf : f.asked? = some a) (hg : g.asked? = some b)
    (h : f.cssChars ++ u = g.cssChars ++ v) : f = g ∧ u = v := by
  rw [cssChars_of_asked hf, cssChars_of_asked hg, List.cons_append, List.cons_append,
    List.append_assoc, List.append_assoc] at h
  obtain ⟨hname, hbehind⟩ := cssName_append_inj (endsName_behind hf u) (endsName_behind hg v)
    (List.cons.inj h).2
  obtain ⟨hvalue, hrest⟩ := behind_append_inj hf hg hbehind
  have hasked : a = b := by
    cases a
    cases b
    cases hname
    cases hvalue
    rfl
  exact ⟨eq_of_asked hf (hasked ▸ hg), hrest⟩

/-- A position is told from what follows its parenthesis. -/
theorem digits_append_inj {n m : Nat}
    (h : (toString n).toList ++ ')' :: u = (toString m).toList ++ ')' :: v) : n = m ∧ u = v := by
  have hparen (w : List Char) : ∀ c ∈ (')' :: w).head?, isDigit c = false := by
    rintro c ⟨⟩
    decide
  have hspan (k : Nat) (w : List Char) := span_append (digits_toString k).2 (hparen w)
  have hdigits : (toString n).toList = (toString m).toList := by
    rw [← (hspan n u).1, h, (hspan m v).1]
  have hrest : ')' :: u = ')' :: v := by
    rw [← (hspan n u).2, h, (hspan m v).2]
  refine ⟨?_, (List.cons.inj hrest).2⟩
  rw [← numeralValue_toString n, hdigits, numeralValue_toString]

/-- A filter asks something of an attribute, or it is one on own text or a position. -/
theorem Filter.asked_cases (f : Filter) :
    (∃ a, f.asked? = some a) ∨ (∃ value, f = .textHolds value) ∨ ∃ n, f = .index n := by
  cases f with
  | textHolds value => exact .inr (.inl ⟨value, rfl⟩)
  | index n => exact .inr (.inr ⟨n, rfl⟩)
  | _ => exact .inl ⟨_, rfl⟩

/-- A filter is told from what follows it, unless it is one on own text and another stands in its
place. -/
theorem Filter.cssChars_append_cases (h : f.cssChars ++ u = g.cssChars ++ v) :
    f = g ∧ u = v ∨ ∃ x y : String, f = .textHolds x ∧ g = .textHolds y ∧
      x.toList ++ ')' :: u = y.toList ++ ')' :: v := by
  obtain ⟨a, ha⟩ | ⟨x, rfl⟩ | ⟨n, rfl⟩ := f.asked_cases
  · obtain ⟨b, hb⟩ | ⟨y, rfl⟩ | ⟨m, rfl⟩ := g.asked_cases
    · exact .inl (asked_append_inj ha hb h)
    · simp [cssChars_of_asked ha] at h
    · simp [cssChars_of_asked ha] at h
  · obtain ⟨b, hb⟩ | ⟨y, rfl⟩ | ⟨m, rfl⟩ := g.asked_cases
    · simp [cssChars_of_asked hb] at h
    · exact .inr ⟨x, y, rfl, rfl, by simpa using h⟩
    · simp at h
  · obtain ⟨b, hb⟩ | ⟨y, rfl⟩ | ⟨m, rfl⟩ := g.asked_cases
    · simp [cssChars_of_asked hb] at h
    · simp at h
    · rw [cssChars_index, cssChars_index, List.append_assoc, List.append_assoc, List.append_assoc,
        List.append_assoc, List.append_cancel_left_eq] at h
      obtain ⟨rfl, hrest⟩ := digits_append_inj h
      exact .inl ⟨rfl, hrest⟩

/-! ### All filters -/

/-- Filters as CSS text, one after another. -/
def filtersText (filters : List Filter) : List Char :=
  filters.flatMap Filter.cssChars

/-- The two rows part at filters on own text. The literal of the second goes on behind what is all
of the literal of the first, with a closing parenthesis and more, and what it goes on with is what
the filters behind the first are written as. -/
def RunsInto (fs gs : List Filter) : Prop :=
  ∃ (before : List Filter) (v w : String) (fs' gs' : List Filter),
    fs = before ++ .textHolds v :: fs' ∧ gs = before ++ .textHolds (v ++ ")" ++ w) :: gs' ∧
    filtersText fs' = w.toList ++ ')' :: filtersText gs'

variable {fs gs : List Filter}

theorem RunsInto.cons (f : Filter) (h : RunsInto fs gs) : RunsInto (f :: fs) (f :: gs) := by
  obtain ⟨before, v, w, fs', gs', rfl, rfl, htext⟩ := h
  exact ⟨f :: before, v, w, fs', gs', rfl, rfl, htext⟩

theorem RunsInto.filtersText_eq (h : RunsInto fs gs) : filtersText fs = filtersText gs := by
  obtain ⟨before, v, w, fs', gs', rfl, rfl, htext⟩ := h
  unfold filtersText at htext ⊢
  simp [htext]

theorem Filter.cssChars_ne_nil (f : Filter) : f.cssChars ≠ [] := by
  cases f <;> simp [cssTest]

/-- Two literals in front of the same text, each with its parenthesis: they are the same, or one
goes on behind the other. -/
theorem literal_cases {v w : String} (h : v.toList ++ ')' :: filtersText fs =
    w.toList ++ ')' :: filtersText gs) :
    v = w ∧ filtersText fs = filtersText gs ∨
      RunsInto (.textHolds v :: fs) (.textHolds w :: gs) ∨
      RunsInto (.textHolds w :: gs) (.textHolds v :: fs) := by
  rcases List.append_eq_append_iff.1 h with ⟨more, hw, hmore⟩ | ⟨more, hv, hmore⟩
  · cases more with
    | nil =>
      rw [List.append_nil] at hw
      exact .inl ⟨(String.toList_inj.1 hw).symm, (List.cons.inj hmore).2⟩
    | cons c more =>
      obtain ⟨rfl, hmore⟩ := List.cons.inj hmore
      have hlonger : w = v ++ ")" ++ String.ofList more := by
        apply String.toList_inj.1
        simp [hw]
      exact .inr (.inl ⟨[], v, String.ofList more, fs, gs, rfl, by rw [hlonger]; rfl, by simpa⟩)
  · cases more with
    | nil =>
      rw [List.append_nil] at hv
      exact .inl ⟨String.toList_inj.1 hv, (List.cons.inj hmore).2.symm⟩
    | cons c more =>
      obtain ⟨rfl, hmore⟩ := List.cons.inj hmore
      have hlonger : v = w ++ ")" ++ String.ofList more := by
        apply String.toList_inj.1
        simp [hv]
      exact .inr (.inr ⟨[], w, String.ofList more, gs, fs, rfl, by rw [hlonger]; rfl, by simpa⟩)

/-- Rows of filters look alike if they are the same, or one runs into the other. -/
theorem filtersText_eq_iff :
    filtersText fs = filtersText gs ↔ fs = gs ∨ RunsInto fs gs ∨ RunsInto gs fs := by
  constructor
  · intro h
    induction fs generalizing gs with
    | nil =>
      cases gs with
      | nil => exact .inl rfl
      | cons g gs => exact absurd (List.append_eq_nil_iff.1 h.symm).1 g.cssChars_ne_nil
    | cons f fs ih =>
      cases gs with
      | nil => exact absurd (List.append_eq_nil_iff.1 h).1 f.cssChars_ne_nil
      | cons g gs =>
        have hsame {f : Filter} (hrest : filtersText fs = filtersText gs) :
            f :: fs = f :: gs ∨ RunsInto (f :: fs) (f :: gs) ∨ RunsInto (f :: gs) (f :: fs) :=
          (ih hrest).imp (congrArg (f :: ·)) (Or.imp (.cons f) (.cons f))
        obtain ⟨rfl, hrest⟩ | ⟨x, y, rfl, rfl, hliteral⟩ := Filter.cssChars_append_cases h
        · exact hsame hrest
        · obtain ⟨rfl, hrest⟩ | hruns := literal_cases hliteral
          · exact hsame hrest
          · exact .inr hruns
  · rintro (rfl | h | h)
    · rfl
    · exact h.filtersText_eq
    · exact h.filtersText_eq.symm

/-- What runs into another row has a closing parenthesis in a literal of the other. -/
theorem RunsInto.exists_paren (h : RunsInto fs gs) :
    ∃ v : String, .textHolds v ∈ gs ∧ ')' ∈ v.toList := by
  obtain ⟨before, v, w, fs', gs', -, rfl, -⟩ := h
  exact ⟨v ++ ")" ++ w, by simp, by simp⟩

/-- Rows of filters without a closing parenthesis in a literal on own text are told apart. -/
theorem eq_of_filtersText (hfs : ∀ v, .textHolds v ∈ fs → ')' ∉ v.toList)
    (hgs : ∀ v, .textHolds v ∈ gs → ')' ∉ v.toList) (h : filtersText fs = filtersText gs) :
    fs = gs := by
  rcases filtersText_eq_iff.1 h with h | h | h
  · exact h
  · obtain ⟨v, hv, hparen⟩ := h.exists_paren
    exact absurd hparen (hgs v hv)
  · obtain ⟨v, hv, hparen⟩ := h.exists_paren
    exact absurd hparen (hfs v hv)

/-! ### Steps -/

/-- Filters begin with a bracket or a colon. -/
theorem head_filtersText {c : Char} (h : c ∈ (filtersText fs).head?) : c = '[' ∨ c = ':' := by
  cases fs with
  | nil => cases h
  | cons f fs => cases f <;> simp [filtersText, cssTest] at h <;> simp [← h]

theorem endsName_filtersText (fs : List Filter) : EndsName (filtersText fs) := by
  intro c hc
  rcases head_filtersText hc with rfl | rfl <;> decide

/-- A star stands for any element; in a name it follows a backslash. -/
theorem cssName_append_ne_star (name : String) (rest : List Char) :
    cssName name ++ filtersText fs ≠ '*' :: rest := by
  unfold cssName
  cases name.toList with
  | nil =>
    intro h
    have hstar : '*' ∈ (filtersText fs).head? := by
      rw [List.flatMap_nil, List.nil_append] at h
      rw [h]
      rfl
    rcases head_filtersText hstar with hc | hc <;> cases hc
  | cons c more =>
    rw [List.flatMap_cons]
    unfold cssNameChar
    split
    · next hc =>
      intro h
      rw [List.cons_append, List.cons_append] at h
      rw [(List.cons.inj h).1] at hc
      exact absurd hc (by decide)
    · simp

/-- A name is told from the filters behind it. -/
theorem compoundText_inj {n m : String} (h : compoundText n fs = compoundText m gs) :
    n = m ∧ filtersText fs = filtersText gs := by
  have h : cssElement n ++ filtersText fs = cssElement m ++ filtersText gs := h
  unfold cssElement at h
  split at h
  · next hn =>
    split at h
    · next hm => exact ⟨hn.trans hm.symm, (List.cons.inj h).2⟩
    · exact absurd h.symm (cssName_append_ne_star m _)
  · split at h
    · exact absurd h (cssName_append_ne_star n _)
    · exact cssName_append_inj (endsName_filtersText fs) (endsName_filtersText gs) h

theorem Step.css_of_name {s : Step} {name : String} (h : s.target.name? = some name) :
    s.css = String.ofList (compoundText name s.target.filters) := by
  obtain ⟨raw, reach, target⟩ := s
  cases target <;> cases h <;> rfl

/-- **The CSS text of a step tells its name, and its filters up to a literal that runs on.** Two
steps to elements of a name, or to later siblings of one, look alike in CSS if they have the same
name and the same filters, or if the literal of a filter on own text of one holds a closing
parenthesis and behind it what the filters of the other are written as. -/
theorem css_eq_iff {s t : Step} {n m : String} (hs : s.target.name? = some n)
    (ht : t.target.name? = some m) :
    s.css = t.css ↔ n = m ∧ (s.target.filters = t.target.filters ∨
      RunsInto s.target.filters t.target.filters ∨
      RunsInto t.target.filters s.target.filters) := by
  rw [Step.css_of_name hs, Step.css_of_name ht, String.ofList_inj, ← filtersText_eq_iff]
  constructor
  · exact compoundText_inj
  · rintro ⟨rfl, hfilters⟩
    exact congrArg (cssElement n ++ ·) hfilters

/-- A literal that ends like a position, and a shorter one with the position behind it. -/
theorem css_eq_literal_with_position :
    Step.read "//li[contains(text(),'a/b):eq(0')]".toList =
        .ok ⟨"//li[contains(text(),'a/b):eq(0')]", .below,
          .element "li" [.textHolds "a/b):eq(0"]⟩ ∧
      Step.read "//li[contains(text(),'a/b')][0]".toList =
        .ok ⟨"//li[contains(text(),'a/b')][0]", .below,
          .element "li" [.textHolds "a/b", .index 0]⟩ ∧
      Step.css ⟨"//li[contains(text(),'a/b')][0]", .below,
          .element "li" [.textHolds "a/b", .index 0]⟩ =
        Step.css ⟨"//li[contains(text(),'a/b):eq(0')]", .below,
          .element "li" [.textHolds "a/b):eq(0"]⟩ := by
  refine ⟨by decide +kernel, by decide +kernel, (css_eq_iff rfl rfl).2 ⟨rfl, .inr (.inl ?_)⟩⟩
  exact ⟨[], "a/b", ":eq(0", [.index 0], [], rfl, by decide, by decide⟩

end Gleaner.Selector
