/-
# Path queries that are read as they were written

A path query is put down step by step, each behind one slash or two, and the first perhaps without
any. Where each step is read from its own text whatever step follows it, the whole is read into
those steps one after another, with a step to everything below for each pair of slashes, and for a
first step without slashes, which may begin anywhere.

Key definitions: `Segment`, `Segment.Faithful`, `Segment.lexed`, `Segment.steps`, `Row`.
Key theorems: `readExpr_written`, `read_written`, `elements_of_followSteps`.
-/
import Gleaner.Proofs.Query.Reading
import Gleaner.Proofs.Query.Spelling
import Gleaner.Query.Basic

namespace Gleaner.Query

open Gleaner.Markup

/-- A step as it is put down: the slashes in front of it, its text without them, the tokens of that
text and the step that these are. -/
structure Segment where
  slashes : Nat
  text : List Char
  tokens : List Token
  step : Step

/-- Behind a step stands the next one or nothing. -/
def EndsText (rest : List Char) : Prop :=
  ∀ c ∈ rest.head?, c = '/'

/-- Behind a step stands the next one or nothing. -/
def EndsTokens (rest : List Token) : Prop :=
  ∀ t ∈ rest.head?, t = .slash ∨ t = .doubleSlash

namespace Segment

/-- The text of a step is read into its tokens, and these into the step. -/
structure Faithful (s : Segment) : Prop where
  spells : ∀ rest, EndsText rest → Spells s.text s.tokens rest
  reads : ∀ rest, EndsTokens rest → Reads (parseStep (s.tokens ++ rest)) (.step s.step) rest
  /-- The slashes in front of the step are all that there are. -/
  first : ∃ c more, s.text = c :: more ∧ c ≠ '/'
  starts : ∀ rest, startsStep (s.tokens ++ rest) = true
  no_call : ∀ rest, EndsTokens rest →
    ∀ name more, s.tokens ++ rest ≠ .name name :: .openParen :: more
  few : s.slashes ≤ 2

/-- A step as it is written. -/
def written (s : Segment) : List Char :=
  List.replicate s.slashes '/' ++ s.text

/-- The token of the slashes in front of a step. -/
def separator (s : Segment) : List Token :=
  match s.slashes with
  | 0 => []
  | 1 => [.slash]
  | _ => [.doubleSlash]

/-- The tokens of a step together with the slashes in front of it. -/
def lexed (s : Segment) : List Token :=
  s.separator ++ s.tokens

/-- The steps that a path takes: a pair of slashes is a step to everything below, and so is the
freedom to begin anywhere. -/
def steps (s : Segment) : List Step :=
  if s.slashes = 1 then [s.step] else [.selfAndBelow, s.step]

theorem lexed_zero {s : Segment} (h : s.slashes = 0) : s.lexed = s.tokens := by
  unfold lexed
  rw [separator, h]
  rfl

theorem lexed_one {s : Segment} (h : s.slashes = 1) : s.lexed = .slash :: s.tokens := by
  unfold lexed
  rw [separator, h]
  rfl

theorem lexed_two {s : Segment} (h : s.slashes = 2) : s.lexed = .doubleSlash :: s.tokens := by
  unfold lexed
  rw [separator, h]
  rfl

theorem steps_one {s : Segment} (h : s.slashes = 1) : s.steps = [s.step] := by
  unfold steps
  rw [if_pos h]

theorem steps_other {s : Segment} (h : s.slashes ≠ 1) : s.steps = [.selfAndBelow, s.step] := by
  unfold steps
  rw [if_neg h]

theorem Faithful.spells_written {s : Segment} (h : s.Faithful) {rest : List Char}
    (hrest : EndsText rest) : Spells s.written s.lexed rest := by
  obtain ⟨c, more, htext, hc⟩ := h.first
  have hfew := h.few
  have hspells := h.spells rest hrest
  rw [written, lexed, separator]
  match s.slashes, hfew with
  | 0, _ => exact hspells
  | 1, _ =>
    refine (spells_slash ?_).append hspells
    rw [htext]
    simpa using hc
  | 2, _ => exact (spells_doubleSlash _).append hspells

end Segment

/-- A row of steps that can be written one after another: behind the first, each has slashes in
front of it. -/
structure Row (first : Segment) (later : List Segment) : Prop where
  faithful : ∀ s ∈ first :: later, s.Faithful
  apart : ∀ s ∈ later, 0 < s.slashes

theorem Row.endsText {later : List Segment} (h : ∀ s ∈ later, 0 < s.slashes) :
    EndsText (later.flatMap Segment.written) := by
  cases later with
  | nil => simp [EndsText]
  | cons s more =>
    obtain ⟨n, hn⟩ := Nat.exists_eq_succ_of_ne_zero (Nat.ne_of_gt (h s List.mem_cons_self))
    rw [List.flatMap_cons, Segment.written, hn, List.replicate_succ]
    simp [EndsText]

/-- Steps that follow one another are read into their tokens. -/
theorem spells_later : ∀ {later : List Segment}, (∀ s ∈ later, s.Faithful ∧ 0 < s.slashes) →
    Spells (later.flatMap Segment.written) (later.flatMap Segment.lexed) []
  | [], _ => Spells.nil []
  | s :: later, h => by
    have hlater : ∀ t ∈ later, t.Faithful ∧ 0 < t.slashes :=
      fun t ht => h t (List.mem_cons_of_mem _ ht)
    rw [List.flatMap_cons, List.flatMap_cons]
    refine Spells.append ((h s List.mem_cons_self).1.spells_written ?_) (spells_later hlater)
    rw [List.append_nil]
    exact Row.endsText fun t ht => (hlater t ht).2

theorem endsTokens_later {later : List Segment} (h : ∀ s ∈ later, 0 < s.slashes) :
    EndsTokens (later.flatMap Segment.lexed) := by
  cases later with
  | nil => simp [EndsTokens]
  | cons s more =>
    have hs := h s List.mem_cons_self
    rw [List.flatMap_cons, Segment.lexed, Segment.separator]
    match s.slashes, hs with
    | 1, _ => simp [EndsTokens]
    | _ + 2, _ => simp [EndsTokens]

/-- Steps that follow one another are read one after another. -/
theorem parseSteps_row {absolute : Bool} : ∀ {later : List Segment} {first : Segment}
    (before : List Step), Row first later →
      Reads (parseSteps absolute before (first.tokens ++ later.flatMap Segment.lexed))
        ⟨absolute, before ++ first.step :: later.flatMap Segment.steps, none⟩ []
  | [], first, before, h =>
    parseSteps_end ((h.faithful first List.mem_cons_self).reads [] (by simp [EndsTokens]))
      (by simp)
  | s :: later, first, before, h => by
    have hfirst := (h.faithful first List.mem_cons_self).reads _ (endsTokens_later h.apart)
    have hrow : Row s later :=
      ⟨fun t ht => h.faithful t (List.mem_cons_of_mem _ ht),
        fun t ht => h.apart t (List.mem_cons_of_mem _ ht)⟩
    have hs := h.apart s List.mem_cons_self
    have hfew := (hrow.faithful s List.mem_cons_self).few
    have hslashes : s.slashes = 1 ∨ s.slashes = 2 := by omega
    rcases hslashes with hn | hn
    · rw [List.flatMap_cons, Segment.lexed_one hn] at hfirst ⊢
      rw [List.flatMap_cons, Segment.steps_one hn]
      refine parseSteps_slash hfirst ?_
      simpa using parseSteps_row (before ++ [first.step]) hrow
    · rw [List.flatMap_cons, Segment.lexed_two hn] at hfirst ⊢
      rw [List.flatMap_cons, Segment.steps_other (by omega)]
      refine parseSteps_doubleSlash hfirst ?_
      simpa using parseSteps_row (before ++ [first.step, .selfAndBelow]) hrow

/-- The path that a row of steps writes from the document. -/
def rowPath (row : List Segment) : Path :=
  ⟨true, row.flatMap Segment.steps, none⟩

/-- A row of steps is read as a path which, from the document, takes all of the steps. -/
theorem parsePath_row {first : Segment} {later : List Segment} (h : Row first later) :
    ∃ path : Path, path.value = none ∧ path.anywhere = rowPath (first :: later) ∧
      Reads (parsePath ((first :: later).flatMap Segment.lexed)) path [] := by
  have hfew := (h.faithful first List.mem_cons_self).few
  have hstart := (h.faithful first List.mem_cons_self).starts
    (later.flatMap Segment.lexed)
  have hslashes : first.slashes = 0 ∨ first.slashes = 1 ∨ first.slashes = 2 := by omega
  rw [rowPath, List.flatMap_cons, List.flatMap_cons]
  rcases hslashes with hn | hn | hn
  · rw [Segment.lexed_zero hn, Segment.steps_other (by omega)]
    exact ⟨_, rfl, rfl, parsePath_relative hstart (parseSteps_row [] h)⟩
  · rw [Segment.lexed_one hn, Segment.steps_one hn]
    exact ⟨_, rfl, rfl, parsePath_slash hstart (parseSteps_row [] h)⟩
  · rw [Segment.lexed_two hn, Segment.steps_other (by omega)]
    exact ⟨_, rfl, rfl, parsePath_doubleSlash (parseSteps_row [.selfAndBelow] h)⟩

/-- A row of steps is no call of a function. -/
theorem parsePrimary_row {first : Segment} {later : List Segment} (h : Row first later)
    {path : Path} (hpath : Reads (parsePath ((first :: later).flatMap Segment.lexed)) path []) :
    Reads (parsePrimary ((first :: later).flatMap Segment.lexed)) (.path path) [] := by
  have hfirst := h.faithful first List.mem_cons_self
  have hfew := hfirst.few
  have hslashes : first.slashes = 0 ∨ first.slashes = 1 ∨ first.slashes = 2 := by omega
  rw [List.flatMap_cons] at hpath ⊢
  rcases hslashes with hn | hn | hn
  · rw [Segment.lexed_zero hn] at hpath ⊢
    exact parsePrimary_path hpath (.inl (hfirst.starts _))
      fun name more hcall => absurd hcall (hfirst.no_call _ (endsTokens_later h.apart) name more)
  · rw [Segment.lexed_one hn] at hpath ⊢
    exact parsePrimary_path hpath (.inr (.inl rfl)) (by simp)
  · rw [Segment.lexed_two hn] at hpath ⊢
    exact parsePrimary_path hpath (.inr (.inr rfl)) (by simp)

/-- The query of a row of steps is the path of these steps from the document. -/
theorem readExpr_written {first : Segment} {later : List Segment} (h : Row first later) :
    readExpr ((first :: later).flatMap Segment.written) =
      .ok (.path (rowPath (first :: later))) := by
  have htokens : tokenize ((first :: later).flatMap Segment.written) =
      .ok ((first :: later).flatMap Segment.lexed) := by
    have hlater : ∀ s ∈ later, s.Faithful ∧ 0 < s.slashes := fun s hs =>
      ⟨h.faithful s (List.mem_cons_of_mem _ hs), h.apart s hs⟩
    have hends : EndsText (later.flatMap Segment.written ++ []) := by
      rw [List.append_nil]
      exact Row.endsText h.apart
    have hspells := ((h.faithful first List.mem_cons_self).spells_written hends).append
      (spells_later hlater)
    rw [Spells, List.append_nil, tokenize] at hspells
    rw [List.flatMap_cons, hspells]
    simp [Except.map]
  obtain ⟨path, hvalue, hanywhere, hpath⟩ := parsePath_row h
  have hexpr := parseExpr_of_primary (parsePrimary_row h hpath)
  rw [readExpr, htokens]
  simp only [bind, Except.bind, hexpr]
  rw [ofExpr, elementsAnywhere, hvalue, hanywhere]
  rfl

/-- A row of steps is read as a query of these steps. -/
theorem read_written {first : Segment} {later : List Segment} (h : Row first later) :
    read (String.ofList ((first :: later).flatMap Segment.written)) =
      .ok ⟨String.ofList ((first :: later).flatMap Segment.written),
        .path (rowPath (first :: later))⟩ := by
  unfold read
  rw [String.toList_ofList, readExpr_written h]

/-- The elements of a query are those among the nodes that its steps lead to. -/
theorem elements_of_followSteps {d : Document} {text : String} {row : List Segment}
    {nodes : List Node}
    (h : followSteps d (row.flatMap Segment.steps) [.document] = .ok nodes) :
    elements ⟨text, .path (rowPath row)⟩ d = .ok (nodes.filterMap Node.element?) := by
  have heval : (Expr.path (rowPath row)).eval d ⟨.document, 1, 1⟩ = .ok (.nodes nodes) := by
    unfold Expr.eval
    rw [rowPath, Path.eval, if_pos rfl, h]
    rfl
  rw [elements, elementsOf, heval]

end Gleaner.Query
