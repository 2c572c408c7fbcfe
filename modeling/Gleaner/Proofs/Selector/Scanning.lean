/-
# Scanning texts with literals

A quotation mark opens and closes a literal, and inside a literal no character is a mark. A text
whose literals are closed and that is free of slashes outside of them goes into a step as a whole;
one that is free of brackets goes into a head or a group as a whole. So a selector put together from
such texts comes apart into the same texts.

Key definitions: `quotedAfter`, `freeOf`, `isSlash`, `isBracket`, `Closed`, `writtenGroups`.
Key theorems: `stepsFrom_append`, `splitLast_append`, `readBrackets_written`.
-/
import Gleaner.Selector.Step
import Gleaner.Selector.Split

namespace Gleaner.Selector

open Gleaner.Text

/-! ### Literals -/

/-- A literal is open behind a text; `quoted` says that one is open before it. -/
def quotedAfter (quoted : Bool) : List Char → Bool
  | [] => quoted
  | c :: rest => quotedAfter (if c = '\'' then !quoted else quoted) rest

/-- A text has no marks outside of literals; `quoted` says that one is open before it. -/
def freeOf (mark : Char → Bool) (quoted : Bool) : List Char → Bool
  | [] => true
  | c :: rest => (quoted || !mark c) && freeOf mark (if c = '\'' then !quoted else quoted) rest

/-- The mark between steps. -/
def isSlash (c : Char) : Bool :=
  c == '/'

/-- The marks around a filter. -/
def isBracket (c : Char) : Bool :=
  c == '[' || c == ']'

/-- A text whose literals are closed and that has no marks outside of them. -/
def Closed (mark : Char → Bool) (text : List Char) : Prop :=
  quotedAfter false text = false ∧ freeOf mark false text = true

theorem quotedAfter_append : ∀ (quoted : Bool) (a b : List Char),
    quotedAfter quoted (a ++ b) = quotedAfter (quotedAfter quoted a) b
  | _, [], _ => rfl
  | _, _ :: a, b => quotedAfter_append _ a b

theorem freeOf_append (mark : Char → Bool) : ∀ (quoted : Bool) (a b : List Char),
    freeOf mark quoted (a ++ b) = (freeOf mark quoted a && freeOf mark (quotedAfter quoted a) b)
  | _, [], _ => rfl
  | _, _ :: a, b => by
    rw [List.cons_append, freeOf, freeOf_append mark _ a b, freeOf, quotedAfter, Bool.and_assoc]

theorem quotedAfter_of_no_quote {text : List Char} (h : '\'' ∉ text) (quoted : Bool) :
    quotedAfter quoted text = quoted := by
  induction text generalizing quoted with
  | nil => rfl
  | cons c rest ih =>
    rw [List.mem_cons, not_or] at h
    rw [quotedAfter, if_neg (Ne.symm h.1), ih h.2]

theorem freeOf_quoted {mark : Char → Bool} {text : List Char} (h : '\'' ∉ text) :
    freeOf mark true text = true := by
  induction text with
  | nil => rfl
  | cons c rest ih =>
    rw [List.mem_cons, not_or] at h
    rw [freeOf, if_neg (Ne.symm h.1), ih h.2]
    rfl

namespace Closed

variable {mark : Char → Bool}

theorem nil : Closed mark [] :=
  ⟨rfl, rfl⟩

theorem append {a b : List Char} (ha : Closed mark a) (hb : Closed mark b) :
    Closed mark (a ++ b) := by
  refine ⟨?_, ?_⟩
  · rw [quotedAfter_append, ha.1, hb.1]
  · rw [freeOf_append, ha.1, ha.2, hb.2]
    rfl

/-- Characters that are no marks and no quotation marks make up a closed text. -/
theorem of_forall {text : List Char} (h : ∀ c ∈ text, c ≠ '\'' ∧ mark c = false) :
    Closed mark text := by
  refine ⟨quotedAfter_of_no_quote (fun hq => (h _ hq).1 rfl) false, ?_⟩
  induction text with
  | nil => rfl
  | cons c rest ih =>
    obtain ⟨hc, hmark⟩ := h c List.mem_cons_self
    rw [freeOf, if_neg hc, hmark, ih fun a ha => h a (List.mem_cons_of_mem _ ha)]
    rfl

/-- A whole literal is a closed text, whatever stands in it. -/
theorem literal {value : List Char} (hquote : mark '\'' = false) (h : '\'' ∉ value) :
    Closed mark ('\'' :: value ++ ['\'']) := by
  refine ⟨?_, ?_⟩
  · rw [List.cons_append, quotedAfter, quotedAfter_append, if_pos rfl,
      quotedAfter_of_no_quote h]
    rfl
  · rw [List.cons_append, freeOf, freeOf_append, if_pos rfl, Bool.not_false,
      quotedAfter_of_no_quote h, freeOf_quoted h, freeOf, freeOf, hquote]
    rfl

theorem flatMap {α : Type} {f : α → List Char} : ∀ {list : List α},
    (∀ a ∈ list, Closed mark (f a)) → Closed mark (list.flatMap f)
  | [], _ => nil
  | a :: _, h => by
    rw [List.flatMap_cons]
    exact (h a List.mem_cons_self).append (flatMap fun b hb => h b (List.mem_cons_of_mem _ hb))

end Closed

/-! ### Steps -/

theorem hasBody_append (a b : List Char) : hasBody (a ++ b) = (hasBody a || hasBody b) := by
  rw [hasBody, List.any_append, hasBody, hasBody]

/-- A character that is no separating slash goes on with the step. -/
theorem stepsFrom_cons {current : List Char} {quoted : Bool} {c : Char}
    (h : (c == '/' && !quoted && hasBody current) = false) (rest : List Char) :
    stepsFrom current quoted (c :: rest) =
      stepsFrom (current ++ [c]) (if c = '\'' then !quoted else quoted) rest := by
  rw [stepsFrom]
  by_cases hc : c = '\''
  · rw [if_pos hc, if_pos hc]
  · rw [if_neg hc, if_neg hc, if_neg (by simpa using h)]

/-- Slashes in front of a step belong to it. -/
theorem stepsFrom_slashes : ∀ (n : Nat) {current : List Char} (_ : hasBody current = false)
    (rest : List Char), stepsFrom current false (List.replicate n '/' ++ rest) =
      stepsFrom (current ++ List.replicate n '/') false rest
  | 0, current, _, rest => by simp
  | n + 1, current, h, rest => by
    rw [List.replicate_succ, List.cons_append, stepsFrom_cons (by simp [h]),
      if_neg (by decide), stepsFrom_slashes n (by rw [hasBody_append, h]; rfl), List.append_assoc]
    rfl

/-- A text without slashes outside of literals goes on with the step that has begun. -/
theorem stepsFrom_free (rest : List Char) : ∀ (text : List Char) {current : List Char}
    {quoted : Bool}, hasBody current = true → freeOf isSlash quoted text = true →
      stepsFrom current quoted (text ++ rest) =
        stepsFrom (current ++ text) (quotedAfter quoted text) rest
  | [], _, _, _, _ => by simp [quotedAfter]
  | c :: text, current, quoted, hbody, hfree => by
    unfold freeOf at hfree
    rw [Bool.and_eq_true] at hfree
    have hkeep : (c == '/' && !quoted && hasBody current) = false := by
      have := hfree.1
      rw [isSlash] at this
      cases quoted <;> simp_all
    rw [List.cons_append, stepsFrom_cons hkeep,
      stepsFrom_free rest text (by rw [hasBody_append, hbody]; rfl) hfree.2, List.append_assoc]
    rfl

/-- What a step is made of behind its slashes: its literals are closed, it has no slashes outside of
them, and does not begin with one. -/
structure StepText (body : List Char) : Prop where
  closed : Closed isSlash body
  head : ∃ c rest, body = c :: rest ∧ c ≠ '/'

namespace StepText

variable {body : List Char}

/-- A text of a step is read as a whole behind its slashes. -/
theorem stepsFrom_append (h : StepText body) {current : List Char}
    (hcurrent : hasBody current = false) (rest : List Char) :
    stepsFrom current false (body ++ rest) = stepsFrom (current ++ body) false rest := by
  obtain ⟨c, text, rfl, hc⟩ := h.head
  have hfree := h.closed.2
  rw [freeOf, Bool.and_eq_true] at hfree
  have hquoted := h.closed.1
  rw [quotedAfter] at hquoted
  have hbody : hasBody (current ++ [c]) = true := by
    rw [hasBody_append, hcurrent]
    simp [hasBody, hc]
  rw [List.cons_append, stepsFrom_cons (by simp [hc]), stepsFrom_free rest text hbody hfree.2,
    hquoted, List.append_assoc]
  rfl

theorem hasBody (h : StepText body) (slashes : List Char) :
    Selector.hasBody (slashes ++ body) = true := by
  obtain ⟨c, text, rfl, hc⟩ := h.head
  simp [Selector.hasBody, hc]

end StepText

/-- Behind a step that has begun, one or more slashes begin the next. -/
theorem stepsFrom_next {current : List Char} (h : hasBody current = true) (n : Nat)
    (rest : List Char) :
    stepsFrom current false (List.replicate (n + 1) '/' ++ rest) =
      current :: stepsFrom (List.replicate (n + 1) '/') false rest := by
  rw [List.replicate_succ, List.cons_append, stepsFrom, if_neg (by decide), if_pos (by simp [h]),
    stepsFrom_slashes n rfl]
  rfl

/-- Steps written one after another, each behind the first with slashes in front of it, are told
apart again. -/
theorem stepsFrom_steps {current : List Char} (hcurrent : hasBody current = true) :
    ∀ steps : List (Nat × List Char), (∀ s ∈ steps, StepText s.2) →
      stepsFrom current false
          (steps.flatMap fun s => List.replicate (s.1 + 1) '/' ++ s.2) =
        current :: steps.map fun s => List.replicate (s.1 + 1) '/' ++ s.2
  | [], _ => by simp [stepsFrom, hcurrent]
  | s :: rest, h => by
    have hs := h s List.mem_cons_self
    rw [List.flatMap_cons, List.append_assoc, stepsFrom_next hcurrent,
      hs.stepsFrom_append (by simp [Selector.hasBody]),
      stepsFrom_steps (hs.hasBody _) rest fun t ht => h t (List.mem_cons_of_mem _ ht)]
    rfl

/-- The steps of a selector that is written step by step. -/
theorem splitSteps_written (n : Nat) {body : List Char} (h : StepText body)
    {steps : List (Nat × List Char)} (hsteps : ∀ s ∈ steps, StepText s.2) :
    splitSteps (List.replicate n '/' ++ body ++
        steps.flatMap fun s => List.replicate (s.1 + 1) '/' ++ s.2) =
      (List.replicate n '/' ++ body) :: steps.map fun s => List.replicate (s.1 + 1) '/' ++ s.2 := by
  rw [splitSteps, List.append_assoc, stepsFrom_slashes n rfl, List.nil_append,
    h.stepsFrom_append (by simp [Selector.hasBody]), stepsFrom_steps (h.hasBody _) steps hsteps]

/-! ### The last step -/

theorem splitLast?_eq_none : ∀ {text : List Char} {quoted : Bool},
    freeOf isSlash quoted text = true → splitLast? quoted text = none
  | [], _, _ => rfl
  | c :: rest, quoted, h => by
    unfold freeOf at h
    rw [Bool.and_eq_true] at h
    rw [splitLast?, splitLast?_eq_none h.2]
    have hc := h.1
    rw [isSlash] at hc
    cases quoted <;> simp_all

theorem free_of_splitLast?_eq_none : ∀ {text : List Char} {quoted : Bool},
    splitLast? quoted text = none → freeOf isSlash quoted text = true
  | [], _, _ => rfl
  | c :: rest, quoted, h => by
    rw [splitLast?] at h
    split at h
    · cases h
    · next hnone =>
      split at h
      · cases h
      · next hc =>
        rw [freeOf, free_of_splitLast?_eq_none hnone, isSlash]
        cases quoted <;> simp_all

theorem splitLast?_append {last : List Char} (hlast : freeOf isSlash false last = true) :
    ∀ {before : List Char} {quoted : Bool}, quotedAfter quoted before = false →
      splitLast? quoted (before ++ '/' :: last) = some (before, last)
  | [], quoted, h => by
    unfold quotedAfter at h
    rw [List.nil_append, splitLast?, h, if_neg (by decide), splitLast?_eq_none hlast]
    rfl
  | c :: before, quoted, h => by
    unfold quotedAfter at h
    rw [List.cons_append, splitLast?, splitLast?_append hlast h]

/-- The slash is outside of literals, and none that follows it is. -/
theorem separates_of_splitLast? {last : List Char} : ∀ {text before : List Char} {quoted : Bool},
    splitLast? quoted text = some (before, last) →
      quotedAfter quoted before = false ∧ freeOf isSlash false last = true
  | [], _, _, h => by cases h
  | c :: rest, before, quoted, h => by
    rw [splitLast?] at h
    split at h
    · next front back hsplit =>
      cases h
      have hseparates := separates_of_splitLast? hsplit
      exact hseparates
    · next hnone =>
      split at h
      · next hc =>
        cases h
        rw [Bool.and_eq_true, decide_eq_true_eq, Bool.not_eq_true'] at hc
        obtain ⟨rfl, rfl⟩ := hc
        exact ⟨rfl, free_of_splitLast?_eq_none hnone⟩
      · cases h

/-- A selector comes apart at a slash that is the last outside of literals. -/
theorem splitLast_append {before last : List Char} (hbefore : quotedAfter false before = false)
    (hlast : freeOf isSlash false last = true) :
    splitLast (before ++ '/' :: last) = (before, last) := by
  unfold splitLast
  rw [splitLast?_append hlast hbefore]
  rfl

/-- A selector without slashes outside of literals is all one segment. -/
theorem splitLast_of_free {text : List Char} (h : freeOf isSlash false text = true) :
    splitLast text = ([], text) := by
  unfold splitLast
  rw [splitLast?_eq_none h]
  rfl

/-! ### Brackets -/

/-- A text without brackets outside of literals goes into what is open: the head, or a group. -/
theorem scanBrackets_append (stray cut : List Char) {opened : Bool} {depth : Nat}
    (hopen : (decide (depth > 0) || !opened) = true) (rest : List Char) :
    ∀ {text : List Char} {quoted : Bool}, freeOf isBracket quoted text = true →
      scanBrackets stray cut opened depth quoted (text ++ rest) =
        (scanBrackets stray cut opened depth (quotedAfter quoted text) rest).map fun b =>
          { b with text := text ++ b.text }
  | [], quoted, _ => by
    rw [List.nil_append, quotedAfter]
    cases scanBrackets stray cut opened depth quoted rest <;> rfl
  | c :: text, quoted, h => by
    unfold freeOf at h
    rw [Bool.and_eq_true] at h
    have ih := scanBrackets_append stray cut hopen rest h.2
    have hmark : ∀ mark : Char, isBracket mark = true → (decide (c = mark) && !quoted) = false := by
      intro mark hmark
      have hc := h.1
      cases quoted
      · by_cases hcm : c = mark
        · rw [hcm, hmark] at hc
          cases hc
        · simp [hcm]
      · simp
    rw [List.cons_append, scanBrackets.eq_def, quotedAfter]
    dsimp only
    by_cases hc : c = '\''
    · rw [if_pos hc] at ih ⊢
      rw [if_pos hc, ih]
      cases scanBrackets stray cut opened depth (quotedAfter (!quoted) text) rest with
      | error e => rfl
      | ok b => simp [Except.map, hopen, Brackets.keep]
    · rw [if_neg hc] at ih ⊢
      rw [if_neg hc, if_neg (by simp [hmark '[' rfl]), if_neg (by simp [hmark ']' rfl]), ih]
      cases scanBrackets stray cut opened depth (quotedAfter quoted text) rest with
      | error e => rfl
      | ok b => simp [Except.map, hopen, Brackets.keep]

theorem scanBrackets_open (stray cut : List Char) (opened : Bool) (rest : List Char) :
    scanBrackets stray cut opened 0 false ('[' :: rest) =
      (scanBrackets (if opened then stray else '[' :: rest) rest true 1 false rest).map fun b =>
        ⟨[], b.text :: b.groups, b.trailing⟩ := by
  rw [scanBrackets, if_neg (by decide), if_pos (by decide), if_pos rfl]

theorem scanBrackets_close (stray cut : List Char) (opened : Bool) (rest : List Char) :
    scanBrackets stray cut opened 1 false (']' :: rest) =
      (scanBrackets stray cut opened 0 false rest).map fun b => { b with text := [] } := by
  rw [scanBrackets, if_neg (by decide), if_neg (by decide), if_pos (by decide)]

/-- Groups as they are written, each between brackets. -/
def writtenGroups (groups : List (List Char)) : List Char :=
  groups.flatMap fun g => '[' :: g ++ [']']

/-- Groups that are closed texts are read as they are written, with nothing between them. -/
theorem scanBrackets_groups : ∀ (groups : List (List Char)) (stray cut : List Char) (opened : Bool),
    (∀ g ∈ groups, Closed isBracket g) →
      scanBrackets stray cut opened 0 false (writtenGroups groups) = .ok ⟨[], groups, none⟩
  | [], _, _, _, _ => rfl
  | g :: groups, stray, cut, opened, h => by
    have hg := h g List.mem_cons_self
    have hwritten : writtenGroups (g :: groups) = '[' :: (g ++ ']' :: writtenGroups groups) := by
      simp [writtenGroups]
    rw [hwritten, scanBrackets_open, scanBrackets_append _ _ rfl _ hg.2, hg.1, scanBrackets_close,
      scanBrackets_groups groups _ _ _ fun a ha => h a (List.mem_cons_of_mem _ ha)]
    simp [Except.map]

/-- A head and groups that are closed texts are read as they are written. -/
theorem readBrackets_written {head : List Char} (hhead : Closed isBracket head)
    {groups : List (List Char)} (h : ∀ g ∈ groups, Closed isBracket g) :
    readBrackets (head ++ writtenGroups groups) = .ok ⟨head, groups, none⟩ := by
  rw [readBrackets, scanBrackets_append _ _ rfl _ hhead.2, hhead.1,
    scanBrackets_groups groups _ _ _ h]
  simp [Except.map]

end Gleaner.Selector
