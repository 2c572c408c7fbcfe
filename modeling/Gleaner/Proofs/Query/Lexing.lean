/-
# Texts that are read token by token

What is read at the front of a text is a spelling of the token that is read: the text of a sign or
of a name, a literal between two quotation marks of one kind, or a row of digits and points. A token
that is no literal is read alike at the end of a text and before a slash, a bar or a space, since
none of these goes on with it; only a slash must not stand before another. A literal is read up to
its mark, whatever follows. So a whole text is read before such a sign as it is read alone.

Key definitions: `Token.SpelledBy`, `Taken`, `StopsText`, `Settled`, `Refused`.
Key theorems: `tokenAt_append`, `ensures_tokenAt`, `settled_or_refused`,
`tokenize_intercalate_iff`.
-/
import Gleaner.Proofs.Query.Spelling
import Gleaner.Proofs.Success
import Gleaner.Proofs.Text.Trimming
import Mathlib.Data.List.Forall2
import Mathlib.Tactic.SplitIfs

namespace Gleaner.Query

open Gleaner.Text

variable {c : Char} {a rest : List Char}

/-! ### What follows a token -/

/-- The signs with which no token in front of them goes on, but for a slash before another. -/
def stops : List Char :=
  ['/', '|', ' ']

/-- One of these signs comes next, or nothing. -/
def StopsToken (rest : List Char) : Prop :=
  ∀ c ∈ rest.head?, c ∈ stops

theorem stopsToken_nil : StopsToken [] := by
  rintro _ ⟨⟩

theorem StopsToken.head?_any {p : Char → Bool} (hrest : StopsToken rest)
    (hp : ∀ c ∈ stops, p c = false) : rest.head?.any p = false := by
  cases rest with
  | nil => rfl
  | cons d rest => exact hp d (hrest d rfl)

theorem StopsToken.head?_ne (hrest : StopsToken rest) (hc : c ∉ stops) : rest.head? ≠ some c :=
  fun h => hc (hrest c h)

theorem takeWhile_append_stops {p : Char → Bool} (hp : ∀ c ∈ stops, p c = false)
    (hrest : StopsToken rest) : ∀ a : List Char, (a ++ rest).takeWhile p = a.takeWhile p
  | [] => by
    cases rest with
    | nil => rfl
    | cons d rest => simp [hp d (hrest d rfl)]
  | c :: a => by
    rw [List.cons_append, List.takeWhile_cons, List.takeWhile_cons,
      takeWhile_append_stops hp hrest a]

theorem nameChars_stops (hrest : StopsToken rest) : nameChars rest = [] := by
  cases rest with
  | nil => rfl
  | cons d rest =>
    have hstops : ∀ d ∈ stops, isNameChar d = false ∧ d ≠ ':' := by decide
    obtain ⟨hname, hcolon⟩ := hstops d (hrest d rfl)
    simp [nameChars, hname, hcolon]

theorem nameChars_append_stops (hrest : StopsToken rest) :
    ∀ a : List Char, nameChars (a ++ rest) = nameChars a
  | [] => nameChars_stops hrest
  | c :: a => by
    have hhead : (a ++ rest).head?.any isNameStart = a.head?.any isNameStart := by
      cases a with
      | nil => exact hrest.head?_any (by decide)
      | cons d a => rfl
    rw [List.cons_append, nameChars, nameChars, hhead, nameChars_append_stops hrest a]

/-- A token that is no literal is read before one of these signs as it is at the end. -/
theorem tokenAt_append (hquote : c ≠ '\'' ∧ c ≠ '"')
    (hslash : c = '/' → a = [] → rest.head? ≠ some '/') (hrest : StopsToken rest) :
    tokenAt c (a ++ rest) = tokenAt c a := by
  have hnumber := takeWhile_append_stops (p := isNumberChar) (by decide) hrest a
  have hname := nameChars_append_stops hrest a
  cases a with
  | cons d a =>
    unfold tokenAt
    simp only [hquote, or_self, if_false, hnumber, hname]
    rfl
  | nil =>
    rw [List.nil_append] at hnumber hname
    have hdigit : rest.head?.any isDigit = false := hrest.head?_any (by decide)
    have hequal : rest.head? ≠ some '=' := hrest.head?_ne (by decide)
    have hcolon : rest.head? ≠ some ':' := hrest.head?_ne (by decide)
    have hdot : rest.head? ≠ some '.' := hrest.head?_ne (by decide)
    unfold tokenAt
    by_cases hc : c = '/'
    · simp [hc, hslash hc rfl]
    · simp [hc, hquote, hnumber, hname, hdigit, hequal, hcolon, hdot]

/-! ### Literals -/

theorem tokenAt_quote (hquote : c = '\'' ∨ c = '"') (text : List Char) :
    tokenAt c text =
      if (text.takeWhile (· != c)).length < text.length then
        .ok (.literal (String.ofList (text.takeWhile (· != c))),
          (text.takeWhile (· != c)).length + 1)
      else .error .unterminatedLiteral := by
  rcases hquote with rfl | rfl <;> rfl

theorem takeWhile_mark {value : List Char} (h : c ∉ value) (rest : List Char) :
    (value ++ c :: rest).takeWhile (· != c) = value := by
  rw [List.takeWhile_append_of_pos fun d hd => ?_]
  · simp
  · rw [bne_iff_ne]
    rintro rfl
    exact h hd

theorem takeWhile_unmarked (h : c ∉ a) : a.takeWhile (· != c) = a := by
  refine List.takeWhile_eq_self_iff.2 fun d hd => ?_
  rw [bne_iff_ne]
  rintro rfl
  exact h hd

/-- A literal is read up to the first of its marks. -/
theorem tokenAt_literal (hquote : c = '\'' ∨ c = '"') {value : List Char} (h : c ∉ value)
    (rest : List Char) :
    tokenAt c (value ++ c :: rest) = .ok (.literal (String.ofList value), value.length + 1) := by
  rw [tokenAt_quote hquote, takeWhile_mark h, if_pos (by simp)]

/-- A literal that is closed is read up to its mark, whatever follows. -/
theorem tokenAt_closed (hquote : c = '\'' ∨ c = '"') (h : c ∈ a) :
    ∃ token, ∀ rest, tokenAt c (a ++ rest) = .ok token := by
  obtain ⟨value, more, rfl, hvalue⟩ := List.eq_append_cons_of_mem h
  refine ⟨(.literal (String.ofList value), value.length + 1), fun rest => ?_⟩
  rw [List.append_assoc, List.cons_append, tokenAt_literal hquote hvalue]

theorem tokenAt_open (hquote : c = '\'' ∨ c = '"') (h : c ∉ a) :
    tokenAt c a = .error .unterminatedLiteral := by
  rw [tokenAt_quote hquote, takeWhile_unmarked h, if_neg (Nat.lt_irrefl _)]

/-! ### Spellings -/

/-- A text spells a token: a sign has one spelling and a name spells itself, a literal stands
between two quotation marks of a kind that it does not hold, and a number is a row of digits and
points. -/
def Token.SpelledBy : Token → List Char → Prop
  | .slash, text => text = ['/']
  | .doubleSlash, text => text = ['/', '/']
  | .openBracket, text => text = ['[']
  | .closeBracket, text => text = [']']
  | .openParen, text => text = ['(']
  | .closeParen, text => text = [')']
  | .at, text => text = ['@']
  | .comma, text => text = [',']
  | .dot, text => text = ['.']
  | .doubleDot, text => text = ['.', '.']
  | .star, text => text = ['*']
  | .pipe, text => text = ['|']
  | .doubleColon, text => text = [':', ':']
  | .equal, text => text = ['=']
  | .notEqual, text => text = ['!', '=']
  | .less, text => text = ['<']
  | .atMost, text => text = ['<', '=']
  | .greater, text => text = ['>']
  | .atLeast, text => text = ['>', '=']
  | .name value, text => text = value.toList
  | .literal value, text =>
    ∃ mark, (mark = '\'' ∨ mark = '"') ∧ mark ∉ value.toList ∧
      text = mark :: (value.toList ++ [mark])
  | .number value, text =>
    text ≠ [] ∧ (∀ c ∈ text, isNumberChar c = true) ∧ numberOf text = value

theorem isPrefix_nameChars : ∀ a : List Char, nameChars a <+: a
  | [] => List.prefix_rfl
  | c :: a => by
    rw [nameChars]
    split_ifs
    · exact List.prefix_cons_inj c |>.2 (isPrefix_nameChars a)
    · exact List.prefix_cons_inj c |>.2 (isPrefix_nameChars a)
    · exact List.nil_prefix

theorem isPrefix_trimName (name : List Char) : trimName name <+: name := by
  rw [trimName, ← List.reverse_suffix, List.reverse_reverse]
  exact List.dropWhile_suffix _

/-- What a computation gives, if it gives something, has the property. -/
def Ensures {ε α : Type} (P : α → Prop) (x : Except ε α) : Prop :=
  ∀ a, x = .ok a → P a

section

variable {ε α : Type} {P : α → Prop}

theorem Ensures.ok {b : α} (h : P b) : Ensures P (.ok b : Except ε α) := by
  rintro _ ⟨⟩
  exact h

theorem Ensures.error (e : ε) : Ensures P (.error e : Except ε α) := by
  rintro _ ⟨⟩

theorem Ensures.ite {p : Prop} [Decidable p] {x y : Except ε α} (hx : p → Ensures P x)
    (hy : ¬p → Ensures P y) : Ensures P (if p then x else y) := by
  by_cases h : p
  · rw [if_pos h]
    exact hx h
  · rw [if_neg h]
    exact hy h

end

/-- What is taken for a token is there, and spells the token. -/
def Taken (c : Char) (a : List Char) (token : Token × Nat) : Prop :=
  ∃ more rest, a = more ++ rest ∧ more.length = token.2 ∧ token.1.SpelledBy (c :: more)

theorem Taken.width_le {token : Token × Nat} (h : Taken c a token) : token.2 ≤ a.length := by
  obtain ⟨more, rest, rfl, hlength, -⟩ := h
  rw [← hlength, List.length_append]
  exact Nat.le_add_right _ _

theorem taken_sign {token : Token} (h : token.SpelledBy [c]) : Taken c a (token, 0) :=
  ⟨[], a, rfl, rfl, h⟩

theorem taken_pair {token : Token} {d : Char} (hd : a.head? = some d)
    (h : token.SpelledBy [c, d]) : Taken c a (token, 1) := by
  obtain ⟨rest, rfl⟩ := List.head?_eq_some_iff.1 hd
  exact ⟨[d], rest, rfl, rfl, h⟩

/-- A character is taken by itself where the one that goes on with it does not follow. -/
theorem taken_either {one two : Token} {d : Char} (htwo : two.SpelledBy [c, d])
    (hone : one.SpelledBy [c]) : Taken c a (if a.head? = some d then (two, 1) else (one, 0)) := by
  by_cases hd : a.head? = some d
  · rw [if_pos hd]
    exact taken_pair hd htwo
  · rw [if_neg hd]
    exact taken_sign hone

theorem taken_front {token : Token} {more : List Char} (hmore : more <+: a)
    (h : token.SpelledBy (c :: more)) : Taken c a (token, more.length) := by
  obtain ⟨rest, rfl⟩ := hmore
  exact ⟨more, rest, rfl, rfl, h⟩

theorem taken_literal (hquote : c = '\'' ∨ c = '"')
    (h : (a.takeWhile (· != c)).length < a.length) :
    Taken c a (.literal (String.ofList (a.takeWhile (· != c))),
      (a.takeWhile (· != c)).length + 1) := by
  have hmark : c ∈ a := by
    by_contra hopen
    rw [takeWhile_unmarked hopen] at h
    exact Nat.lt_irrefl _ h
  obtain ⟨value, more, rfl, hvalue⟩ := List.eq_append_cons_of_mem hmark
  rw [takeWhile_mark hvalue]
  refine ⟨value ++ [c], more, by simp, by simp, c, hquote, ?_, ?_⟩
  · rwa [String.toList_ofList]
  · rw [String.toList_ofList]

theorem taken_number (hc : isNumberChar c = true) :
    Taken c a (.number (numberOf (c :: a.takeWhile isNumberChar)),
      (a.takeWhile isNumberChar).length) := by
  refine taken_front (List.takeWhile_prefix _) ⟨List.cons_ne_nil _ _, ?_, rfl⟩
  exact List.forall_mem_cons.2 ⟨hc, fun _ hd => List.mem_takeWhile_imp hd⟩

theorem taken_name (c : Char) (a : List Char) :
    Taken c a (.name (String.ofList (c :: trimName (nameChars a))),
      (trimName (nameChars a)).length) :=
  taken_front ((isPrefix_trimName _).trans (isPrefix_nameChars a)) String.toList_ofList.symm

/-- **What a token takes of a text spells the token.** -/
theorem ensures_tokenAt (c : Char) (a : List Char) : Ensures (Taken c a) (tokenAt c a) := by
  unfold tokenAt
  dsimp only
  -- One goal for each sign, and then for the literals, the numbers and the names.
  repeat' refine .ite (fun hc => ?_) fun _ => ?_
  all_goals first | exact .error _ | refine .ok ?_
  all_goals try subst hc
  all_goals first
    | exact taken_sign rfl
    | exact taken_either rfl rfl
    | exact taken_pair hc.2 (by rw [hc.1]; rfl)
    | exact taken_name c a
    | skip
  · exact taken_pair hc (by rw [‹c = '.'›]; rfl)
  · exact taken_number (by rw [‹c = '.'›]; rfl)
  · exact taken_literal ‹_› hc
  · exact taken_number (by rw [isNumberChar, hc]; rfl)

/-! ### All tokens of a text -/

/-- What follows a text begins with a stop, and not with a slash behind a slash. -/
def StopsText (a rest : List Char) : Prop :=
  StopsToken rest ∧ (a.getLast? = some '/' → rest.head? ≠ some '/')

theorem stopsText_nil (a : List Char) : StopsText a [] :=
  ⟨stopsToken_nil, fun _ => nofun⟩

/-- What may follow a text may follow each of its ends. -/
theorem StopsText.drop (h : StopsText (c :: a) rest) (width : Nat) :
    StopsText (a.drop width) rest := by
  refine ⟨h.1, fun hlast => h.2 ?_⟩
  rw [List.getLast?_drop] at hlast
  split at hlast
  · cases hlast
  · rw [List.getLast?_cons, hlast]
    rfl

theorem tokenize_blanks {blanks : List Char} (h : Blanks blanks) (rest : List Char) :
    tokenize (blanks ++ rest) = tokenize rest := by
  induction blanks with
  | nil => rfl
  | cons c blanks ih =>
    obtain ⟨hc, hblanks⟩ := List.forall_mem_cons.1 h
    rw [List.cons_append, tokenize, if_pos hc, ih hblanks]

theorem tokenize_nil : tokenize [] = .ok [] := by
  rw [tokenize]

theorem tokenize_of_blank {tokens : List Token} (hblank : isBlank c = true)
    (h : tokenize a = .ok tokens) : tokenize (c :: a) = .ok tokens := by
  rw [tokenize, if_pos hblank, h]

/-- What follows the first token of a text is read behind it. -/
theorem tokenize_token {token : Token} {width : Nat} (hblank : isBlank c = false)
    (h : tokenAt c a = .ok (token, width)) :
    tokenize (c :: a) = (tokenize (a.drop width)).map (token :: ·) := by
  rw [tokenize, hblank, h]
  rfl

theorem tokenize_of_token {token : Token} {width : Nat} {tokens : List Token}
    (hblank : isBlank c = false) (h : tokenAt c a = .ok (token, width))
    (hmore : tokenize (a.drop width) = .ok tokens) : tokenize (c :: a) = .ok (token :: tokens) := by
  rw [tokenize_token hblank h, hmore]
  rfl

theorem tokenize_cons {token : Token} {width : Nat} (hblank : isBlank c = false)
    (h : tokenAt c (a ++ rest) = .ok (token, width)) (hwidth : width ≤ a.length) :
    tokenize (c :: a ++ rest) = (tokenize (a.drop width ++ rest)).map (token :: ·) := by
  rw [List.cons_append, tokenize_token hblank h, List.drop_append_of_le_length hwidth]

/-- The text is read into the same tokens at the end and before any stop. -/
def Settled (a : List Char) (tokens : List Token) : Prop :=
  ∀ rest, StopsText a rest → Spells a tokens rest

/-- The text cannot be read at the end or before any stop; behind a literal that is open, what
follows must not close it. -/
def Refused (a : List Char) (reason : Reason) : Prop :=
  ∀ rest, StopsText a rest → (reason = .unterminatedLiteral → '\'' ∉ rest ∧ '"' ∉ rest) →
    tokenize (a ++ rest) = .error reason

/-- A token is read, and what follows it decides. -/
theorem settled_or_refused_cons {token : Token} {width : Nat} (hblank : isBlank c = false)
    (h : ∀ rest, StopsText (c :: a) rest → tokenAt c (a ++ rest) = .ok (token, width))
    (hmore : (∃ tokens, Settled (a.drop width) tokens) ∨ ∃ reason, Refused (a.drop width) reason) :
    (∃ tokens, Settled (c :: a) tokens) ∨ ∃ reason, Refused (c :: a) reason := by
  have hwidth : width ≤ a.length := by
    have hnil := h [] (stopsText_nil _)
    rw [List.append_nil] at hnil
    exact (ensures_tokenAt c a _ hnil).width_le
  have hrest (rest : List Char) (hstops : StopsText (c :: a) rest) :=
    tokenize_cons hblank (h rest hstops) hwidth
  rcases hmore with ⟨tokens, htokens⟩ | ⟨reason, hreason⟩
  · refine .inl ⟨token :: tokens, fun rest hstops => ?_⟩
    have hmore := htokens rest (hstops.drop width)
    unfold Spells at hmore ⊢
    rw [hrest rest hstops, hmore]
    cases tokenize rest <;> rfl
  · refine .inr ⟨reason, fun rest hstops hmarks => ?_⟩
    rw [hrest rest hstops, hreason rest (hstops.drop width) hmarks]
    rfl

/-- **A text before a stop is read as it is read alone**, unless a literal is open at its end. -/
theorem settled_or_refused : ∀ a : List Char,
    (∃ tokens, Settled a tokens) ∨ ∃ reason, Refused a reason
  | [] => .inl ⟨[], fun rest _ => Spells.nil rest⟩
  | c :: a => by
    by_cases hblank : isBlank c = true
    · have hrest (rest : List Char) : tokenize (c :: a ++ rest) = tokenize (a ++ rest) := by
        rw [List.cons_append, tokenize, if_pos hblank]
      rcases settled_or_refused a with ⟨tokens, htokens⟩ | ⟨reason, hreason⟩
      · exact .inl ⟨tokens, fun rest hstops =>
          (hrest rest).trans (htokens rest (hstops.drop 0))⟩
      · exact .inr ⟨reason, fun rest hstops hmarks =>
          (hrest rest).trans (hreason rest (hstops.drop 0) hmarks)⟩
    rw [Bool.not_eq_true] at hblank
    by_cases hquote : c = '\'' ∨ c = '"'
    · by_cases hclosed : c ∈ a
      · obtain ⟨token, htoken⟩ := tokenAt_closed hquote hclosed
        refine settled_or_refused_cons hblank (fun rest _ => htoken rest) ?_
        exact settled_or_refused (a.drop token.2)
      · refine .inr ⟨.unterminatedLiteral, fun rest _ hmarks => ?_⟩
        have hrest : c ∉ rest := by
          rcases hquote with rfl | rfl
          · exact (hmarks rfl).1
          · exact (hmarks rfl).2
        have hopen : c ∉ a ++ rest := fun hmem => (List.mem_append.1 hmem).elim hclosed hrest
        rw [List.cons_append, tokenize, hblank, tokenAt_open hquote hopen]
        rfl
    · rw [not_or] at hquote
      have hsame (rest : List Char) (hstops : StopsText (c :: a) rest) :
          tokenAt c (a ++ rest) = tokenAt c a := by
        refine tokenAt_append hquote ?_ hstops.1
        rintro rfl rfl
        exact hstops.2 rfl
      cases htoken : tokenAt c a with
      | error reason =>
        refine .inr ⟨reason, fun rest hstops _ => ?_⟩
        rw [List.cons_append, tokenize, hblank, hsame rest hstops, htoken]
        rfl
      | ok token =>
        refine settled_or_refused_cons hblank
          (fun rest hstops => (hsame rest hstops).trans htoken) ?_
        exact settled_or_refused (a.drop token.2)
termination_by a => a.length

/-- At the end of a text stands what is spelled there. -/
theorem Spells.tokenize {tokens : List Token} (h : Spells a tokens []) :
    tokenize a = .ok tokens := by
  unfold Spells at h
  rw [List.append_nil, Query.tokenize] at h
  simpa [Except.map] using h

theorem Settled.tokenize {tokens : List Token} (h : Settled a tokens) : tokenize a = .ok tokens :=
  (h [] (stopsText_nil a)).tokenize

theorem Refused.tokenize {reason : Reason} (h : Refused a reason) :
    tokenize a = .error reason := by
  have hnil := h [] (stopsText_nil a) fun _ => ⟨List.not_mem_nil, List.not_mem_nil⟩
  rwa [List.append_nil] at hnil

theorem settled_of_tokenize {tokens : List Token} (h : tokenize a = .ok tokens) :
    Settled a tokens := by
  rcases settled_or_refused a with ⟨others, hothers⟩ | ⟨reason, hreason⟩
  · obtain rfl := Except.ok.inj (hothers.tokenize.symm.trans h)
    exact hothers
  · cases hreason.tokenize.symm.trans h

theorem refused_of_tokenize {reason : Reason} (h : tokenize a = .error reason) :
    Refused a reason := by
  rcases settled_or_refused a with ⟨tokens, htokens⟩ | ⟨other, hother⟩
  · cases htokens.tokenize.symm.trans h
  · obtain rfl := Except.error.inj (hother.tokenize.symm.trans h)
    exact hother

/-! ### Texts with a sign between them -/

section

variable {s : Char} {separators : List Token}

theorem spells_separated {tokens : List Token} (hs : s ∈ stops ∧ s ≠ '/')
    (hseparators : ∀ rest, Spells [s] separators rest) (h : tokenize a = .ok tokens) :
    Spells (a ++ [s]) (tokens ++ separators) rest := by
  refine Spells.append (settled_of_tokenize h _ ⟨?_, fun _ => ?_⟩) (hseparators rest)
  · rintro _ ⟨⟩
    exact hs.1
  · simpa using hs.2

theorem tokenize_separated_eq_error {reason : Reason} (hs : s ∈ stops ∧ s ≠ '/')
    (h : tokenize a = .error reason) (hclosed : reason ≠ .unterminatedLiteral) :
    tokenize (a ++ s :: rest) = .error reason := by
  refine refused_of_tokenize h _ ⟨?_, fun _ => ?_⟩ fun hopen => absurd hopen hclosed
  · rintro _ ⟨⟩
    exact hs.1
  · simpa using hs.2

/-- **Texts with a stop between them are read one by one**, if none ends inside a literal. -/
theorem tokenize_intercalate_iff (hs : s ∈ stops ∧ s ≠ '/')
    (hseparators : ∀ rest, Spells [s] separators rest) :
    ∀ (texts : List (List Char)) (tokens : List Token),
      (∀ text ∈ texts, tokenize text ≠ .error .unterminatedLiteral) →
      (tokenize (List.intercalate [s] texts) = .ok tokens ↔
        ∃ rows, List.Forall₂ (fun text row => tokenize text = .ok row) texts rows ∧
          tokens = List.intercalate separators rows)
  | [], tokens, _ => by
    rw [List.intercalate_nil, tokenize]
    constructor
    · rintro ⟨⟩
      exact ⟨[], .nil, rfl⟩
    · rintro ⟨_, ⟨⟩, rfl⟩
      rfl
  | [text], tokens, _ => by
    rw [List.intercalate_singleton]
    constructor
    · intro h
      exact ⟨[tokens], .cons h .nil, by simp⟩
    · rintro ⟨_, _ | ⟨h, ⟨⟩⟩, rfl⟩
      simpa using h
  | text :: next :: texts, tokens, hclosed => by
    rw [List.forall_mem_cons] at hclosed
    have hmore (others : List Token) :=
      tokenize_intercalate_iff hs hseparators (next :: texts) others hclosed.2
    rw [List.intercalate_cons_cons]
    constructor
    · intro h
      cases htext : tokenize text with
      | error reason =>
        have hreason : reason ≠ .unterminatedLiteral := by
          rintro rfl
          exact hclosed.1 htext
        rw [List.append_assoc, List.singleton_append,
          tokenize_separated_eq_error hs htext hreason] at h
        cases h
      | ok row =>
        rw [spells_separated hs hseparators htext] at h
        obtain ⟨others, hothers, rfl⟩ := map_eq_ok_iff.1 h
        obtain ⟨rows, hrows, rfl⟩ := (hmore _).1 hothers
        refine ⟨row :: rows, .cons htext hrows, ?_⟩
        cases hrows
        rw [List.intercalate_cons_cons]
    · rintro ⟨_, _ | @⟨_, row, _, rows, hrow, hrows⟩, rfl⟩
      rw [spells_separated hs hseparators hrow, (hmore _).2 ⟨rows, hrows, rfl⟩]
      cases hrows
      rw [List.intercalate_cons_cons]
      rfl

end

end Gleaner.Query
