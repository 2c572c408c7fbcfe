/-
# Relative operands match anywhere

A query without a slash at its front is read as with two of them there, in each operand of a union.
The steps of a path are read alike wherever the path starts, so the two slashes give the step that
is put in front of a path from nowhere. The bars between the operands are read alike, too: what
stands between two of them is one operand, before and after, and an operand is read alike in front
of any other one.

Key definitions: `Alike`, `unionText`, `anchored`, `OperandText`.
Key theorems: `parseSteps_anew`, `alike_doubleSlash`, `readExpr_union_iff`,
`relative_matches_anywhere`.
-/
import Gleaner.Proofs.Query.Bars
import Gleaner.Proofs.Query.Lexing
import Gleaner.Proofs.Query.Locality

namespace Gleaner.Query

open Gleaner.Text Gleaner.Markup

variable {tokens rest u : List Token}

/-! ### Steps behind two slashes -/

/-- Steps are read alike wherever their path starts and whatever steps stand before them. -/
theorem parseSteps_anew {absolute : Bool} {before : List Step} {tokens rest : List Token}
    {path : Path} (h : Reads (parseSteps absolute before tokens) path rest) :
    ∃ steps value, path = ⟨absolute, before ++ steps, value⟩ ∧ ∀ start front,
      Reads (parseSteps start front tokens) ⟨start, front ++ steps, value⟩ rest := by
  cases parseSteps_parts h with
  | @value value hstep hends hpath =>
    refine ⟨[], some value, by rw [hpath, List.append_nil], fun start front => ?_⟩
    rw [List.append_nil]
    exact parseSteps_value hstep hends
  | @last step hstep hends hpath =>
    exact ⟨[step], none, hpath, fun _ _ => parseSteps_end hstep hends⟩
  | @slash step more hstep hmore =>
    have hlt := hstep.left
    obtain ⟨steps, value, rfl, hanew⟩ := parseSteps_anew hmore
    refine ⟨step :: steps, value, by simp, fun start front => ?_⟩
    have hread := parseSteps_slash hstep (hanew start (front ++ [step]))
    simpa using hread
  | @doubleSlash step more hstep hmore =>
    have hlt := hstep.left
    obtain ⟨steps, value, rfl, hanew⟩ := parseSteps_anew hmore
    refine ⟨step :: .selfAndBelow :: steps, value, by simp, fun start front => ?_⟩
    have hread := parseSteps_doubleSlash hstep (hanew start (front ++ [step, .selfAndBelow]))
    simpa using hread
termination_by tokens.length
decreasing_by all_goals grind

/-- Where the first tokens write a path, the others write one that is the same from anywhere. -/
def Alike (u w : List Token) : Prop :=
  ∀ rest path, Reads (parsePath (u ++ rest)) path rest →
    ∃ other, Reads (parsePath (w ++ rest)) other rest ∧ other.value = path.value ∧
      other.anywhere = path.anywhere

theorem Alike.refl (u : List Token) : Alike u u :=
  fun _ path h => ⟨path, h, rfl, rfl⟩

/-- Two slashes in front of a path that begins with none change nothing. -/
theorem alike_doubleSlash (hslash : u.head? ≠ some .slash ∧ u.head? ≠ some .doubleSlash) :
    Alike u (.doubleSlash :: u) := by
  intro rest path h
  have hsteps : Reads (parseSteps false [] (u ++ rest)) path rest := by
    cases u with
    | nil => exact absurd h.left (Nat.lt_irrefl _)
    | cons t u =>
      cases parsePath_parts h with
      | slash htokens _ _ | root htokens _ _ =>
        exact absurd (congrArg List.head? htokens) hslash.1
      | doubleSlash htokens _ => exact absurd (congrArg List.head? htokens) hslash.2
      | relative _ hsteps => exact hsteps
  obtain ⟨steps, value, rfl, hanew⟩ := parseSteps_anew hsteps
  exact ⟨_, parsePath_doubleSlash (hanew true [.selfAndBelow]), rfl, rfl⟩

/-- Nor do they if they are taken away. -/
theorem doubleSlash_alike : Alike (.doubleSlash :: u) u := by
  intro rest path h
  have hsteps : Reads (parseSteps true [.selfAndBelow] (u ++ rest)) path rest := by
    cases parsePath_parts h with
    | slash htokens _ _ | root htokens _ _ => cases htokens
    | doubleSlash htokens hsteps =>
      cases htokens
      exact hsteps
    | relative hstart _ => cases hstart
  obtain ⟨steps, value, rfl, hanew⟩ := parseSteps_anew hsteps
  have hread := hanew false []
  exact ⟨_, parsePath_relative (begins_of_parseSteps hread).1 hread, rfl, rfl⟩

/-! ### Operands one after another -/

/-- Rows of tokens, each behind a bar. -/
def barred (rows : List (List Token)) : List Token :=
  rows.flatMap (.pipe :: ·)

theorem endsOperand_barred (rows : List (List Token)) : EndsOperand (barred rows) := by
  cases rows with
  | nil => simp [barred, EndsOperand]
  | cons row rows => simp [barred, EndsOperand]

theorem head?_barred {rows others : List (List Token)} (h : List.Forall₂ Alike rows others) :
    (barred others).head? = (barred rows).head? := by
  cases h with
  | nil => rfl
  | cons _ _ => rfl

/-- **Operands are read alike where each one is.** -/
theorem parseOperands_alike {rows others : List (List Token)} (h : List.Forall₂ Alike rows others)
    (hrows : ∀ row ∈ rows, Operand row) :
    ∀ {paths : List Path}, Reads (parseOperands (barred rows)) paths [] →
      ∃ found, Reads (parseOperands (barred others)) found [] ∧
        found.map Path.anywhere = paths.map Path.anywhere := by
  induction h with
  | nil => exact fun hread => ⟨_, hread, rfl⟩
  | @cons row other rows others halike hmore ih =>
    intro paths hread
    rw [List.forall_mem_cons] at hrows
    obtain ⟨-, -, hpipe⟩ |
      ⟨behind, operand, more, path, later, heq, hoperand, hpath, hlater, rfl⟩ :=
      parseOperands_cases hread
    · exact absurd rfl hpipe
    obtain rfl : row ++ barred rows = behind := (List.cons.inj heq).2
    have hends : EndsOperand more := by
      obtain ⟨-, rfl⟩ | ⟨-, hpipe⟩ := parseOperands_begins hlater
      · simp [EndsOperand]
      · simp [EndsOperand, hpipe]
    obtain ⟨rfl, hvalue⟩ := elementPath_eq_ok_iff.1 hpath
    have hselects : (Expr.path path).Selects := hvalue
    obtain ⟨rfl, _, ⟨⟩, -, hrow⟩ :=
      path_of_operand hrows.1 (endsOperand_barred rows) hends hselects hoperand
    obtain ⟨found, hfound, hsame⟩ := ih hrows.2 hlater
    obtain ⟨path', hother, hvalue', hanywhere⟩ := halike _ _ hrow
    -- The other operand is read in front of the others as in front of the former ones.
    have hread' := parsePrimary_congr (parsePrimary_of_path hother) (head?_barred hmore)
    refine ⟨path' :: found, ?_, by rw [List.map_cons, List.map_cons, hanywhere, hsame]⟩
    exact parseOperands_cons hread' (elementPath_path (hvalue'.trans hvalue)) hfound

/-! ### Unions -/

/-- The text of a union: its operands with bars between them. -/
def unionText (operands : List (List Char)) : List Char :=
  List.intercalate ['|'] operands

/-- A text that may be an operand of a union, for it is closed in itself: no literal is open at its
end, no bracket is, no bar stands outside of its brackets, and it is no expression in parentheses.
Whether a path can be read from it is left open. -/
structure OperandText (text : List Char) : Prop where
  closed : tokenize text ≠ .error .unterminatedLiteral
  operand : ∀ {tokens : List Token}, tokenize text = .ok tokens → Operand tokens

theorem OperandText.of_tokenize {text : List Char} (htokens : tokenize text = .ok tokens)
    (h : Operand tokens) : OperandText text := by
  constructor
  · rw [htokens]
    nofun
  · intro others hothers
    obtain rfl := Except.ok.inj (htokens.symm.trans hothers)
    exact h

/-- **Every location path is an operand text**, wherever it starts and whatever it holds. -/
theorem OperandText.of_path {text : List Char} {path : Path} (htokens : tokenize text = .ok tokens)
    (h : Reads (parsePath tokens) path []) : OperandText text :=
  .of_tokenize htokens (operand_of_parsePath h)

theorem allAnywhere_eq_ok : ∀ {paths : List Path}, (∀ path ∈ paths, path.value = none) →
    allAnywhere paths = .ok (paths.map Path.anywhere)
  | [], _ => rfl
  | path :: paths, h => by
    rw [List.forall_mem_cons] at h
    have hfirst : elementsAnywhere path = .ok path.anywhere := by
      rw [elementsAnywhere, h.1]
      rfl
    rw [allAnywhere, hfirst, allAnywhere_eq_ok h.2]
    rfl

theorem ofExpr_unionOf {paths : List Path} (h : ∀ path ∈ paths, path.value = none) :
    ofExpr (unionOf paths) = .ok (unionOf (paths.map Path.anywhere)) := by
  match paths with
  | [path] =>
    have hfirst : elementsAnywhere path = .ok path.anywhere := by
      rw [elementsAnywhere, h path List.mem_cons_self]
      rfl
    rw [unionOf, ofExpr, hfirst]
    rfl
  | [] => rfl
  | first :: second :: paths =>
    rw [unionOf, ofExpr, allAnywhere_eq_ok h]
    · rfl
    · simp

theorem value_of_parseOperands {paths : List Path} (h : Reads (parseOperands tokens) paths rest) :
    ∀ path ∈ paths, path.value = none := by
  obtain ⟨_, h⟩ := h
  exact fun path hpath => ((gives_parseOperands tokens paths _ h).1 path hpath).2

theorem operand_of_tokenize {texts : List (List Char)} {rows : List (List Token)}
    (hrows : List.Forall₂ (fun text row => tokenize text = .ok row) texts rows)
    (h : ∀ text ∈ texts, OperandText text) : ∀ row ∈ rows, Operand row := by
  induction hrows with
  | nil => exact List.forall_mem_nil _
  | cons hrow _ ih =>
    rw [List.forall_mem_cons] at h ⊢
    exact ⟨h.1.operand hrow, ih h.2⟩

/-- **A union of operands is read operand by operand.** -/
theorem readExpr_union_iff {texts : List (List Char)} {expr : Expr} (hne : texts ≠ [])
    (h : ∀ text ∈ texts, OperandText text) :
    readExpr (unionText texts) = .ok expr ↔ ∃ rows paths,
      List.Forall₂ (fun text row => tokenize text = .ok row) texts rows ∧
      Reads (parseOperands (barred rows)) paths [] ∧ expr = unionOf (paths.map Path.anywhere) := by
  have hsplit (tokens : List Token) :=
    tokenize_intercalate_iff (s := '|') ⟨by decide, by decide⟩ (spells_sign rfl) texts tokens
      fun text htext => (h text htext).closed
  have hrow {rows : List (List Token)}
      (hrows : List.Forall₂ (fun text row => tokenize text = .ok row) texts rows) :
      .pipe :: List.intercalate [.pipe] rows = barred rows ∧
        (List.intercalate [.pipe] rows).head? ≠ some .openParen := by
    have hall := operand_of_tokenize hrows h
    cases hrows with
    | nil => exact absurd rfl hne
    | @cons _ row _ others _ _ =>
      rw [intercalate_cons_eq_append]
      exact ⟨rfl, (hall row List.mem_cons_self).head?_append_ne (endsOperand_barred others)⟩
  constructor
  · intro hread
    unfold readExpr at hread
    obtain ⟨tokens, htokens, hparsed⟩ := bind_eq_ok_iff.1 hread
    obtain ⟨e, he, hexpr⟩ := bind_eq_ok_iff.1 hparsed
    obtain ⟨rows, hrows, rfl⟩ := (hsplit tokens).1 htokens
    obtain ⟨hbarred, hparen⟩ := hrow hrows
    obtain ⟨paths, hpaths, rfl⟩ := (parseExpr_iff_operands hparen).1 ⟨he, selects_of_ofExpr hexpr⟩
    rw [ofExpr_unionOf (value_of_parseOperands hpaths)] at hexpr
    rw [hbarred] at hpaths
    exact ⟨rows, paths, hrows, hpaths, (Except.ok.inj hexpr).symm⟩
  · rintro ⟨rows, paths, hrows, hpaths, rfl⟩
    obtain ⟨hbarred, hparen⟩ := hrow hrows
    rw [← hbarred] at hpaths
    have he := ((parseExpr_iff_operands hparen).2 ⟨paths, hpaths, rfl⟩).1
    have htokens := (hsplit _).2 ⟨rows, hrows, rfl⟩
    rw [readExpr, unionText, htokens]
    simp only [bind, Except.bind, he]
    exact ofExpr_unionOf (value_of_parseOperands hpaths)

/-- Where the first text is read into tokens, so is the other, and these are alike. -/
def AlikeTexts (text other : List Char) : Prop :=
  ∀ row, tokenize text = .ok row → ∃ found, tokenize other = .ok found ∧ Alike row found

theorem exists_rows_alike {texts others : List (List Char)} {rows : List (List Token)}
    (halike : List.Forall₂ AlikeTexts texts others)
    (hrows : List.Forall₂ (fun text row => tokenize text = .ok row) texts rows) :
    ∃ found, List.Forall₂ (fun text row => tokenize text = .ok row) others found ∧
      List.Forall₂ Alike rows found := by
  induction halike generalizing rows with
  | nil =>
    cases hrows
    exact ⟨[], .nil, .nil⟩
  | cons hfirst _ ih =>
    cases hrows with
    | cons hrow hrows =>
      obtain ⟨found, hfound, hsame⟩ := hfirst _ hrow
      obtain ⟨later, hlater, hmore⟩ := ih hrows
      exact ⟨found :: later, .cons hfound hlater, .cons hsame hmore⟩

/-- **Unions are read alike where their operands are.** -/
theorem readExpr_alike {texts others : List (List Char)} {expr : Expr}
    (halike : List.Forall₂ AlikeTexts texts others) (htexts : ∀ text ∈ texts, OperandText text)
    (hothers : ∀ other ∈ others, OperandText other) (h : readExpr (unionText texts) = .ok expr) :
    readExpr (unionText others) = .ok expr := by
  cases halike with
  | nil => exact h
  | cons hfirst hmore =>
    obtain ⟨rows, paths, hrows, hpaths, rfl⟩ :=
      (readExpr_union_iff (List.cons_ne_nil _ _) htexts).1 h
    obtain ⟨found, hfound, hsame⟩ := exists_rows_alike (.cons hfirst hmore) hrows
    obtain ⟨others, hothers', hanywhere⟩ :=
      parseOperands_alike hsame (operand_of_tokenize hrows htexts) hpaths
    rw [← hanywhere]
    exact (readExpr_union_iff (List.cons_ne_nil _ _) hothers).2
      ⟨found, others, hfound, hothers', rfl⟩

/-! ### Slashes in front -/

/-- An operand with two slashes in front of it, behind its blanks, if it begins with no slash. -/
def anchored (operand : List Char) : List Char :=
  if (trimStart operand).head? = some '/' then operand
  else operand.takeWhile isBlank ++ '/' :: '/' :: trimStart operand

theorem tokenize_trimStart (text : List Char) : tokenize (trimStart text) = tokenize text := by
  obtain ⟨before, hbefore, htext⟩ := exists_trimStart text
  calc tokenize (trimStart text)
      = tokenize (before ++ trimStart text) := (tokenize_blanks hbefore _).symm
    _ = tokenize text := by rw [← htext]

theorem anchored_of_slash {text : List Char} (h : (trimStart text).head? = some '/') :
    anchored text = text :=
  if_pos h

theorem tokenize_anchored {text : List Char} (h : (trimStart text).head? ≠ some '/') :
    tokenize (anchored text) = (tokenize text).map (.doubleSlash :: ·) := by
  rw [anchored, if_neg h, tokenize_blanks (Blanks.takeWhile text), ← tokenize_trimStart text]
  exact spells_doubleSlash (trimStart text)

/-- Where no slash begins a text, none begins its tokens. -/
theorem head?_of_tokenize {text : List Char} (h : (trimStart text).head? ≠ some '/')
    (htokens : tokenize text = .ok tokens) :
    tokens.head? ≠ some .slash ∧ tokens.head? ≠ some .doubleSlash := by
  rw [← tokenize_trimStart] at htokens
  have hfirst := List.head?_dropWhile_not isBlank text
  cases hfront : trimStart text with
  | nil =>
    rw [hfront, tokenize] at htokens
    cases htokens
    simp
  | cons c more =>
    rw [← trimStart, hfront] at hfirst
    rw [hfront] at htokens h
    rw [tokenize, if_neg (by simpa using hfirst)] at htokens
    split at htokens
    · cases htokens
    · next token width htoken =>
      obtain ⟨others, -, rfl⟩ := map_eq_ok_iff.1 htokens
      obtain ⟨taken, -, -, -, hspelled⟩ := ensures_tokenAt c more _ htoken
      constructor
      · rintro ⟨⟩
        exact h (by rw [(List.cons.inj hspelled).1]; rfl)
      · rintro ⟨⟩
        exact h (by rw [(List.cons.inj hspelled).1]; rfl)

theorem OperandText.anchored {text : List Char} (h : OperandText text) :
    OperandText (anchored text) := by
  by_cases hslash : (trimStart text).head? = some '/'
  · rwa [anchored_of_slash hslash]
  · constructor
    · rw [tokenize_anchored hslash]
      intro hopen
      cases htext : tokenize text with
      | error reason =>
        rw [htext] at hopen
        cases hopen
        exact h.closed htext
      | ok row =>
        rw [htext] at hopen
        cases hopen
    · intro tokens htokens
      rw [tokenize_anchored hslash] at htokens
      obtain ⟨row, hrow, rfl⟩ := map_eq_ok_iff.1 htokens
      exact ⟨(h.operand hrow).barless.cons rfl, by simp⟩

/-- A text and the one with slashes in front are alike, one way and the other. -/
theorem alikeTexts_anchored (text : List Char) :
    AlikeTexts text (anchored text) ∧ AlikeTexts (anchored text) text := by
  by_cases hslash : (trimStart text).head? = some '/'
  · rw [anchored_of_slash hslash]
    exact ⟨fun row hrow => ⟨row, hrow, .refl row⟩, fun row hrow => ⟨row, hrow, .refl row⟩⟩
  · constructor
    · intro row hrow
      refine ⟨.doubleSlash :: row, ?_, alike_doubleSlash (head?_of_tokenize hslash hrow)⟩
      rw [tokenize_anchored hslash, hrow]
      rfl
    · intro row hrow
      rw [tokenize_anchored hslash] at hrow
      obtain ⟨found, hfound, rfl⟩ := map_eq_ok_iff.1 hrow
      exact ⟨found, hfound, doubleSlash_alike⟩

/-- A union is read alike with and without the slashes in front of its operands. -/
theorem readExpr_anchored_iff {operands : List (List Char)} {expr : Expr}
    (h : ∀ operand ∈ operands, OperandText operand) :
    readExpr (unionText operands) = .ok expr ↔
      readExpr (unionText (operands.map anchored)) = .ok expr := by
  have hanchored : ∀ operand ∈ operands.map anchored, OperandText operand := by
    rw [List.forall_mem_map]
    exact fun operand hoperand => (h operand hoperand).anchored
  constructor
  · refine readExpr_alike ?_ h hanchored
    rw [List.forall₂_map_right_iff, List.forall₂_same]
    exact fun operand _ => (alikeTexts_anchored operand).1
  · refine readExpr_alike ?_ hanchored h
    rw [List.forall₂_map_left_iff, List.forall₂_same]
    exact fun operand _ => (alikeTexts_anchored operand).2

/-- What a query selects, or the reason why it selects nothing, is told by its expression. -/
theorem elements_mapError (q : Query) (d : Document) :
    (q.elements d).mapError Fault.reason = elementsOf d q.expr := by
  unfold elements
  cases elementsOf d q.expr <;> rfl

theorem readExpr_of_read {text : List Char} {q : Query} (h : read (String.ofList text) = .ok q) :
    readExpr text = .ok q.expr := by
  unfold read at h
  rw [String.toList_ofList] at h
  split at h
  · next hexpr =>
    cases h
    exact hexpr
  · cases h

theorem exists_read_iff {text : List Char} :
    (∃ q, read (String.ofList text) = .ok q) ↔ ∃ expr, readExpr text = .ok expr := by
  constructor
  · rintro ⟨q, h⟩
    exact ⟨q.expr, readExpr_of_read h⟩
  · rintro ⟨expr, h⟩
    refine ⟨⟨String.ofList text, expr⟩, ?_⟩
    rw [read, String.toList_ofList, h]

/-- **Relative operands match anywhere.** Whatever the operands are, if each is closed in itself, as
location paths are by `OperandText.of_path`: the union of them is a query if and only if it is one
with two slashes put in front of each operand that begins with no slash, and then both select the
same elements of every document in the same order, or both fail for the same reason. -/
theorem relative_matches_anywhere (operands : List (List Char))
    (h : ∀ operand ∈ operands, OperandText operand) :
    ((∃ q, read (String.ofList (unionText operands)) = .ok q) ↔
      ∃ q, read (String.ofList (unionText (operands.map anchored))) = .ok q) ∧
    ∀ q q', read (String.ofList (unionText operands)) = .ok q →
      read (String.ofList (unionText (operands.map anchored))) = .ok q' →
      ∀ d, (q.elements d).mapError Fault.reason = (q'.elements d).mapError Fault.reason := by
  constructor
  · rw [exists_read_iff, exists_read_iff]
    exact exists_congr fun expr => readExpr_anchored_iff h
  · intro q q' hq hq' d
    have hexpr := (readExpr_anchored_iff h).1 (readExpr_of_read hq)
    rw [readExpr_of_read hq'] at hexpr
    rw [elements_mapError, elements_mapError, Except.ok.inj hexpr]

/-- For one, of an item with a number in brackets, of headings that start from the document already,
and of links. -/
theorem relative_matches_anywhere_list :
    (∀ operand ∈ ["li[1] ".toList, " //h2 ".toList, " ul/a".toList], OperandText operand) ∧
    ((∃ q, read "li[1] | //h2 | ul/a" = .ok q) ↔ ∃ q, read "//li[1] | //h2 | //ul/a" = .ok q) ∧
    ∀ q q', read "li[1] | //h2 | ul/a" = .ok q → read "//li[1] | //h2 | //ul/a" = .ok q' →
      ∀ d, (q.elements d).mapError Fault.reason = (q'.elements d).mapError Fault.reason := by
  have hitem : tokenize "li[1] ".toList =
      .ok [.name "li", .openBracket, .number (numberOf ['1']), .closeBracket] :=
    tokenize_of_token (by decide) rfl <| tokenize_of_token (by decide) rfl <|
      tokenize_of_token (by decide) rfl <| tokenize_of_token (by decide) rfl <|
      tokenize_of_blank (by decide) tokenize_nil
  have hheading : tokenize " //h2 ".toList = .ok [.doubleSlash, .name "h2"] :=
    tokenize_of_blank (by decide) <| tokenize_of_token (by decide) rfl <|
      tokenize_of_token (by decide) rfl <| tokenize_of_blank (by decide) tokenize_nil
  have hlink : tokenize " ul/a".toList = .ok [.name "ul", .slash, .name "a"] :=
    tokenize_of_blank (by decide) <| tokenize_of_token (by decide) rfl <|
      tokenize_of_token (by decide) rfl <| tokenize_of_token (by decide) rfl tokenize_nil
  have h : ∀ operand ∈ ["li[1] ".toList, " //h2 ".toList, " ul/a".toList], OperandText operand := by
    simp only [List.forall_mem_cons]
    refine ⟨.of_tokenize hitem ⟨?_, nofun⟩, .of_tokenize hheading ⟨?_, nofun⟩,
      .of_tokenize hlink ⟨?_, nofun⟩, List.forall_mem_nil _⟩
    · exact (Barless.group (Balanced.nil.cons rfl) .nil).cons rfl
    · exact (Barless.nil.cons rfl).cons rfl
    · exact ((Barless.nil.cons rfl).cons rfl).cons rfl
  have htext : String.ofList (unionText ["li[1] ".toList, " //h2 ".toList, " ul/a".toList]) =
      "li[1] | //h2 | ul/a" := by decide
  have hanchored : String.ofList (unionText
      (["li[1] ".toList, " //h2 ".toList, " ul/a".toList].map anchored)) =
      "//li[1] | //h2 | //ul/a" := by decide
  have hsame := relative_matches_anywhere _ h
  rw [htext, hanchored] at hsame
  exact ⟨h, hsame⟩

end Gleaner.Query
