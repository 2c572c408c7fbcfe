/-
# Trails as path queries

The text of a step of a trail is a step of a path query too: its name is a node test, its filters
are conditions on attributes, and a later sibling, a parent or the element itself lies along an axis
of its own. So each step is a segment of a path query that is read from its own text.

Key definitions: `filterExpr`, `targetTokens`, `targetStep`, `segmentOf`.
Key theorems: `spells_target`, `parseStep_target`, `faithful_segment`.
-/
import Gleaner.Proofs.Agreement.Trail
import Gleaner.Proofs.Query.Written

namespace Gleaner.Query

open Gleaner.Text Gleaner.Markup Gleaner.Selector

/-! ### Steps of a trail in tokens -/

/-- The tokens of a filter that both readings know. -/
def filterTokens : Filter → List Token
  | .attributeIs name value => [.at, .name name, .equal, .literal value]
  | .attributeHolds name value =>
    [.name "contains", .openParen, .at, .name name, .comma, .literal value, .closeParen]
  | .hasAttribute name => [.at, .name name]
  | .textHolds _ | .index _ => []

/-- The condition of a filter that both readings know. -/
def filterExpr : Filter → Expr
  | .attributeIs name value =>
    .binary (.path (attributePath name)) (.comparison .equal) (.literal value)
  | .attributeHolds name value => .call .contains [.path (attributePath name), .literal value]
  | .hasAttribute name => .path (attributePath name)
  | .textHolds value => .literal value
  | .index n => .literal (toString n)

/-- The token of a name of elements. -/
def nameToken (name : String) : Token :=
  if name = "*" then .star else .name name

/-- The test of a name of elements. -/
def nodeTest (name : String) : NodeTest :=
  if name = "*" then .anyElement else .named name

/-- The tokens of filters, each between brackets. -/
def groupTokens (filters : List Filter) : List Token :=
  filters.flatMap fun f => .openBracket :: filterTokens f ++ [.closeBracket]

/-- The tokens of a step that both readings know. -/
def targetTokens : Target → List Token
  | .element name filters => nameToken name :: groupTokens filters
  | .sibling name filters =>
    .name "following-sibling" :: .doubleColon :: nameToken name :: groupTokens filters
  | .parent => [.doubleDot]
  | .self => [.dot]
  | .accessor _ => []

/-- The step of a path query that a step of a trail is. -/
def targetStep : Target → Step
  | .element name filters => ⟨.child, nodeTest name, filters.map filterExpr⟩
  | .sibling name filters => ⟨.followingSibling, nodeTest name, filters.map filterExpr⟩
  | .parent => ⟨.parent, .anyNode, []⟩
  | .self | .accessor _ => ⟨.self, .anyNode, []⟩

/-- A step of a trail as a step of a path query. -/
def segmentOf (l : Leg) : Segment :=
  ⟨l.slashes, l.target.written, targetTokens l.target, targetStep l.target⟩

/-! ### Spelling -/

theorem spells_identifier {name : String} (h : isIdentifier name.toList = true) {rest : List Char}
    (hrest : nameChars rest = []) : Spells name.toList [.name name] rest := by
  have hname := spells_name (isName_of_identifier h) hrest
  rwa [String.ofList_toList] at hname

/-- No name goes on with what follows a filter or a part of it. -/
theorem nameChars_mark {c : Char} (h : c ∈ ['[', ']', '=', ',', '(', ')', '/']) (more : List Char) :
    nameChars (c :: more) = [] := by
  have hall : ∀ m ∈ ['[', ']', '=', ',', '(', ')', '/'], isNameChar m = false ∧ m ≠ ':' := by decide
  obtain ⟨hchar, hcolon⟩ := hall c h
  rw [nameChars, if_neg (by simp [hchar]), if_neg (by simp [hcolon])]

theorem nameChars_doubleColon (more : List Char) : nameChars (':' :: ':' :: more) = [] := by
  unfold nameChars
  rw [if_neg (by decide), if_neg (by simp [show isNameStart ':' = false by decide])]

theorem spells_attribute {name : String} (h : IsAttribute name) {c : Char}
    (hc : c ∈ ['[', ']', '=', ',', '(', ')', '/']) (more : List Char) :
    Spells ('@' :: name.toList) [.at, .name name] (c :: more) :=
  (spells_sign rfl _).append (spells_identifier h.1 (nameChars_mark hc more))

theorem quote_not_mem {value : String} (h : IsValue value) : '\'' ∉ value.toList :=
  fun hc => (h _ hc).1 rfl

/-- A filter is spelled by its tokens. -/
theorem spells_filter {f : Filter} (h : f.IsShared) (more : List Char) :
    Spells f.written (filterTokens f) (']' :: more) := by
  cases f with
  | attributeIs name value =>
    have hliteral := spells_literal (quote_not_mem h.2) (']' :: more)
    have hequal : signOf? '=' = some .equal := rfl
    have hname :=
      (spells_attribute h.1 (by decide) _).append ((spells_sign hequal _).append hliteral)
    simpa [Filter.written, filterTokens] using hname
  | attributeHolds name value =>
    have hclose : signOf? ')' = some .closeParen := rfl
    have hcomma : signOf? ',' = some .comma := rfl
    have hopen : signOf? '(' = some .openParen := rfl
    have hliteral := (spells_literal (quote_not_mem h.2.1) _).append
      (spells_sign hclose (']' :: more))
    have hname :=
      (spells_attribute h.1 (by decide) _).append ((spells_sign hcomma _).append hliteral)
    have hcontains (rest : List Char) :
        Spells "contains".toList [.name "contains"] ('(' :: rest) :=
      spells_identifier (by decide) (nameChars_mark (by decide) rest)
    have hcall := (hcontains _).append ((spells_sign hopen _).append hname)
    have hstart : containsStart = "contains".toList ++ ['('] := rfl
    rw [Filter.written, hstart]
    simpa [filterTokens] using hcall
  | hasAttribute name => exact spells_attribute h (by decide) more
  | textHolds value => exact h.elim
  | index n => exact h.elim

/-- Filters between brackets are spelled by their tokens. -/
theorem spells_groups : ∀ {filters : List Filter}, (∀ f ∈ filters, f.IsShared) → ∀ rest,
    Spells (writtenGroups (filters.map Filter.written)) (groupTokens filters) rest
  | [], _, rest => Spells.nil rest
  | f :: filters, h, rest => by
    have hopen : signOf? '[' = some .openBracket := rfl
    have hclose : signOf? ']' = some .closeBracket := rfl
    have hfilter := spells_filter (h f List.mem_cons_self)
    have hfilters := spells_groups (fun g hg => h g (List.mem_cons_of_mem _ hg)) rest
    have hgroup := (spells_sign hopen _).append
      ((hfilter _).append ((spells_sign hclose _).append hfilters))
    simpa [writtenGroups, groupTokens] using hgroup

/-- What follows the name of a step is a filter, a slash or nothing. -/
theorem nameChars_groups (filters : List Filter) {rest : List Char} (hrest : EndsText rest) :
    nameChars (writtenGroups (filters.map Filter.written) ++ rest) = [] := by
  cases filters with
  | nil =>
    cases rest with
    | nil => rfl
    | cons c more =>
      rw [hrest c rfl]
      exact nameChars_mark (by decide) more
  | cons f filters => exact nameChars_mark (c := '[') (by decide) _

theorem spells_nameToken {name : String} (h : IsElementTest name) {rest : List Char}
    (hrest : nameChars rest = []) : Spells name.toList [nameToken name] rest := by
  unfold nameToken
  by_cases hname : name = "*"
  · rw [if_pos hname, hname]
    exact spells_sign rfl rest
  · rw [if_neg hname]
    exact spells_identifier (h.resolve_left hname) hrest

/-- A step is spelled by its tokens, whatever step follows it. -/
theorem spells_target {t : Target} (h : t.IsShared) {rest : List Char} (hrest : EndsText rest) :
    Spells t.written (targetTokens t) rest := by
  unfold Target.written
  cases t with
  | element name filters =>
    exact (spells_nameToken h.1 (nameChars_groups filters hrest)).append (spells_groups h.2 rest)
  | sibling name filters =>
    have hname := (spells_nameToken h.1 (nameChars_groups filters hrest)).append
      (spells_groups h.2 rest)
    have haxis (more : List Char) :
        Spells siblingAxis [.name "following-sibling"] (':' :: ':' :: more) :=
      spells_identifier (by decide) (nameChars_doubleColon more)
    have hstep := (haxis _).append ((spells_doubleColon _).append hname)
    simpa [Target.head, Target.filters, targetTokens] using hstep
  | parent =>
    simpa [Target.head, Target.filters, targetTokens, writtenGroups] using spells_doubleDot rest
  | self =>
    have hdot : ∀ c ∈ rest.head?, c ≠ '.' ∧ isDigit c = false := by
      intro c hc
      rw [hrest c hc]
      decide
    simpa [Target.head, Target.filters, targetTokens, writtenGroups] using spells_dot hdot
  | accessor a => exact h.elim

/-! ### Reading -/

/-- Behind a condition or an argument no operator goes on with it. -/
theorem closes_of_mark {t : Token} (h : t = .closeBracket ∨ t = .closeParen ∨ t = .comma)
    (low : Nat) (more : List Token) : Closes low (t :: more) := by
  refine ⟨by rcases h with rfl | rfl | rfl <;> simp, ?_⟩
  rintro u ⟨⟩ level -
  rcases h with rfl | rfl | rfl <;>
    match level with
    | 0 | 1 | 2 | 3 | _ + 4 => rfl

/-- The tokens of a filter are read as its condition. -/
theorem parseLevel_filter {f : Filter} (h : f.IsShared) (more : List Token) :
    Reads (parseLevel 0 (filterTokens f ++ .closeBracket :: more)) (filterExpr f)
      (.closeBracket :: more) := by
  have hbracket := closes_of_mark (.inl rfl) 0 more
  cases f with
  | attributeIs name value =>
    have hname : Reads (parsePrimary (.at :: .name name :: .equal :: .literal value ::
        .closeBracket :: more)) (.path (attributePath name)) (.equal :: .literal value ::
        .closeBracket :: more) := parsePrimary_attribute name (by rintro t ⟨⟩; simp)
    exact parseLevel_equal hname (parsePrimary_literal value) hbracket
  | attributeHolds name value =>
    have hname : Reads (parsePrimary (.at :: .name name :: .comma :: .literal value ::
        .closeParen :: .closeBracket :: more)) (.path (attributePath name)) (.comma ::
        .literal value :: .closeParen :: .closeBracket :: more) :=
      parsePrimary_attribute name (by rintro t ⟨⟩; simp)
    have hfirst := parseLevel_of_primary hname 4 rfl (closes_of_mark (.inr (.inr rfl)) 0 _)
    have hsecond := parseLevel_of_primary (parsePrimary_literal value) 4 rfl
      (closes_of_mark (.inr (.inl rfl)) 0 (.closeBracket :: more))
    exact parseLevel_of_primary (parsePrimary_contains hfirst hsecond) 4 rfl hbracket
  | hasAttribute name =>
    exact parseLevel_of_primary (parsePrimary_attribute name (by rintro t ⟨⟩; simp)) 4 rfl hbracket
  | textHolds value => exact h.elim
  | index n => exact h.elim

/-- Behind the name of a step stands a condition, a slash or nothing. -/
theorem head?_groupTokens (filters : List Filter) {rest : List Token} (hrest : EndsTokens rest) :
    ∀ t ∈ (groupTokens filters ++ rest).head?,
      t = .openBracket ∨ t = .slash ∨ t = .doubleSlash := by
  cases filters with
  | nil => exact fun t ht => .inr (hrest t ht)
  | cons f filters =>
    rintro t ⟨⟩
    exact .inl rfl

theorem parsePredicates_groups {filters : List Filter} (h : ∀ f ∈ filters, f.IsShared)
    {rest : List Token} (hrest : EndsTokens rest) :
    Reads (parsePredicates (groupTokens filters ++ rest)) (filters.map filterExpr) rest := by
  have hhead : rest.head? ≠ some .openBracket := fun hopen => by
    rcases hrest _ hopen with hslash | hslash <;> cases hslash
  exact parsePredicates_written hhead fun f hf more => parseLevel_filter (h f hf) more

theorem parseNodeTest_nameToken (axis : Axis) (name : String) {filters : List Filter}
    (h : ∀ f ∈ filters, f.IsShared) {rest : List Token} (hrest : EndsTokens rest) :
    Reads (parseNodeTest axis (nameToken name :: groupTokens filters ++ rest))
      (.step ⟨axis, nodeTest name, filters.map filterExpr⟩) rest := by
  have hpredicates := parsePredicates_groups h hrest
  unfold nameToken nodeTest
  by_cases hname : name = "*"
  · rw [if_pos hname, if_pos hname]
    exact parseNodeTest_star hpredicates
  · rw [if_neg hname, if_neg hname]
    refine parseNodeTest_name hpredicates fun hopen => ?_
    rcases head?_groupTokens filters hrest _ hopen with h | h | h <;> cases h

/-- The tokens of a step are read as the step, whatever step follows it. -/
theorem parseStep_target {t : Target} (h : t.IsShared) {rest : List Token}
    (hrest : EndsTokens rest) :
    Reads (parseStep (targetTokens t ++ rest)) (.step (targetStep t)) rest := by
  cases t with
  | element name filters =>
    refine parseStep_child (parseNodeTest_nameToken .child name h.2 hrest) ?_
    have hcolon : (groupTokens filters ++ rest).head? ≠ some .doubleColon := fun hcolon => by
      rcases head?_groupTokens filters hrest _ hcolon with h | h | h <;> cases h
    by_cases hname : name = "*"
    · exact .inl (by simp [targetTokens, nameToken, hname])
    · exact .inr ⟨name, _, by simp [targetTokens, nameToken, hname], hcolon⟩
  | sibling name filters =>
    exact parseStep_axis (by decide) rfl (parseNodeTest_nameToken .followingSibling name h.2 hrest)
  | parent => exact parseStep_doubleDot
  | self => exact parseStep_dot
  | accessor a => exact h.elim

/-! ### Segments -/

theorem startsStep_nameToken (name : String) (rest : List Token) :
    startsStep (nameToken name :: rest) = true := by
  unfold nameToken
  by_cases hname : name = "*" <;> simp [hname, startsStep]

/-- A step of a trail is a segment that is read from its own text. -/
theorem faithful_segment {l : Leg} (h : l.target.IsShared) (hslashes : l.slashes ≤ 2) :
    (segmentOf l).Faithful := by
  refine ⟨fun rest hrest => spells_target h hrest, fun rest hrest => parseStep_target h hrest,
    (Target.stepText_written (Target.legible_of_shared h)).head, fun rest => ?_, ?_, hslashes⟩
  · obtain ⟨slashes, target⟩ := l
    cases target with
    | element name filters => exact startsStep_nameToken name _
    | accessor a => exact h.elim
    | _ => rfl
  · intro rest hrest name more hcall
    obtain ⟨slashes, target⟩ := l
    cases target with
    | element test filters =>
      have htail : groupTokens filters ++ rest = .openParen :: more := (List.cons.inj hcall).2
      rcases head?_groupTokens filters hrest .openParen (by rw [htail]; rfl) with h | h | h <;>
        cases h
    | sibling test filters => cases (List.cons.inj (List.cons.inj hcall).2).1
    | parent => cases (List.cons.inj hcall).1
    | self => cases (List.cons.inj hcall).1
    | accessor a => exact h.elim

end Gleaner.Query
