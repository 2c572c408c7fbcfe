/-
# Elements without content and without markup

HTML knows two kinds of elements that do not hold what stands between their tags. An element without
content is closed where it opens, and its end tag closes nothing; what stands between the two is left
to the element around them. The content of a script or of a style sheet goes up to its end tag and
is taken as it stands, references too.

Key definitions: `AllEmpty`.
Key theorems: `startInBody_void`, `endInBody_void`, `step_startVoid`, `step_finishVoid`,
`exists_rawContent`, `read_raw`.
-/
import Gleaner.Proofs.Markup.Growth

namespace Gleaner.Markup

open Gleaner.Text Xml

variable {b : Builder} {f : Frame} {outer stack : OpenElements} {name : String}

/-! ### Elements without content -/

section

variable (h : isVoid name = true)

include h

theorem ne_of_isVoid {other : String} (hother : isVoid other = false) : name ≠ other := by
  rintro rfl
  rw [h] at hother
  cases hother

theorem not_mem_of_isVoid {list : List String} (hlist : ∀ other ∈ list, isVoid other = false) :
    name ∉ list :=
  fun hname => ne_of_isVoid h (hlist name hname) rfl

theorem isBlock_of_isVoid : isBlock name = false :=
  decide_eq_false (not_mem_of_isVoid h (by decide))

theorem isEnclosure_of_isVoid : isEnclosure name = false :=
  decide_eq_false (not_mem_of_isVoid h (by decide))

theorem isHeading_of_isVoid : isHeading name = false :=
  decide_eq_false (not_mem_of_isVoid h (by decide))

theorem rawKind?_of_isVoid (inChoice : Bool) : rawKind? inChoice name = none :=
  rawKind?_eq_none (not_mem_of_isVoid h (by decide)) inChoice

end

namespace OpenElements

theorem exists_of_innermost? {p : String → Bool} {found : String}
    (h : stack.innermost? p = some found) : ∃ f ∈ stack, f.name = found := by
  obtain ⟨f, hf, hname⟩ := Option.map_eq_some_iff.1 h
  exact ⟨f, List.mem_of_find?_eq_some hf, hname⟩

theorem Plain.closeParagraph (h : Plain stack) : stack.closeParagraph = stack := by
  have hscope : stack.inScope (· == "p") boundsParagraph = false := by
    unfold inScope
    cases hfound : stack.innermost? fun name => name == "p" || boundsParagraph name with
    | none => rfl
    | some found =>
      obtain ⟨f, hf, rfl⟩ := exists_of_innermost? hfound
      exact beq_false_of_ne (h.ne (by decide) (by decide) f hf)
  rw [OpenElements.closeParagraph, hscope, if_neg Bool.false_ne_true]

end OpenElements

/-- The start tag of an element without content adds that element, or nothing. -/
theorem startInBody_void (h : isVoid name = true) (hplain : stack.Plain) (oldRules : Bool)
    (attributes : KeyMap String) :
    startInBody oldRules name attributes stack = stack ∨
      startInBody oldRules name attributes stack = stack.addEmpty name attributes := by
  unfold startInBody
  split
  · exact .inl rfl
  · refine .inr ?_
    simp (disch := decide) only [isBlock_of_isVoid h, isHeading_of_isVoid h, ne_of_isVoid h,
      hplain.closeParagraph, Bool.false_eq_true, or_self, if_false, ite_self]

/-- So does its end tag, where only elements of ordinary names are open. -/
theorem endInBody_void (h : isVoid name = true) (hplain : stack.Plain) :
    endInBody name stack = stack ∨ endInBody name stack = stack.addEmpty name .empty := by
  have hordinary : finishOrdinary name stack = stack := by
    -- no open element has the name, so the search ends at another one or nowhere
    unfold finishOrdinary
    split
    · next found hfound =>
      obtain ⟨f, hf, rfl⟩ := OpenElements.exists_of_innermost? hfound
      have hother : isVoid f.name = false := by
        rcases (hplain f hf).2 with hbody | hordinary
        · rw [hbody]
          decide
        · exact hordinary.isVoid
      exact if_neg (ne_of_isVoid h hother).symm
    · rfl
  unfold endInBody
  simp (disch := decide) only [isBlock_of_isVoid h, isHeading_of_isVoid h, isEnclosure_of_isVoid h,
    ne_of_isVoid h, Bool.false_eq_true, or_self, if_false, hordinary, ite_self]
  split
  · next hbr => exact .inr (by rw [hbr])
  · exact .inl rfl

theorem isTableBox_of_isVoid (h : isVoid name = true) : isTableBox name = false := by
  have htable : name ≠ "table" := ne_of_isVoid h (by decide)
  have hbox : name ∉ ["caption", "tbody", "td", "tfoot", "th", "thead", "tr"] :=
    not_mem_of_isVoid h (by decide)
  simp only [List.mem_cons, List.not_mem_nil, or_false, not_or] at hbox
  have hcolumns : name = "col" ∨ name = "colgroup" → ¬ name = "col" → name = "colgroup" :=
    Or.resolve_left
  simpa [isTableBox, isTablePart, htable, hbox] using hcolumns

theorem inBody_startVoid (h : isVoid name = true) (hplain : b.stack.Plain)
    (attributes : KeyMap String) :
    b.inBody (.start name attributes) =
      { b with stack := startInBody b.oldRules name attributes b.stack } := by
  have hleave : b.stack.leave (.start name attributes) = b.stack := by
    rw [OpenElements.leave, isTableBox_of_isVoid h, if_neg Bool.false_ne_true,
      hplain.leaveColumns, ite_self]
  have hstart : startTag b.oldRules name attributes b.stack =
      startInBody b.oldRules name attributes b.stack := by
    rw [startTag, if_neg (ne_of_isVoid h (by decide)), hplain.settingOf]
  rw [Builder.inBody, hleave]
  simp (disch := decide) only [ne_of_isVoid h, if_false, hplain.settingOf, hstart, reduceCtorEq]

theorem inBody_finishVoid (h : isVoid name = true) (hplain : b.stack.Plain) :
    b.inBody (.finish name) = { b with stack := endInBody name b.stack } := by
  have hleave : b.stack.leave (.finish name) = b.stack := by
    rw [OpenElements.leave, isTableBox_of_isVoid h, if_neg Bool.false_ne_true,
      hplain.leaveColumns, ite_self]
  have hfinish : endTag name b.stack = endInBody name b.stack := by
    rw [endTag, if_neg (ne_of_isVoid h (by decide)), hplain.settingOf]
  rw [Builder.inBody, hleave]
  simp (disch := decide) only [ne_of_isVoid h, or_self, if_false, false_and, hfinish]

/-- Nodes of which none holds anything. -/
def AllEmpty (trees : List Tree) : Prop :=
  ∀ tree ∈ trees, ∃ name attributes, tree = .element name attributes []

theorem allEmpty_nil : AllEmpty [] :=
  nofun

theorem allEmpty_singleton (name : String) (attributes : KeyMap String) :
    AllEmpty [.element name attributes []] := by
  intro tree htree
  obtain rfl := List.mem_singleton.1 htree
  exact ⟨name, attributes, rfl⟩

theorem AllEmpty.noTextLast {trees : List Tree} (h : AllEmpty trees) : NoTextLast trees := by
  rintro content rest rfl
  obtain ⟨_, _, htext⟩ := h _ List.mem_cons_self
  cases htext

theorem exists_allEmpty {stack : OpenElements} {attributes : KeyMap String} {children : List Tree}
    (h : stack = (b.inside f outer children).stack ∨
      stack = (b.inside f outer children).stack.addEmpty name attributes) :
    ∃ more, AllEmpty more ∧
      { b.inside f outer children with stack := stack } = b.inside f outer (more ++ children) := by
  rcases h with rfl | rfl
  · exact ⟨[], allEmpty_nil, rfl⟩
  · exact ⟨_, allEmpty_singleton name attributes, rfl⟩

/-- The start tag of an element without content opens none. -/
theorem step_startVoid (h : isVoid name = true) (hplain : OpenElements.Plain (f :: outer))
    (attributes : KeyMap String) (children : List Tree) :
    ∃ more, AllEmpty more ∧
      (b.inside f outer children).step (.start name attributes) =
        b.inside f outer (more ++ children) := by
  have hinside := hplain.inside (b := b) children
  rw [Builder.step_inside, inBody_startVoid h hinside]
  exact exists_allEmpty (startInBody_void h hinside b.oldRules attributes)

/-- Nor does its end tag. -/
theorem step_finishVoid (h : isVoid name = true) (hplain : OpenElements.Plain (f :: outer))
    (children : List Tree) :
    ∃ more, AllEmpty more ∧
      (b.inside f outer children).step (.finish name) = b.inside f outer (more ++ children) := by
  have hinside := hplain.inside (b := b) children
  rw [Builder.step_inside, inBody_finishVoid h hinside]
  exact exists_allEmpty (endInBody_void h hinside)

/-! ### Elements whose content is no markup -/

variable {content rest : List Char} {attributes : List WrittenAttribute}

theorem endsHere_of_ne {name : List Char} {c : Char} (hc : c ≠ '<') (text : List Char) :
    endsHere name (c :: text) = false := by
  unfold endsHere
  split
  · next heq => exact absurd (List.cons.inj heq).1 hc
  · rfl

/-- The content of an element goes on up to its end tag, where no other tag is in it. -/
theorem untilEndTag_append {name : List Char} (hrest : endsHere name rest = true) :
    ∀ {content : List Char}, '<' ∉ content →
      untilEndTag name (content ++ rest) = (content, rest)
  | [], _ => by
    cases rest with
    | nil => cases hrest
    | cons c rest =>
      rw [List.nil_append, untilEndTag, if_pos hrest]
  | c :: content, hcontent => by
    obtain ⟨hc, hcontent⟩ := List.ne_and_not_mem_of_not_mem_cons hcontent
    rw [List.cons_append, untilEndTag, endsHere_of_ne hc.symm, if_neg Bool.false_ne_true,
      untilEndTag_append hrest hcontent]

/-- So does that of a script. -/
theorem untilScriptEnd_append (hrest : endsHere "script".toList rest = true) :
    ∀ {content : List Char}, '<' ∉ content →
      untilScriptEnd .outside (content ++ rest) = (content, rest)
  | [], _ => by
    cases rest with
    | nil => cases hrest
    | cons c rest =>
      rw [List.nil_append, untilScriptEnd, hrest]
      rfl
  | c :: content, hcontent => by
    obtain ⟨hc, hcontent⟩ := List.ne_and_not_mem_of_not_mem_cons hcontent
    have hlevel : ScriptLevel.outside.next (c :: (content ++ rest)) = .outside := by
      have hcomment : stripStart? "<!--".toList (c :: (content ++ rest)) = none := by
        have hchars : "<!--".toList = ['<', '!', '-', '-'] := rfl
        rw [hchars, stripStart?, if_neg hc]
      rw [ScriptLevel.next, hcomment]
      rfl
    rw [List.cons_append, untilScriptEnd, endsHere_of_ne hc.symm, hlevel,
      untilScriptEnd_append hrest hcontent]
    rfl

/-- The end tag of an element ends its content. -/
theorem endsHere_writtenEnd (name : String) (rest : List Char) :
    endsHere (lowerAscii name).toList (writtenEnd name ++ rest) = true := by
  have hlower : (lowerAscii name).toList = name.toList.map lowerChar := String.toList_ofList
  rw [writtenEnd_append, endsHere, namedHere, hlower, List.length_map, List.take_left,
    List.drop_left]
  simp [endsName]

/-- What follows the end tag is read on. -/
theorem afterTag_writtenEnd (name : String) (rest : List Char) :
    afterTag ((writtenEnd name ++ rest).drop ((lowerAscii name).length + 2)) = rest := by
  have hdrop : (writtenEnd name ++ rest).drop ((lowerAscii name).length + 2) = '>' :: rest := by
    have hlength : (lowerAscii name).length = name.toList.length := by
      simp [lowerAscii]
    rw [writtenEnd_append, hlength, List.drop_succ_cons, List.drop_succ_cons, List.drop_left]
  obtain ⟨_, hread⟩ := readAttributes?_end rest
  rw [hdrop, afterTag, hread]

/-- The content of a script or of a style sheet is taken as it stands. -/
theorem exists_rawContent (hname : lowerAscii name ∈ ["script", "style"]) (hless : '<' ∉ content)
    (hnull : '\x00' ∉ content) (hmark : rest.head? ≠ some '\uFEFF') :
    ∃ kind, rawKind? false (lowerAscii name) = some kind ∧
      rawContent kind (lowerAscii name) (content ++ (writtenEnd name ++ rest)) =
        (String.ofList content, rest) := by
  have hkept : content.map kept = content := by
    have hself : ∀ c ∈ content, kept c = c := by
      intro c hc
      refine if_neg ?_
      rintro rfl
      exact hnull hc
    rw [List.map_congr_left hself, List.map_id']
  have hends := endsHere_writtenEnd name rest
  have hafter := afterTag_writtenEnd name rest
  simp only [List.mem_cons, List.not_mem_nil, or_false] at hname
  rcases hname with hname | hname
  · refine ⟨.script, by rw [hname]; rfl, ?_⟩
    rw [hname] at hends hafter ⊢
    rw [rawContent, untilScriptEnd_append hends hless]
    dsimp only
    rw [hkept, hafter, withoutMark_of_head?_ne hmark]
  · refine ⟨.plain, by rw [hname]; rfl, ?_⟩
    rw [rawContent, untilEndTag_append hends hless]
    dsimp only
    rw [hkept, hafter]

theorem step_raw (hname : lowerAscii name ∈ ["script", "style"])
    (hplain : OpenElements.Plain (f :: outer)) (attributes : KeyMap String) (content : String)
    (children : List Tree) :
    (b.inside f outer children).step (.raw (lowerAscii name) attributes content) =
      b.inside f outer (rawTree (lowerAscii name) attributes content :: children) := by
  have hne {other : String} (hother : other ∉ ["script", "style"]) : lowerAscii name ≠ other := by
    rintro rfl
    exact hother hname
  rw [Builder.step_inside, Builder.inBody, OpenElements.leave,
    (hplain.inside children).leaveColumns]
  simp (disch := decide) only [rawTag, hne, false_and, or_self, if_false]
  rfl

/-- A script or a style sheet is read as an element with its content as the text. -/
theorem read_raw (htag : LegibleTag name attributes)
    (hname : lowerAscii name ∈ ["script", "style"]) (hplain : OpenElements.Plain (f :: outer))
    (hless : '<' ∉ content) (hnull : '\x00' ∉ content) (hmark : rest.head? ≠ some '\uFEFF')
    (children : List Tree) :
    (b.inside f outer children).read ('<' :: (writtenTag name attributes ++
        '>' :: (content ++ (writtenEnd name ++ rest)))) =
      (b.inside f outer
        (rawTree (lowerAscii name) (namedValues attributes) (String.ofList content) ::
          children)).read rest := by
  obtain ⟨kind, hraw, hcontent⟩ := exists_rawContent hname hless hnull hmark
  have hchoice : decide (settingOf (b.inside f outer children).stack = .select) = false := by
    rw [(hplain.inside children).settingOf]
    rfl
  have hscan := scan_raw htag hraw (content ++ (writtenEnd name ++ rest))
  rw [hcontent, ← hchoice] at hscan
  rw [read_of_scan (List.cons_ne_nil _ _) hscan, List.foldl_cons, List.foldl_nil,
    step_raw hname hplain]

end Gleaner.Markup
