/-
# Elements of ordinary names

A name that no rule of HTML treats apart makes an element that opens and closes where it is written:
its start tag puts it into the innermost open element, and its end tag closes it there. So as long as
only such elements are open in the body, the open elements are those of the tags read so far, one in
another.

Key definitions: `treatedApart`, `IsOrdinary`, `OpenElements.Plain`.
Key theorems: `IsOrdinary.rawKind?`, `inBody_start`, `inBody_finish`, `inBody_char`, `step_first`,
`step_blank`.
-/
import Gleaner.Markup.Builder

namespace Gleaner.Markup

open Gleaner.Text OpenElements

/-- The names that some rule of HTML treats apart, in a start tag, in an end tag or by what may
stand inside. -/
def treatedApart : List String :=
  ["a", "address", "applet", "area", "article", "aside", "b", "base", "basefont", "bgsound", "big",
    "blockquote", "body", "br", "button", "caption", "center", "code", "col", "colgroup", "dd",
    "details", "dialog", "dir", "div", "dl", "dt", "em", "embed", "fieldset", "figcaption",
    "figure", "font", "footer", "form", "frame", "frameset", "h1", "h2", "h3", "h4", "h5", "h6",
    "head", "header", "hgroup", "hr", "html", "i", "iframe", "image", "img", "input", "isindex",
    "keygen", "li", "link", "listing", "main", "marquee", "math", "menu", "meta", "nav", "nobr",
    "noembed", "noframes", "noscript", "object", "ol", "optgroup", "option", "p", "param",
    "plaintext", "pre", "rb", "rp", "rt", "rtc", "ruby", "s", "script", "search", "section",
    "select", "small", "source", "strike", "strong", "style", "summary", "svg", "table", "tbody",
    "td", "template", "textarea", "tfoot", "th", "thead", "title", "tr", "track", "tt", "u", "ul",
    "wbr", "xmp"]

/-- A name, in small letters, that no rule of HTML treats apart. -/
def IsOrdinary (name : String) : Prop :=
  name ∉ treatedApart

instance (name : String) : Decidable (IsOrdinary name) :=
  inferInstanceAs (Decidable (name ∉ treatedApart))

/-! ### Kinds of elements -/

/-- The elements whose content is no markup are these. -/
theorem rawKind?_eq_none {name : String}
    (h : name ∉ ["title", "textarea", "style", "xmp", "iframe", "noembed", "noframes", "noscript",
      "script", "plaintext"]) (inChoice : Bool) : rawKind? inChoice name = none := by
  simp only [List.mem_cons, List.not_mem_nil, or_false, not_or] at h
  simp [rawKind?, h]

namespace IsOrdinary

variable {name : String} (h : IsOrdinary name)

include h

theorem ne {other : String} (hother : other ∈ treatedApart) : name ≠ other := by
  rintro rfl
  exact h hother

theorem not_mem {list : List String} (hlist : ∀ other ∈ list, other ∈ treatedApart) :
    name ∉ list :=
  fun hname => h (hlist name hname)

theorem isVoid : isVoid name = false :=
  decide_eq_false (h.not_mem (by decide))

theorem isMetadata : isMetadata name = false :=
  decide_eq_false (h.not_mem (by decide))

theorem isHeading : isHeading name = false :=
  decide_eq_false (h.not_mem (by decide))

theorem isBlock : isBlock name = false :=
  decide_eq_false (h.not_mem (by decide))

theorem isEnclosure : isEnclosure name = false :=
  decide_eq_false (h.not_mem (by decide))

theorem isRowGroup : isRowGroup name = false :=
  decide_eq_false (h.not_mem (by decide))

theorem isCell : isCell name = false :=
  decide_eq_false (h.not_mem (by decide))

theorem isTablePart : isTablePart name = false :=
  decide_eq_false (h.not_mem (by decide))

theorem mayOmitEnd : mayOmitEnd name = false :=
  decide_eq_false (h.not_mem (by decide))

theorem isTableBox : isTableBox name = false := by
  have htable : name ≠ "table" := h.ne (by decide)
  simp [Markup.isTableBox, htable, h.isTablePart]

theorem rawKind? (inChoice : Bool) : rawKind? inChoice name = none :=
  rawKind?_eq_none (h.not_mem (by decide)) inChoice

end IsOrdinary

/-! ### Open elements of ordinary names -/

namespace OpenElements

variable {name : String} {f g : Frame} {rest stack : OpenElements}

/-- Of the open elements none has ended, and all but the body have ordinary names. -/
def Plain (stack : OpenElements) : Prop :=
  ∀ f ∈ stack, f.ended = false ∧ (f.name = "body" ∨ IsOrdinary f.name)

theorem Plain.ne {other : String} (h : Plain stack) (hother : other ∈ treatedApart)
    (hbody : other ≠ "body") : ∀ f ∈ stack, f.name ≠ other := by
  rintro f hf rfl
  rcases (h f hf).2 with hname | hname
  · exact hbody hname
  · exact hname hother

theorem Plain.settingOf (h : Plain stack) : settingOf stack = .body := by
  induction stack with
  | nil => rfl
  | cons f rest ih =>
    have hcell : isCell f.name = false := by
      rcases (h f List.mem_cons_self).2 with hname | hname
      · rw [hname]
        decide
      · exact hname.isCell
    have hgroup : isRowGroup f.name = false := by
      rcases (h f List.mem_cons_self).2 with hname | hname
      · rw [hname]
        decide
      · exact hname.isRowGroup
    have hne {other : String} (hother : other ∈ treatedApart) (hbody : other ≠ "body") :
        f.name ≠ other :=
      h.ne hother hbody f List.mem_cons_self
    have htemplate : f.name ≠ "template" := hne (by decide) (by decide)
    have hselect : f.name ≠ "select" := hne (by decide) (by decide)
    have hrow : f.name ≠ "tr" := hne (by decide) (by decide)
    have hcaption : f.name ≠ "caption" := hne (by decide) (by decide)
    have hcolumns : f.name ≠ "colgroup" := hne (by decide) (by decide)
    have htable : f.name ≠ "table" := hne (by decide) (by decide)
    rw [Markup.settingOf, if_neg htemplate, if_neg hselect, hcell, if_neg Bool.false_ne_true, if_neg hrow, hgroup,
      if_neg Bool.false_ne_true, if_neg hcaption, if_neg hcolumns, if_neg htable]
    exact ih fun g hg => h g (List.mem_cons_of_mem f hg)

theorem Plain.leaveColumns (h : Plain stack) : stack.leaveColumns = stack := by
  have hcurrent : stack.current ≠ "colgroup" := by
    cases stack with
    | nil => decide
    | cons f rest => exact h.ne (by decide) (by decide) f List.mem_cons_self
  exact if_neg hcurrent

/-- The end of the innermost element of an ordinary name puts it into the next outer one. -/
theorem finish_current (hname : IsOrdinary f.name) (hf : f.ended = false) (hg : g.ended = false) :
    finish f.name (f :: g :: rest) =
      { g with
        children := .element f.name f.attributes f.children.reverse :: g.children } :: rest := by
  have hkept : closeOmitted f.name (f :: g :: rest) = f :: g :: rest := by
    simp [closeOmitted, closeWhile, closeTo, List.findIdx_cons, Frame.shows, hf, hname.mayOmitEnd,
      foldMany]
  have hclosed : closeTo (· == f.name) (f :: g :: rest) = f :: g :: rest := by
    simp [closeTo, List.findIdx_cons, Frame.shows, hf, foldMany]
  rw [finish, hkept, closeThrough, hclosed, ← Frame.toTree_of_ne (hname.ne (by decide))]
  simp [close, fold, closeTo, List.findIdx_cons, Frame.shows, hg, foldMany]

end OpenElements

section

variable {name : String} {attributes : KeyMap String} {stack : OpenElements}

/-- The start tag of an ordinary name opens an element. -/
theorem startInBody_ordinary (h : IsOrdinary name) (oldRules : Bool) :
    startInBody oldRules name attributes stack = stack.push name attributes := by
  have hhtml : name ∉ ["html", "head", "body", "frameset", "frame"] := h.not_mem (by decide)
  unfold startInBody
  simp (disch := decide) only [hhtml, h.isTablePart, h.isBlock, h.isHeading, h.isVoid, h.ne,
    Bool.false_eq_true, or_self, if_false]

/-- The end tag of an ordinary name closes the innermost element if it has the name. -/
theorem endInBody_ordinary {f : Frame} (h : IsOrdinary f.name) (hf : f.ended = false) :
    endInBody f.name (f :: stack) = OpenElements.finish f.name (f :: stack) := by
  have hhtml : f.name ∉ ["html", "head", "body"] := h.not_mem (by decide)
  have hinnermost :
      innermost? (fun n => n == f.name || isSpecial n) (f :: stack) = some f.name := by
    simp [innermost?, Frame.shows, hf]
  unfold endInBody
  simp (disch := decide) only [hhtml, h.isTablePart, h.isBlock, h.isEnclosure, h.isHeading, h.ne,
    Bool.false_eq_true, or_self, if_false]
  rw [finishOrdinary, hinnermost]
  exact if_pos rfl

end

namespace Builder

variable {b : Builder} {name : String} {attributes : KeyMap String}

/-- A start tag of an ordinary name opens an element where only such elements are open. -/
theorem inBody_start (h : IsOrdinary name) (hplain : b.stack.Plain) :
    inBody b (.start name attributes) = { b with stack := b.stack.push name attributes } := by
  have hleave : b.stack.leave (.start name attributes) = b.stack := by
    simp (disch := decide) only [leave, h.isTableBox, h.ne, Bool.false_eq_true, or_self,
      if_false, hplain.leaveColumns]
  have hstart : startTag b.oldRules name attributes b.stack = b.stack.push name attributes := by
    rw [startTag, if_neg (h.ne (by decide)), hplain.settingOf]
    exact startInBody_ordinary h b.oldRules
  rw [inBody, hleave]
  simp (disch := decide) only [h.ne, if_false, hplain.settingOf, hstart, reduceCtorEq]

/-- Its end tag closes it where it is the innermost element. -/
theorem inBody_finish {f g : Frame} {rest : OpenElements} (hstack : b.stack = f :: g :: rest)
    (h : IsOrdinary f.name) (hplain : b.stack.Plain) :
    inBody b (.finish f.name) =
      { b with
        stack := { g with
          children := .element f.name f.attributes f.children.reverse :: g.children } :: rest } := by
  have hf : f.ended = false := (hplain f (by simp [hstack])).1
  have hg : g.ended = false := (hplain g (by simp [hstack])).1
  have hleave : b.stack.leave (.finish f.name) = b.stack := by
    simp (disch := decide) only [leave, h.isTableBox, h.ne, Bool.false_eq_true, or_self,
      if_false, hplain.leaveColumns]
  have hfinish : endTag f.name b.stack =
      { g with
        children := .element f.name f.attributes f.children.reverse :: g.children } :: rest := by
    rw [endTag, if_neg (h.ne (by decide)), hplain.settingOf]
    simp only [hstack]
    rw [endInBody_ordinary h hf, finish_current h hf hg]
  rw [inBody, hleave]
  simp (disch := decide) only [h.ne, or_self, if_false, false_and, hfinish]

/-- A character goes on with the text of the innermost element. -/
theorem inBody_char {c : Char} (hc : c ≠ '\x00') (hplain : b.stack.Plain) :
    inBody b (.char c) = { b with stack := b.stack.addChar c } := by
  have hleave : b.stack.leave (.char c) = b.stack := by
    rw [leave, hplain.leaveColumns, ite_self]
  rw [inBody, hleave]
  exact if_neg hc

/-- The start tag of an ordinary name in front of anything else opens the body with its element. -/
theorem step_first (h : IsOrdinary name) :
    step start (.start name attributes) =
      { start with
        phase := .inBody
        stack := (OpenElements.push "body" .empty []).push name attributes } := by
  have hbody : (OpenElements.push "body" .empty []).Plain := by
    intro f hf
    obtain rfl := List.mem_singleton.1 hf
    exact ⟨rfl, .inl rfl⟩
  have hopen : step start (.start name attributes) =
      inBody (openBody .empty { start with phase := .afterHead }) (.start name attributes) := by
    simp (disch := decide) only [step, start, initial, beforeHtml, beforeHead, inHead, afterHead,
      h.ne, h.isMetadata, Bool.false_eq_true, if_false]
  rw [hopen, inBody_start h hbody]
  rfl

/-- A blank in front of anything else is dropped. -/
theorem step_blank {c : Char} (hc : isOuterSpace c = true) : step start (.char c) = start :=
  if_pos hc

end Builder

end Gleaner.Markup
