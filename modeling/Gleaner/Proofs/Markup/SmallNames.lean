/-
# The names of attributes are in small letters

A tag's attributes have names in small letters, the attributes that a document is given without a
tag have none, and what is put together from such attributes has no others. So each step by which a
document is put together keeps the names of all attributes in small letters, and every document
that is read from markup has them so.

Key definitions: `SmallNames`, `Tree.Small`, `OpenElements.Small`, `Builder.Small`.
Key theorems: `small_scan`, `Builder.small_step`, `Builder.small_read`, `smallNames_ofText`.
-/
import Gleaner.Markup.Reading

namespace Gleaner.Markup

open Gleaner.Text

/-- All names of some attributes are in small letters. -/
def SmallNames (attributes : KeyMap String) : Prop :=
  ∀ a ∈ attributes.entries, lowerAscii a.1 = a.1

/-! ### Names in small letters -/

/-- A character that is made small stays as it is when it is made small again. -/
theorem lowerChar_kept (c : Char) : lowerChar (kept (lowerChar c)) = kept (lowerChar c) := by
  have hsmall : ¬('A' ≤ lowerChar c ∧ lowerChar c ≤ 'Z') := by
    unfold lowerChar
    by_cases hcapital : 'A' ≤ c ∧ c ≤ 'Z'
    · have hlow : 65 ≤ c.toNat := hcapital.1
      have hhigh : c.toNat ≤ 90 := hcapital.2
      rw [if_pos hcapital]
      rintro ⟨-, hz⟩
      have hvalid : (c.toNat + 32).isValidChar := .inl (by omega)
      have hnat : (Char.ofNat (c.toNat + 32)).toNat = c.toNat + 32 := by
        rw [Char.ofNat, dif_pos hvalid]
        rfl
      have hle : (Char.ofNat (c.toNat + 32)).toNat ≤ 90 := hz
      omega
    · rw [if_neg hcapital]
      exact hcapital
  unfold kept
  by_cases hzero : lowerChar c = '\x00'
  · rw [if_pos hzero]
    rfl
  · rw [if_neg hzero]
    exact if_neg hsmall

theorem lowerAscii_nameOf (chars : List Char) : lowerAscii (nameOf chars) = nameOf chars := by
  rw [lowerAscii, nameOf, String.toList_ofList, List.map_map]
  exact congrArg String.ofList (List.map_congr_left fun c _ => lowerChar_kept c)

/-- The attributes that are read in a tag have names in small letters. -/
theorem lowerAscii_of_readAttributes? {text : List Char} {written : List (String × String)}
    {left : Remainder text} (h : readAttributes? text = some (written, left)) :
    ∀ a ∈ written, lowerAscii a.1 = a.1 := by
  induction text using readAttributes?.induct generalizing written with
  | case1 text ihValue ihBare =>
    rw [readAttributes?] at h
    obtain ⟨⟨c, rest, hrest⟩, -, h⟩ := Option.bind_eq_some_iff.1 h
    by_cases hc : c = '>'
    · simp only [hc, if_true] at h
      cases h
      simp
    · simp only [hc, if_false] at h
      split at h
      · cases h
      · next value hvalue _ =>
        simp only [Option.bind_eq_bind, Option.bind_eq_some_iff] at h
        obtain ⟨⟨text', more, hmore⟩, -, ⟨others, left'⟩, hothers, h⟩ := h
        cases h
        refine List.forall_mem_cons.2 ⟨lowerAscii_nameOf _, ?_⟩
        exact ihValue rest hrest value hvalue more hmore hothers
      · next d more hmore _ _ =>
        simp only [Option.bind_eq_bind, Option.bind_eq_some_iff] at h
        obtain ⟨⟨others, left'⟩, hothers, h⟩ := h
        cases h
        refine List.forall_mem_cons.2 ⟨lowerAscii_nameOf _, ?_⟩
        exact ihBare rest hrest d more hmore hothers

theorem smallNames_empty : SmallNames .empty := by
  intro a ha
  cases ha

theorem smallNames_insert {attributes : KeyMap String} (h : SmallNames attributes) {name : String}
    (hname : lowerAscii name = name) (value : String) :
    SmallNames (attributes.insert name value) := by
  intro a ha
  rcases mem_insertEntry ha with rfl | ha
  · exact hname
  · exact h a ha

/-- The attributes of a tag have names in small letters. -/
theorem smallNames_attributesOf {written : List (String × String)}
    (h : ∀ a ∈ written, lowerAscii a.1 = a.1) : SmallNames (attributesOf written) := by
  induction written with
  | nil => exact smallNames_empty
  | cons a written ih =>
    rw [List.forall_mem_cons] at h
    exact smallNames_insert (ih h.2) h.1 a.2

/-! ### Pieces of markup -/

/-- The attributes that a piece of markup brings have names in small letters. -/
def Token.Small : Token → Prop
  | .start _ attributes | .raw _ attributes _ => SmallNames attributes
  | .doctype _ | .comment | .finish _ | .char _ => True

theorem small_declaration (text : List Char) : (declaration text).1.Small := by
  unfold declaration
  split
  · trivial
  · trivial
  · trivial
  · split
    · trivial
    · trivial

theorem small_scanEndTag (text : List Char) : ∀ t ∈ (scanEndTag text).1, t.Small := by
  unfold scanEndTag
  split
  · simp [Token.Small]
  · simp
  · split
    · split
      · simp [Token.Small]
      · simp
    · simp [Token.Small]

theorem small_scanStartTag (inChoice : Bool) (text : List Char) :
    ∀ t ∈ (scanStartTag inChoice text).1, t.Small := by
  unfold scanStartTag
  split
  · next written left hread =>
    have hsmall := smallNames_attributesOf (lowerAscii_of_readAttributes? hread)
    simp only
    split
    · exact List.forall_mem_singleton.2 hsmall
    · exact List.forall_mem_singleton.2 hsmall
  · simp

/-- Whatever a text begins with, it brings attributes with names in small letters. -/
theorem small_scan (inChoice : Bool) (text : List Char) :
    ∀ t ∈ (scan inChoice text).1, t.Small := by
  unfold scan
  split
  · simp
  · exact List.forall_mem_singleton.2 (small_declaration _)
  · simp [Token.Small]
  · exact small_scanEndTag _
  · split
    · exact small_scanStartTag inChoice _
    · simp [Token.Small]
  · intro t ht
    obtain ⟨c, -, rfl⟩ := List.mem_map.1 ht
    trivial

/-! ### Trees -/

/-- The attributes of all elements of a tree have names in small letters. -/
def Tree.Small (tree : Tree) : Prop :=
  ∀ place, ∀ e ∈ tree.elementsAt place, SmallNames e.attributes

theorem small_text (content : String) : (Tree.text content).Small := by
  intro place e he
  cases he

theorem small_comment : Tree.comment.Small := by
  intro place e he
  cases he

theorem smallNames_of_mem_elementsBelow {e : Element} : ∀ {children : List Tree},
    (∀ child ∈ children, child.Small) → ∀ {place : Place} {i : Nat},
      e ∈ elementsBelow place i children → SmallNames e.attributes
  | [], _, _, _, he => by cases he
  | child :: rest, h, place, i, he => by
    rw [List.forall_mem_cons] at h
    rw [elementsBelow, List.mem_append] at he
    rcases he with he | he
    · exact h.1 _ e he
    · exact smallNames_of_mem_elementsBelow h.2 he

theorem small_element {name : String} {attributes : KeyMap String} {children : List Tree}
    (hattributes : SmallNames attributes) (hchildren : ∀ child ∈ children, child.Small) :
    (Tree.element name attributes children).Small := by
  intro place e he
  rw [Tree.elementsAt, List.mem_cons] at he
  rcases he with rfl | he
  · exact hattributes
  · exact smallNames_of_mem_elementsBelow hchildren he

theorem small_fragment {children : List Tree} (hchildren : ∀ child ∈ children, child.Small) :
    (Tree.fragment children).Small := by
  intro place e he
  exact smallNames_of_mem_elementsBelow hchildren he

theorem small_rawTree {name : String} {attributes : KeyMap String} (h : SmallNames attributes)
    (content : String) : (rawTree name attributes content).Small := by
  unfold rawTree
  refine small_element h ?_
  split
  · simp
  · exact List.forall_mem_singleton.2 (small_text content)

theorem small_appendChar (c : Char) {children : List Tree} (h : ∀ child ∈ children, child.Small) :
    ∀ child ∈ appendChar c children, child.Small := by
  unfold appendChar
  split
  · rw [List.forall_mem_cons] at h
    exact List.forall_mem_cons.2 ⟨small_text _, h.2⟩
  · exact List.forall_mem_cons.2 ⟨small_text _, h⟩

/-! ### Open elements -/

/-- The attributes of an open element and of all in it have names in small letters. -/
structure Frame.Small (f : Frame) : Prop where
  names : SmallNames f.attributes
  children : ∀ child ∈ f.children, child.Small

theorem Frame.small_toTree {f : Frame} (h : f.Small) : f.toTree.Small := by
  have hchildren : ∀ child ∈ f.children.reverse, child.Small :=
    fun child hc => h.children child (List.mem_reverse.1 hc)
  unfold toTree
  refine small_element h.names ?_
  split
  · exact List.forall_mem_singleton.2 (small_fragment hchildren)
  · exact hchildren

namespace OpenElements

/-- So have those of all open elements. -/
def Small (stack : OpenElements) : Prop :=
  ∀ f ∈ stack, f.Small

variable {stack : OpenElements}

theorem small_ite {p : Prop} [Decidable p] {a b : OpenElements} (ha : a.Small) (hb : b.Small) :
    (if p then a else b).Small := by
  split
  · exact ha
  · exact hb

theorem small_update {change : List Tree → List Tree}
    (hchange : ∀ children, (∀ child ∈ children, child.Small) →
      ∀ child ∈ change children, child.Small)
    (h : stack.Small) : (stack.update change).Small := by
  cases stack with
  | nil => exact h
  | cons f rest =>
    rw [Small, List.forall_mem_cons] at h
    exact List.forall_mem_cons.2 ⟨⟨h.1.names, hchange _ h.1.children⟩, h.2⟩

theorem small_addTree (h : stack.Small) {tree : Tree} (htree : tree.Small) :
    (stack.addTree tree).Small :=
  small_update (fun _ hchildren => List.forall_mem_cons.2 ⟨htree, hchildren⟩) h

theorem small_addChar (h : stack.Small) (c : Char) : (stack.addChar c).Small :=
  small_update (fun _ hchildren => small_appendChar c hchildren) h

theorem small_addEmpty (h : stack.Small) (name : String) {attributes : KeyMap String}
    (ha : SmallNames attributes) : (stack.addEmpty name attributes).Small :=
  small_addTree h (small_element ha (by simp))

theorem small_push (h : stack.Small) (name : String) {attributes : KeyMap String}
    (ha : SmallNames attributes) : (stack.push name attributes).Small :=
  List.forall_mem_cons.2 ⟨⟨ha, by simp⟩, h⟩

theorem small_fold (h : stack.Small) : stack.fold.Small := by
  unfold fold
  split
  · next f g rest =>
    obtain ⟨hf, hg, hrest⟩ : f.Small ∧ g.Small ∧ ∀ f ∈ rest, f.Small := by
      simpa [Small, List.forall_mem_cons] using h
    have hchildren : ∀ child ∈ f.toTree :: g.children, child.Small :=
      List.forall_mem_cons.2 ⟨Frame.small_toTree hf, hg.children⟩
    exact List.forall_mem_cons.2 ⟨⟨hg.names, hchildren⟩, hrest⟩
  · exact h

theorem small_foldMany (n : Nat) (h : stack.Small) : (stack.foldMany n).Small := by
  induction n generalizing stack with
  | zero => exact h
  | succ n ih => exact ih (small_fold h)

theorem small_closeTo (p : String → Bool) (h : stack.Small) : (stack.closeTo p).Small :=
  small_foldMany _ h

theorem small_close (h : stack.Small) : stack.close.Small :=
  small_closeTo _ (small_fold h)

theorem small_closeThrough (p : String → Bool) (h : stack.Small) : (stack.closeThrough p).Small :=
  small_close (small_closeTo p h)

theorem small_endAlone (name : String) (h : stack.Small) : (stack.endAlone name).Small := by
  unfold endAlone
  split
  · exact small_close h
  · split
    · intro f hf
      obtain ⟨i, hi, rfl⟩ := List.mem_iff_getElem.1 hf
      rw [List.length_modify] at hi
      have hframe := h _ (List.getElem_mem hi)
      rw [List.getElem_modify]
      split
      · exact ⟨hframe.names, hframe.children⟩
      · exact hframe
    · exact h

theorem small_outermost (h : stack.Small) : ∀ f ∈ stack.outermost, f.Small := by
  unfold outermost
  split
  · simp
  · intro f hf
    exact small_foldMany _ h f (List.mem_of_mem_head? hf)

theorem small_closeOmitted (except : String) (h : stack.Small) :
    (stack.closeOmitted except).Small :=
  small_closeTo _ h

theorem small_finish (name : String) (h : stack.Small) : (stack.finish name).Small :=
  small_closeThrough _ (small_closeOmitted name h)

theorem small_closeParagraph (h : stack.Small) : stack.closeParagraph.Small :=
  small_ite (small_finish "p" h) h

theorem small_closeItem (isItem : String → Bool) (h : stack.Small) :
    (stack.closeItem isItem).Small := by
  unfold closeItem
  simp only
  split
  · exact small_ite (small_finish _ h) h
  · exact h

theorem small_toTable (h : stack.Small) : stack.toTable.Small :=
  small_closeTo _ h

theorem small_toRowGroup (h : stack.Small) : stack.toRowGroup.Small :=
  small_ite (small_closeTo _ h) (small_push (small_toTable h) "tbody" smallNames_empty)

theorem small_toRow (h : stack.Small) : stack.toRow.Small :=
  small_ite (small_closeTo _ h) (small_push (small_toRowGroup h) "tr" smallNames_empty)

theorem small_closeSelect (h : stack.Small) : stack.closeSelect.Small :=
  small_closeThrough _ h

theorem small_closeIf (name : String) (h : stack.Small) : (stack.closeIf name).Small :=
  small_ite (small_close h) h

theorem small_leaveColumns (h : stack.Small) : stack.leaveColumns.Small :=
  small_ite (small_toTable h) h

theorem small_leaveSelect (h : stack.Small) : stack.leaveSelect.Small :=
  small_ite (small_closeSelect h) h

theorem small_leave (t : Token) (h : stack.Small) : (stack.leave t).Small := by
  have hcolumns := small_leaveColumns h
  unfold leave
  cases t with
  | doctype type => exact h
  | comment => exact h
  | char c => exact small_ite h hcolumns
  | raw name attributes content => exact hcolumns
  | start name attributes => exact small_ite (small_leaveSelect hcolumns) (small_ite h hcolumns)
  | finish name =>
    exact small_ite (small_ite (small_leaveSelect hcolumns) hcolumns) (small_ite h hcolumns)

/-! ### Tags -/

variable {attributes : KeyMap String}

theorem small_startTablePart (h : stack.Small) (name : String) (ha : SmallNames attributes) :
    (startTablePart name attributes stack).Small := by
  have hcolumns := small_push (small_toTable h) "colgroup" smallNames_empty
  unfold startTablePart
  refine small_ite (small_push (small_toRow h) name ha) ?_
  refine small_ite (small_push (small_toRowGroup h) name ha) ?_
  refine small_ite ?_ (small_push (small_toTable h) name ha)
  exact small_ite (small_addEmpty h name ha) (small_addEmpty hcolumns name ha)

theorem small_startInBody (oldRules : Bool) (h : stack.Small) (name : String)
    (ha : SmallNames attributes) : (startInBody oldRules name attributes stack).Small := by
  have hparagraph := small_closeParagraph h
  unfold startInBody
  refine small_ite h ?_
  refine small_ite (small_push hparagraph name ha) ?_
  refine small_ite (small_push (small_ite (small_close hparagraph) hparagraph) name ha) ?_
  refine small_ite (small_push (small_closeParagraph (small_closeItem _ h)) name ha) ?_
  refine small_ite (small_push (small_closeParagraph (small_closeItem _ h)) name ha) ?_
  refine small_ite (small_push (small_ite (small_finish "button" h) h) name ha) ?_
  refine small_ite (small_push (small_ite h hparagraph) name ha) ?_
  refine small_ite (small_addEmpty hparagraph name ha) ?_
  refine small_ite (small_addEmpty h "img" ha) ?_
  refine small_ite (small_addEmpty h name ha) ?_
  refine small_ite (small_push (small_closeIf "option" h) name ha) ?_
  refine small_ite (small_push (small_ite (small_closeOmitted "" h) h) name ha) ?_
  refine small_ite (small_push (small_ite (small_closeOmitted "rtc" h) h) name ha) ?_
  exact small_push h name ha

theorem small_startInSelect (h : stack.Small) (name : String) (ha : SmallNames attributes) :
    (startInSelect name attributes stack).Small := by
  have hoption := small_closeIf "option" h
  have hgroup := small_closeIf "optgroup" hoption
  unfold startInSelect
  refine small_ite (small_push hoption name ha) ?_
  refine small_ite (small_push hgroup name ha) ?_
  refine small_ite (small_addEmpty hgroup name ha) ?_
  refine small_ite (small_closeSelect h) ?_
  exact small_ite (small_addEmpty (small_closeSelect h) name ha) h

/-- A start tag puts its attributes into the document, and no others with names. -/
theorem small_startTag (oldRules : Bool) (h : stack.Small) (name : String)
    (ha : SmallNames attributes) : (startTag oldRules name attributes stack).Small := by
  have hpart := small_startTablePart h name ha
  have hbody := small_startInBody oldRules h name ha
  have htable := small_startInBody oldRules (small_closeThrough (· == "table") h) name ha
  unfold startTag
  refine small_ite (small_push h name ha) ?_
  split
  · exact hbody
  · exact small_startInSelect h name ha
  · exact small_ite hpart hbody
  · exact small_ite hpart hbody
  all_goals exact small_ite hpart (small_ite htable (small_ite (small_addEmpty h name ha) hbody))

theorem small_finishInScope (name : String) (bounds : String → Bool) (except : String)
    (h : stack.Small) : (finishInScope name bounds except stack).Small :=
  small_ite (small_closeThrough _ (small_closeOmitted except h)) h

theorem small_finishOrdinary (name : String) (h : stack.Small) :
    (finishOrdinary name stack).Small := by
  unfold finishOrdinary
  split
  · exact small_ite (small_finish name h) h
  · exact h

theorem small_endInBody (name : String) (h : stack.Small) : (endInBody name stack).Small := by
  have homitted := small_closeOmitted "" h
  unfold endInBody
  refine small_ite (small_finishInScope name boundsScope "" h) ?_
  refine small_ite (small_ite (small_endAlone name homitted) h) ?_
  refine small_ite (small_ite (small_finish "p" h) (small_addEmpty h "p" smallNames_empty)) ?_
  refine small_ite (small_finishInScope name boundsItem name h) ?_
  refine small_ite (small_finishInScope name boundsScope name h) ?_
  refine small_ite (small_ite (small_closeThrough isHeading homitted) h) ?_
  refine small_ite (small_addEmpty h "br" smallNames_empty) ?_
  exact small_ite h (small_finishOrdinary name h)

theorem small_endTablePart (name : String) (h : stack.Small) :
    (endTablePart name stack).Small := by
  unfold endTablePart
  refine small_ite (small_closeThrough _ h) ?_
  refine small_ite (small_ite (small_closeThrough _ h) h) ?_
  exact small_ite (small_closeThrough _ h) h

theorem small_endInSelect (name : String) (h : stack.Small) : (endInSelect name stack).Small := by
  unfold endInSelect
  refine small_ite (small_closeIf "option" h) ?_
  refine small_ite (small_closeIf "optgroup" (small_ite (small_close h) h)) ?_
  exact small_ite (small_closeSelect h) h

/-- An end tag brings no attributes. -/
theorem small_endTag (name : String) (h : stack.Small) : (endTag name stack).Small := by
  have hbody := small_endInBody name h
  unfold endTag
  refine small_ite (small_ite (small_closeThrough _ h) h) ?_
  split
  · exact hbody
  · exact small_endInSelect name h
  all_goals exact small_ite (small_endTablePart name h) hbody

theorem small_rawTag (h : stack.Small) (name : String) (ha : SmallNames attributes)
    (content : String) : (rawTag name attributes content stack).Small := by
  have hstack := small_ite (p := name = "textarea" ∧ settingOf stack = .select)
    (small_closeSelect h)
    (small_ite (p := name = "xmp" ∨ name = "plaintext") (small_closeParagraph h) h)
  exact small_addTree hstack (small_rawTree ha content)

end OpenElements

/-! ### The document -/

namespace Builder

/-- All attributes that a document has been given so far have names in small letters. -/
structure Small (b : Builder) : Prop where
  html : SmallNames b.html
  headAttributes : SmallNames b.headAttributes
  head : ∀ tree ∈ b.head, tree.Small
  between : ∀ tree ∈ b.between, tree.Small
  stack : b.stack.Small

variable {b : Builder}

theorem small_addMissing {attributes more : KeyMap String} (h : SmallNames attributes)
    (hmore : SmallNames more) : SmallNames (addMissing attributes more) := by
  unfold addMissing
  unfold SmallNames at hmore
  generalize more.entries = entries at hmore
  induction entries generalizing attributes with
  | nil => exact h
  | cons a entries ih =>
    rw [List.forall_mem_cons] at hmore
    refine ih ?_ hmore.2
    simp only
    split
    · exact h
    · exact smallNames_insert h hmore.1 a.2

theorem small_completeBody {more : KeyMap String} (hmore : SmallNames more) :
    ∀ {stack : OpenElements}, stack.Small → OpenElements.Small (completeBody more stack)
  | [], h => h
  | [f], h => by
    have hf := h f List.mem_cons_self
    exact List.forall_mem_singleton.2 ⟨small_addMissing hf.names hmore, hf.children⟩
  | f :: g :: rest, h => by
    obtain ⟨hf, hrest⟩ := List.forall_mem_cons.1 h
    exact List.forall_mem_cons.2 ⟨hf, small_completeBody hmore hrest⟩

theorem small_inBody (h : b.Small) {t : Token} (ht : t.Small) : (inBody b t).Small := by
  have hleave := OpenElements.small_leave t h.stack
  have hstack {stack : OpenElements} (hs : stack.Small) (phase : Phase) (formOpen : Bool) :
      Small { b with stack, phase, formOpen } :=
    ⟨h.html, h.headAttributes, h.head, h.between, hs⟩
  unfold inBody
  cases t with
  | doctype type => exact hstack hleave _ _
  | comment => exact hstack (OpenElements.small_addTree hleave small_comment) _ _
  | char c =>
    simp only
    split
    · exact hstack hleave _ _
    · exact hstack (OpenElements.small_addChar hleave c) _ _
  | raw name attributes content =>
    exact hstack (OpenElements.small_rawTag hleave name ht content) _ _
  | start name attributes =>
    have hstart := OpenElements.small_startTag b.oldRules hleave name ht
    simp only
    split
    · split
      · exact hstack hleave _ _
      · exact ⟨small_addMissing h.html ht, h.headAttributes, h.head, h.between, hleave⟩
    split
    · exact hstack hstart _ _
    split
    · split
      · exact hstack hleave _ _
      · exact hstack (small_completeBody ht hleave) _ _
    split
    · split
      · exact hstack hstart _ _
      split
      · exact hstack hleave _ _
      · exact hstack hstart _ _
    · exact hstack hstart _ _
  | finish name =>
    have hfinish := OpenElements.small_endTag name hleave
    simp only
    split
    · split
      · exact hstack hleave _ _
      · exact hstack hleave _ _
    split
    · split
      · exact hstack (OpenElements.small_finishInScope name boundsScope "" hleave) _ _
      split
      · exact hstack hfinish _ _
      · exact hstack hleave _ _
    · exact hstack hfinish _ _

/-- How far the reading has come has no part in it. -/
theorem Small.at (h : b.Small) (phase : Phase) : Small { b with phase } :=
  ⟨h.html, h.headAttributes, h.head, h.between, h.stack⟩

theorem small_addHtml (h : b.Small) {attributes : KeyMap String} (ha : SmallNames attributes) :
    Small { b with html := addMissing b.html attributes } :=
  ⟨small_addMissing h.html ha, h.headAttributes, h.head, h.between, h.stack⟩

theorem small_addHead (h : b.Small) {tree : Tree} (htree : tree.Small) :
    Small { b with head := tree :: b.head } :=
  ⟨h.html, h.headAttributes, List.forall_mem_cons.2 ⟨htree, h.head⟩, h.between, h.stack⟩

theorem small_openBody (h : b.Small) {attributes : KeyMap String} (ha : SmallNames attributes) :
    (openBody attributes b).Small := by
  have hstack : (OpenElements.push "body" attributes []).Small :=
    OpenElements.small_push (by simp [OpenElements.Small]) "body" ha
  exact ⟨h.html, h.headAttributes, h.head, h.between, hstack⟩

theorem small_openTemplate (h : b.Small) {attributes : KeyMap String} (ha : SmallNames attributes) :
    (openTemplate attributes b).Small := by
  have hstack : OpenElements.Small
      [{ name := "head", attributes := b.headAttributes, children := b.head }] :=
    List.forall_mem_singleton.2 ⟨h.headAttributes, h.head⟩
  exact ⟨h.html, h.headAttributes, h.head, h.between, OpenElements.small_push hstack _ ha⟩

theorem small_noElements : OpenElements.Small [] := by
  simp [OpenElements.Small]

theorem small_closeTemplate (h : b.Small) : b.closeTemplate.Small := by
  unfold closeTemplate
  split
  · next head hstack =>
    have hhead : head.Small := h.stack head (by rw [hstack]; exact List.mem_cons_self)
    exact ⟨h.html, h.headAttributes, hhead.children, h.between, small_noElements⟩
  · exact h

theorem small_inTemplate (h : b.Small) {t : Token} (ht : t.Small) : (inTemplate b t).Small :=
  small_closeTemplate (small_inBody h ht)

theorem small_afterHead (h : b.Small) {t : Token} (ht : t.Small) : (afterHead b t).Small := by
  have hother := small_inBody (small_openBody h smallNames_empty) ht
  unfold afterHead
  cases t with
  | doctype type => exact h
  | comment =>
    have hbetween := List.forall_mem_cons.2 ⟨small_comment, h.between⟩
    exact ⟨h.html, h.headAttributes, h.head, hbetween, h.stack⟩
  | char c =>
    simp only
    split
    · exact ⟨h.html, h.headAttributes, h.head, small_appendChar c h.between, h.stack⟩
    · exact hother
  | raw name attributes content =>
    simp only
    split
    · exact small_addHead h (small_rawTree ht content)
    · exact hother
  | start name attributes =>
    simp only
    split
    · exact small_addHtml h ht
    split
    · exact small_openBody h ht
    split
    · exact small_addHead h (small_element ht (by simp))
    split
    · exact small_openTemplate h ht
    split
    · exact h
    · exact hother
  | finish name =>
    simp only
    split
    · exact hother
    · exact h

theorem small_inHead (h : b.Small) {t : Token} (ht : t.Small) : (inHead b t).Small := by
  have hother := small_afterHead (h.at .afterHead) ht
  unfold inHead
  cases t with
  | doctype type => exact h
  | comment => exact small_addHead h small_comment
  | char c =>
    simp only
    split
    · exact ⟨h.html, h.headAttributes, small_appendChar c h.head, h.between, h.stack⟩
    · exact hother
  | raw name attributes content =>
    simp only
    split
    · exact small_addHead h (small_rawTree ht content)
    · exact hother
  | start name attributes =>
    simp only
    split
    · exact small_addHtml h ht
    split
    · exact small_addHead h (small_element ht (by simp))
    split
    · exact small_openTemplate h ht
    split
    · exact h
    · exact hother
  | finish name =>
    simp only
    split
    · exact h.at .afterHead
    split
    · exact hother
    · exact h

theorem small_beforeHead (h : b.Small) {t : Token} (ht : t.Small) : (beforeHead b t).Small := by
  have hother := small_inHead (h.at .inHead) ht
  unfold beforeHead
  cases t with
  | doctype type => exact h
  | comment => exact h
  | char c =>
    simp only
    split
    · exact h
    · exact hother
  | raw name attributes content => exact hother
  | start name attributes =>
    simp only
    split
    · exact small_addHtml h ht
    split
    · exact ⟨h.html, ht, h.head, h.between, h.stack⟩
    · exact hother
  | finish name =>
    simp only
    split
    · exact hother
    · exact h

theorem small_beforeHtml (h : b.Small) {t : Token} (ht : t.Small) : (beforeHtml b t).Small := by
  have hother := small_beforeHead (h.at .beforeHead) ht
  unfold beforeHtml
  cases t with
  | doctype type => exact h
  | comment => exact h
  | char c =>
    simp only
    split
    · exact h
    · exact hother
  | raw name attributes content => exact hother
  | start name attributes =>
    simp only
    split
    · exact ⟨ht, h.headAttributes, h.head, h.between, h.stack⟩
    · exact hother
  | finish name =>
    simp only
    split
    · exact hother
    · exact h

theorem small_initial (h : b.Small) {t : Token} (ht : t.Small) : (initial b t).Small := by
  have hother := small_beforeHtml (h.at .beforeHtml) ht
  unfold initial
  split
  · exact ⟨h.html, h.headAttributes, h.head, h.between, h.stack⟩
  · exact h
  · split
    · exact h
    · exact hother
  · exact hother

theorem small_afterBody (h : b.Small) {t : Token} (ht : t.Small) : (afterBody b t).Small := by
  have hbody := small_inBody h ht
  have hagain := small_inBody (h.at .inBody) ht
  unfold afterBody
  cases t with
  | doctype type => exact h
  | comment => exact h
  | char c =>
    simp only
    split
    · exact hbody
    · exact hagain
  | raw name attributes content => exact hagain
  | start name attributes =>
    simp only
    split
    · exact hbody
    · exact hagain
  | finish name =>
    simp only
    split
    · exact h
    · exact hagain

/-- One more token keeps the names of all attributes in small letters. -/
theorem small_step (h : b.Small) {t : Token} (ht : t.Small) : (step b t).Small := by
  unfold step
  split
  · exact small_initial h ht
  · exact small_beforeHtml h ht
  · exact small_beforeHead h ht
  · split
    · exact small_inHead h ht
    · exact small_inTemplate h ht
  · split
    · exact small_afterHead h ht
    · exact small_inTemplate h ht
  · exact small_inBody h ht
  · exact small_afterBody h ht

theorem small_foldl (h : b.Small) {tokens : List Token} (ht : ∀ t ∈ tokens, t.Small) :
    (tokens.foldl step b).Small := by
  induction tokens generalizing b with
  | nil => exact h
  | cons t tokens ih =>
    rw [List.forall_mem_cons] at ht
    exact ih (small_step h ht.1) ht.2

/-- So does a text that is read to its end. -/
theorem small_read (b : Builder) (text : List Char) (h : b.Small) : (b.read text).Small := by
  induction b, text using read.induct with
  | case1 b =>
    rw [read, dif_pos rfl]
    exact h
  | case2 b text hne inChoice _ ih =>
    rw [read, dif_neg hne]
    exact ih (small_foldl h (small_scan _ text))

theorem small_start : start.Small :=
  ⟨smallNames_empty, smallNames_empty, by simp [start], by simp [start],
    by simp [start, OpenElements.Small]⟩

theorem small_finishHead (h : b.Small) : b.finishHead.Small := by
  have hclosed : ∀ head ∈ b.stack.outermost,
      Small { b with head := head.children, stack := [] } := fun head hhead =>
    have hframe := OpenElements.small_outermost h.stack head hhead
    ⟨h.html, h.headAttributes, hframe.children, h.between, small_noElements⟩
  unfold finishHead
  split
  · split
    · next head hhead => exact hclosed head hhead
    · exact h
  · split
    · next head hhead => exact hclosed head hhead
    · exact h
  · exact h

theorem small_document (h : b.Small) : ∀ tree ∈ b.document.children, tree.Small := by
  unfold document
  replace h := small_finishHead h
  generalize b.finishHead = b at h
  have hhead : (Tree.element "head" b.headAttributes b.head.reverse).Small :=
    small_element h.headAttributes fun tree ht => h.head tree (List.mem_reverse.1 ht)
  have hbetween : ∀ tree ∈ b.between.reverse, tree.Small :=
    fun tree ht => h.between tree (List.mem_reverse.1 ht)
  have hhtml {body : Tree} (hbody : body.Small) : (Tree.element "html" b.html
      (.element "head" b.headAttributes b.head.reverse :: b.between.reverse ++ [body])).Small := by
    have hrest := List.forall_mem_append.2 ⟨hbetween, List.forall_mem_singleton.2 hbody⟩
    exact small_element h.html (List.forall_mem_cons.2 ⟨hhead, hrest⟩)
  refine List.forall_mem_singleton.2 (hhtml ?_)
  split
  · next f hf => exact Frame.small_toTree (OpenElements.small_outermost h.stack f hf)
  · exact small_element smallNames_empty (by simp)

end Builder

/-- A document that is read from markup names all attributes in small letters. -/
theorem smallNames_ofMarkup (text : List Char) :
    ∀ e ∈ (Document.ofMarkup text).elements, SmallNames e.attributes := by
  have hsmall := Builder.small_document (Builder.small_read _ text Builder.small_start)
  intro e he
  exact smallNames_of_mem_elementsBelow hsmall he

theorem smallNames_ofHtml (text : String) :
    ∀ e ∈ (Document.ofHtml text).elements, SmallNames e.attributes :=
  smallNames_ofMarkup _

theorem smallNames_ofXml (text : String) :
    ∀ e ∈ (Document.ofXml text).elements, SmallNames e.attributes := by
  unfold Document.ofXml
  split
  · exact smallNames_ofMarkup _
  · exact smallNames_ofHtml text

/-- **Attributes are named in small letters.** So they are in every document that is read from a
text, be it HTML or XML. -/
theorem smallNames_ofText (text : String) :
    ∀ e ∈ (Document.ofText text).elements, SmallNames e.attributes := by
  unfold Document.ofText
  split
  · exact smallNames_ofXml text
  · exact smallNames_ofHtml text

end Gleaner.Markup
