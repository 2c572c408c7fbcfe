/-
# Written XML taken apart as HTML

The HTML of written XML is read token by token: a written text gives its characters, whatever follows
it, a tag gives its name and the values of its attributes in small letters, and what stands between
two texts may have fallen out.

Key theorems: `resolve_writtenText`, `read_writtenText`, `readAttributes?_written`,
`read_start`, `read_finish`.
-/
import Gleaner.Proofs.Markup.XmlAsHtml

namespace Gleaner.Markup

open Gleaner.Text Xml

variable {text rest : List Char} {b : Builder}

/-! ### Characters -/

theorem resolve_cons {inAttribute : Bool} {c : Char} (h : c ≠ '&') (rest : List Char) :
    resolve inAttribute (c :: rest) = c :: resolve inAttribute rest := by
  rw [resolve, if_neg h]

theorem resolve_reference {inAttribute : Bool} {c : Char} {width : Nat}
    (h : reference? inAttribute rest = some (c, width)) :
    resolve inAttribute ('&' :: rest) = c :: resolve inAttribute (rest.drop width) := by
  rw [resolve, if_pos rfl, h]

/-- A character is escaped as itself, or as a reference to it. -/
theorem escapeChar_cases (c : Char) :
    (escapeChar c = [c] ∧ c ≠ '&') ∨
      ∃ name : List Char, escapeChar c = '&' :: name ∧
        ∀ inAttribute rest, reference? inAttribute (name ++ rest) = some (c, name.length) := by
  unfold escapeChar
  split
  · next hc =>
    refine .inr ⟨['l', 't', ';'], rfl, fun _ _ => ?_⟩
    simp [reference?, namedReference?, namedCharacters, stripStart?, hc]
  split
  · next hc =>
    refine .inr ⟨['g', 't', ';'], rfl, fun _ _ => ?_⟩
    simp [reference?, namedReference?, namedCharacters, stripStart?, hc]
  split
  · next hc =>
    refine .inr ⟨['a', 'm', 'p', ';'], rfl, fun _ _ => ?_⟩
    simp [reference?, namedReference?, namedCharacters, stripStart?, hc]
  split
  · next hc =>
    refine .inr ⟨['a', 'p', 'o', 's', ';'], rfl, fun _ _ => ?_⟩
    simp [reference?, namedReference?, namedCharacters, stripStart?, hc]
  split
  · next hc =>
    refine .inr ⟨['q', 'u', 'o', 't', ';'], rfl, fun _ _ => ?_⟩
    simp [reference?, namedReference?, namedCharacters, stripStart?, hc]
  · next hand _ _ => exact .inl ⟨rfl, hand⟩

theorem resolve_escapeChar (inAttribute : Bool) (c : Char) (rest : List Char) :
    resolve inAttribute (escapeChar c ++ rest) = c :: resolve inAttribute rest := by
  rcases escapeChar_cases c with ⟨hself, hc⟩ | ⟨name, hname, href⟩
  · rw [hself, List.singleton_append, resolve_cons hc]
  · rw [hname, List.cons_append, resolve_reference (href inAttribute rest), List.drop_left]

/-- A written text is resolved to the text, whatever follows it. -/
theorem resolve_writtenText (inAttribute : Bool) (marked : Char → Bool) (rest : List Char) :
    ∀ text : List Char, resolve inAttribute (writtenText marked text ++ rest) =
      text ++ resolve inAttribute rest
  | [] => rfl
  | c :: text => by
    rw [writtenText, List.flatMap_cons, List.append_assoc]
    have hchar : resolve inAttribute (writtenChar marked c ++ (writtenText marked text ++ rest)) =
        c :: resolve inAttribute (writtenText marked text ++ rest) := by
      unfold writtenChar
      split
      · exact resolve_escapeChar inAttribute c _
      · next hplain => exact resolve_cons (fun hc => hplain (.inr (.inl hc))) _
    rw [← writtenText, hchar, resolve_writtenText inAttribute marked rest text]
    rfl

/-! ### Runs of characters -/

theorem read_nil (b : Builder) : b.read [] = b := by
  rw [Builder.read, dif_pos rfl]

/-- A text is read from its first token on. -/
theorem read_of_scan {tokens : List Token} (hne : text ≠ [])
    (hscan : scan (decide (settingOf b.stack = .select)) text = (tokens, rest)) :
    b.read text = (tokens.foldl Builder.step b).read rest := by
  rw [Builder.read, dif_neg hne]
  simp only [hscan]

/-- The characters up to the next tag are read one by one. -/
theorem read_run (b : Builder) (text : List Char) :
    b.read text =
      (((resolve false (text.takeWhile (· != '<'))).map Token.char).foldl Builder.step b).read
        (text.dropWhile (· != '<')) := by
  cases text with
  | nil => simp [resolve]
  | cons c text =>
    by_cases hc : c = '<'
    · subst hc
      simp [resolve]
    · apply read_of_scan (List.cons_ne_nil c text)
      rw [scan]
      · simp [hc]
      all_goals simp [hc]

/-- A written text is read as its characters, and the reading goes on behind it. -/
theorem read_writtenText (b : Builder) (marked : Char → Bool) (text rest : List Char) :
    b.read (writtenText marked text ++ rest) =
      ((text.map Token.char).foldl Builder.step b).read rest := by
  have hrun : ∀ c ∈ writtenText marked text, (c != '<') = true := by
    intro c hc
    rw [bne_iff_ne]
    rintro rfl
    exact less_not_mem_writtenText marked text hc
  rw [read_run, read_run _ rest, List.takeWhile_append_of_pos hrun,
    List.dropWhile_append_of_pos hrun, resolve_writtenText, List.map_append, List.foldl_append]

/-! ### Names and values -/

theorem lowerChar_ne_null {c : Char} (h : c ≠ '\x00') : lowerChar c ≠ '\x00' := by
  unfold lowerChar
  split
  · next hcapital =>
    have hlow : 65 ≤ c.toNat := hcapital.1
    have hhigh : c.toNat ≤ 90 := hcapital.2
    have hvalid : (c.toNat + 32).isValidChar := .inl (by omega)
    have hnat : (Char.ofNat (c.toNat + 32)).toNat = c.toNat + 32 := by
      rw [Char.ofNat, dif_pos hvalid]
      rfl
    intro hnull
    rw [hnull] at hnat
    have hzero : ('\x00' : Char).toNat = 0 := rfl
    omega
  · exact h

/-- A name is read in small letters. -/
theorem nameOf_toList {name : String} (h : ∀ c ∈ name.toList, isNameChar c = true) :
    nameOf name.toList = lowerAscii name := by
  refine congrArg String.ofList (List.map_congr_left fun c hc => if_neg ?_)
  exact lowerChar_ne_null (ne_of_isNameChar (h c hc) (by decide))

theorem endsName_of_isNameChar {c : Char} (h : isNameChar c = true) : endsName c = false := by
  have hne {d : Char} (hd : isNameChar d = false) : c ≠ d := ne_of_isNameChar h hd
  have hspace : isTagSpace c = false := by
    simp [isTagSpace, hne (by decide : isNameChar ' ' = false),
      hne (by decide : isNameChar '\t' = false), hne (by decide : isNameChar '\n' = false),
      hne (by decide : isNameChar '\x0c' = false)]
  simp [endsName, hspace, hne (by decide : isNameChar '/' = false),
    hne (by decide : isNameChar '>' = false)]

/-- The value of an attribute is read as it is meant. -/
theorem valueOf_written {a : WrittenAttribute} (h : a.Legible) :
    valueOf a.writtenValue = a.value := by
  have hresolved : resolve true a.writtenValue = a.value.toList := by
    have hread := resolve_writtenText true (fun c => c == '"' || a.marked c) [] a.value.toList
    simpa [WrittenAttribute.writtenValue, resolve] using hread
  have hkept : a.value.toList.map kept = a.value.toList := by
    have hself : ∀ c ∈ a.value.toList, kept c = c := fun c hc => if_neg (h.value c hc).2
    rw [List.map_congr_left hself, List.map_id']
  rw [valueOf, hresolved, hkept, String.ofList_toList]

/-! ### Attributes -/

theorem untilMark?_cons {mark c : Char} {value : List Char} (hc : c ≠ mark)
    (h : Leaves (untilMark? mark) text value rest) :
    Leaves (untilMark? mark) (c :: text) (c :: value) rest := by
  obtain ⟨hlt, h⟩ := h
  refine ⟨Nat.lt_succ_of_lt hlt, (if_neg hc).trans ?_⟩
  rw [h]
  rfl

theorem untilMark?_append {mark : Char} (rest : List Char) : ∀ {value : List Char}, mark ∉ value →
    Leaves (untilMark? mark) (value ++ mark :: rest) value rest
  | [], _ => ⟨Nat.lt_succ_self _, if_pos rfl⟩
  | c :: value, hvalue => by
    obtain ⟨hc, hvalue⟩ := List.ne_and_not_mem_of_not_mem_cons hvalue
    exact untilMark?_cons hc.symm (untilMark?_append rest hvalue)

/-- The value of an attribute is read up to its closing quotation mark. -/
theorem readValue?_written {a : WrittenAttribute} (h : a.Legible) (rest : List Char) :
    ∃ hle, readValue? ('"' :: (a.writtenValue ++ '"' :: rest)) = some (a.value, ⟨rest, hle⟩) := by
  obtain ⟨hlt, hread⟩ := untilMark?_append rest (not_mem_writtenValue a)
  refine ⟨Nat.le_of_lt (Nat.lt_succ_of_lt hlt), ?_⟩
  rw [readValue?, next?_of_not (by decide)]
  simp only [true_or, if_true, hread, Option.map_some, valueOf_written h]

/-- An attribute with a value is read, and then the others. -/
theorem readAttributes?_cons {c : Char} {chars valueText more : List Char} {value : String}
    {others : List (String × String)} (hname : ∀ d ∈ c :: chars, isNameChar d = true)
    (hvalue : ∃ hle, readValue? valueText = some (value, ⟨more, hle⟩))
    (hmore : Leaves readAttributes? more others rest) :
    Leaves readAttributes? (' ' :: (c :: chars ++ '=' :: valueText))
      ((nameOf (c :: chars), value) :: others) rest := by
  obtain ⟨hle, hvalue⟩ := hvalue
  obtain ⟨hlt, hmore⟩ := hmore
  have hstops : ∀ d ∈ chars, (!(endsName d || d == '=')) = true := by
    intro d hd
    have hchar := hname d (List.mem_cons_of_mem c hd)
    have hequal : d ≠ '=' := ne_of_isNameChar hchar (by decide)
    simp [endsName_of_isNameChar hchar, hequal]
  obtain ⟨htake, hdrop⟩ : (chars ++ '=' :: valueText).takeWhile
        (fun d => !(endsName d || d == '=')) = chars ∧
      (chars ++ '=' :: valueText).dropWhile (fun d => !(endsName d || d == '=')) =
        '=' :: valueText :=
    span_append hstops (by rintro d ⟨⟩; rfl)
  have hchar := hname c List.mem_cons_self
  have hc : c ≠ '>' := ne_of_isNameChar hchar (by decide)
  have hskip : (isTagSpace c || c == '/') = false := by
    have hends := endsName_of_isNameChar hchar
    simp only [endsName, Bool.or_eq_false_iff] at hends
    simp only [hends.1.1, hends.1.2, Bool.or_self]
  -- only the blank in front of the name is passed over, and none in front of the equals sign
  have hfirst : ∃ h, next? (fun d => isTagSpace d || d == '/')
      (' ' :: (c :: chars ++ '=' :: valueText)) = some (c, ⟨chars ++ '=' :: valueText, h⟩) := by
    have hblank : (isTagSpace ' ' || ' ' == '/') = true := rfl
    refine ⟨Nat.lt_succ_of_lt (Nat.lt_succ_self _), next?_eq_some_iff.2 ?_⟩
    show (' ' :: c :: (chars ++ '=' :: valueText)).dropWhile (fun d => isTagSpace d || d == '/') =
      c :: (chars ++ '=' :: valueText)
    rw [List.dropWhile_cons, if_pos hblank, List.dropWhile_cons, hskip]
    rfl
  have hsign : ∃ h, next? isTagSpace ((chars ++ '=' :: valueText).dropWhile
      (fun d => !(endsName d || d == '='))) = some ('=', ⟨valueText, h⟩) := by
    rw [hdrop]
    exact ⟨_, next?_of_not (by decide) _⟩
  obtain ⟨_, hfirst⟩ := hfirst
  obtain ⟨_, hsign⟩ := hsign
  refine ⟨?_, ?_⟩
  · simp only [List.length_cons, List.length_append]
    omega
  · rw [readAttributes?, hfirst]
    simp only [Option.bind_eq_bind, Option.bind_some, hc, if_false, hsign, htake, hvalue, hmore]
    rfl

theorem readAttributes?_end (rest : List Char) : Leaves readAttributes? ('>' :: rest) [] rest := by
  refine ⟨Nat.lt_succ_self _, ?_⟩
  rw [readAttributes?, next?_of_not (by decide)]
  rfl

/-- The attributes of a written tag are read with their names in small letters. -/
theorem readAttributes?_written (rest : List Char) : ∀ {attributes : List WrittenAttribute},
    (∀ a ∈ attributes, a.Legible) →
    Leaves readAttributes? (attributes.flatMap WrittenAttribute.written ++ '>' :: rest)
      (attributes.map fun a => (lowerAscii a.name, a.value)) rest
  | [], _ => readAttributes?_end rest
  | a :: attributes, h => by
    obtain ⟨ha, hattributes⟩ := List.forall_mem_cons.1 h
    have hmore := readAttributes?_written rest hattributes
    obtain ⟨c, chars, hname⟩ := List.exists_cons_of_ne_nil ha.named
    have hread := readAttributes?_cons (hname ▸ ha.name) (readValue?_written ha _) hmore
    rw [← hname, nameOf_toList ha.name] at hread
    simpa [WrittenAttribute.written] using hread

/-- Of attributes of different names it does not matter which comes first. -/
theorem attributesOf_eq_ofList {written : List (String × String)}
    (h : (written.map (·.1)).Nodup) : attributesOf written = .ofList written := by
  have hreverse : attributesOf written = .ofList written.reverse := by
    rw [attributesOf, KeyMap.ofList, List.foldl_reverse]
  have hentries : written.Perm (KeyMap.ofList written).entries := by
    have hempty : (KeyMap.empty : KeyMap String).entries = [] := rfl
    have hperm := KeyMap.foldl_insert_perm written .empty (by rwa [hempty, List.append_nil])
    rw [hempty, List.append_nil] at hperm
    exact hperm.symm
  rw [hreverse]
  exact KeyMap.ofList_eq_of_perm (written.reverse_perm.trans hentries)

/-! ### Tags -/

variable {name : String} {attributes : List WrittenAttribute}

/-- What ends a written name in a tag ends it for HTML. -/
theorem span_name (h : ∀ c ∈ name.toList, isNameChar c = true)
    (hrest : ∀ c ∈ rest.head?, endsName c = true) :
    (name.toList ++ rest).takeWhile (fun c => !endsName c) = name.toList ∧
      (name.toList ++ rest).dropWhile (fun c => !endsName c) = rest := by
  apply span_append
  · intro c hc
    rw [endsName_of_isNameChar (h c hc)]
    rfl
  · intro c hc
    rw [hrest c hc]
    rfl

/-- A written tag is read with its name and its attributes. -/
theorem readTag (h : LegibleTag name attributes) (rest : List Char) :
    nameOf ((writtenTag name attributes ++ '>' :: rest).takeWhile fun c => !endsName c) =
        lowerAscii name ∧
      Leaves readAttributes?
        ((writtenTag name attributes ++ '>' :: rest).dropWhile fun c => !endsName c)
        (attributes.map fun a => (lowerAscii a.name, a.value)) rest := by
  have hends : ∀ c ∈ (attributes.flatMap WrittenAttribute.written ++ '>' :: rest).head?,
      endsName c = true := by
    cases attributes with
    | nil =>
      rintro c ⟨⟩
      rfl
    | cons a attributes =>
      rintro c ⟨⟩
      rfl
  obtain ⟨htake, hdrop⟩ := span_name h.name hends
  rw [writtenTag, List.append_assoc, htake, hdrop]
  exact ⟨nameOf_toList h.name, readAttributes?_written rest h.legible⟩

theorem scan_startTag (h : LegibleTag name attributes) (inChoice : Bool) (text : List Char) :
    scan inChoice ('<' :: (writtenTag name attributes ++ text)) =
      scanStartTag inChoice (writtenTag name attributes ++ text) := by
  have hne := h.head?_ne text
  obtain ⟨c, hc, hletter⟩ := h.head? text
  rw [scan]
  · rw [hc, Option.any_some, hletter, if_pos rfl]
  · intro more hmore
    exact hne '!' (by decide) (by rw [hmore]; rfl)
  · intro more hmore
    exact hne '?' (by decide) (by rw [hmore]; rfl)
  · intro more hmore
    exact hne '/' (by decide) (by rw [hmore]; rfl)

/-- The start tag of an element whose content is markup is read with its attributes, and what
follows it stays as it is. -/
theorem scan_start (h : LegibleTag name attributes) {inChoice : Bool}
    (hraw : rawKind? inChoice (lowerAscii name) = none)
    (hline : lowerAscii name ∉ ["pre", "listing"]) (rest : List Char) :
    scan inChoice ('<' :: (writtenTag name attributes ++ '>' :: rest)) =
      ([.start (lowerAscii name) (namedValues attributes)], rest) := by
  obtain ⟨hname, _, hread⟩ := readTag h rest
  have hkeeps :
      (!inChoice && (lowerAscii name == "pre" || lowerAscii name == "listing")) = false := by
    simpa using fun _ => hline
  rw [scan_startTag h, scanStartTag, hread]
  dsimp only
  rw [hname, hraw]
  dsimp only
  rw [hkeeps, if_neg Bool.false_ne_true, attributesOf_eq_ofList, namedValues]
  simpa [Function.comp_def] using h.distinct

/-- The start tag of an element whose content is no markup is read with the content. -/
theorem scan_raw (h : LegibleTag name attributes) {inChoice : Bool} {kind : RawKind}
    (hraw : rawKind? inChoice (lowerAscii name) = some kind) (rest : List Char) :
    scan inChoice ('<' :: (writtenTag name attributes ++ '>' :: rest)) =
      ([.raw (lowerAscii name) (namedValues attributes) (rawContent kind (lowerAscii name) rest).1],
        (rawContent kind (lowerAscii name) rest).2) := by
  obtain ⟨hname, _, hread⟩ := readTag h rest
  rw [scan_startTag h, scanStartTag, hread]
  dsimp only
  rw [hname, hraw]
  dsimp only
  rw [attributesOf_eq_ofList, namedValues]
  simpa [Function.comp_def] using h.distinct

theorem scanEndTag_eq {written : List (String × String)}
    (hletter : text.head?.any isAsciiLetter = true)
    (hread : Leaves readAttributes? (text.dropWhile fun c => !endsName c) written rest) :
    scanEndTag text = ([.finish (nameOf (text.takeWhile fun c => !endsName c))], rest) := by
  obtain ⟨_, hread⟩ := hread
  cases text with
  | nil => cases hletter
  | cons c text =>
    have hc : isAsciiLetter c = true := hletter
    rw [scanEndTag, if_pos hc]
    · rw [hread]
    · rintro rfl
      exact absurd hc (by decide)

/-- An end tag is read with its name. -/
theorem scan_end (h : LegibleTag name attributes) (inChoice : Bool) (rest : List Char) :
    scan inChoice (writtenEnd name ++ rest) = ([.finish (lowerAscii name)], rest) := by
  have hends : ∀ c ∈ ('>' :: rest).head?, endsName c = true := by
    rintro c ⟨⟩
    rfl
  obtain ⟨htake, hdrop⟩ := span_name h.name hends
  have hletter : (name.toList ++ '>' :: rest).head?.any isAsciiLetter = true := by
    have hfirst := h.letter
    cases hchars : name.toList with
    | nil =>
      rw [hchars] at hfirst
      cases hfirst
    | cons c chars => rwa [hchars] at hfirst
  have hread : Leaves readAttributes?
      ((name.toList ++ '>' :: rest).dropWhile fun c => !endsName c) [] rest := by
    rw [hdrop]
    exact readAttributes?_end rest
  rw [writtenEnd_append, scan, scanEndTag_eq hletter hread, htake, nameOf_toList h.name]

/-- A start tag whose element holds markup is one step of the reading. -/
theorem read_start (h : LegibleTag name attributes)
    (hraw : ∀ inChoice, rawKind? inChoice (lowerAscii name) = none)
    (hline : lowerAscii name ∉ ["pre", "listing"]) (b : Builder) (rest : List Char) :
    b.read ('<' :: (writtenTag name attributes ++ '>' :: rest)) =
      (b.step (.start (lowerAscii name) (namedValues attributes))).read rest :=
  read_of_scan (List.cons_ne_nil _ _) (scan_start h (hraw _) hline rest)

/-- An end tag is one step of the reading. -/
theorem read_finish (h : LegibleTag name attributes) (b : Builder) (rest : List Char) :
    b.read (writtenEnd name ++ rest) = (b.step (.finish (lowerAscii name))).read rest :=
  read_of_scan (List.cons_ne_nil _ _) (scan_end h _ rest)

end Gleaner.Markup
