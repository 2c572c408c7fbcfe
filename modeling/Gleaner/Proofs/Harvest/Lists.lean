/-
# Lists read from a harvest

Matches are collapsed when they are stored, and a list that is read from a harvest is made of them
again: its items are the matches, as long as there is one and it is no list on its own. The items
are read from the first on, and the first that cannot be read refuses the whole list. Of markup all
matches are texts or data, so their strings can always be read as a list if there are any.

Key theorems: `Harvest.readItems_eq`, `Harvest.items_of_matches`, `Harvest.readTexts_identity`,
`Harvest.lists_of_matches`.
-/
import Gleaner.Harvest.Reading
import Gleaner.Proofs.Harvest.Accounting
import Gleaner.Proofs.Markup.Growth
import Gleaner.Proofs.Markup.XmlAsHtml

namespace Gleaner

open Gleaner.Markup

/-! ### Items of matches -/

/-- The items of collapsed matches are the matches. -/
theorem Datum.items?_ofMatches {found : List Datum} (hne : found ≠ [])
    (hfound : ∀ d ∈ found, d.isFound = true) (hsingle : ∀ items, found ≠ [.list items]) :
    (ofMatches found).items? = some found := by
  match found with
  | [] => exact (hne rfl).elim
  | [.list items] => exact (hsingle items rfl).elim
  | [.notFound] => cases hfound .notFound List.mem_cons_self
  | [.null] | [.boolean _] | [.integer _] | [.float _] | [.text _] | [.data _] | [.object _] => rfl
  | _ :: _ :: _ => rfl

namespace Harvest

variable {harvest : Harvest} {key : String}

theorem items_of_get? {d : Datum} (h : harvest.values.get? key = some d) :
    harvest.items key = orWrongKind key .list d d.items? := by
  rw [items, require, h]
  rfl

theorem items_of_matches {found : List Datum}
    (h : harvest.values.get? key = some (.ofMatches found)) (hne : found ≠ [])
    (hfound : ∀ d ∈ found, d.isFound = true) (hsingle : ∀ items, found ≠ [.list items]) :
    harvest.items key = .ok found := by
  rw [items_of_get? h, Datum.items?_ofMatches hne hfound hsingle]
  rfl

/-- Where nothing was found there are no items. -/
theorem items_of_nil (h : harvest.values.get? key = some (.ofMatches [])) :
    harvest.items key = .error (.wrongKind key .list .notFound) :=
  items_of_get? h

/-! ### Items that are read -/

section

variable {α : Type} {reading : ItemReading α}

/-- Items are read if all of them can be, and else the first that cannot is told. -/
theorem readItems_eq (key : String) (reading : ItemReading α) : ∀ items : List Datum,
    readItems key reading items =
      match items.find? fun d => (reading.read? d).isNone with
      | some d => .error (.wrongKind key reading.wanted d.kind)
      | none => .ok (items.filterMap reading.read?)
  | [] => rfl
  | d :: rest => by
    cases hread : reading.read? d with
    | none =>
      rw [readItems, hread, List.find?_cons_of_pos (by rw [hread]; rfl)]
    | some a =>
      rw [readItems, hread, List.find?_cons_of_neg (by rw [hread]; exact Bool.false_ne_true),
        List.filterMap_cons_some hread]
      dsimp only
      rw [readItems_eq key reading rest]
      split <;> rfl

theorem getList_of_items {items : List Datum} (h : harvest.items key = .ok items) :
    harvest.getList key reading = readItems key reading items := by
  rw [getList, h]
  rfl

theorem getList_of_refused {failure : Failure} (h : harvest.items key = .error failure) :
    harvest.getList key reading = .error failure := by
  rw [getList, h]
  rfl

/-- A list is read if each item is, and it holds what they are read as, in their order. -/
theorem readItems_eq_ok_iff {items : List Datum} {values : List α} :
    readItems key reading items = .ok values ↔ items.map reading.read? = values.map some := by
  induction items generalizing values with
  | nil => cases values <;> simp [readItems]
  | cons d rest ih =>
    rw [readItems]
    cases hread : reading.read? d with
    | none => cases values <;> simp [hread]
    | some a =>
      dsimp only
      rw [map_eq_ok_iff]
      cases values <;> simp [ih, hread, and_comm]

/-- Some list is read exactly when each item is. -/
theorem exists_readItems_iff {items : List Datum} :
    (∃ values, readItems key reading items = .ok values) ↔
      ∀ d ∈ items, (reading.read? d).isSome = true := by
  rw [readItems_eq]
  split
  · next d hd =>
    refine iff_of_false nofun fun hall => ?_
    have hsome := hall d (List.mem_of_find?_eq_some hd)
    rw [← Option.not_isNone, List.find?_some hd] at hsome
    cases hsome
  · next hnone =>
    refine iff_of_true ⟨_, rfl⟩ fun d hd => ?_
    exact Option.isSome_iff_ne_none.2 (by simpa using List.find?_eq_none.1 hnone d hd)

/-- It is refused for the first item that is not read. -/
theorem readItems_eq_error_iff {items : List Datum} {failure : Failure} :
    readItems key reading items = .error failure ↔
      ∃ before d after, items = before ++ d :: after ∧
        (∀ e ∈ before, (reading.read? e).isSome = true) ∧ ¬(reading.read? d).isSome = true ∧
        failure = .wrongKind key reading.wanted d.kind := by
  have hfirst : readItems key reading items = .error failure ↔
      ∃ d, items.find? (fun d => (reading.read? d).isNone) = some d ∧
        failure = .wrongKind key reading.wanted d.kind := by
    rw [readItems_eq]
    split
    · next d hd => simp [hd, eq_comm]
    · next hnone => simp [hnone]
  rw [hfirst]
  constructor
  · rintro ⟨d, hd, rfl⟩
    obtain ⟨hrefused, before, after, rfl, hbefore⟩ := List.find?_eq_some_iff_append.1 hd
    exact ⟨before, d, after, rfl, fun e he => by simpa using hbefore e he,
      by simpa using hrefused, rfl⟩
  · rintro ⟨before, d, after, rfl, hbefore, hrefused, rfl⟩
    have hfound : (before ++ d :: after).find? (fun d => (reading.read? d).isNone) = some d :=
      List.find?_eq_some_iff_append.2 ⟨by simpa using hrefused, before, after, rfl,
        fun e he => by simpa using hbefore e he⟩
    exact ⟨d, hfound, rfl⟩

end

/-- Texts that are read as they are, are read as strings. -/
theorem readTexts_identity (key type : String) : ∀ items : List Datum,
    readTexts key ⟨type, .ok⟩ items = readItems key .strings items
  | [] => rfl
  | d :: rest => by
    have hstrings : ItemReading.strings.read? d = d.characters? := rfl
    rw [readTexts, readItems, hstrings, readTexts_identity key type rest]
    cases d.characters? <;> rfl

/-- Strings are read from texts and from data. -/
theorem isSome_strings_read? {d : Datum} :
    (ItemReading.strings.read? d).isSome = true ↔ d.kind = .text ∨ d.kind = .data := by
  cases d <;> simp [ItemReading.strings, Datum.characters?, Datum.kind]

/-- Any data can be read as data, but for the mark that nothing was found. -/
theorem getList_data_of_matches {found : List Datum}
    (h : harvest.values.get? key = some (.ofMatches found)) (hne : found ≠ [])
    (hfound : ∀ d ∈ found, d.isFound = true) (hsingle : ∀ items, found ≠ [.list items]) :
    harvest.getList key .data = .ok found := by
  rw [getList_of_items (items_of_matches h hne hfound hsingle), readItems_eq_ok_iff]
  exact List.map_congr_left fun d hd => if_pos (hfound d hd)

theorem getListWith_identity (harvest : Harvest) (key type : String) :
    harvest.getListWith key ⟨type, .ok⟩ = harvest.getList key .strings := by
  rw [getListWith, getList]
  congr 1
  exact funext (readTexts_identity key type)

/-- The matches in markup are read as a list of their strings, if there are any. -/
theorem getList_strings_of_markup {format : Format} (hmarkup : format ≠ .json) {content : String}
    {policy : Policy} {selection : Selection} {selector : String}
    (h : format.harvest content policy selection = .ok harvest)
    (hkey : selection.get? key = some selector) :
    ∃ found, (format.decider content policy selection selector).evaluate selector = .ok found ∧
      (found ≠ [] → ∃ texts, harvest.getList key .strings = .ok texts ∧
        found.map Datum.characters? = texts.map some) ∧
      ∀ failure, harvest.getList key .strings = .error failure ↔
        found = [] ∧ failure = .wrongKind key .list .notFound := by
  obtain ⟨found, heval, hvalue⟩ := exists_found_of_harvest h hkey
  have htexts := exists_text_of_decider hmarkup heval
  refine ⟨found, heval, ?_⟩
  by_cases hne : found = []
  · subst hne
    rw [getList_of_refused (items_of_nil hvalue)]
    exact ⟨fun h => (h rfl).elim, fun failure => by simp [eq_comm]⟩
  · have hsingle : ∀ items, found ≠ [.list items] := by
      rintro items rfl
      obtain ⟨s, hs | hs⟩ := htexts _ List.mem_cons_self <;> cases hs
    have hlist : harvest.getList key .strings = readItems key .strings found :=
      getList_of_items (items_of_matches hvalue hne (isFound_of_decider heval) hsingle)
    obtain ⟨texts, hread⟩ : ∃ texts, readItems key .strings found = .ok texts := by
      refine exists_readItems_iff.2 fun d hd => isSome_strings_read?.2 ?_
      obtain ⟨s, rfl | rfl⟩ := htexts d hd
      · exact .inl rfl
      · exact .inr rfl
    rw [hlist, hread]
    exact ⟨fun _ => ⟨texts, rfl, readItems_eq_ok_iff.1 hread⟩,
      fun failure => iff_of_false nofun fun h => hne h.1⟩

/-- A list of strings is read from texts and data, and refused for the first item that is
neither. -/
theorem getList_strings_of_items {items : List Datum} (h : harvest.items key = .ok items) :
    (∀ texts, harvest.getList key .strings = .ok texts ↔
        items.map Datum.characters? = texts.map some) ∧
      ((∃ texts, harvest.getList key .strings = .ok texts) ↔
        ∀ d ∈ items, d.kind = .text ∨ d.kind = .data) ∧
      ∀ failure, harvest.getList key .strings = .error failure ↔
        ∃ before d after, items = before ++ d :: after ∧
          (∀ e ∈ before, e.kind = .text ∨ e.kind = .data) ∧
          ¬(d.kind = .text ∨ d.kind = .data) ∧ failure = .wrongKind key .string d.kind := by
  rw [getList_of_items h]
  refine ⟨fun texts => readItems_eq_ok_iff, ?_, fun failure => ?_⟩
  · rw [exists_readItems_iff]
    simp only [isSome_strings_read?]
  · rw [readItems_eq_error_iff]
    simp only [isSome_strings_read?]
    rfl

/-- **Lists of matches.** Matches of which none is the mark that nothing was found are read as a
list of data as they were, unless there are none or the only one is a list. The matches of a key in
markup are read as a list of their strings in their order, and the list is refused exactly when
there are none. To read texts as they are is to read strings. And a list of strings is read if each
item is a text or data, and else refused for the first that is neither. -/
theorem lists_of_matches (harvest : Harvest) (key : String) :
    (∀ found, harvest.values.get? key = some (.ofMatches found) → found ≠ [] →
        (∀ d ∈ found, d.isFound = true) → (∀ items, found ≠ [.list items]) →
        harvest.getList key .data = .ok found) ∧
      (∀ (format : Format) content policy (selection : Selection) selector, format ≠ .json →
        format.harvest content policy selection = .ok harvest →
        selection.get? key = some selector →
        ∃ found, (format.decider content policy selection selector).evaluate selector = .ok found ∧
          (found ≠ [] → ∃ texts, harvest.getList key .strings = .ok texts ∧
            found.map Datum.characters? = texts.map some) ∧
          ∀ failure, harvest.getList key .strings = .error failure ↔
            found = [] ∧ failure = .wrongKind key .list .notFound) ∧
      (∀ type, harvest.getListWith key ⟨type, .ok⟩ = harvest.getList key .strings) ∧
      (∀ failure, harvest.items key = .error failure →
        harvest.getList key .strings = .error failure) ∧
      ∀ items, harvest.items key = .ok items →
        (∀ texts, harvest.getList key .strings = .ok texts ↔
          items.map Datum.characters? = texts.map some) ∧
        ((∃ texts, harvest.getList key .strings = .ok texts) ↔
          ∀ d ∈ items, d.kind = .text ∨ d.kind = .data) ∧
        ∀ failure, harvest.getList key .strings = .error failure ↔
          ∃ before d after, items = before ++ d :: after ∧
            (∀ e ∈ before, e.kind = .text ∨ e.kind = .data) ∧
            ¬(d.kind = .text ∨ d.kind = .data) ∧ failure = .wrongKind key .string d.kind :=
  ⟨fun _ => getList_data_of_matches,
    fun _ _ _ _ _ hmarkup hharvest hkey => getList_strings_of_markup hmarkup hharvest hkey,
    getListWith_identity harvest key, fun _ => getList_of_refused,
    fun _ => getList_strings_of_items⟩

/-- A page with two items. -/
def twoItems : Xml.Page where
  prolog := []
  name := "feed"
  attributes := []
  content := some (.element "item" [] (.text "x" (fun _ => false) .nil)
    (.element "item" [] (.text "y" (fun _ => false) .nil) .nil))
  epilog := []

/-- A key whose selector matches nothing and one whose selector matches the items. -/
def noneAndItems : Selection :=
  .ofList [("none", "//guid"), ("texts", "//item")]

/-- What is found for them. -/
def twoTexts : Harvest :=
  .ofList [("none", .notFound), ("texts", .list [.text "x", .text "y"])]

/-- A list of data of several kinds. -/
def mixedData : Harvest :=
  .ofList [("mixed", .list [.text "x", .null, .list []])]

theorem harvest_twoTexts :
    Format.xml.harvest twoItems.text .disabled noneAndItems = .ok twoTexts := by
  have hlegible : twoItems.Legible := by decide +kernel
  have hordinary : twoItems.root.Ordinary := by decide +kernel
  have hdocument : Document.ofXml twoItems.text =
      ⟨[.element "html" .empty [.element "head" .empty [], .element "body" .empty
        [.element "feed" .empty [.element "item" .empty [.text "x"],
          .element "item" .empty [.text "y"]]]]]⟩ := by
    rw [Xml.ofXml_text hlegible, ofMarkup_html hlegible hordinary]
    rfl
  rw [Format.harvest, harvestDocument, hdocument]
  rfl

theorem lists_of_matches_twoTexts :
    twoItems.text = "<feed><item>x</item><item>y</item></feed>" ∧
      Format.xml.harvest twoItems.text .disabled noneAndItems = .ok twoTexts ∧
      (∃ texts, twoTexts.getList "texts" .strings = .ok texts) ∧
      twoTexts.getList "none" .strings = .error (.wrongKind "none" .list .notFound) ∧
      mixedData.getList "mixed" .data = .ok [.text "x", .null, .list []] ∧
      mixedData.getListWith "mixed" ⟨"String", .ok⟩ =
        .error (.wrongKind "mixed" .string .null) := by
  obtain ⟨-, htexts, -⟩ := lists_of_matches twoTexts "texts"
  obtain ⟨-, hnone, -⟩ := lists_of_matches twoTexts "none"
  obtain ⟨hdata, -, hwith, -, hmixed⟩ := lists_of_matches mixedData "mixed"
  refine ⟨by decide +kernel, harvest_twoTexts, ?_, ?_, ?_, ?_⟩
  · obtain ⟨found, -, hread, hfails⟩ := htexts .xml _ _ _ _ (by decide) harvest_twoTexts rfl
    have hne : found ≠ [] := by
      rintro rfl
      cases (hfails _).2 ⟨rfl, rfl⟩
    obtain ⟨texts, hlist, -⟩ := hread hne
    exact ⟨texts, hlist⟩
  · obtain ⟨found, -, hread, hfails⟩ := hnone .xml _ _ _ _ (by decide) harvest_twoTexts rfl
    refine (hfails _).2 ⟨?_, rfl⟩
    by_contra hne
    obtain ⟨texts, hlist, -⟩ := hread hne
    cases hlist
  · exact hdata _ rfl (by simp) (by simp [Datum.isFound, Datum.kind]) (by simp)
  · rw [hwith]
    exact ((hmixed _ rfl).2.2 _).2 ⟨[.text "x"], .null, [.list []], rfl, by simp [Datum.kind],
      by simp [Datum.kind], rfl⟩

end Harvest
end Gleaner
