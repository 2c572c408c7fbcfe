/-
# Files below a directory

A directory holds a file when names lead to it, one for each directory on the way. In a tree whose
directories give each entry a name of its own, and a name that can stand between slashes, the names
put behind the path of the directory lead to the file and to no other, and the ending of the last
name is that of the path.

Key definitions: `IsName`, `Entry.WellNamed`, `Entry.Holds`.
Key theorems: `Entry.mem_files_iff`, `Entry.nodup_files`, `pathParts_foldl_joined`,
`Folder.find_foldl_inside`, `Folder.shown_foldl_inside`, `Format.acceptsPath_foldl_joined`.
-/
import Gleaner.Batch

namespace Gleaner

/-! ### Trees -/

/-- A name that an entry of a directory may have. -/
structure IsName (name : String) : Prop where
  ne_empty : name ≠ ""
  ne_here : name ≠ "."
  ne_above : name ≠ ".."
  noSlash : '/' ∉ name.toList

instance (name : String) : Decidable (IsName name) :=
  decidable_of_iff (name ≠ "" ∧ name ≠ "." ∧ name ≠ ".." ∧ '/' ∉ name.toList)
    ⟨fun ⟨hempty, hhere, habove, hslash⟩ => ⟨hempty, hhere, habove, hslash⟩,
      fun h => ⟨h.ne_empty, h.ne_here, h.ne_above, h.noSlash⟩⟩

namespace Entry

/-- Each entry of a directory has a name of its own, and so have all below it. -/
inductive WellNamed : Entry → Prop where
  | file (bytes : ByteArray) : WellNamed (.file bytes)
  | directory {entries : List (String × Entry)} (distinct : (entries.map (·.1)).Nodup)
      (names : ∀ e ∈ entries, IsName e.1) (below : ∀ e ∈ entries, WellNamed e.2) :
      WellNamed (.directory entries)

/-- A file with its bytes lies where names lead from an entry. -/
inductive Holds : Entry → List String → ByteArray → Prop where
  | here (bytes : ByteArray) : Holds (.file bytes) [] bytes
  | within {entries : List (String × Entry)} {name : String} {inner : Entry} {names : List String}
      {bytes : ByteArray} (mem : (name, inner) ∈ entries) (rest : Holds inner names bytes) :
      Holds (.directory entries) (name :: names) bytes

/-- What holds a file that is reached by names is a directory. -/
theorem Holds.exists_directory {entry : Entry} {names : List String} {bytes : ByteArray}
    (h : entry.Holds names bytes) (hne : names ≠ []) :
    ∃ entries, entry = .directory entries := by
  cases h with
  | here bytes => exact absurd rfl hne
  | within hmem hrest => exact ⟨_, rfl⟩

theorem Holds.names_ne_nil {entries : List (String × Entry)} {names : List String}
    {bytes : ByteArray} (h : (Entry.directory entries).Holds names bytes) : names ≠ [] := by
  cases h with
  | within hmem hrest => exact List.cons_ne_nil _ _

mutual

/-- The files below an entry are those that it holds. -/
theorem mem_files_iff {names : List String} {bytes : ByteArray} :
    (entry : Entry) → ((names, bytes) ∈ entry.files ↔ entry.Holds names bytes)
  | .file content => by
    rw [files, List.mem_singleton, Prod.mk.injEq]
    constructor
    · rintro ⟨rfl, rfl⟩
      exact .here bytes
    · rintro ⟨⟩
      exact ⟨rfl, rfl⟩
  | .directory entries => by
    rw [files, mem_filesOf_iff entries]
    constructor
    · rintro ⟨name, inner, rest, rfl, hmem, hrest⟩
      exact .within hmem hrest
    · rintro (_ | ⟨hmem, hrest⟩)
      exact ⟨_, _, _, rfl, hmem, hrest⟩

theorem mem_filesOf_iff {names : List String} {bytes : ByteArray} :
    (entries : List (String × Entry)) → ((names, bytes) ∈ filesOf entries ↔
      ∃ name inner rest, names = name :: rest ∧ (name, inner) ∈ entries ∧ inner.Holds rest bytes)
  | [] => by simp [filesOf]
  | (first, entry) :: others => by
    rw [filesOf, List.mem_append, mem_filesOf_iff others]
    have hfirst : (names, bytes) ∈ (entry.files.map fun (names, bytes) => (first :: names, bytes)) ↔
        ∃ rest, names = first :: rest ∧ entry.Holds rest bytes := by
      rw [List.mem_map]
      constructor
      · rintro ⟨⟨rest, content⟩, hmem, heq⟩
        obtain ⟨rfl, rfl⟩ := Prod.mk.inj heq
        exact ⟨rest, rfl, (mem_files_iff entry).1 hmem⟩
      · rintro ⟨rest, rfl, hrest⟩
        exact ⟨(rest, bytes), (mem_files_iff entry).2 hrest, rfl⟩
    rw [hfirst]
    constructor
    · rintro (⟨rest, rfl, hrest⟩ | ⟨name, inner, rest, rfl, hmem, hrest⟩)
      · exact ⟨first, entry, rest, rfl, List.mem_cons_self, hrest⟩
      · exact ⟨name, inner, rest, rfl, List.mem_cons_of_mem _ hmem, hrest⟩
    · rintro ⟨name, inner, rest, rfl, hmem, hrest⟩
      rcases List.mem_cons.1 hmem with heq | hmem
      · obtain ⟨rfl, rfl⟩ := Prod.mk.inj heq
        exact .inl ⟨rest, rfl, hrest⟩
      · exact .inr ⟨name, inner, rest, rfl, hmem, hrest⟩

end

/-- Names that lead to a file are names of entries. -/
theorem Holds.isName {entry : Entry} {names : List String} {bytes : ByteArray}
    (h : entry.Holds names bytes) (hnamed : entry.WellNamed) : ∀ name ∈ names, IsName name := by
  induction h with
  | here bytes => exact fun _ hmem => absurd hmem List.not_mem_nil
  | within hmem _ ih =>
    cases hnamed with
    | directory hdistinct hnames hbelow =>
      intro name hname
      rcases List.mem_cons.1 hname with rfl | hname
      · exact hnames _ hmem
      · exact ih (hbelow _ hmem) name hname

mutual

/-- No two files are reached by the same names. -/
theorem nodup_files : {entry : Entry} → entry.WellNamed → (entry.files.map (·.1)).Nodup
  | .file _, _ => by simp [files]
  | .directory entries, .directory hdistinct _ hbelow => by
    rw [files]
    exact nodup_filesOf entries hdistinct hbelow

theorem nodup_filesOf : (entries : List (String × Entry)) → (entries.map (·.1)).Nodup →
    (∀ e ∈ entries, e.2.WellNamed) → ((filesOf entries).map (·.1)).Nodup
  | [], _, _ => by simp [filesOf]
  | (first, entry) :: others, hdistinct, hbelow => by
    obtain ⟨hnew, hothers⟩ := List.nodup_cons.1 (List.map_cons ▸ hdistinct)
    have hentry := nodup_files (hbelow _ List.mem_cons_self)
    have hrest := nodup_filesOf others hothers fun e he => hbelow e (List.mem_cons_of_mem _ he)
    rw [filesOf, List.map_append, List.nodup_append]
    refine ⟨?_, hrest, ?_⟩
    · have hcons : (entry.files.map fun (names, bytes) => (first :: names, bytes)).map (·.1) =
          (entry.files.map (·.1)).map (first :: ·) := by
        simp only [List.map_map, Function.comp_def]
      rw [hcons]
      exact List.pairwise_map.2 (hentry.imp fun hne heq => hne (List.cons.inj heq).2)
    · rintro a ha b hb rfl
      obtain ⟨⟨_, bytes⟩, hmem, rfl⟩ := List.mem_map.1 hb
      obtain ⟨name, inner, rest, hnames, hother, -⟩ := (mem_filesOf_iff others).1 hmem
      obtain ⟨⟨_, _⟩, hfile, heq⟩ := List.mem_map.1 ha
      obtain ⟨⟨names, content⟩, -, heq'⟩ := List.mem_map.1 hfile
      obtain ⟨rfl, rfl⟩ := Prod.mk.inj heq'
      have hsame : first :: names = name :: rest := heq.trans hnames
      obtain ⟨rfl, -⟩ := List.cons.inj hsame
      exact hnew (List.mem_map.2 ⟨_, hother, rfl⟩)

end

end Entry

/-! ### Paths -/

theorem partsFrom_append_slash : ∀ (text part rest : List Char),
    partsFrom part (text ++ '/' :: rest) = partsFrom part text ++ partsFrom [] rest
  | [], part, rest => by simp [partsFrom]
  | c :: text, part, rest => by
    rw [List.cons_append, partsFrom, partsFrom]
    split
    · rw [partsFrom_append_slash text, List.cons_append]
    · exact partsFrom_append_slash text _ rest

theorem partsFrom_eq_singleton : ∀ (text : List Char) {part : List Char}, '/' ∉ text →
    partsFrom part text = [part ++ text]
  | [], part, _ => by simp [partsFrom]
  | c :: text, part, h => by
    obtain ⟨hc, htext⟩ := not_or.1 (mt List.mem_cons.2 h)
    rw [partsFrom, if_neg (Ne.symm hc), partsFrom_eq_singleton text htext, List.append_assoc]
    rfl

/-- A name without a slash is a single part. -/
theorem pathParts_name {name : String} (h : '/' ∉ name.toList) : pathParts name = [name] := by
  rw [pathParts, partsFrom_eq_singleton _ h]
  simp

/-- What stands behind a slash gives the parts behind those of what stands before. -/
theorem pathParts_append_slash (path name : String) :
    pathParts (path ++ "/" ++ name) = pathParts path ++ pathParts name := by
  have hchars : (path ++ "/" ++ name).toList = path.toList ++ '/' :: name.toList := by simp
  rw [pathParts, hchars, partsFrom_append_slash, List.map_append]
  rfl

/-- A path that ends with a slash is one with an empty part at its end. -/
theorem exists_of_getLast?_slash {path : String} (h : path.toList.getLast? = some '/') :
    ∃ front, path = front ++ "/" := by
  obtain ⟨chars, hchars⟩ := List.getLast?_eq_some_iff.1 h
  refine ⟨String.ofList chars, String.toList_inj.1 ?_⟩
  simpa using hchars

/-- The parts of a path but for an empty one at the end, which says nothing. -/
def Leads (parts : List String) (path : String) : Prop :=
  pathParts path = parts ∨ pathParts path = parts ++ [""]

/-- A name behind a path is one more part. -/
theorem exists_leads (path : String) :
    ∃ parts, Leads parts path ∧
      ∀ name, IsName name → pathParts (Folder.joined path name) = parts ++ [name] := by
  by_cases hslash : path.toList.getLast? = some '/'
  · obtain ⟨front, rfl⟩ := exists_of_getLast?_slash hslash
    refine ⟨pathParts front, .inr ?_, fun name hname => ?_⟩
    · have hempty : front ++ "/" = front ++ "/" ++ "" := by simp
      rw [hempty, pathParts_append_slash]
      rfl
    · have hjoined : Folder.joined (front ++ "/") name = front ++ "/" ++ name := if_pos hslash
      rw [hjoined, pathParts_append_slash, pathParts_name hname.noSlash]
  · refine ⟨pathParts path, .inl rfl, fun name hname => ?_⟩
    have hjoined : Folder.joined path name = path ++ "/" ++ name := if_neg hslash
    rw [hjoined, pathParts_append_slash, pathParts_name hname.noSlash]

/-- Names behind a path that ends with a name are further parts. -/
theorem pathParts_foldl_of_name : ∀ (names : List String) {path : String} {front : List String}
    {last : String}, pathParts path = front ++ [last] → IsName last → (∀ n ∈ names, IsName n) →
      pathParts (names.foldl Folder.joined path) = front ++ last :: names
  | [], path, front, last, hpath, _, _ => hpath
  | name :: names, path, front, last, hpath, hlast, hnames => by
    obtain ⟨parts, hleads, hjoined⟩ := exists_leads path
    have hname := hnames name List.mem_cons_self
    have hparts : pathParts path = parts := by
      rcases hleads with heq | hempty
      · exact heq
      · rw [hempty] at hpath
        obtain ⟨-, heq⟩ := List.append_inj' hpath rfl
        exact absurd (List.cons.inj heq).1.symm hlast.ne_empty
    have hnext : pathParts (Folder.joined path name) = (front ++ [last]) ++ [name] := by
      rw [hjoined name hname, ← hparts, hpath]
    have hall := pathParts_foldl_of_name names hnext hname fun n hn =>
      hnames n (List.mem_cons_of_mem _ hn)
    simpa using hall

/-- Names behind a path are further parts, behind the parts that the path has. -/
theorem pathParts_foldl_joined (path : String) :
    ∃ parts, ∀ names : List String, names ≠ [] → (∀ n ∈ names, IsName n) →
      pathParts (names.foldl Folder.joined path) = parts ++ names := by
  obtain ⟨parts, -, hjoined⟩ := exists_leads path
  refine ⟨parts, fun names hne hnames => ?_⟩
  cases names with
  | nil => exact absurd rfl hne
  | cons name names =>
    have hname := hnames name List.mem_cons_self
    exact pathParts_foldl_of_name names (hjoined name hname) hname fun n hn =>
      hnames n (List.mem_cons_of_mem _ hn)

/-- Different names lead to different paths. -/
theorem foldl_joined_inj {path : String} {a b : List String} (ha : ∀ n ∈ a, IsName n)
    (hb : ∀ n ∈ b, IsName n) (hane : a ≠ []) (hbne : b ≠ [])
    (h : a.foldl Folder.joined path = b.foldl Folder.joined path) : a = b := by
  obtain ⟨parts, hparts⟩ := pathParts_foldl_joined path
  have hsame : parts ++ a = parts ++ b := by
    rw [← hparts a hane ha, ← hparts b hbne hb, h]
  exact List.append_cancel_left hsame

/-- The last part of a path is the name of the file, if it can be one. -/
theorem fileName?_of_last {path : String} {front : List String} {name : String}
    (hpath : pathParts path = front ++ [name]) (hname : IsName name) :
    fileName? path = some name := by
  have hkept : [name].filter (fun part => part != "" && part != ".") = [name] := by
    simp [hname.ne_empty, hname.ne_here]
  rw [fileName?, hpath, List.filter_append, hkept, List.getLast?_concat]
  exact if_neg hname.ne_above

/-- Whether a format takes a file depends on its name alone. -/
theorem Format.acceptsPath_foldl_joined (format : Format) (path : String) {names : List String}
    {name : String} (hnames : ∀ n ∈ names ++ [name], IsName n) :
    format.acceptsPath ((names ++ [name]).foldl Folder.joined path) = format.acceptsPath name := by
  have hname : IsName name := hnames name (by simp)
  obtain ⟨parts, hparts⟩ := pathParts_foldl_joined path
  have hpath : pathParts ((names ++ [name]).foldl Folder.joined path) =
      (parts ++ names) ++ [name] := by
    rw [hparts _ (by simp) hnames, List.append_assoc]
  have halone : pathParts name = [] ++ [name] := pathParts_name hname.noSlash
  rw [acceptsPath, acceptsPath, fileName?_of_last hpath hname, fileName?_of_last halone hname]

/-! ### What paths lead to -/

theorem follow_directory (above : List Entry) (entries : List (String × Entry)) (part : String)
    (rest : List String) :
    follow above (.directory entries) (part :: rest) =
      if part = "" ∨ part = "." then follow above (.directory entries) rest
      else if part = ".." then
        match above with
        | [] => .error .missing
        | parent :: others => follow others parent rest
      else
        match entries.lookup part with
        | none => .error .missing
        | some inner => follow (.directory entries :: above) inner rest :=
  rfl

/-- Parts lead astray, whatever follows them, or they lead to an entry from which the others go
on. What stands above that entry is left open, since the names that follow here never go up. -/
theorem follow_append : ∀ (parts : List String) (above : List Entry) (entry : Entry),
    (∃ fault, ∀ more, follow above entry (parts ++ more) = .error fault) ∨
      ∃ higher reached, ∀ more, follow above entry (parts ++ more) = follow higher reached more
  | [], above, entry => .inr ⟨above, entry, fun _ => rfl⟩
  | part :: rest, above, .file bytes => .inl ⟨.notDirectory, fun _ => rfl⟩
  | part :: rest, above, .directory entries => by
    simp only [List.cons_append, follow_directory]
    split
    · exact follow_append rest above _
    split
    · cases above with
      | nil => exact .inl ⟨.missing, fun _ => rfl⟩
      | cons parent others => exact follow_append rest others parent
    · cases entries.lookup part with
      | none => exact .inl ⟨.missing, fun _ => rfl⟩
      | some inner => exact follow_append rest _ inner

/-- A name leads from a directory to the entry of this name. -/
theorem follow_name {name : String} (hname : IsName name) (above : List Entry)
    (entries : List (String × Entry)) :
    follow above (.directory entries) [name] = (entries.lookup name).elim (.error .missing) .ok := by
  have hhere : ¬(name = "" ∨ name = ".") := not_or.2 ⟨hname.ne_empty, hname.ne_here⟩
  rw [follow_directory, if_neg hhere, if_neg hname.ne_above]
  cases entries.lookup name <;> rfl

/-- A name behind a path to a directory leads to the entry of this name. -/
theorem follow_leads {parts : List String} {path : String} (hleads : Leads parts path)
    {top : Entry} {entries : List (String × Entry)}
    (h : follow [] top (pathParts path) = .ok (.directory entries)) {name : String}
    (hname : IsName name) :
    follow [] top (parts ++ [name]) = (entries.lookup name).elim (.error .missing) .ok := by
  rcases follow_append parts [] top with ⟨fault, hastray⟩ | ⟨higher, reached, hon⟩
  · have hnot := hastray []
    have hnot' := hastray [""]
    rcases hleads with heq | heq
    · rw [heq, ← List.append_nil parts, hnot] at h
      cases h
    · rw [heq, hnot'] at h
      cases h
  · have hreached : reached = .directory entries := by
      rcases hleads with heq | heq
      · rw [heq, ← List.append_nil parts, hon] at h
        exact Except.ok.inj h
      · rw [heq, hon] at h
        cases reached with
        | file bytes => cases h
        | directory list => exact Except.ok.inj h
    rw [hon, hreached, follow_name hname]

namespace Folder

theorem inside_ne_empty {path name : String} (hname : IsName name) : inside path name ≠ "" := by
  unfold inside joined
  split
  · exact hname.ne_empty
  split
  · intro h
    simpa [hname.ne_empty] using congrArg String.toList h
  · intro h
    simpa using congrArg String.toList h

/-- A name behind a path of the folder leads on from a directory. -/
theorem find_inside {folder : Folder} {path : String} {entries : List (String × Entry)}
    (h : folder.find path = .ok (.directory entries)) {name : String} (hname : IsName name) :
    folder.find (inside path name) = (entries.lookup name).elim (.error .missing) .ok := by
  unfold find at h ⊢
  unfold inside
  split
  · next hempty =>
    have hpath : path = "" := by simpa using hempty
    have hleads : Leads [] path := by
      rw [hpath]
      exact .inr rfl
    rw [pathParts_name hname.noSlash]
    exact follow_leads hleads h hname
  · obtain ⟨parts, hleads, hjoined⟩ := exists_leads path
    rw [hjoined name hname]
    exact follow_leads hleads h hname

/-- Names of a directory lead to the files that it holds. -/
theorem find_foldl_inside {folder : Folder} {entry : Entry} {names : List String}
    {bytes : ByteArray} (hholds : entry.Holds names bytes) (hnamed : entry.WellNamed)
    {path : String} (h : folder.find path = .ok entry) :
    folder.find (names.foldl inside path) = .ok (.file bytes) := by
  induction hholds generalizing path with
  | here bytes => exact h
  | @within entries name inner names bytes hmem _ ih =>
    cases hnamed with
    | directory hdistinct hnames hbelow =>
      have hlookup : entries.lookup name = some inner :=
        (KeyMap.lookup_eq_some_iff hdistinct).2 hmem
      apply ih (hbelow _ hmem)
      rw [find_inside h (hnames _ hmem), hlookup]
      rfl

/-- The end of a path is that of the path with something before it. -/
theorem getLast?_joined (front : String) {path : String} (h : path ≠ "") :
    (joined front path).toList.getLast? = path.toList.getLast? := by
  have hchars : path.toList ≠ [] := fun hnil => h (String.toList_inj.1 hnil)
  have hbehind (before : String) :
      (before ++ path).toList.getLast? = path.toList.getLast? := by
    rw [String.toList_append, List.getLast?_append, List.getLast?_eq_some_getLast hchars]
    rfl
  unfold joined
  split
  · exact hbehind front
  · exact hbehind (front ++ "/")

/-- It does not matter which of two slashes is put down first. -/
theorem joined_assoc (front : String) {path : String} (h : path ≠ "") (name : String) :
    joined (joined front path) name = joined front (joined path name) := by
  have hlast := getLast?_joined front h
  by_cases hslash : path.toList.getLast? = some '/'
  · have hinner : joined path name = path ++ name := if_pos hslash
    have houter : joined (joined front path) name = joined front path ++ name :=
      if_pos (hlast.trans hslash)
    rw [hinner, houter]
    unfold joined
    split <;> simp only [String.append_assoc]
  · have hinner : joined path name = path ++ "/" ++ name := if_neg hslash
    have houter : joined (joined front path) name = joined front path ++ "/" ++ name :=
      if_neg (hlast ▸ hslash)
    rw [hinner, houter]
    unfold joined
    split <;> simp only [String.append_assoc]

/-- A path with a name behind it is shown with the name behind it. -/
theorem shown_inside (folder : Folder) (path : String) {name : String} (hname : IsName name) :
    folder.shown (inside path name) = joined (folder.shown path) name := by
  have hinside : (inside path name).isEmpty = false := by
    simpa using inside_ne_empty hname
  unfold shown
  rw [hinside]
  unfold inside
  by_cases hempty : path.isEmpty = true
  · rw [if_pos hempty, if_pos hempty]
    rfl
  · rw [if_neg hempty, if_neg hempty]
    exact (joined_assoc folder.name (by simpa using hempty) name).symm

theorem shown_foldl_inside (folder : Folder) : ∀ (names : List String) (path : String),
    (∀ n ∈ names, IsName n) →
      folder.shown (names.foldl inside path) = names.foldl joined (folder.shown path)
  | [], _, _ => rfl
  | name :: names, path, hnames => by
    rw [List.foldl_cons, List.foldl_cons, ← shown_inside folder path (hnames name List.mem_cons_self)]
    exact shown_foldl_inside folder names _ fun n hn => hnames n (List.mem_cons_of_mem _ hn)

end Folder

end Gleaner
