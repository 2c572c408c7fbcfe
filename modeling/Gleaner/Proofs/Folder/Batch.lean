/-
# A batch is complete, and its files do not touch one another

Whatever the order in which a pool begins and ends its work, what it has yielded and what is still
to come make up the same list, each item once; it works on no more items at once than it may, always
has a next step until all is done, and comes to its end. So the entries of a batch are those that
the files have on their own, one for each file to use: the file that a path leads to, whatever its
name, or the files below a directory that the format takes. What stands beside a file makes no
difference to its entry. An entry holds what the harvest of its file yields on its own, but where
that breaks off: then the entry says so, in the words of the system that runs tasks.

Key definitions: `Pool.yield`, `Pool.load`.
Key theorems: `Pool.exists_step`, `Pool.Run.complete`, `Folder.harvestAll_eq`,
`Folder.harvestAll_directory`, `Folder.mem_harvestAll_congr`, `Folder.batch_complete`.
-/
import Gleaner.Proofs.Folder.Tree
import Gleaner.Proofs.Harvest.Overflow
import Gleaner.Proofs.Success

namespace Gleaner

/-! ### The pool -/

namespace Pool

variable {α β : Type} {workers count : Nat} {work : α → β} {first last : Pool α β}

/-- What has come of the work, and what is still to come of it. -/
def yield (work : α → β) (pool : Pool α β) : List β :=
  pool.finished ++ (pool.running ++ pool.waiting).map work

/-- How many steps are left: an item that waits is begun and ended. -/
def load (pool : Pool α β) : Nat :=
  2 * pool.waiting.length + pool.running.length

theorem Step.yield_perm (h : Step workers work first last) :
    (last.yield work).Perm (first.yield work) := by
  cases h with
  | @start item waiting running finished room =>
    exact (List.perm_middle.symm.map work).append_left finished
  | @finish item waiting before after finished =>
    have hmoved : ((before ++ item :: after) ++ waiting).Perm
        (item :: ((before ++ after) ++ waiting)) :=
      List.perm_middle.append_right waiting
    have hdone : finished ++ [work item] ++ ((before ++ after) ++ waiting).map work =
        finished ++ (item :: ((before ++ after) ++ waiting)).map work := by
      rw [List.append_assoc]
      rfl
    show (finished ++ [work item] ++ ((before ++ after) ++ waiting).map work).Perm _
    rw [hdone]
    exact (hmoved.symm.map work).append_left finished

theorem Step.running_le (h : Step workers work first last)
    (hfirst : first.running.length ≤ workers) : last.running.length ≤ workers := by
  cases h with
  | start room => exact room
  | finish =>
    simp only [List.length_append, List.length_cons] at hfirst ⊢
    omega

theorem Step.load_eq (h : Step workers work first last) : last.load + 1 = first.load := by
  cases h with
  | start room =>
    simp only [load, List.length_cons]
    omega
  | finish =>
    simp only [load, List.length_append, List.length_cons]
    omega

/-- A run keeps what comes of the work. -/
theorem Run.yield_perm (h : Run workers work count first last) :
    (last.yield work).Perm (first.yield work) := by
  induction h with
  | here => exact .refl _
  | step _ hstep ih => exact hstep.yield_perm.trans ih

theorem Run.running_le (h : Run workers work count first last)
    (hfirst : first.running.length ≤ workers) : last.running.length ≤ workers := by
  induction h with
  | here => exact hfirst
  | step _ hstep ih => exact hstep.running_le (ih hfirst)

/-- Each step of a run takes away from what is left to do. -/
theorem Run.load_eq (h : Run workers work count first last) : last.load + count = first.load := by
  induction h with
  | here => rfl
  | step _ hstep ih =>
    have hload := hstep.load_eq
    omega

/-- As long as work is left, a pool has a next step. -/
theorem exists_step (hworkers : 0 < workers) {pool : Pool α β} (h : ¬pool.IsDone) :
    ∃ next, Step workers work pool next := by
  obtain ⟨waiting, running, finished⟩ := pool
  cases running with
  | cons item others =>
    have hend : Step workers work ⟨waiting, [] ++ item :: others, finished⟩ _ := .finish
    exact ⟨_, hend⟩
  | nil =>
    cases waiting with
    | nil => exact absurd ⟨rfl, rfl⟩ h
    | cons item waiting => exact ⟨_, .start hworkers⟩

/-- Every run of a pool keeps to its size and has at most two steps for each item; it has yielded
what comes of the items once all is done, and it goes on before that. -/
theorem Run.complete (hworkers : 0 < workers) {items : List α} {pool : Pool α β}
    (hrun : Run workers work count (.ofList items) pool) :
    pool.running.length ≤ workers ∧ count ≤ 2 * items.length ∧
      (pool.IsDone → pool.finished.Perm (items.map work)) ∧
      (¬pool.IsDone → ∃ next, Step workers work pool next) := by
  have hload : pool.load + count = 2 * items.length := hrun.load_eq
  refine ⟨hrun.running_le (Nat.zero_le _), by omega, ?_, exists_step hworkers⟩
  rintro ⟨hwaiting, hrunning⟩
  have hperm : (pool.yield work).Perm (items.map work) := hrun.yield_perm
  have hyield : pool.yield work = pool.finished := by
    rw [yield, hwaiting, hrunning]
    exact List.append_nil _
  rw [hyield] at hperm
  exact hperm

end Pool

theorem Options.workerCount_pos (options : Options) (processors : Option { n : Nat // 0 < n }) :
    0 < options.workerCount processors := by
  unfold workerCount
  cases hbound : options.workerBound? with
  | some n =>
    obtain ⟨-, hpos⟩ := Option.filter_eq_some_iff.1 hbound
    exact of_decide_eq_true hpos
  | none =>
    cases processors with
    | none => exact Nat.one_pos
    | some n => exact n.property

/-! ### The entries of a batch -/

/-- What parts lead to in a well-named tree is well named. -/
theorem wellNamed_of_follow : ∀ (parts : List String) {above : List Entry} {entry reached : Entry},
    (∀ e ∈ above, e.WellNamed) → entry.WellNamed → follow above entry parts = .ok reached →
      reached.WellNamed
  | [], _, _, _, _, hentry, h => Except.ok.inj h ▸ hentry
  | part :: rest, _, .file bytes, _, _, _, h => by cases h
  | part :: rest, above, .directory entries, _, habove, hentry, h => by
    rw [follow_directory] at h
    split at h
    · exact wellNamed_of_follow rest habove hentry h
    split at h
    · cases above with
      | nil => cases h
      | cons parent others =>
        exact wellNamed_of_follow rest (fun e he => habove e (List.mem_cons_of_mem _ he))
          (habove parent List.mem_cons_self) h
    · cases hlookup : entries.lookup part with
      | none =>
        rw [hlookup] at h
        cases h
      | some inner =>
        rw [hlookup] at h
        have hinner : inner.WellNamed := by
          cases hentry with
          | directory hdistinct _ hbelow =>
            exact hbelow _ ((KeyMap.lookup_eq_some_iff hdistinct).1 hlookup)
        refine wellNamed_of_follow rest (fun e he => ?_) hinner h
        rcases List.mem_cons.1 he with rfl | he
        · exact hentry
        · exact habove e he

namespace Folder

variable {folder : Folder} {words : String → String} {path : String} {format : Format}
  {policy : Policy} {selection : Selection} {entries : List (String × Entry)}

theorem wellNamed_of_find (hnamed : folder.top.WellNamed) {entry : Entry}
    (h : folder.find path = .ok entry) : entry.WellNamed :=
  wellNamed_of_follow _ (fun _ he => absurd he List.not_mem_nil) hnamed h

/-- The work on a file below a directory is the harvest of its bytes, under the path that it has. -/
theorem work_of_holds (words : String → String) (format : Format) (policy : Policy) (selection : Selection)
    (hnamed : folder.top.WellNamed) {entry : Entry} (h : folder.find path = .ok entry)
    {names : List String} {bytes : ByteArray} (hholds : entry.Holds names bytes) :
    folder.work words format policy selection (names.foldl inside path) =
      ⟨names.foldl joined (folder.shown path),
        awaited (words (names.foldl joined (folder.shown path)))
          (harvestBytes (names.foldl joined (folder.shown path)) bytes format policy selection)⟩ := by
  have hentry := wellNamed_of_find hnamed h
  have hfind := find_foldl_inside hholds hentry h
  have hshown := shown_foldl_inside folder names path (hholds.isName hentry)
  rw [work, harvestFile, hfind, hshown]

/-- A batch is the work on each of the paths to use. -/
theorem harvestAll_eq (hnamed : folder.top.WellNamed) :
    folder.harvestAll words path format policy selection =
      (folder.pathsAt path format).map fun paths =>
        paths.map (folder.work words format policy selection) := by
  unfold harvestAll filesAt pathsAt
  cases h : folder.find path with
  | error fault => rfl
  | ok entry =>
    cases entry with
    | file bytes =>
      have hwork := work_of_holds words format policy selection hnamed h (.here bytes)
      exact congrArg (fun result => Except.ok [result]) hwork.symm
    | directory entries =>
      have hentry := wellNamed_of_find hnamed h
      have hmem (file : List String × ByteArray) (hfile : file ∈ filesOf entries) :
          (Entry.directory entries).Holds file.1 file.2 :=
        (Entry.mem_files_iff (.directory entries)).1 hfile
      simp only [Except.map, List.filter_map, List.map_map]
      apply congrArg
      have hsame : (filesOf entries).filter ((fun file : String × ByteArray =>
            format.acceptsPath file.1) ∘ fun file : List String × ByteArray =>
              (file.1.foldl joined (folder.shown path), file.2)) =
          (filesOf entries).filter ((fun path => format.acceptsPath (folder.shown path)) ∘
            fun file => file.1.foldl inside path) := by
        apply List.filter_congr
        intro file hfile
        have hshown := shown_foldl_inside folder file.1 path ((hmem file hfile).isName hentry)
        simp only [Function.comp_apply, hshown]
      refine (congrArg (List.map _) hsame).trans (List.map_congr_left fun file hfile => ?_)
      exact (work_of_holds _ _ _ _ hnamed h (hmem file (List.mem_filter.1 hfile).1)).symm

/-- Names and the file below a directory that the format takes. -/
theorem mem_pathsAt_iff (hnamed : folder.top.WellNamed)
    (h : folder.find path = .ok (.directory entries)) {paths : List String}
    (hpaths : folder.pathsAt path format = .ok paths) {used : String} :
    used ∈ paths ↔
      ∃ names name bytes, (Entry.directory entries).Holds (names ++ [name]) bytes ∧
        format.acceptsPath name = true ∧ used = (names ++ [name]).foldl inside path := by
  have hentry := wellNamed_of_find hnamed h
  rw [pathsAt, h] at hpaths
  obtain rfl := Except.ok.inj hpaths
  rw [List.mem_filter, List.mem_map]
  constructor
  · rintro ⟨⟨⟨names, bytes⟩, hmem, rfl⟩, haccepts⟩
    have hholds : (Entry.directory entries).Holds names bytes :=
      (Entry.mem_files_iff (.directory entries)).1 hmem
    rcases List.eq_nil_or_concat names with rfl | ⟨front, name, hconcat⟩
    · cases hholds
    · rw [List.concat_eq_append] at hconcat
      subst hconcat
      have hnames := hholds.isName hentry
      rw [shown_foldl_inside folder _ path hnames,
        Format.acceptsPath_foldl_joined format _ hnames] at haccepts
      exact ⟨front, name, bytes, hholds, haccepts, rfl⟩
  · rintro ⟨names, name, bytes, hholds, haccepts, rfl⟩
    have hnames := hholds.isName hentry
    refine ⟨⟨(names ++ [name], bytes), (Entry.mem_files_iff (.directory entries)).2 hholds, rfl⟩, ?_⟩
    rw [shown_foldl_inside folder _ path hnames, Format.acceptsPath_foldl_joined format _ hnames]
    exact haccepts

/-- No two files to use are shown alike. -/
theorem nodup_shown (hnamed : folder.top.WellNamed)
    (h : folder.find path = .ok (.directory entries)) {paths : List String}
    (hpaths : folder.pathsAt path format = .ok paths) : (paths.map folder.shown).Nodup := by
  have hentry := wellNamed_of_find hnamed h
  rw [pathsAt, h] at hpaths
  obtain rfl := Except.ok.inj hpaths
  have hdistinct : (filesOf entries).Pairwise fun a b => a.1 ≠ b.1 :=
    List.pairwise_map.1 (Entry.nodup_files hentry)
  have hshown : (filesOf entries).Pairwise fun a b =>
      folder.shown (a.1.foldl inside path) ≠ folder.shown (b.1.foldl inside path) := by
    refine hdistinct.imp_of_mem fun {a b} ha hb hne heq => hne ?_
    have hha : (Entry.directory entries).Holds a.1 a.2 := (Entry.mem_files_iff _).1 ha
    have hhb : (Entry.directory entries).Holds b.1 b.2 := (Entry.mem_files_iff _).1 hb
    have hna := hha.isName hentry
    have hnb := hhb.isName hentry
    rw [shown_foldl_inside folder _ path hna, shown_foldl_inside folder _ path hnb] at heq
    exact foldl_joined_inj hna hnb hha.names_ne_nil hhb.names_ne_nil heq
  have hpaths : ((filesOf entries).map fun file => file.1.foldl inside path).Pairwise
      fun a b => folder.shown a ≠ folder.shown b := List.pairwise_map.2 hshown
  exact List.pairwise_map.2 (hpaths.filter _)

/-- The entry of a file that a directory holds, said of its bytes alone. -/
theorem mem_harvestAll_iff (hnamed : folder.top.WellNamed)
    (h : folder.find path = .ok (.directory entries)) {results : List FileHarvest}
    (hresults : folder.harvestAll words path format policy selection = .ok results)
    {names : List String} {name : String} {bytes : ByteArray}
    (hholds : (Entry.directory entries).Holds (names ++ [name]) bytes) {result : FileHarvest}
    (hpath : result.path = (names ++ [name]).foldl joined (folder.shown path)) :
    result ∈ results ↔ format.acceptsPath name = true ∧
      result.outcome =
        awaited (words result.path) (harvestBytes result.path bytes format policy selection) := by
  have hentry := wellNamed_of_find hnamed h
  have hnames := hholds.isName hentry
  rw [harvestAll_eq hnamed] at hresults
  obtain ⟨paths, hpaths, rfl⟩ := map_eq_ok_iff.1 hresults
  have hwork := work_of_holds words format policy selection hnamed h hholds
  rw [List.mem_map]
  constructor
  · rintro ⟨used, hused, rfl⟩
    obtain ⟨front, last, content, hother, haccepts, rfl⟩ :=
      (mem_pathsAt_iff hnamed h hpaths).1 hused
    have hothers := hother.isName hentry
    rw [work_of_holds _ _ _ _ hnamed h hother] at hpath
    have hsame : front ++ [last] = names ++ [name] :=
      foldl_joined_inj hothers hnames (by simp) (by simp) hpath
    obtain ⟨rfl, hlast⟩ := List.append_inj' hsame rfl
    obtain rfl : last = name := (List.cons.inj hlast).1
    rw [hwork]
    exact ⟨haccepts, rfl⟩
  · rintro ⟨haccepts, houtcome⟩
    refine ⟨_, (mem_pathsAt_iff hnamed h hpaths).2 ⟨names, name, bytes, hholds, haccepts, rfl⟩, ?_⟩
    rw [hpath] at houtcome
    rw [hwork, ← houtcome, ← hpath]


/-- A batch fails exactly when its path leads to nothing. -/
theorem harvestAll_eq_error_iff {failure : Failure} :
    folder.harvestAll words path format policy selection = .error failure ↔
      failure = .noSuchPath (folder.shown path) ∧ ∃ fault, folder.find path = .error fault := by
  rw [harvestAll, filesAt]
  cases h : folder.find path with
  | error fault =>
    constructor
    · intro herror
      exact ⟨(Except.error.inj herror).symm, fault, rfl⟩
    · rintro ⟨rfl, -⟩
      rfl
  | ok entry =>
    refine iff_of_false (fun herror => ?_) fun ⟨_, _, hfault⟩ => by cases hfault
    cases entry with
    | file bytes => cases herror
    | directory entries => cases herror

/-- A path to a file gives the entry of this file. -/
theorem harvestAll_file (hnamed : folder.top.WellNamed) {bytes : ByteArray}
    (h : folder.find path = .ok (.file bytes)) :
    folder.harvestAll words path format policy selection =
      .ok [folder.work words format policy selection path] := by
  rw [harvestAll_eq hnamed, pathsAt, h]
  rfl

/-- A path to a directory gives an entry for each file of the format below, and no others. -/
theorem harvestAll_directory (hnamed : folder.top.WellNamed)
    (h : folder.find path = .ok (.directory entries)) :
    ∃ results, folder.harvestAll words path format policy selection = .ok results ∧
      (results.map (·.path)).Nodup ∧
      ∀ result, result ∈ results ↔
        ∃ names name bytes, (Entry.directory entries).Holds (names ++ [name]) bytes ∧
          format.acceptsPath name = true ∧
          result = folder.work words format policy selection ((names ++ [name]).foldl inside path) := by
  obtain ⟨paths, hpaths⟩ : ∃ paths, folder.pathsAt path format = .ok paths := by
    rw [pathsAt, h]
    exact ⟨_, rfl⟩
  refine ⟨paths.map (folder.work words format policy selection), ?_, ?_, fun result => ?_⟩
  · rw [harvestAll_eq hnamed, hpaths]
    rfl
  · rw [List.map_map]
    exact nodup_shown hnamed h hpaths
  · rw [List.mem_map]
    constructor
    · rintro ⟨used, hused, rfl⟩
      obtain ⟨names, name, bytes, hholds, haccepts, rfl⟩ :=
        (mem_pathsAt_iff hnamed h hpaths).1 hused
      exact ⟨names, name, bytes, hholds, haccepts, rfl⟩
    · rintro ⟨names, name, bytes, hholds, haccepts, rfl⟩
      exact ⟨_, (mem_pathsAt_iff hnamed h hpaths).2 ⟨names, name, bytes, hholds, haccepts, rfl⟩,
        rfl⟩

/-- Two folders that hold a file have the same entry for it, whatever else they hold. -/
theorem mem_harvestAll_congr {other : Folder} (hnamed : folder.top.WellNamed)
    (hother : other.top.WellNamed) (hname : other.name = folder.name) {entry otherEntry : Entry}
    (h : folder.find path = .ok entry) (h' : other.find path = .ok otherEntry)
    {results otherResults : List FileHarvest}
    (hresults : folder.harvestAll words path format policy selection = .ok results)
    (hresults' : other.harvestAll words path format policy selection = .ok otherResults)
    {names : List String} {bytes : ByteArray} (hholds : entry.Holds names bytes)
    (hholds' : otherEntry.Holds names bytes) {result : FileHarvest}
    (hpath : result.path = folder.shown (names.foldl inside path)) :
    result ∈ results ↔ result ∈ otherResults := by
  have hroot : other.shown path = folder.shown path := by rw [shown, shown, hname]
  -- without names the path is that of the file itself, whose ending does not count
  rcases List.eq_nil_or_concat names with rfl | ⟨front, name, hconcat⟩
  · cases hholds
    cases hholds'
    rw [harvestAll_file hnamed h, work, harvestFile, h] at hresults
    rw [harvestAll_file hother h', work, harvestFile, h', hroot] at hresults'
    rw [← Except.ok.inj hresults, ← Except.ok.inj hresults']
  · rw [List.concat_eq_append] at hconcat
    subst hconcat
    have hnames := hholds.isName (wellNamed_of_find hnamed h)
    have hshown : result.path = (front ++ [name]).foldl joined (folder.shown path) :=
      hpath.trans (shown_foldl_inside folder _ path hnames)
    have hshown' : result.path = (front ++ [name]).foldl joined (other.shown path) := by
      rw [hshown, hroot]
    obtain ⟨entries, rfl⟩ := hholds.exists_directory (by simp)
    obtain ⟨others, rfl⟩ := hholds'.exists_directory (by simp)
    rw [mem_harvestAll_iff hnamed h hresults hholds hshown,
      mem_harvestAll_iff hother h' hresults' hholds' hshown']

/-- A task hands over the outcome that it had to find, unless it broke off. -/
theorem awaited_of_ne {words : String} {outcome : Except Failure Harvest}
    (h : outcome ≠ .error .overflow) : awaited words outcome = outcome := by
  unfold awaited
  split
  · exact absurd rfl h
  · rfl

/-- The harvest of a file breaks off if the format is JSON and the selection breaks off on the text
of the file. -/
theorem harvestFile_eq_overflow_iff :
    folder.harvestFile path format policy selection = .error .overflow ↔
      format = .json ∧ ∃ bytes text, folder.find path = .ok (.file bytes) ∧
        String.fromUTF8? bytes = some text ∧ selection.BreaksOff text := by
  unfold harvestFile
  cases hfind : folder.find path with
  | error fault => exact iff_of_false (by simp) (by rintro ⟨_, _, _, ⟨⟩, _⟩)
  | ok entry =>
    cases entry with
    | directory entries => exact iff_of_false (by simp) (by rintro ⟨_, _, _, ⟨⟩, _⟩)
    | file bytes =>
      dsimp only
      unfold harvestBytes
      cases htext : String.fromUTF8? bytes with
      | none =>
        refine iff_of_false (by simp) ?_
        rintro ⟨-, other, text, hother, hsome, -⟩
        cases hother
        rw [htext] at hsome
        cases hsome
      | some text =>
        refine Format.harvest_eq_overflow_iff.trans (and_congr_right fun _ => ?_)
        constructor
        · exact fun hover => ⟨bytes, text, rfl, htext, hover⟩
        · rintro ⟨other, found, hother, hsome, hover⟩
          cases hother
          obtain rfl : text = found := Option.some.inj (htext.symm.trans hsome)
          exact hover

/-- **A batch is complete, and its files do not touch one another.** It fails exactly when its path
leads to nothing. A path to a file gives the entry of this file, whatever its name. A path to a
directory gives an entry for each file below whose name the format takes, each under a path of its
own, and no others; an entry is what the work on its file alone yields. A pool of any size keeps to
its size, always has a next step until all is done, needs no more than two steps for each file, and
has yielded these entries when it is done, in some order. An entry is the same in two folders that
hold its file, whatever else they hold. It holds the harvest of its file, or how this fails; but if
the harvest breaks off, which it does only from JSON and where the selection breaks off on the text,
it holds what the system that runs tasks says of it. -/
theorem batch_complete (folder : Folder) (hnamed : folder.top.WellNamed) (words : String → String)
    (path : String) (format : Format) (selection : Selection) (options : Options)
    (processors : Option { n : Nat // 0 < n }) :
    (∀ failure, folder.harvestAll words path format options.fallback selection = .error failure ↔
      failure = .noSuchPath (folder.shown path) ∧ ∃ fault, folder.find path = .error fault) ∧
    (∀ bytes, folder.find path = .ok (.file bytes) →
      folder.harvestAll words path format options.fallback selection =
        .ok [folder.work words format options.fallback selection path]) ∧
    (∀ entries, folder.find path = .ok (.directory entries) →
      ∃ results, folder.harvestAll words path format options.fallback selection = .ok results ∧
        (results.map (·.path)).Nodup ∧
        ∀ result, result ∈ results ↔
          ∃ names name bytes, (Entry.directory entries).Holds (names ++ [name]) bytes ∧
            format.acceptsPath name = true ∧
            result = folder.work words format options.fallback selection
              ((names ++ [name]).foldl inside path)) ∧
    (∀ results, folder.harvestAll words path format options.fallback selection = .ok results →
      ∃ paths, folder.pathsAt path format = .ok paths ∧
        results = paths.map (folder.work words format options.fallback selection) ∧
        ∀ count pool,
          Pool.Run (options.workerCount processors)
            (folder.work words format options.fallback selection) count (.ofList paths) pool →
          pool.running.length ≤ options.workerCount processors ∧ count ≤ 2 * paths.length ∧
            (pool.IsDone → pool.finished.Perm results) ∧
            (¬pool.IsDone → ∃ next, Pool.Step (options.workerCount processors)
              (folder.work words format options.fallback selection) pool next)) ∧
    (∀ other : Folder, other.top.WellNamed → other.name = folder.name →
      ∀ entry otherEntry results otherResults, folder.find path = .ok entry →
        other.find path = .ok otherEntry →
        folder.harvestAll words path format options.fallback selection = .ok results →
        other.harvestAll words path format options.fallback selection = .ok otherResults →
        ∀ names bytes, entry.Holds names bytes → otherEntry.Holds names bytes →
          ∀ result, result.path = folder.shown (names.foldl inside path) →
            (result ∈ results ↔ result ∈ otherResults)) ∧
    ∀ used, (folder.work words format options.fallback selection used).path = folder.shown used ∧
      (folder.harvestFile used format options.fallback selection ≠ .error .overflow →
        (folder.work words format options.fallback selection used).outcome =
          folder.harvestFile used format options.fallback selection) ∧
      (folder.harvestFile used format options.fallback selection = .error .overflow →
        (folder.work words format options.fallback selection used).outcome =
          .error (.task (words (folder.shown used)))) ∧
      (folder.harvestFile used format options.fallback selection = .error .overflow ↔
        format = .json ∧ ∃ bytes text, folder.find used = .ok (.file bytes) ∧
          String.fromUTF8? bytes = some text ∧ selection.BreaksOff text) := by
  refine ⟨fun failure => harvestAll_eq_error_iff, fun bytes h => harvestAll_file hnamed h,
    fun entries h => harvestAll_directory hnamed h, fun results h => ?_, ?_, fun used => ?_⟩
  · rw [harvestAll_eq hnamed] at h
    obtain ⟨paths, hpaths, rfl⟩ := map_eq_ok_iff.1 h
    exact ⟨paths, hpaths, rfl,
      fun count pool hrun => hrun.complete (options.workerCount_pos processors)⟩
  · intro other hother hname entry otherEntry results otherResults h h' hresults hresults'
      names bytes hholds hholds' result hpath
    exact mem_harvestAll_congr hnamed hother hname h h' hresults hresults' hholds hholds' hpath
  · exact ⟨rfl, awaited_of_ne, fun h => congrArg (awaited _) h, harvestFile_eq_overflow_iff⟩

/-- A folder with a page that is no text, a file of another kind, and a page one level down. -/
def twoPages : Folder :=
  ⟨"docs", .directory [("a.html", .file ⟨#[255]⟩), ("notes.txt", .file ⟨#[]⟩),
    ("sub", .directory [("b.htm", .file ⟨#[]⟩)])]⟩

theorem wellNamed_twoPages : twoPages.top.WellNamed := by
  have hsub : (Entry.directory [("b.htm", .file ⟨#[]⟩)]).WellNamed := by
    refine .directory (by decide) (by decide) ?_
    exact List.forall_mem_cons.2 ⟨.file _, List.forall_mem_nil _⟩
  refine .directory (by decide) (by decide) ?_
  refine List.forall_mem_cons.2 ⟨.file _, List.forall_mem_cons.2 ⟨.file _, ?_⟩⟩
  exact List.forall_mem_cons.2 ⟨hsub, List.forall_mem_nil _⟩

/-- The page one level down has its entry, whatever becomes of the other. -/
theorem batch_complete_twoPages :
    twoPages.top.WellNamed ∧
      ∃ results, twoPages.harvestAll id "" .html .wholeBatch .empty = .ok results ∧
        (results.map (·.path)).Nodup ∧
        twoPages.work id .html .wholeBatch .empty "sub/b.htm" ∈ results := by
  obtain ⟨-, -, hdirectory, -, -⟩ :=
    batch_complete twoPages wellNamed_twoPages id "" .html .empty {} none
  obtain ⟨results, hresults, hnodup, hmem⟩ := hdirectory _ rfl
  refine ⟨wellNamed_twoPages, results, hresults, hnodup, (hmem _).2 ?_⟩
  have hholds : twoPages.top.Holds (["sub"] ++ ["b.htm"]) ⟨#[]⟩ :=
    .within (.tail _ (.tail _ (.head _))) (.within (.head _) (.here _))
  exact ⟨["sub"], "b.htm", ⟨#[]⟩, hholds, by decide, rfl⟩

/-- A folder with a list of three nulls. -/
def nullsFolder : Folder :=
  ⟨"docs", .directory [("a.json", .file "[null,null,null]".toUTF8)]⟩

/-- A key for the members of a list from the third on, in the greatest steps. -/
def greatestStep : Selection :=
  .ofList [("k", "$[2::9223372036854775807]")]

theorem read_threeNulls : Json.read? "[null,null,null]" = some (.array [.null, .null, .null]) := by
  have hlast : Json.readItems? ['n', 'u', 'l', 'l', ']'] = some ([.null], ⟨[], by decide⟩) := by
    rw [Json.readItems?, Json.readWritten?]
    rfl
  have hsecond : Json.readItems? ['n', 'u', 'l', 'l', ',', 'n', 'u', 'l', 'l', ']'] =
      some ([.null, .null], ⟨[], by decide⟩) := by
    rw [Json.readItems?, Json.readWritten?]
    show ((Json.readItems? ['n', 'u', 'l', 'l', ']']).bind _) = _
    rw [hlast]
    rfl
  have hwritten : Json.writtenOf? "[null,null,null]" = some (.array [.null, .null, .null]) := by
    show (Json.readWritten? ['[', 'n', 'u', 'l', 'l', ',', 'n', 'u', 'l', 'l', ',', 'n', 'u', 'l',
      'l', ']']).bind _ = _
    rw [Json.readWritten?]
    show ((Json.readItems? _).bind _).bind _ = _
    rw [Json.readItems?, Json.readWritten?]
    show (((Json.readItems? ['n', 'u', 'l', 'l', ',', 'n', 'u', 'l', 'l', ']']).bind _).bind _).bind
      _ = _
    rw [hsecond]
    rfl
  rw [Json.read?, hwritten]
  rfl

/-- The harvest of the list on its own breaks off, and the batch has an entry that tells of it. -/
theorem harvestAll_nullsFolder :
    nullsFolder.top.WellNamed ∧ nullsFolder.find "a.json" = .ok (.file "[null,null,null]".toUTF8) ∧
      nullsFolder.harvestFile "a.json" .json .wholeBatch greatestStep = .error .overflow ∧
      ∀ words : String → String,
        nullsFolder.harvestAll words "" .json .wholeBatch greatestStep =
            .ok [⟨"docs/a.json", .error (.task (words "docs/a.json"))⟩] ∧
          Except.error (.task (words "docs/a.json")) ≠
            nullsFolder.harvestFile "a.json" .json .wholeBatch greatestStep := by
  have hnamed : nullsFolder.top.WellNamed :=
    .directory (by decide) (by decide) (List.forall_mem_singleton.2 (.file _))
  have htext : String.fromUTF8? "[null,null,null]".toUTF8 = some "[null,null,null]" :=
    dif_pos "[null,null,null]".isValidUTF8
  have hbreaks : greatestStep.BreaksOff "[null,null,null]" :=
    ⟨_, [], "k", _, [], _, _, read_threeNulls, rfl, List.forall_mem_nil _,
      JsonPath.read_greatestStep, JsonPath.oversteps_greatestStep⟩
  have hfind : nullsFolder.find "a.json" = .ok (.file "[null,null,null]".toUTF8) := rfl
  have hover : nullsFolder.harvestFile "a.json" .json .wholeBatch greatestStep =
      .error .overflow :=
    harvestFile_eq_overflow_iff.2 ⟨rfl, _, _, hfind, htext, hbreaks⟩
  refine ⟨hnamed, hfind, hover, fun words => ⟨?_, by rw [hover]; exact nofun⟩⟩
  have hpaths : nullsFolder.pathsAt "" .json = .ok ["a.json"] :=
    congrArg Except.ok (by decide +kernel : ["a.json"].filter (fun path =>
      Format.json.acceptsPath (nullsFolder.shown path)) = ["a.json"])
  rw [harvestAll_eq hnamed, hpaths]
  simp only [Except.map, List.map_cons, List.map_nil, work, hover]
  rfl

end Folder
end Gleaner
