/-
# Batches of files

The files to use for a path are worked on side by side. As long as there is room, the next file that
waits is begun; files that are worked on come to their end in any order, and what they yield is kept
in the order in which they do. A file is read when it is worked on, by its own path and nothing else.

Key definitions: `Options.workerCount`, `Folder.pathsAt`, `Folder.work`, `Pool`, `Pool.Step`,
`Pool.Run`.
-/
import Gleaner.Folder

namespace Gleaner

/-- How many files are worked on at once: the bound that is set, or else one for each processor, or
else one. -/
def Options.workerCount (options : Options) (processors : Option { n : Nat // 0 < n }) : Nat :=
  options.workerBound?.getD ((processors.map Subtype.val).getD 1)

namespace Folder

/-- A name behind a path of the folder. -/
def inside (path name : String) : String :=
  if path.isEmpty then name else joined path name

/-- The paths of the files to use for a path: the path of the file there, or those of the files of
the format below the directory there. -/
def pathsAt (folder : Folder) (path : String) (format : Format) : Except Failure (List String) :=
  match folder.find path with
  | .ok (.file _) => .ok [path]
  | .ok (.directory entries) =>
    .ok (((filesOf entries).map fun (names, _) => names.foldl inside path).filter fun path =>
      format.acceptsPath (folder.shown path))
  | .error _ => .error (.noSuchPath (folder.shown path))

/-- What the work on one path of the folder yields. -/
def work (folder : Folder) (words : String → String) (format : Format) (policy : Policy)
    (selection : Selection) (path : String) : FileHarvest :=
  ⟨folder.shown path,
    awaited (words (folder.shown path)) (folder.harvestFile path format policy selection)⟩

end Folder

/-- Items that wait, items that are worked on, and what has come of the others, in the order in
which they came to their end. -/
structure Pool (α β : Type) where
  waiting : List α
  running : List α
  finished : List β

namespace Pool

variable {α β : Type}

/-- The pool before any work. -/
def ofList (items : List α) : Pool α β :=
  ⟨items, [], []⟩

/-- All work is done. -/
def IsDone (pool : Pool α β) : Prop :=
  pool.waiting = [] ∧ pool.running = []

/-- What may happen next. -/
inductive Step (workers : Nat) (work : α → β) : Pool α β → Pool α β → Prop where
  /-- There is room, and the item that has waited longest is begun. -/
  | start {item : α} {waiting running : List α} {finished : List β}
      (room : running.length < workers) :
      Step workers work ⟨item :: waiting, running, finished⟩ ⟨waiting, item :: running, finished⟩
  /-- Any item that is worked on comes to its end. -/
  | finish {item : α} {waiting before after : List α} {finished : List β} :
      Step workers work ⟨waiting, before ++ item :: after, finished⟩
        ⟨waiting, before ++ after, finished ++ [work item]⟩

/-- A number of steps, one after another. -/
inductive Run (workers : Nat) (work : α → β) : Nat → Pool α β → Pool α β → Prop where
  | here {pool : Pool α β} : Run workers work 0 pool pool
  | step {count : Nat} {first middle last : Pool α β} :
      Run workers work count first middle → Step workers work middle last →
        Run workers work (count + 1) first last

end Pool
end Gleaner
