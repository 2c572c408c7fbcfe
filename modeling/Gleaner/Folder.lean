/-
# Folders of files

A selection may be applied to a file, or to every file below a directory whose name ends as those of
its format do. A path is a row of names between slashes; a point stays where it is and two points
go up. Files are met in the order of their names, part by part, and a file that cannot be used does
not keep others from being used. Nor does one whose harvest breaks off: each of many files has a
task of its own, and of a task that broke off the system tells in its words.

Key definitions: `Folder`, `Folder.ofList`, `Folder.find`, `Format.acceptsPath`,
`Folder.harvestFile`, `Folder.awaited`, `Folder.harvestAll`.
-/
import Gleaner.Harvest.Format

namespace Gleaner

open Gleaner.Text

/-! ### Paths -/

/-- The parts of a path between slashes, of which there is at least one. -/
def partsFrom (part : List Char) : List Char → List (List Char)
  | [] => [part]
  | c :: rest => if c = '/' then part :: partsFrom [] rest else partsFrom (part ++ [c]) rest

/-- The parts of a path between slashes. -/
def pathParts (path : String) : List String :=
  (partsFrom [] path.toList).map String.ofList

/-- The last part of a path that names something; none if that goes up. -/
def fileName? (path : String) : Option String :=
  match ((pathParts path).filter fun part => part != "" && part != ".").getLast? with
  | some name => if name = ".." then none else some name
  | none => none

/-- What follows the last point of a name, if something precedes the point. -/
def extension? (name : String) : Option String :=
  let ending := name.toList.reverse.takeWhile (· != '.')
  if ending.length + 1 < name.length then some (String.ofList ending.reverse) else none

/-- The endings of the names of files of a format. -/
def Format.extensions : Format → List String
  | .html => ["html", "htm", "xhtml"]
  | .xml => ["xml", "rss", "atom"]
  | .json => ["json"]

/-- A path names a file of a format by its ending, up to the case of ASCII letters. -/
def Format.acceptsPath (format : Format) (path : String) : Bool :=
  ((fileName? path).bind extension?).any fun ending => format.extensions.any (sameName ending)

/-! ### Entries -/

/-- A file with its bytes, or a directory with its entries in the order of their names. -/
inductive Entry where
  | file (bytes : ByteArray)
  | directory (entries : List (String × Entry))

/-- The entries of a directory. -/
def Entry.entries : Entry → List (String × Entry)
  | .file _ => []
  | .directory list => list

/-- An entry with a file, or a directory where no bytes are given, put at a path below it. -/
def Entry.put (bytes : Option ByteArray) : List String → Entry → Entry
  | [], old =>
    match bytes with
    | some bytes => .file bytes
    | none => .directory old.entries
  | name :: rest, old =>
    let inner := (old.entries.lookup name).getD (.directory [])
    .directory (insertEntry name (inner.put bytes rest) old.entries)

mutual

/-- The files below an entry, each with the names that lead to it. -/
def Entry.files : Entry → List (List String × ByteArray)
  | .file bytes => [([], bytes)]
  | .directory entries => filesOf entries

/-- The files below the entries of a directory. -/
def filesOf : List (String × Entry) → List (List String × ByteArray)
  | [] => []
  | (name, entry) :: rest =>
    (entry.files.map fun (names, bytes) => (name :: names, bytes)) ++ filesOf rest

end

/-- What parts of a path lead to from an entry; `above` holds the directories above it, nearest
first. -/
def follow (above : List Entry) (entry : Entry) : List String → Except FileFault Entry
  | [] => .ok entry
  | part :: rest =>
    match entry with
    | .file _ => .error .notDirectory
    | .directory entries =>
      if part = "" ∨ part = "." then follow above entry rest
      else if part = ".." then
        match above with
        | [] => .error .missing
        | parent :: others => follow others parent rest
      else
        match entries.lookup part with
        | none => .error .missing
        | some inner => follow (entry :: above) inner rest

/-! ### Folders -/

/-- A directory that paths start from, and how it is shown. -/
structure Folder where
  name : String
  top : Entry

/-- One file with what was harvested from it. -/
structure FileHarvest where
  path : String
  outcome : Except Failure Harvest

namespace Folder

/-- The folder that holds files at paths; a path without bytes is that of a directory. -/
def ofList (name : String) (files : List (String × Option ByteArray)) : Folder :=
  ⟨name, files.foldl
    (fun top file => top.put file.2 ((pathParts file.1).filter (· != ""))) (.directory [])⟩

/-- A name behind a path. -/
def joined (path name : String) : String :=
  if path.toList.getLast? = some '/' then path ++ name else path ++ "/" ++ name

/-- A path of the folder as it is shown. -/
def shown (folder : Folder) (path : String) : String :=
  if path.isEmpty then folder.name else joined folder.name path

/-- What a path leads to. -/
def find (folder : Folder) (path : String) : Except FileFault Entry :=
  follow [] folder.top (pathParts path)

/-- The harvest of a file's bytes. -/
def harvestBytes (path : String) (bytes : ByteArray) (format : Format) (policy : Policy)
    (selection : Selection) : Except Failure Harvest :=
  match String.fromUTF8? bytes with
  | some text => format.harvest text policy selection
  | none => .error (.unreadableFile path .notUtf8)

/-- The harvest of the file at a path. -/
def harvestFile (folder : Folder) (path : String) (format : Format) (policy : Policy)
    (selection : Selection) : Except Failure Harvest :=
  match folder.find path with
  | .ok (.file bytes) => harvestBytes (folder.shown path) bytes format policy selection
  | .ok (.directory _) => .error (.unreadableFile (folder.shown path) .isDirectory)
  | .error fault => .error (.unreadableFile (folder.shown path) fault)

/-- The files to use for a path: the file there, or those of the format below the directory
there. -/
def filesAt (folder : Folder) (path : String) (format : Format) :
    Except Failure (List (String × ByteArray)) :=
  match folder.find path with
  | .ok (.file bytes) => .ok [(folder.shown path, bytes)]
  | .ok (.directory entries) =>
    .ok (((filesOf entries).map fun (names, bytes) =>
      (names.foldl joined (folder.shown path), bytes)).filter fun file => format.acceptsPath file.1)
  | .error _ => .error (.noSuchPath (folder.shown path))

/-- What a task hands over that had the outcome to find: the outcome, or, where it broke off, a
failure with what the system that runs tasks says of it. -/
def awaited (words : String) : Except Failure Harvest → Except Failure Harvest
  | .error .overflow => .error (.task words)
  | outcome => outcome

/-- The harvest of every file to use for a path. For a file whose task broke off, the words of the
system are given by its path. -/
def harvestAll (folder : Folder) (words : String → String) (path : String) (format : Format)
    (policy : Policy) (selection : Selection) : Except Failure (List FileHarvest) :=
  (folder.filesAt path format).map fun files => files.map fun (path, bytes) =>
    ⟨path, awaited (words path) (harvestBytes path bytes format policy selection)⟩

end Folder
end Gleaner
