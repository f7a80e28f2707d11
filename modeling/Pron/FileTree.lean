import Pron.Library
import Pron.SourcePath

/-!
# Files

What a file system answers when a file is opened or made, and a file system held in memory: a working directory with
files and directories below it, and what every system has at its root. Paths are followed part by part; each part but
the last has to be a directory. A file that was made is there for whatever is opened later.
-/

namespace Pron

/-- Why a file system refuses an operation. -/
inductive FileError
  | notFound
  | notADirectory
  | isADirectory
  | nameTooLong
  | other (reason : String)
  deriving DecidableEq, Repr

namespace FileError

/-- The reason, as the system words it. -/
def message : FileError → String
  | notFound => "No such file or directory (os error 2)"
  | notADirectory => "Not a directory (os error 20)"
  | isADirectory => "Is a directory (os error 21)"
  | nameTooLong => "File name too long (os error 36)"
  | other reason => reason

end FileError

/-- What a path leads to. -/
inductive FileNode
  | file (bytes : List UInt8)
  | directory
  deriving DecidableEq, Repr

/-- Files, by what paths lead to. -/
structure Files where
  openFile : String → Except FileError FileNode

/-- A file system: the files that are there, and those that are there after one more was made or emptied. -/
structure FileSystem where
  files : Files
  afterCreating : String → Except FileError Files

namespace Files

/-- The units in the files of a directory. A class without a file of its own has no unit. -/
def library (files : Files) (directory : String) : Library := fun className =>
  match files.openFile (SourcePath.join directory (SourcePath.unitName className)) with
  | .ok (.file bytes) => (Text.decodeUtf8 bytes).mapError UnitError.notText
  | _ => .error (.noUnit className)

end Files

/-- A file system in memory. Files and directories are known by the parts of their paths from the root. -/
structure FileTree where
  working : List String
  files : List (List String × List UInt8)
  directories : List (List String)

namespace FileTree

/-- The null device: an empty file that stays empty. -/
def nullDevice : List String := ["dev", "null"]

/-- The device that holds the standard input. -/
def inputDevice : List String := ["dev", "stdin"]

/-- The directories at the root of every system. -/
def rootDirectories : List (List String) :=
  ["bin", "dev", "etc", "home", "lib", "media", "mnt", "opt", "proc", "root", "run", "sbin", "srv", "sys", "tmp", "usr",
    "var"].map ([·])

/-- The tree with given files below an otherwise empty working directory. A path with a slash at its end is that of a
directory; the directories on the way to a file are there as well. -/
def ofFiles (working : List String) (entries : List (String × List UInt8)) : FileTree :=
  let placed := entries.map fun (path, bytes) => (SourcePath.endsInSlash path, working ++ SourcePath.parts path, bytes)
  { working
    files := (nullDevice, []) ::
      placed.filterMap fun (directory, place, bytes) => if directory then none else some (place, bytes)
    directories :=
      placed.filterMap (fun (directory, place, _) => if directory then some place else none)
        ++ placed.map (fun (_, place, _) => place.dropLast) ++ working :: rootDirectories }

/-- The tree with one more file, or with another content of the file that is there. -/
def withFile (t : FileTree) (place : List String) (bytes : List UInt8) : FileTree :=
  { t with files := (place, bytes) :: t.files }

/-- Directories are those that were named and all above them. -/
def isDirectory (t : FileTree) (place : List String) : Bool := t.directories.any fun d => place.isPrefixOf d

/-- What is found at a place. -/
def nodeAt? (t : FileTree) (place : List String) : Option FileNode :=
  if t.isDirectory place then some .directory else (t.files.lookup place).map .file

/-- The longest name that a part of a path may have, in bytes. -/
def longestName : Nat := 255

/-- The longest path, in bytes. -/
def longestPath : Nat := 4095

/-- One part further from a directory. -/
def enter (t : FileTree) (place : List String) (part : String) : Except FileError (List String) :=
  if !t.isDirectory place then .error (if (t.nodeAt? place).isSome then .notADirectory else .notFound)
  else if part = "." then .ok place
  else if part = ".." then .ok place.dropLast
  else if longestName < part.utf8ByteSize then .error .nameTooLong
  else .ok (place ++ [part])

/-- The place that some parts of a path lead to, whether or not something is there. -/
def follow (t : FileTree) (path : String) (steps : List String) : Except FileError (List String) :=
  steps.foldlM t.enter (if SourcePath.isAbsolute path then [] else t.working)

/-- Refuses what cannot be a path. -/
def checkLength (path : String) : Except FileError Unit :=
  if path = "" then .error .notFound
  else if longestPath < path.utf8ByteSize then .error .nameTooLong
  else .ok ()

/-- What a path leads to from the working directory. With a slash at its end it can only lead to a directory. -/
def openFile (t : FileTree) (path : String) : Except FileError FileNode := do
  checkLength path
  match t.nodeAt? (← t.follow path (SourcePath.steps path)) with
  | none => throw .notFound
  | some .directory => return .directory
  | some (.file bytes) => if SourcePath.endsInSlash path then throw .notADirectory else return .file bytes

/-- Makes an empty file, or empties the one that is there. The directory of the file has to be there. A slash at the end
of the path asks for a directory, which is refused whatever is found there. -/
def createFile (t : FileTree) (path : String) : Except FileError FileTree := do
  checkLength path
  let steps := SourcePath.steps path
  let directory ← t.enter (← t.follow path steps.dropLast) "."
  if SourcePath.endsInSlash path then throw .isADirectory
  let place ← t.enter directory (steps.getLast?.getD ".")
  if t.isDirectory place then throw .isADirectory
  return t.withFile place []

/-- The answers of the tree. -/
def toFiles (t : FileTree) : Files := ⟨t.openFile⟩

/-- The tree as a file system. -/
def toFileSystem (t : FileTree) : FileSystem := ⟨t.toFiles, fun path => (t.createFile path).map toFiles⟩

end FileTree

end Pron
