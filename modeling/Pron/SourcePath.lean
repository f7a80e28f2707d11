/-!
# Paths of source files

A path is a text of parts with slashes between them. Source files are told by their extension.
-/

namespace Pron.SourcePath

/-- The extension of source files. -/
def extension : String := "pron"

/-- The parts of a path, without empty ones. -/
def steps (path : String) : List String := ((path.toList.splitOn '/').map String.ofList).filter (· ≠ "")

/-- The parts of a path, without those that stay where they are. -/
def parts (path : String) : List String := (steps path).filter (· ≠ ".")

/-- Whether a path has a slash at its end. -/
def endsInSlash (path : String) : Bool := path.toList.getLast? == some '/'

/-- A path is absolute when it starts with a slash. -/
def isAbsolute (path : String) : Bool := path.toList.head? == some '/'

/-- The path of a file in a directory. -/
def join (directory name : String) : String :=
  if isAbsolute name ∨ directory = "" then name
  else if endsInSlash directory then directory ++ name
  else directory ++ "/" ++ name

/-- What follows the last point of a name, when something stands before it. -/
def extensionOf? (name : List Char) : Option String :=
  let after := (name.reverse.takeWhile (· ≠ '.')).reverse
  if name.length ≤ after.length + 1 then none else some (String.ofList after)

/-- The extension of the last part of a path. -/
def extension? (path : String) : Option String :=
  match (parts path).getLast? with
  | none | some ".." => none
  | some name => extensionOf? name.toList

/-- Why a path is not one of a source file. -/
inductive Problem
  | noExtension
  | otherExtension
  deriving DecidableEq, Repr

/-- The text of a problem. -/
def Problem.message : Problem → String
  | noExtension => "missing file type, should be .pron"
  | otherExtension => "file type is not .pron"

/-- Refuses paths without the extension of source files. -/
def check (path : String) : Except Problem Unit :=
  match extension? path with
  | none => .error .noExtension
  | some e => if e = extension then .ok () else .error .otherExtension

/-- The name of the file with the unit for a class. -/
def unitName (className : String) : String := className ++ "." ++ extension

end Pron.SourcePath
