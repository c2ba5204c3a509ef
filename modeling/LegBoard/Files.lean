/-!
Files that a run can read. A tree holds files and directories below a working directory. Outside of
it there are only the directories around it, so a path that leaves the working directory, or is
absolute, finds no file. A path is walked part by part, and the first part that cannot be followed
decides how reading fails.
-/
namespace LegBoard

/-- Why a file cannot be read as text. -/
inductive ReadError where
  | notFound
  | isDirectory
  /-- A file stands where the path needs a directory. -/
  | notDirectory
  /-- The path holds a NUL. -/
  | invalidPath
  /-- The content is not UTF-8. -/
  | notText
deriving DecidableEq, Repr

/-- The files and directories below a working directory. The directories that lead to either are
there without being listed. -/
structure Files where
  files : List (List String × ByteArray) := []
  directories : List (List String) := []

namespace Files

/-- The parts of a path. Repeated slashes count as one. -/
def parts (path : String) : List String :=
  ((path.toList.splitOnP (· == '/')).filter (· ≠ [])).map String.ofList

def addFile (files : Files) (path : String) (content : ByteArray) : Files :=
  { files with files := files.files ++ [(parts path, content)] }

def addDirectory (files : Files) (path : String) : Files :=
  { files with directories := files.directories ++ [parts path] }

/-- Where a walk has come to. -/
inductive Place where
  | directory (path : List String)
  | file (content : ByteArray)
  /-- A directory that the working directory lies in. No part of a path leads on from there to a
  file, nor back. -/
  | outside

def isDirectory (files : Files) (path : List String) : Bool :=
  path.isEmpty || files.directories.any path.isPrefixOf ||
    files.files.any fun file => path.isPrefixOf file.1.dropLast

def content? (files : Files) (path : List String) : Option ByteArray :=
  (files.files.find? fun file => file.1 == path).map Prod.snd

/-- One part of a path further. -/
def follow (files : Files) (place : Place) (part : String) : Except ReadError Place :=
  match place with
  | .file _ => .error .notDirectory
  | .outside => if part = "." ∨ part = ".." then .ok .outside else .error .notFound
  | .directory path =>
    if part = "." then .ok place
    else if part = ".." then .ok (if path.isEmpty then .outside else .directory path.dropLast)
    else
      let path := path ++ [part]
      match files.content? path with
      | some content => .ok (.file content)
      | none => if files.isDirectory path then .ok (.directory path) else .error .notFound

def readBytes (files : Files) (path : String) : Except ReadError ByteArray := do
  let cs := path.toList
  if cs.contains '\x00' then .error .invalidPath
  else if cs.isEmpty then .error .notFound
  else
    let start : Place := if cs.head? = some '/' then .outside else .directory []
    match ← (parts path).foldlM files.follow start with
    | .file content =>
      if cs.getLast? = some '/' then .error .notDirectory else .ok content
    | _ => .error .isDirectory

def readText (files : Files) (path : String) : Except ReadError String := do
  match String.fromUTF8? (← files.readBytes path) with
  | some text => .ok text
  | none => .error .notText

end Files

end LegBoard
