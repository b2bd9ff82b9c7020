/-
  The files that a run can see.

  * `Disk` holds files with their bytes, and directories;
  * `Disk.entry` is what stands at a path, and `Disk.writeFault?` tells why
    nothing can be written there;
  * `decodeText?` is the text of a file: UTF-8, with every kind of line end
    written as a line feed.
-/

namespace StyleBudget

/-! ## Paths -/

/-- The parts of a path between slashes, without empty ones and dots; a path
    that starts at the root has the slash as its first part. -/
def pathParts (path : String) : List String :=
  (if path.toList.head? == some '/' then ["/"] else [])
    ++ ((path.toList.splitOn '/').map String.ofList).filter fun part => part ≠ "" ∧ part ≠ "."

def baseName (path : String) : String := (pathParts path).getLast?.getD ""

/-- The pieces of a text that end before one of its slashes. -/
def beforeSlashes (seen : List Char) : List Char → List (List Char)
  | [] => []
  | '/' :: rest => seen.reverse :: beforeSlashes ('/' :: seen) rest
  | c :: rest => beforeSlashes (c :: seen) rest

/-- The paths of the directories on the way to a path. -/
def parentPaths (path : String) : List String :=
  ((beforeSlashes [] path.toList).map String.ofList).filter fun p => p ≠ ""

/-- The path ends with a slash, so only a directory can stand there. -/
def endsWithSlash (path : String) : Bool := path.toList.getLast? == some '/'

/-! ## Files and directories -/

/-- Files by their paths, and directories besides the current one, those above
    it and the root. -/
structure Disk where
  files : List (String × ByteArray) := []
  directories : List String := []

inductive Entry where
  | missing
  | directory
  | file (bytes : ByteArray)

/-- Why nothing can be written to a path. -/
inductive WriteFault where
  | noDirectory
  | notDirectory
  | isDirectory
  deriving DecidableEq, Repr

namespace Disk

/-- The file whose path has the given parts. -/
def file? (disk : Disk) (parts : List String) : Option ByteArray :=
  (disk.files.find? fun f => pathParts f.1 = parts).map Prod.snd

/-- The parts lead to the current directory or above it, to the root, to a
    directory, or part of the way to a file. -/
def isDirectory (disk : Disk) (parts : List String) : Bool :=
  parts.all (· == "..") || parts == ["/"]
    || disk.directories.any (fun d => pathParts d = parts)
    || disk.files.any fun f => parts.isPrefixOf (pathParts f.1) && parts ≠ pathParts f.1

def entry (disk : Disk) (path : String) : Entry :=
  let parts := pathParts path
  if path.isEmpty then .missing
  else if disk.isDirectory parts then .directory
  else if endsWithSlash path then .missing
  else
    match disk.file? parts with
    | some bytes => .file bytes
    | none => .missing

/-- Why nothing can be written to a path, if that is so. -/
def writeFault? (disk : Disk) (path : String) : Option WriteFault :=
  let parts := pathParts path
  let parents := (List.range parts.length).map parts.take
  if disk.isDirectory parts then some .isDirectory
  else
    match parents.find? fun parent => !disk.isDirectory parent with
    | none => none
    | some parent => if (disk.file? parent).isSome then some .notDirectory else some .noDirectory

end Disk

/-! ## Text in files -/

/-- A text in which every line end is a line feed. -/
def unifyLineEnds : List Char → List Char
  | '\r' :: '\n' :: rest => '\n' :: unifyLineEnds rest
  | '\r' :: rest => '\n' :: unifyLineEnds rest
  | c :: rest => c :: unifyLineEnds rest
  | [] => []

/-- The text that the bytes of a file write, if they are UTF-8. -/
def decodeText? (bytes : ByteArray) : Option (List Char) :=
  (String.fromUTF8? bytes).map fun s => unifyLineEnds s.toList

end StyleBudget
