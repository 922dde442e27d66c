/-
A directory tree held in memory, with the place in it where a program is run.

A place is the list of the names that lead to it from the root.  The way along a path is walked name
by name, so a path through something that is no directory leads nowhere, even if it turns back.
-/
import Diagrams.Program

namespace Diagrams

/-- A directory tree. -/
structure FileTree where
  /-- The place where the program is run. -/
  here : List Text := []
  /-- The places of the directories; the root needs no entry. -/
  directories : List (List Text) := []
  /-- The files with their places. -/
  files : List (List Text × List UInt8) := []

namespace FileTree

/-- The most bytes that a name may have. -/
def nameLimit : Nat := 255

/-- The most bytes that a path may have. -/
def pathLimit : Nat := 4095

/-- The place where a path starts. -/
def origin (tree : FileTree) (path : Text) : List Text :=
  if (Path.root path).isEmpty then tree.here else []

/-- The place one name further on.  Two points lead back, and at the root nowhere. -/
def advance (place : List Text) (name : Text) : List Text :=
  if name = ['.', '.'] then place.dropLast else place ++ [name]

/-- The place that a path leads to if there are directories all along it. -/
def place (tree : FileTree) (path : Text) : List Text :=
  (Path.components path).foldl advance (tree.origin path)

/-- The places on the way to a place, the place itself among them. -/
def wayTo (place : List Text) : List (List Text) :=
  (List.range place.length).map fun depth => place.take (depth + 1)

/-- Add a directory, together with those that lead to it. -/
def addDirectory (tree : FileTree) (path : Text) : FileTree :=
  { tree with directories := tree.directories ++ wayTo (tree.place path) }

/-- Add a file, together with the directories that lead to it. -/
def addFile (tree : FileTree) (path : Text) (bytes : List UInt8) : FileTree :=
  let place := tree.place path
  { tree with
    directories := tree.directories ++ wayTo place.dropLast
    files := tree.files ++ [(place, bytes)] }

/-- A tree with nothing in it but the directory where the program is run. -/
def ofHere (path : Text) : FileTree :=
  let tree := ({} : FileTree).addDirectory path
  { tree with here := tree.place path }

/-- What stands at the end of a way that starts in a directory. -/
def follow (tree : FileTree) : (place : List Text) → (way : List Text) → Entry
  | _, [] => .directory
  | place, name :: way =>
    let there := advance place name
    if nameLimit < name.string.utf8ByteSize then .tooLong
    else if name = ['.', '.'] || tree.directories.contains there then follow tree there way
    else match tree.files.lookup there, way with
      | some bytes, [] => .file bytes
      | _, _ => .missing

/-- What stands at a path. -/
def entry (tree : FileTree) (path : Text) : Entry :=
  if pathLimit < (Path.normal path).string.utf8ByteSize then .tooLong
  else tree.follow (tree.origin path) (Path.components path)

end FileTree

end Diagrams
