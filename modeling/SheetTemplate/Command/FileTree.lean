import SheetTemplate.Package.Basic
import SheetTemplate.Text.Cut

/-!
# Files of a command

What a command may read and where it may write. A `Disk` answers for single paths; a `FileTree` is a
directory given as a value, in which paths are followed name by name.
-/

namespace SheetTemplate

/-- What is found at a path. -/
inductive FileContent where
  | bytes (content : ByteArray)
  /-- A workbook file, as its package. -/
  | package (p : Package)
  | directory

/-- What a command may read, and where it may write. -/
structure Disk where
  find? : String → Option FileContent
  canWrite : String → Bool

namespace Disk

/-- The bytes of a file. Those of a workbook file are given as an archive of no interest. -/
def bytes? (disk : Disk) (path : String) : Option ByteArray :=
  match disk.find? path with
  | some (.bytes content) => some content
  | some (.package _) => some ⟨Package.emptyArchive.toArray⟩
  | _ => none

/-- The text in a file. An archive is text only while nothing is stored in it: the mode of a stored
file, which follows it in the directory of the archive, is not in UTF-8. -/
def text? (disk : Disk) (path : String) : Option String :=
  match disk.find? path with
  | some (.bytes content) => String.fromUTF8? content
  | some (.package p) =>
    if p.entries.isEmpty then String.fromUTF8? ⟨Package.emptyArchive.toArray⟩ else none
  | _ => none

end Disk

/-- Files by the names that lead to them. A directory exists if a file is somewhere below it. -/
structure FileTree where
  files : List (List String × FileContent) := []

namespace FileTree

/-- Whether names lead to a directory. -/
def isDirectory (t : FileTree) (names : List String) : Bool :=
  names.isEmpty || t.files.any fun (file, _) => names.isPrefixOf file && names != file

/-- Follows names from a directory; every name but the last has to be one of a directory. -/
def walk? (t : FileTree) (place : List String) : List String → Option (List String)
  | [] => some place
  | name :: names =>
    if !t.isDirectory place then none
    else if name = "" ∨ name = "." then t.walk? place names
    else if name = ".." then
      if place.isEmpty then none else t.walk? place.dropLast names
    else t.walk? (place ++ [name]) names

/-- The names in a relative path. -/
def names? (path : String) : Option (List String) :=
  match path.toList with
  | [] | '/' :: _ => none
  | cs => some ((Text.pieces '/' cs).map String.ofList)

/-- What is found at a path. -/
def find? (t : FileTree) (path : String) : Option FileContent := do
  let place ← t.walk? [] (← names? path)
  match t.files.lookup place with
  | some content => some content
  | none => if t.isDirectory place then some .directory else none

/-- The names that lead to a file at a path, whether it exists or not, in a directory that
exists. -/
def target? (t : FileTree) (path : String) : Option (List String) := do
  let names ← names? path
  let last ← names.getLast?
  if last = "" ∨ last = "." ∨ last = ".." then none
  let place ← t.walk? [] names.dropLast
  if t.isDirectory place && !t.isDirectory (place ++ [last]) then some (place ++ [last]) else none

/-- Writes a file. -/
def write (t : FileTree) (path : String) (content : FileContent) : FileTree :=
  match t.target? path with
  | some names => ⟨(names, content) :: t.files.filter (·.1 != names)⟩
  | none => t

/-- The tree as what a command may read and write. -/
def disk (t : FileTree) : Disk where
  find? := t.find?
  canWrite path := (t.target? path).isSome

/-- The tree with the given files. -/
def ofList (files : List (String × FileContent)) : FileTree :=
  ⟨files.map fun (path, content) => ((Text.pieces '/' path.toList).map String.ofList, content)⟩

end FileTree

end SheetTemplate
