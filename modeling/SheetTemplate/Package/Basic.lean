import SheetTemplate.Keyed
import SheetTemplate.Text.Numeral
import SheetTemplate.Xml.Reader
import SheetTemplate.Xml.Writer
import SheetTemplate.Text.Cut

/-!
# Packages

A package is a list of named parts in archive order. `set` keeps the place of a part that exists
and adds a new one at the end; parts nobody sets pass through untouched.
-/

namespace SheetTemplate

open Text (after? natural? max32 add32)

/-- The parts of a workbook file. -/
structure Package where
  entries : List (String × ByteArray) := []
deriving Inhabited

namespace Package

/-- The bytes of a part. -/
def get? (p : Package) (name : String) : Option ByteArray := p.entries.lookup name

/-- Whether a part exists. -/
def contains (p : Package) (name : String) : Bool := p.entries.any (·.1 == name)

/-- The names of all parts. -/
def names (p : Package) : List String := p.entries.map (·.1)

/-- Sets the bytes of a part. -/
def set (p : Package) (name : String) (bytes : ByteArray) : Package :=
  ⟨Keyed.set name bytes p.entries⟩

/-- A part that is set has its bytes. -/
@[simp]
theorem get?_set_self (p : Package) (name : String) (bytes : ByteArray) :
    (p.set name bytes).get? name = some bytes := Keyed.lookup_set_self ..

/-- Setting a part leaves all others as they are. -/
theorem get?_set_of_ne (p : Package) {name other : String} (h : other ≠ name) (bytes : ByteArray) :
    (p.set name bytes).get? other = p.get? other := Keyed.lookup_set_of_ne h ..

/-- Removes a part. -/
def remove (p : Package) (name : String) : Package := ⟨p.entries.filter (·.1 != name)⟩

/-- The package with the given parts; a repeated name replaces the bytes at its first place. -/
def ofList (entries : List (String × ByteArray)) : Package :=
  entries.foldl (fun p (name, bytes) => p.set name bytes) {}

/-- Reads a part, if it exists. -/
def xml? (p : Package) (name : String) : Except Error (Option Xml.Document) :=
  match p.get? name with
  | some bytes => (Xml.Document.parse bytes).map some
  | none => .ok none

/-- Reads a part that has to exist. -/
def requireXml (p : Package) (name : String) : Except Error Xml.Document :=
  match p.get? name with
  | some bytes => Xml.Document.parse bytes
  | none => .error (.missingPart name)

/-- Writes a part. -/
def setXml (p : Package) (name : String) (doc : Xml.Document) : Package := p.set name doc.toBytes

/-- The number that a part of a numbered family has: the digits after `stem`. -/
def fileIndex? (stem name : String) : Option Nat :=
  (after? stem.toList name.toList).bind fun r => natural? max32 (r.takeWhile Char.isDigit)

/-- The largest number in a family of parts, zero if there is none. -/
def lastIndex (p : Package) (stem : String) : Nat :=
  (p.names.filterMap (fileIndex? stem)).foldl max 0

/-- The next number in a family of parts. -/
def nextIndex (p : Package) (stem : String) : Nat := add32 (p.lastIndex stem) 1

/-- The name of the part that lists content types. -/
def contentTypesPart : String := "[Content_Types].xml"

/-- Whether an archive entry is a directory. -/
def isDirectory (name : String) : Bool := name.toList.getLast? == some '/'

/-- The package in an archive with the given entries. Directories are left out. -/
def ofArchive (entries : List (String × ByteArray)) : Except Error Package :=
  if entries.any (·.1 == contentTypesPart) then
    .ok ⟨entries.filter (!isDirectory ·.1)⟩
  else .error (.invalidFormat .noContentTypes)

/-- The package as it comes back from an archive it was written to. -/
def reopen (p : Package) : Except Error Package := ofArchive p.entries

/-- The end record of an archive without entries. -/
def emptyArchive : List UInt8 := [0x50, 0x4B, 0x05, 0x06] ++ List.replicate 18 0

/-- The package in bytes that hold no entry: the empty archive has no content types, and all other
bytes are no archive. -/
def ofBytes (bytes : ByteArray) : Except Error Package :=
  if bytes.toList = emptyArchive then ofArchive [] else .error .archive

end Package

end SheetTemplate
