import SheetTemplate.Command.FileTree
import SheetTemplate.Command.Json
import SheetTemplate.Text.Hexadecimal

/-!
# Package files

A workbook file lists the parts of its package as JSON: an array with a pair for each part, its name
and its bytes. Bytes that are a text stand as a string, and all others as an object whose only field
`hex` holds their hexadecimal digits. A file that lists no part is not a workbook file.
-/

namespace SheetTemplate.Command.PackageFile

open Text (hexBytes? hexPair)

/-- The bytes of a listed part. -/
def bytes? : Json → Option ByteArray
  | .string s => some s.toUTF8
  | .object [("hex", .string digits)] => (hexBytes? digits.toList).map (·.toByteArray)
  | _ => none

/-- One listed part. -/
def part? : Json → Option (String × ByteArray)
  | .array [.string name, bytes] => (bytes? bytes).map (name, ·)
  | _ => none

/-- The package that a file lists. -/
def package? (content : ByteArray) : Option Package := do
  match ← Json.parse? (← String.fromUTF8? content).toList with
  | .array [] => none
  | .array items => (items.mapM part?).map Package.ofList
  | _ => none

/-- What is found in a file. -/
def ofBytes (content : ByteArray) : FileContent :=
  match package? content with
  | some package => .package package
  | none => .bytes content

/-- The written form of a character of a string. -/
def escaped (c : Char) : List Char :=
  if c = '"' then ['\\', '"']
  else if c = '\\' then ['\\', '\\']
  else if c.toNat < 0x20 then ['\\', 'u', '0', '0'] ++ hexPair (UInt8.ofNat c.toNat)
  else [c]

/-- A string in quotes. -/
def quoted (s : String) : String := "\"" ++ String.ofList (s.toList.flatMap escaped) ++ "\""

/-- The written form of the bytes of a part. -/
def writtenBytes (content : ByteArray) : String :=
  match String.fromUTF8? content with
  | some s => quoted s
  | none => "\x7b\"hex\": " ++ quoted (String.ofList (content.toList.flatMap hexPair)) ++ "\x7d"

/-- The file that lists a package. -/
def written (package : Package) : String :=
  let parts := package.entries.map fun (name, content) =>
    "[" ++ quoted name ++ ", " ++ writtenBytes content ++ "]"
  "[" ++ ",\n".intercalate parts ++ "]\n"

end SheetTemplate.Command.PackageFile
