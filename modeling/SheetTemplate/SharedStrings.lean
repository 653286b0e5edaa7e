import SheetTemplate.Package.ContentTypes
import SheetTemplate.Package.Relationships
import SheetTemplate.StringTable
import SheetTemplate.Text.CodeEscape

/-!
# Shared strings

The part that holds the texts of a workbook. An entry whose text is still the one it was read with
is written back as it was, so that rich text survives; all other entries are plain. The part is
written for the first time only if it holds a text, and then linked and given a content type.
-/

namespace SheetTemplate

open Xml (Element Document)

/-- The shared strings with what is needed to write them back. -/
structure SharedStrings where
  path : String
  table : StringTable
  /-- The entries of the part as read, each with its text. -/
  read : List (String × Element)
  /-- The root without its entries. -/
  root : Element
  /-- Whether the package had the part. -/
  existed : Bool

namespace SharedStrings

/-- The part that holds the shared strings if the workbook does not say. -/
def defaultPath : String := "xl/sharedStrings.xml"

/-- The namespace of the part. -/
def xmlns : String := "http://schemas.openxmlformats.org/spreadsheetml/2006/main"

/-- The text that one child adds to its entry: plain text, or the text of a run. -/
def partText (child : Element) : String :=
  if child.name = "t" then child.text
  else if child.name = "r" then String.join ((child.named "t").map Element.text)
  else ""

/-- The text of an entry. -/
def entryText (entry : Element) : String :=
  let written := String.join (entry.elements.map partText)
  String.ofList (Text.CodeEscape.decode written.toList)

/-- A plain entry with a text. -/
def newEntry (text : String) : Element :=
  .ofChildren "si" [] [{
    name := "t"
    attributes := [("xml:space", "preserve")]
    children := [.text (String.ofList (Text.CodeEscape.encode text.toList))] }]

/-- The shared strings of a package without any. -/
def empty (path : String) : SharedStrings :=
  { path, table := {}, read := [], existed := false
    root := { name := "sst", attributes := [("xmlns", xmlns)] } }

/-- The shared strings that a part holds. -/
def ofDocument (path : String) (doc : Document) : SharedStrings :=
  let read := (doc.root.named "si").map fun entry => (entryText entry, entry)
  { path, read, existed := true
    table := .ofList (read.map (·.1))
    root := doc.root.removeElements }

/-- Reads the shared strings at a path, or begins new ones. -/
def load (package : Package) : Option String → Except Error SharedStrings
  | none => .ok (empty defaultPath)
  | some path =>
    (package.xml? path).map fun
      | some doc => ofDocument path doc
      | none => empty path

/-- The entries to write for texts: the entry read in the same slot if it has the text, else a plain
entry. -/
def entries : List (String × Element) → List String → List Element
  | _, [] => []
  | [], text :: texts => newEntry text :: entries [] texts
  | (readText, entry) :: read, text :: texts =>
    (if readText = text then entry else newEntry text) :: entries read texts

/-- The part to write. -/
def document (s : SharedStrings) : Document :=
  let count := toString s.table.size
  { root := ((s.root.pushAll (entries s.read s.table.toList)).setAttr "count" count).setAttr
      "uniqueCount" count }

/-- Whether there is anything to write. -/
def isWritten (s : SharedStrings) : Bool := s.existed || s.table.size != 0

/-- Writes the part. -/
def write (s : SharedStrings) (package : Package) : Package :=
  if s.isWritten then package.setXml s.path s.document else package

/-- The target by which the workbook links the part. -/
def target (s : SharedStrings) : String :=
  match Text.after? "xl/".toList s.path.toList with
  | some r => String.ofList r
  | none => s.path

/-- Links a part that is written for the first time and gives it a content type. -/
def register (s : SharedStrings) (rels : Relationships) (types : ContentTypes) :
    Except Error (Relationships × ContentTypes) :=
  if s.existed || !s.isWritten then .ok (rels, types)
  else do
    let rels ← if (rels.ofType? "sharedStrings").isSome then pure rels
      else (rels.add Relationships.sharedStringsType s.target).map (·.1)
    return (rels, types.ensureOverride ("/" ++ s.path) ContentTypes.sharedStrings)

end SharedStrings

end SheetTemplate
