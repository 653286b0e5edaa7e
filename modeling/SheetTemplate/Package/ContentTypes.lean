import SheetTemplate.Package.Basic

/-!
# Content types

Every part has a content type, by its name (an override) or by the extension of its name (a
default). Entries are added only where they are missing; defaults stand before overrides.
-/

namespace SheetTemplate

open Xml (Element Document)

/-- The content types of a package. -/
structure ContentTypes where
  doc : Document
deriving DecidableEq, Inhabited

namespace ContentTypes

/-- The content type of drawings. -/
def drawing : String := "application/vnd.openxmlformats-officedocument.drawing+xml"

/-- The content type of relationships. -/
def relationships : String := "application/vnd.openxmlformats-package.relationships+xml"

/-- The content type of shared strings. -/
def sharedStrings : String :=
  "application/vnd.openxmlformats-officedocument.spreadsheetml.sharedStrings+xml"

/-- Reads the content types of a package. -/
def load (package : Package) : Except Error ContentTypes :=
  (package.requireXml Package.contentTypesPart).map fun doc => { doc }

/-- Writes the content types. -/
def save (c : ContentTypes) (package : Package) : Package :=
  package.setXml Package.contentTypesPart c.doc

/-- Changes the root. -/
def mapRoot (c : ContentTypes) (f : Element → Element) : ContentTypes :=
  { doc := { c.doc with root := f c.doc.root } }

/-- Whether two extensions are equal but for the case of letters. -/
def sameExtension (a b : String) : Bool := a.toList.map Char.toLower == b.toList.map Char.toLower

/-- Whether there is a default for an extension. -/
def hasDefault (c : ContentTypes) (extension : String) : Bool :=
  (c.doc.root.named "Default").any fun d => (d.attr? "Extension").any (sameExtension · extension)

/-- Whether there is an override for a part, named from the root. -/
def hasOverride (c : ContentTypes) (part : String) : Bool :=
  (c.doc.root.named "Override").any (·.attr? "PartName" == some part)

/-- Adds a default for an extension, unless there is one. -/
def ensureDefault (c : ContentTypes) (extension type : String) : ContentTypes :=
  if c.hasDefault extension then c
  else
    c.mapRoot fun root =>
      root.insert ((root.position? "Override").getD root.children.length)
        { name := "Default", attributes := [("Extension", extension), ("ContentType", type)] }

/-- Adds an override for a part, unless there is one. -/
def ensureOverride (c : ContentTypes) (part type : String) : ContentTypes :=
  if c.hasOverride part then c
  else
    c.mapRoot (·.push
      { name := "Override", attributes := [("PartName", part), ("ContentType", type)] })

/-- Removes the override for a part. -/
def removeOverride (c : ContentTypes) (part : String) : ContentTypes :=
  c.mapRoot (·.removeWhere fun e => e.name == "Override" && e.attr? "PartName" == some part)

end ContentTypes

end SheetTemplate
