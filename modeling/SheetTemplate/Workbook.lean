import SheetTemplate.Package.ContentTypes
import SheetTemplate.Package.Relationships

/-!
# Workbooks

The workbook part lists the sheets and the defined names, and its relationships say where the sheets
and the shared strings are. Sheets without a name, an id or a target are not listed.
-/

namespace SheetTemplate

open Text (natural32?)
open Xml (Element Document)

/-- A sheet as the workbook lists it. -/
structure SheetInfo where
  name : String
  sheetId : Option Nat
  relId : String
  /-- The part of the sheet. -/
  path : String
deriving DecidableEq, Repr, Inhabited

/-- How a sheet is asked for. -/
inductive SheetSelector where
  /-- By name; a numeral that is no name counts as an id. -/
  | name (text : String)
  /-- By id, or else by position from zero. -/
  | id (n : Nat)
deriving DecidableEq, Repr, Inhabited

/-- The text shown for a selector. -/
def SheetSelector.text : SheetSelector → String
  | .name s => s
  | .id n => "#" ++ toString n

/-- The workbook part with its relationships. -/
structure Workbook where
  path : String
  doc : Document
  rels : Relationships
  sheets : List SheetInfo
deriving DecidableEq, Inhabited

namespace Workbook

/-- The part that holds the workbook if the package does not say. -/
def defaultPath : String := "xl/workbook.xml"

/-- The part that the relationships of the package name as the workbook. -/
def pathIn (package : Package) : Except Error String :=
  (Relationships.load? package "_rels/.rels").map fun rels =>
    (((rels.bind (·.ofType? "officeDocument")).bind (·.attr? "Target")).map
      (PartPath.resolve "")).getD defaultPath

/-- A sheet entry with a name, an id and a target. -/
def sheetInfo? (path : String) (rels : Relationships) (entry : Element) : Option SheetInfo := do
  let name ← entry.attr? "name"
  let relId ← entry.attr? "r:id"
  let target ← rels.target? relId
  return { name, relId, sheetId := (entry.attr? "sheetId").bind natural32?
           path := PartPath.resolve path target }

/-- The sheets that a workbook part lists. -/
def listSheets (path : String) (doc : Document) (rels : Relationships) : List SheetInfo :=
  match doc.root.child? "sheets" with
  | some sheets => (sheets.named "sheet").filterMap (sheetInfo? path rels)
  | none => []

/-- Reads the workbook of a package. -/
def load (package : Package) : Except Error Workbook := do
  let path ← pathIn package
  let doc ← package.requireXml path
  -- Without relationships no sheet can be found, so a workbook has to have them.
  match ← Relationships.load? package (PartPath.relationshipsOf path) with
  | some rels => return { path, doc, rels, sheets := listSheets path doc rels }
  | none => throw (.missingPart (PartPath.relationshipsOf path))

/-- Writes the workbook and its relationships. -/
def save (w : Workbook) (package : Package) : Package :=
  w.rels.save (package.setXml w.path w.doc)

/-- The sheet with an id, or else at a position. -/
def sheetById? (w : Workbook) (n : Nat) : Option SheetInfo :=
  (w.sheets.find? (·.sheetId == some n)).or w.sheets[n]?

/-- The sheet that is asked for, if there is one. -/
def sheet? (w : Workbook) : SheetSelector → Option SheetInfo
  | .name s => (w.sheets.find? (·.name == s)).or ((natural32? s).bind w.sheetById?)
  | .id n => w.sheetById? n

/-- The sheet that is asked for. -/
def findSheet (w : Workbook) (selector : SheetSelector) : Except Error SheetInfo :=
  match w.sheet? selector with
  | some info => .ok info
  | none => .error (.sheetNotFound selector.text)

/-- The defined names. -/
def definedNames (w : Workbook) : List Element :=
  match w.doc.root.child? "definedNames" with
  | some names => names.named "definedName"
  | none => []

/-- Changes every defined name. -/
def mapNames (w : Workbook) (f : Element → Element) : Workbook :=
  { w with doc.root := w.doc.root.mapChild "definedNames" (·.mapNamed "definedName" f) }

/-- The part that the workbook links with a type. -/
def linked? (w : Workbook) (suffix : String) : Option String :=
  ((w.rels.ofType? suffix).bind (·.attr? "Target")).map (PartPath.resolve w.path)

/-- The part of the shared strings, if the workbook links one. -/
def sharedStringsPath? (w : Workbook) : Option String := w.linked? "sharedStrings"

/-- Asks for a calculation when the workbook is opened. -/
def requestCalculation (w : Workbook) : Workbook :=
  { w with doc.root := w.doc.root.mapChild "calcPr" (·.setAttr "fullCalcOnLoad" "1") }

/-- Drops the order of calculation, which no longer holds once cells have moved, and asks for a new
calculation. -/
def dropCalcChain (w : Workbook) (package : Package) (types : ContentTypes) :
    Workbook × Package × ContentTypes :=
  match w.linked? "calcChain" with
  | some chain =>
    ({ w with rels := w.rels.removeType "calcChain" }.requestCalculation, package.remove chain,
      types.removeOverride ("/" ++ chain))
  | none => (w.requestCalculation, package, types)

end Workbook

end SheetTemplate
