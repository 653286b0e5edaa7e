import SheetTemplate.Decimal.Read
import SheetTemplate.Workbook

/-!
# Worksheets

A worksheet part with its relationships. It knows the measures of its columns and rows, and takes a
drawing at the place that the order of its elements prescribes.
-/

namespace SheetTemplate

open Decimal (Double)
open Text (natural32?)
open Xml (Element Document)

/-- The double that a text denotes. -/
def readDouble? (s : String) : Option Double := Decimal.double? s.toList

/-- A worksheet and its relationships, if they exist and can be read. -/
structure Worksheet where
  name : String
  path : String
  doc : Document
  rels : Option Relationships
deriving DecidableEq, Inhabited

namespace Worksheet

/-- The width of a column for which the sheet gives none, in characters. -/
def defaultColWidth : Double := .nearestDecimal false 9140625 (-6)

/-- The height of a row for which the sheet gives none, in points. -/
def standardRowHeight : Double := .nearest false 15 1

/-- The elements of a worksheet that come after its drawing. -/
def afterDrawing : List String :=
  ["legacyDrawing", "legacyDrawingHF", "drawingHF", "picture", "oleObjects", "controls",
    "webPublishItems", "tableParts", "extLst"]

/-- Reads a sheet. Relationships that cannot be read count as none. -/
def load (package : Package) (info : SheetInfo) : Except Error Worksheet :=
  (package.requireXml info.path).map fun doc =>
    { name := info.name, path := info.path, doc
      rels := ((Relationships.load? package (PartPath.relationshipsOf info.path)).toOption).join }

/-- Writes the sheet and its relationships. -/
def save (w : Worksheet) (package : Package) : Package :=
  let package := package.setXml w.path w.doc
  match w.rels with
  | some rels => rels.save package
  | none => package

/-- Changes the root. -/
def mapRoot (w : Worksheet) (f : Element → Element) : Worksheet :=
  { w with doc.root := f w.doc.root }

/-- The sheet with relationships, begun if the package has no part for them; none if there is a
part that cannot be read. -/
def withRels? (w : Worksheet) (package : Package) : Option Worksheet :=
  let path := PartPath.relationshipsOf w.path
  if w.rels.isSome then some w
  else if package.contains path then none
  else some { w with rels := some (.empty path) }

/-- The id of the drawing. -/
def drawingId? (w : Worksheet) : Option String :=
  (w.doc.root.child? "drawing").bind (·.attr? "r:id")

/-- Adds a drawing before the elements that have to follow it. -/
def attachDrawing (w : Worksheet) (id : String) : Worksheet :=
  w.mapRoot fun root =>
    let place := root.children.findIdx? (·.isElement (afterDrawing.contains ·.name))
    root.insert (place.getD root.children.length)
      { name := "drawing", attributes := [("r:id", id)] }

/-- A number that the format properties give. -/
def formatNumber? (w : Worksheet) (key : String) : Option Double :=
  ((w.doc.root.child? "sheetFormatPr").bind (·.attr? key)).bind readDouble?

/-- The width that an entry gives for a column it covers. -/
def entryWidth? (col : Nat) (entry : Element) : Option Double := do
  let first ← (entry.attr? "min").bind natural32?
  let last ← (entry.attr? "max").bind natural32?
  if first ≤ col ∧ col ≤ last then (entry.attr? "width").bind readDouble? else none

/-- The width of a column in characters. -/
def columnWidth (w : Worksheet) (col : Nat) : Double :=
  let given := (w.doc.root.child? "cols").bind fun cols =>
    (cols.named "col").findSome? (entryWidth? col)
  (given.or (w.formatNumber? "defaultColWidth")).getD defaultColWidth

/-- The height in points of a row that gives none. -/
def defaultRowHeight (w : Worksheet) : Double :=
  (w.formatNumber? "defaultRowHeight").getD standardRowHeight

/-- The height in points that a row gives. -/
def rowHeight? (row : Element) : Option Double := (row.attr? "ht").bind readDouble?

end Worksheet

end SheetTemplate
