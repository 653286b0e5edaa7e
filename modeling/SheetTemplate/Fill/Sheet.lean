import SheetTemplate.Fill.Row
import SheetTemplate.Text.Percent

/-!
# Filling a sheet

A pass takes the rows of a sheet, fills them, puts them back, and then sees to what concerns the
sheet as a whole: its dimension, formulas, links and table headers. The parts it touched go back
into the package.
-/

namespace SheetTemplate.Fill

open Xml (Element)

/-- The rows of a sheet. -/
def sourceRows (sheet : Element) : List Element :=
  match sheet.child? "sheetData" with
  | some data => data.elements
  | none => []

/-- The heights that rows declare by their numbers, the last row first. -/
def declaredHeights (rows : List Element) : List (Nat × Decimal.Double) :=
  (rows.filterMap fun row => do
    let number ← (row.attr? "r").bind Text.natural32?
    let height ← Worksheet.rowHeight? row
    return (number, height)).reverse

/-- Extends the dimension of a sheet by inserted columns and rows. -/
def extendDimension (cols : Int) (rows : Nat) (sheet : Element) : Element :=
  if cols = 0 ∧ rows = 0 then sheet
  else
    sheet.mapChild "dimension" (Layout.moveRef fun range =>
      some { range with stop := range.stop.offset cols rows })

/-- Drops the shown value of a cell with a formula. -/
def dropCached (cell : Element) : Element :=
  if (cell.child? "f").isSome then cell.removeNamed "v" else cell

/-- Drops the shown values of all formulas. -/
def dropCachedValues (sheet : Element) : Element :=
  sheet.mapChild "sheetData" (·.mapNamed "row" (·.mapNamed "c" dropCached))

/-- Fills the placeholders of a link target, in its decoded form. -/
def fillTarget (values : Substitutions) (target : String) : String :=
  let decoded := String.ofList (Text.Percent.decodeText target.toList)
  let filled := splice values decoded
  if filled = decoded then target else String.ofList (Text.Percent.encode filled.toList)

/-- Fills the target of a link. -/
def fillLink (values : Substitutions) (rel : Element) : Element :=
  if Relationships.hasType "hyperlink" rel then
    match rel.attr? "Target" with
    | some target => rel.setAttr "Target" (fillTarget values target)
    | none => rel
  else rel

/-- Fills the targets of all links of a sheet. -/
def fillLinks (values : Substitutions) (sheet : Worksheet) : Worksheet :=
  { sheet with
    rels := sheet.rels.map (·.mapRoot (·.mapNamed "Relationship" (fillLink values))) }

/-- Fills the name of a table column. -/
def fillHeader (values : Substitutions) (column : Element) : Element :=
  match column.attr? "name" with
  | some name => column.setAttr "name" (splice values name)
  | none => column

namespace Pass

/-- The pass over a sheet before its first row. -/
def start (package : Package) (workbook : Workbook) (strings : StringTable) (types : ContentTypes)
    (info : SheetInfo) : Except Error Pass := do
  let sheet ← Worksheet.load package info
  let tables ← Table.loadAll package sheet
  let drawing ← Drawing.load? package sheet
  return { sheet, tables, drawing, strings, workbook, package, types }

/-- What concerns the sheet as a whole, once its rows are finished. -/
def finishSheet (given : Given) (p : Pass) : Pass :=
  let sheet := p.sheet.mapRoot fun root =>
    dropCachedValues (extendDimension p.maxColsInserted p.rowsInserted
      (root.mapChild "sheetData" (·.pushAll p.rows.toList)))
  { p with
    sheet := fillLinks given.values sheet
    tables := p.tables.map (·.mapColumns (fillHeader given.values)) }

/-- Writes the parts that a pass has touched. -/
def save (p : Pass) : Pass :=
  let package := p.sheet.save p.package
  let package := p.tables.foldl (fun package table => table.save package) package
  { p with package := match p.drawing with
      | some drawing => drawing.save package
      | none => package }

/-- Fills a sheet. -/
def run (options : FillOptions) (files : ImageFiles) (values : Substitutions) (p : Pass) :
    Except Failure Pass := do
  let rows := sourceRows p.sheet.doc.root
  let given : Given := { options, files, values, heights := declaredHeights rows }
  -- While rows are filled, the sheet has none; they come back when all are finished.
  let p := { p with sheet := p.sheet.mapRoot (·.mapChild "sheetData" Element.removeElements) }
  let p ← fillSourceRows given 0 p rows
  return (p.finishSheet given).save

end Pass

end SheetTemplate.Fill
