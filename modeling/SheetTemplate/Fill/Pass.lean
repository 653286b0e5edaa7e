import SheetTemplate.Drawing
import SheetTemplate.Fill.Content
import SheetTemplate.Fill.Options
import SheetTemplate.Layout.Columns
import SheetTemplate.Layout.Rows
import SheetTemplate.SharedStrings
import SheetTemplate.Table

/-!
# The state of a pass

A pass fills one sheet. `Pass` is all it changes: the sheet with its tables and drawing, the string
table, the workbook, the package, and the rows finished so far. `Given` is what stays the same.
A pass that fails tells in which state it was left, so that what it changed can be undone.
-/

namespace SheetTemplate.Fill

open Xml (Element)

/-- A picture that was left out, and why. -/
structure SkippedImage where
  source : ImageSource
  error : Error

/-- What a pass is given. -/
structure Given where
  options : FillOptions
  files : ImageFiles
  values : Substitutions
  /-- The heights that the source rows declare by their numbers, the last row first. -/
  heights : List (Nat × Decimal.Double)

/-- What a pass changes. -/
structure Pass where
  sheet : Worksheet
  tables : List Table
  drawing : Option Drawing
  strings : StringTable
  workbook : Workbook
  package : Package
  types : ContentTypes
  /-- The finished rows in order. -/
  rows : Array Element := #[]
  rowsInserted : Nat := 0
  /-- The largest number of columns inserted on one row. -/
  maxColsInserted : Int := 0
  skipped : List SkippedImage := []

/-- Why a pass ended early, and the state it was left in. -/
structure Failure where
  error : Error
  left : Pass

/-- What is known of the row at hand. -/
structure RowState where
  /-- The cells that are finished. -/
  cells : List Element := []
  /-- The columns inserted so far; fewer than none where a list without items took its cell away. -/
  colsInserted : Int := 0
  /-- The rows generated below this one, shared by all its placeholders. -/
  newRows : List Element := []
  /-- The columns of placeholders that generate rows. -/
  tableCols : List Nat := []

namespace Pass

/-- Ends a pass early. -/
def fail (p : Pass) (error : Error) : Failure := ⟨error, p⟩

/-- Runs a step that may fail. -/
def tryStep (p : Pass) (step : Except Error α) : Except Failure α := step.mapError p.fail

/-- Shows a value in a cell. -/
def insert (p : Pass) (cell : Element) (value : Value) : Pass × Element :=
  let (strings, cell) := insertValue p.strings cell value
  ({ p with strings }, cell)

/-- Moves what refers to cells right of a cell, for columns inserted there. -/
def shiftRight (p : Pass) (anchor : CellRef) (cols : Int) : Pass :=
  { p with
    sheet := p.sheet.mapRoot (Layout.shiftMergesRight anchor cols)
    workbook := p.workbook.mapNames (Layout.shiftNameRight anchor cols) }

/-- Moves what refers to cells below a row, for rows inserted there. -/
def shiftDown (p : Pass) (shift : Layout.RowShift) : Pass :=
  { p with
    sheet := p.sheet.mapRoot shift.shiftSheet
    tables := p.tables.map shift.shiftTable
    workbook := p.workbook.mapNames shift.shiftName }

/-- The height in points of a row, in the numbering of the result. Rows below the one at hand still
have their source numbers. -/
def rowHeight (given : Given) (p : Pass) (row : Nat) : Decimal.Double :=
  let isRow (e : Element) : Bool := (e.attr? "r").bind Text.natural32? == some row
  -- Of two rows with one number the last counts, as among the source rows.
  let height :=
    match p.rows.toList.reverse.find? isRow with
    | some e => Worksheet.rowHeight? e
    | none => if p.rowsInserted ≤ row then given.heights.lookup (row - p.rowsInserted) else none
  height.getD p.sheet.defaultRowHeight

end Pass

end SheetTemplate.Fill
