import SheetTemplate.Layout.Region
import SheetTemplate.Table

/-!
# Rows inserted below a row

Rows generated below a row move down what begins below it: merged regions, tables, defined names.
A merged region that begins on the row is repeated on every generated row. Where page breaks are
pushed down, manual breaks move as well, and a range of the sheet that reaches below the row is
stretched.
-/

namespace SheetTemplate.Layout

open Text (natural32? add32)
open Xml (Element)

/-- Rows inserted below a row of a sheet. -/
structure RowShift where
  /-- The row above the inserted ones, in the numbering of the sheet when they are inserted. -/
  anchor : Nat
  rows : Nat
  pushDownPageBreaks : Bool
  sheetName : String
deriving DecidableEq, Repr, Inhabited

namespace RowShift

/-- Where a range goes that moves as a whole. -/
def moved? (s : RowShift) (range : RangeRef) : Option RangeRef :=
  if s.anchor < range.start.row then some (range.offset 0 s.rows) else none

/-- Where the range of a defined name goes. -/
def movedName? (s : RowShift) (range : RangeRef) : Option RangeRef :=
  if s.anchor < range.start.row then some (range.offset 0 s.rows)
  else if s.pushDownPageBreaks ∧ s.anchor < range.stop.row ∧
      range.start.sheetName? = some s.sheetName then
    some { range with stop := range.stop.offset 0 s.rows }
  else none

/-- The copies of a merged region on the inserted rows. -/
def clones (s : RowShift) (merge : Element) : List Element :=
  match refRange? merge with
  | some range =>
    if range.start.row = s.anchor then
      (List.range' 1 s.rows).map fun (k : Nat) => merge.shallow.setAttr "ref" (range.offset 0 k).a1
    else []
  | none => []

/-- Moves and repeats merged regions, and counts them. -/
def shiftMerges (s : RowShift) (merges : Element) : Element :=
  let shifted := (merges.mapNamed "mergeCell" (moveRef s.moved?)).pushAll
    ((merges.named "mergeCell").flatMap s.clones)
  shifted.setAttr "count" (toString (shifted.countNamed "mergeCell"))

/-- Moves a manual page break below the row. -/
def shiftBreak (s : RowShift) (brk : Element) : Element :=
  match (brk.attr? "id").bind natural32? with
  | some id => if s.anchor < id then brk.setAttr "id" (toString (add32 id s.rows)) else brk
  | none => brk

/-- Moves the manual page breaks of a sheet, if they are pushed down. -/
def shiftBreaks (s : RowShift) (sheet : Element) : Element :=
  if s.pushDownPageBreaks then
    sheet.mapChild "rowBreaks" (·.mapNamed "brk" s.shiftBreak)
  else sheet

/-- Moves what a sheet refers to by address. -/
def shiftSheet (s : RowShift) (sheet : Element) : Element :=
  if s.rows = 0 then sheet else s.shiftBreaks (sheet.mapChild "mergeCells" s.shiftMerges)

/-- Moves a table below the row. -/
def shiftTable (s : RowShift) (table : Table) : Table :=
  if s.rows = 0 then table
  else
    match table.range?.bind s.moved? with
    | some range => table.setRange range
    | none => table

/-- Moves a defined name. -/
def shiftName (s : RowShift) (name : Element) : Element :=
  if s.rows = 0 then name else moveName s.movedName? name

end RowShift

end SheetTemplate.Layout
