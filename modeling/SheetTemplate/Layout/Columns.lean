import SheetTemplate.Layout.Region

/-!
# Columns inserted on a row

A list laid out to the right of a cell moves what stands further right on the same row: merged
regions and defined names that begin there move as a whole. A list without items moves them left.
-/

namespace SheetTemplate.Layout

open Xml (Element)

/-- Where a range goes when columns are inserted at a cell. -/
def movedRight? (anchor : CellRef) (cols : Int) (range : RangeRef) : Option RangeRef :=
  if cols ≠ 0 ∧ range.start.row = anchor.row ∧ anchor.col < range.start.col then
    some (range.offset cols 0)
  else none

/-- Moves the merged regions of a sheet for columns inserted at a cell. -/
def shiftMergesRight (anchor : CellRef) (cols : Int) (sheet : Element) : Element :=
  sheet.mapChild "mergeCells" (·.mapNamed "mergeCell" (moveRef (movedRight? anchor cols)))

/-- Moves a defined name for columns inserted at a cell. -/
def shiftNameRight (anchor : CellRef) (cols : Int) (name : Element) : Element :=
  moveName (movedRight? anchor cols) name

end SheetTemplate.Layout
