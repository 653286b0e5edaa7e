import SheetTemplate.Placeholder
import SheetTemplate.Reference.Cell
import SheetTemplate.StringTable
import SheetTemplate.Value
import SheetTemplate.Xml.Tree

/-!
# Contents of cells

How a value gets into a cell. A cell shows a formula, a truth value, a number, or a text of the
string table; what it showed before is replaced, and its other attributes and children stay.

`splice` puts values into the placeholders of a text, one placeholder after another.
-/

namespace SheetTemplate.Fill

open Text (replaceAll)
open Xml (Element)

/-- Sets the shown value of a cell, in its first value element or a new one at the end. -/
def setShown (cell : Element) (text : String) : Element :=
  if (cell.child? "v").isSome then cell.mapChild "v" (·.setText text)
  else cell.push (.ofText "v" text)

/-- Shows a text of the string table in a cell. -/
def insertText (table : StringTable) (cell : Element) (text : String) : StringTable × Element :=
  let (table, slot) := table.index text
  (table, setShown (cell.setAttr "t" "s") (toString slot))

/-- Shows a formula in a cell, to be calculated when the workbook is opened. -/
def insertFormula (cell : Element) (expression : String) : Element :=
  (((cell.removeAttr "t").removeNamed "v").removeNamed "f").insert 0 (.ofText "f" expression)

/-- Shows a value in a cell. -/
def insertValue (table : StringTable) (cell : Element) (value : Value) : StringTable × Element :=
  match value.formula? with
  | some expression => (table, insertFormula cell expression)
  | none =>
    match value with
    | .bool b => (table, setShown (cell.setAttr "t" "b") (if b then "1" else "0"))
    | .number x => (table, setShown (cell.removeAttr "t") (Decimal.number x))
    | .date d => (table, setShown (cell.removeAttr "t") (Decimal.number d.serial))
    | other => insertText table cell other.toText

/-- The text that a placeholder stands for inside other text. -/
def spliceText (values : Substitutions) (p : Placeholder) : String :=
  ((values.get? p.path).map Value.toText).getD ""

/-- Puts a text in place of a placeholder, wherever it stands. -/
def spliceOne (values : Substitutions) (text : String) (p : Placeholder) : String :=
  String.ofList (replaceAll p.text.toList (spliceText values p).toList text.toList)

/-- Puts values in place of the placeholders that a text has, from left to right. -/
def splice (values : Substitutions) (text : String) : String :=
  (Placeholder.extract text).foldl (spliceOne values) text

/-- The column that a cell is sorted by: what is no cell comes last, and a cell whose reference
cannot be read first. -/
def sortColumn (cell : Element) : Nat :=
  if cell.name = "c" then (((cell.attr? "r").bind CellRef.parse?).map CellRef.col).getD 0
  else Text.max32

/-- Sorts cells by column; cells of one column keep their order. -/
def sortCells (cells : List Element) : List Element :=
  cells.mergeSort fun a b => sortColumn a ≤ sortColumn b

/-- Moves the end of the columns that a row declares. -/
def widenSpans (row : Element) (cols : Int) : Element :=
  let widened : Option String := do
    let spans ← row.attr? "spans"
    let (start, stop) ← Text.cutFirst? ':' spans.toList
    let stop ← Text.integer64? stop
    return String.ofList start ++ ":" ++ toString (max (stop + cols) 1)
  match widened with
  | some spans => row.setAttr "spans" spans
  | none => row

end SheetTemplate.Fill
