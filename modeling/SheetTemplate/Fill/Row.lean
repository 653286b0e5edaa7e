import SheetTemplate.Fill.Expansion
import SheetTemplate.Text.Blank

/-!
# Rows of a pass

Source rows are filled one after another. A row gets its number from the rows generated above it and
each of its cells its column from the columns inserted left of it. Once its cells are done, the row
and the rows generated below it are finished, and whatever refers to cells further down moves.
-/

namespace SheetTemplate.Fill

open Text (natural? natural32? low32 add32 max64 trim)
open Xml (Element)

/-- The slot of the string table that a cell shows. -/
def shownSlot? (cell : Element) : Option Nat :=
  if cell.attr? "t" = some "s" then
    (cell.child? "v").bind fun v => natural? max64 (trim v.text.toList)
  else none

/-- The text of the string table that a cell shows. -/
def shownText? (strings : StringTable) (cell : Element) : Option String :=
  (shownSlot? cell).bind strings.get?

namespace Pass

/-- Counts columns inserted at a cell and moves what stands right of it. -/
def insertColumns (p : Pass) (state : RowState) (cell : CellRef) (cols : Int) : Pass × RowState :=
  if cols = 0 then (p, state)
  else (p.shiftRight cell cols, { state with colsInserted := state.colsInserted + cols })

/-- Fills a cell that holds nothing but a placeholder. -/
def fillWhole (given : Given) (p : Pass) (state : RowState) (row element : Element)
    (cell : CellRef) (token : Placeholder) : Except Failure (Pass × RowState) :=
  match token.kind, given.values.get? token.name with
  | .table, some (.list items) => do
    -- The sheet gets its drawing even if no element has a picture.
    let p ← if token.wantsImage then p.ensureDrawing given else pure p
    let state := { state with tableCols := state.tableCols ++ [cell.col] }
    let (p, state, filled, cols) ← p.expandDown given state row element cell token items
    let (p, state) := p.insertColumns state cell cols
    return (p, { state with cells := state.cells ++ filled.toList })
  | .normal, some (.list items) =>
    let (p, state) := p.expandRight state element cell items
    .ok (p.insertColumns state cell (netColumns items))
  | .image, _ => do
    let value := (given.values.get? token.path).getD .empty
    let (p, filled) ← p.placePicture given element cell value
    return (p, { state with cells := state.cells ++ [filled] })
  | _, _ =>
    let value := (given.values.get? token.path).getD .empty
    let (p, filled) := p.insert element value
    .ok (p, { state with cells := state.cells ++ [filled] })

/-- Fills a cell that holds placeholders inside other text. -/
def fillSpliced (given : Given) (p : Pass) (state : RowState) (element : Element)
    (text : String) : Pass × RowState :=
  let (strings, filled) := insertText p.strings element (splice given.values text)
  ({ p with strings }, { state with cells := state.cells ++ [filled] })

/-- Fills a cell, which gets its final reference first. -/
def fillCell (given : Given) (p : Pass) (state : RowState) (row element : Element)
    (cell : CellRef) : Except Failure (Pass × RowState) :=
  let element := element.setAttr "r" cell.a1
  match shownText? p.strings element with
  | none => .ok (p, { state with cells := state.cells ++ [element] })
  | some text =>
    match Placeholder.extract text with
    | [] => .ok (p, { state with cells := state.cells ++ [element] })
    | [token] =>
      if token.full then p.fillWhole given state row element cell token
      else .ok (p.fillSpliced given state element text)
    | _ => .ok (p.fillSpliced given state element text)

/-- The source column of a cell: the one it names, or the next after the cell before it. -/
def sourceColumn (previous : Nat) (element : Element) : Nat :=
  (((element.attr? "r").bind CellRef.parse?).map CellRef.col).getD (previous + 1)

/-- Fills cells, given the row they are in, its number, and the source column of the cell before
them. What is no cell stays as it is. -/
def fillCells (given : Given) (row : Element) (number : Nat) :
    Nat → Pass → RowState → List Element → Except Failure (Pass × RowState)
  | _, p, state, [] => .ok (p, state)
  | previous, p, state, element :: elements =>
    if element.name = "c" then do
      let source := sourceColumn previous element
      -- Lists without items may have taken away more columns than there are.
      let col := (max ((source : Int) + state.colsInserted) 1).toNat
      let (p, state) ← p.fillCell given state row element { col, row := number }
      fillCells given row number source p state elements
    else
      let state := { state with cells := state.cells ++ [element] }
      fillCells given row number previous p state elements

/-- The copies of finished cells for a generated row: those in columns without a placeholder that
generates rows and without a cell of the row itself. -/
def plainCopies (cells : List Element) (tableCols : List Nat) (newRow : Element) : List Element :=
  match (newRow.attr? "r").bind natural32? with
  | none => []
  | some number =>
    let taken := tableCols ++ newRow.elements.map sortColumn
    let plain := cells.filter fun cell => cell.name == "c" && !taken.contains (sortColumn cell)
    plain.map fun cell =>
      cell.setAttr "r" (CellRef.mk none (sortColumn cell) number false false).a1

/-- Sorts the cells of a generated row. -/
def sortRow (row : Element) : Element := row.removeElements.pushAll (sortCells row.elements)

/-- The finished row, given its sorted cells. -/
def finishedRow (row : Element) (cells : List Element) (cols : Int) : Element :=
  let row := row.pushAll cells
  if cols = 0 then row else widenSpans row cols

/-- Finishes the generated rows and moves what stands below the row at hand. Only the first
`anchors` anchors of the drawing were there before the row. -/
def finishNewRows (given : Given) (p : Pass) (number anchors : Nat) (newRows : List Element) :
    Pass :=
  let count := low32 newRows.length
  let shift : Layout.RowShift := {
    anchor := number, rows := count
    pushDownPageBreaks := given.options.pushDownPageBreaks, sheetName := p.sheet.name }
  let p := { p with rows := p.rows ++ newRows.map sortRow }.shiftDown shift
  let p := { p with rowsInserted := add32 p.rowsInserted count }
  if given.options.moveImages then
    { p with drawing := p.drawing.map fun d =>
        d.moveAnchors number count given.options.moveSameLineImages anchors }
  else p

/-- Finishes a row whose cells are done. -/
def finishRow (given : Given) (p : Pass) (state : RowState) (row : Element)
    (number anchors : Nat) : Pass :=
  let cells := sortCells state.cells
  -- The finished row is the model for what the generated rows have not been given.
  let newRows :=
    if given.options.substituteAllTableRows then
      state.newRows.map fun newRow => newRow.pushAll (plainCopies cells state.tableCols newRow)
    else state.newRows
  let p := { p with
    rows := p.rows.push (finishedRow row cells state.colsInserted)
    maxColsInserted :=
      if state.colsInserted = 0 then p.maxColsInserted
      else max p.maxColsInserted state.colsInserted }
  if newRows.isEmpty then p else p.finishNewRows given number anchors newRows

/-- The source number of a row: the one it names, or the next after the row before it. -/
def sourceNumber (previous : Nat) (row : Element) : Nat :=
  ((row.attr? "r").bind natural32?).getD (add32 previous 1)

/-- Fills a row, given its source number. -/
def fillRow (given : Given) (p : Pass) (source : Nat) (row : Element) : Except Failure Pass := do
  let number := add32 source p.rowsInserted
  -- Pictures that this row gets are where they belong already.
  let anchors := (p.drawing.map fun d => d.anchors.length).getD 0
  let bare := (row.setAttr "r" (toString number)).removeElements
  let (p, state) ← fillCells given bare number 0 p {} row.elements
  return p.finishRow given state bare number anchors

/-- Fills rows, given the source number of the row before them. -/
def fillSourceRows (given : Given) : Nat → Pass → List Element → Except Failure Pass
  | _, p, [] => .ok p
  | previous, p, row :: rows => do
    let source := sourceNumber previous row
    let p ← p.fillRow given source row
    fillSourceRows given source p rows

end Pass

end SheetTemplate.Fill
