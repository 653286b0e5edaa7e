import SheetTemplate.Fill.Picture

/-!
# Lists in cells

A list in a cell of its own is laid out to the right, one cell for each item. In a table placeholder
it is laid out downwards: the first element fills the row at hand, and every other element fills a
generated row, which all placeholders of the row share. A field that is a list itself is laid out to
the right on its row.
-/

namespace SheetTemplate.Fill

open Text (add32)
open Xml (Element)

/-- The value that a placeholder takes from an element of a list. -/
def fieldOf (element : Value) (p : Placeholder) : Value :=
  match p.key with
  | some key => (element.get? key).getD .empty
  | none => element

/-- Lays items out to the right of a cell, each in a copy of the cell, from a distance on. -/
def layOutFrom (template : Element) (cell : CellRef) :
    Nat → StringTable → List Value → StringTable × List Element
  | _, strings, [] => (strings, [])
  | distance, strings, item :: items =>
    let copy := template.setAttr "r" (cell.offset distance 0).a1
    let (strings, first) := insertValue strings copy item
    let (strings, rest) := layOutFrom template cell (distance + 1) strings items
    (strings, first :: rest)

/-- Lays items out to the right from a cell on. -/
def layOut (strings : StringTable) (template : Element) (cell : CellRef) (items : List Value) :
    StringTable × List Element :=
  layOutFrom template cell 0 strings items

/-- The columns that a list inserts: one less than its items. -/
def netColumns (items : List Value) : Int := (items.length : Int) - 1

/-- An empty cell. -/
def emptied (cell : Element) : Element := { cell.removeAttr "t" with children := [] }

/-- The row to generate as number `n` below a row. -/
def newRow (row : Element) (anchor n : Nat) : Element :=
  row.shallow.setAttr "r" (toString (add32 anchor n))

/-- The generated rows, with one more if the element with an index needs it. -/
def growRows (row : Element) (anchor index : Nat) (newRows : List Element) : List Element :=
  if newRows.length < index then newRows ++ [newRow row anchor (newRows.length + 1)] else newRows

/-- Changes the generated row of the element with an index. -/
def mapNewRow (index : Nat) (f : Element → Element) (newRows : List Element) : List Element :=
  newRows.modify (index - 1) f

/-- Extends a table by one row if it ends above a cell. -/
def extendTable (cell : CellRef) (table : Table) : Table :=
  match table.range? with
  | some range =>
    if range.contains cell then table else table.setRange { range with stop := range.stop.nextRow }
  | none => table

/-- Whether a table contains a cell. -/
def isInside (cell : CellRef) (table : Table) : Bool := table.range?.any (·.contains cell)

namespace Pass

/-- Lays a list out to the right of a cell on the row at hand. -/
def expandRight (p : Pass) (state : RowState) (template : Element) (cell : CellRef)
    (items : List Value) : Pass × RowState :=
  let (strings, cells) := layOut p.strings template cell items
  ({ p with strings }, { state with cells := state.cells ++ cells })

/-- Fills the cell of the row at hand with the field of the first element. Gives the cell, unless it
was replaced by the items of a list, and the columns inserted. -/
def fillFirst (given : Given) (p : Pass) (state : RowState) (template : Element) (cell : CellRef)
    (token : Placeholder) (value : Value) :
    Except Failure (Pass × RowState × Option Element × Int) :=
  match value with
  | .list items =>
    let (p, state) := p.expandRight state template cell items
    .ok (p, state, none, netColumns items)
  | value =>
    if token.wantsImage && !value.isEmpty then do
      let (p, filled) ← p.placePicture given template cell value
      return (p, state, some filled, 0)
    else
      let (p, filled) := p.insert template value
      .ok (p, state, some filled, 0)

/-- The cells that the field of a later element puts into its generated row, and the columns they
insert there. -/
def fillLater (given : Given) (p : Pass) (template : Element) (cell : CellRef)
    (token : Placeholder) (value : Value) : Except Failure (Pass × List Element × Int) :=
  match value with
  | .list items =>
    let (strings, cells) := layOut p.strings template cell items
    .ok ({ p with strings }, cells, netColumns items)
  | value =>
    if token.wantsImage && !value.isEmpty then do
      let (p, filled) ← p.placePicture given (template.setAttr "r" cell.a1) cell value
      return (p, [filled], 0)
    else
      let (p, filled) := p.insert (template.setAttr "r" cell.a1) value
      .ok (p, [filled], 0)

/-- Puts cells at the end of a generated row, whose declared columns follow. -/
def addCells (cells : List Element) (cols : Int) (row : Element) : Element :=
  let row := row.pushAll cells
  if cols = 0 then row else widenSpans row cols

/-- Extends those tables by one row, of the ones given by place, that end above a cell. -/
def extendTables (p : Pass) (inside : List Bool) (cell : CellRef) : Pass :=
  { p with
    tables := (p.tables.zip inside).map fun (table, isParent) =>
      if isParent then extendTable cell table else table }

/-- Fills generated rows with the elements from an index on. -/
def fillRows (given : Given) (row template : Element) (cell : CellRef) (token : Placeholder)
    (inside : List Bool) : Nat → Pass → RowState → List Value → Except Failure (Pass × RowState)
  | _, p, state, [] => .ok (p, state)
  | index, p, state, element :: elements => do
    let target := cell.withRow (add32 cell.row index)
    -- An earlier placeholder may have made the row already.
    let newRows := growRows row cell.row index state.newRows
    let (p, cells, cols) ← p.fillLater given template target token (fieldOf element token)
    let newRows := mapNewRow index (addCells cells cols) newRows
    fillRows given row template cell token inside (index + 1) (p.extendTables inside target)
      { state with newRows } elements

/-- Lays a list out downwards from a cell on. Gives the cell, unless it was replaced by the items
of a list, and the columns inserted on the row at hand. -/
def expandDown (given : Given) (p : Pass) (state : RowState) (row template : Element)
    (cell : CellRef) (token : Placeholder) :
    List Value → Except Failure (Pass × RowState × Option Element × Int)
  | [] => .ok (p, state, some (emptied template), 0)
  | element :: elements => do
    -- Which tables grow is settled before the first of them does.
    let inside := p.tables.map (isInside cell)
    let (p, state, filled, cols) ←
      p.fillFirst given state template cell token (fieldOf element token)
    let (p, state) ← fillRows given row template cell token inside 1 p state elements
    return (p, state, filled, cols)

end Pass

end SheetTemplate.Fill
