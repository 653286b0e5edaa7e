import Mathlib.Logic.Relation
import SheetTemplate.Proofs.StepResults

/-!
# The changes that a pass makes

While a pass fills rows, all that it does to the sheet, the package and what they share is one of a
few changes, made again and again: `Pass.Change` lists them. What every change keeps, a pass keeps
from its first row to its last, whatever the rows and the values are.

## Key results

- `changes_of_fillSourceRows`: filling rows is a sequence of changes
- `Changes.keep`: what every change keeps
-/

namespace SheetTemplate

open Text (low32 add32)
open Xml (Element Node)

namespace Fill

namespace Pass

/-! ### Changes -/

/-- What a drawing shows, which is nothing if there is none. -/
def shownBy : Option Drawing → List Node
  | some d => d.doc.root.children
  | none => []

/-- What the drawing of the sheet shows. -/
def drawn (p : Pass) : List Node := shownBy p.drawing

/-- One change that a pass makes while it fills rows. -/
inductive Change : Pass → Pass → Prop
  /-- A text gets a slot in the string table. -/
  | text (p : Pass) (text : String) : Change p { p with strings := (p.strings.index text).1 }
  | shiftRight (p : Pass) (anchor : CellRef) (cols : Int) : Change p (p.shiftRight anchor cols)
  | shiftDown (p : Pass) (shift : Layout.RowShift) : Change p (p.shiftDown shift)
  | extendTables (p : Pass) (inside : List Bool) (cell : CellRef) :
      Change p (p.extendTables inside cell)
  /-- The sheet gets a drawing. -/
  | drawing {p : Pass} {sheet sheet' : Worksheet} {types : ContentTypes} {drawing : Drawing}
      (hnone : p.drawing = none) (hsheet : p.sheet.withRels? p.package = some sheet)
      (hcreate : Drawing.create p.package sheet
        (p.types.ensureDefault "rels" ContentTypes.relationships) = .ok (drawing, sheet', types)) :
      Change p { p with sheet := sheet', types, drawing := some drawing }
  /-- A picture is stored, linked and anchored. -/
  | picture {p : Pass} {drawing linked : Drawing} {id : String} (picture : Image.Picture)
      (col row : Nat) (extent : Image.Extent) (hdrawing : p.drawing = some drawing)
      (hlink : drawing.link (Drawing.pictureFile p.package picture) = .ok (linked, id)) :
      Change p { p with
        package := p.package.set ("xl/media/" ++ Drawing.pictureFile p.package picture)
          picture.bytes
        types := p.types.ensureDefault picture.format.extension picture.format.contentType
        drawing := some (linked.addPicture col row extent id) }
  /-- A picture is left out. -/
  | skip (p : Pass) (image : SkippedImage) : Change p { p with skipped := p.skipped ++ [image] }
  /-- Rows are finished and counted. -/
  | rows (p : Pass) (rows : Array Element) (rowsInserted : Nat) (maxColsInserted : Int) :
      Change p { p with rows, rowsInserted, maxColsInserted }
  | moveAnchors (p : Pass) (row rows : Nat) (sameLine : Bool) (limit : Nat) :
      Change p { p with drawing := p.drawing.map fun d => d.moveAnchors row rows sameLine limit }

/-- Changes one after another. -/
abbrev Changes : Pass → Pass → Prop := Relation.ReflTransGen Change

/-- What every change keeps, a sequence of changes keeps. -/
theorem Changes.keep {I : Pass → Prop} (hI : ∀ p p', Change p p' → I p → I p') {p p' : Pass}
    (h : p.Changes p') (hp : I p) : I p' := by
  induction h with
  | refl => exact hp
  | tail _ hstep ih => exact hI _ _ hstep ih

/-- A table stays in its part. -/
theorem path_shiftTable (shift : Layout.RowShift) (t : Table) :
    (shift.shiftTable t).path = t.path := by
  unfold Layout.RowShift.shiftTable
  split
  · rfl
  · split <;> rfl

/-- A table that is extended is the same part. -/
theorem path_extendTable (cell : CellRef) (t : Table) :
    (extendTable cell t).path = t.path := by
  unfold extendTable
  split
  · split <;> rfl
  · rfl

variable {given : Given} {p p' : Pass}

/-- One change is a sequence of changes. -/
theorem Change.changes (h : Change p p') : p.Changes p' := .single h

/-! ### Values -/

/-- A value that is inserted may add a text to the table. -/
private theorem changes_insertValue (p : Pass) (cell : Element) (value : Value) :
    p.Changes { p with strings := (insertValue p.strings cell value).1 } := by
  unfold insertValue
  split
  · exact .refl
  · split
    · exact .refl
    · exact .refl
    · exact .refl
    · exact (Change.text p _).changes

/-- That is all the pass sees of it. -/
private theorem changes_insert (p : Pass) (cell : Element) (value : Value) :
    p.Changes (p.insert cell value).1 := changes_insertValue p cell value

/-- So it is with the values of a list laid out to the right. -/
private theorem changes_layOutFrom (p : Pass) (template : Element) (cell : CellRef)
    (distance : Nat) (items : List Value) :
    p.Changes { p with strings := (layOutFrom template cell distance p.strings items).1 } := by
  induction items generalizing p distance with
  | nil => exact .refl
  | cons item items ih =>
    exact (changes_insertValue p (template.setAttr "r" (cell.offset distance 0).a1) item).trans
      (ih _ (distance + 1))

/-- Whatever the place of the first is. -/
private theorem changes_layOut (p : Pass) (template : Element) (cell : CellRef)
    (items : List Value) :
    p.Changes { p with strings := (layOut p.strings template cell items).1 } :=
  changes_layOutFrom p template cell 0 items

/-- Moving columns is one change, or none where no column is inserted. -/
private theorem changes_insertColumns (p : Pass) (state : RowState) (cell : CellRef) (cols : Int) :
    p.Changes (p.insertColumns state cell cols).1 := by
  unfold insertColumns
  split
  · exact .refl
  · exact (Change.shiftRight p cell cols).changes

/-! ### Pictures -/

/-- A drawing is begun where there is none and one can be made. -/
private theorem changes_ensureDrawing (h : p.ensureDrawing given = .ok p') : p.Changes p' := by
  cases drawingEnsured_of_ok h with
  | there => exact .refl
  | without => exact .refl
  | begun hnone hsheet hcreate => exact (Change.drawing hnone hsheet hcreate).changes

/-- A source that cannot be read is left out or fails the pass. -/
private theorem changes_placeSource {drawing : Drawing} {cell : CellRef} {source : ImageSource}
    (hdrawing : p.drawing = some drawing)
    (h : p.placeSource given drawing cell source = .ok p') : p.Changes p' := by
  cases sourcePlaced_of_ok h with
  | shown _ hlink => exact (Change.picture _ _ _ _ hdrawing hlink).changes
  | skipped => exact (Change.skip p _).changes

/-- A picture empties the cell, makes sure of the drawing, and embeds the picture. -/
private theorem changes_placePicture {element e : Element} {cell : CellRef} {value : Value}
    (h : p.placePicture given element cell value = .ok (p', e)) : p.Changes p' := by
  have hempty := changes_insert p element .empty
  cases picturePlaced_of_ok h with
  | sourceless => exact hempty
  | undrawn _ hensure => exact hempty.trans (changes_ensureDrawing hensure)
  | placed _ hensure hdrawing hplace =>
    exact (hempty.trans (changes_ensureDrawing hensure)).trans
      (changes_placeSource hdrawing hplace)

/-! ### Lists -/

/-- The first element of a list is laid out, embedded or inserted. -/
private theorem changes_fillFirst {state state' : RowState} {template : Element} {cell : CellRef}
    {token : Placeholder} {value : Value} {filled : Option Element} {cols : Int}
    (h : p.fillFirst given state template cell token value = .ok (p', state', filled, cols)) :
    p.Changes p' := by
  cases firstFilled_of_ok h with
  | list items => exact changes_layOut p template cell items
  | picture _ _ hplace => exact changes_placePicture hplace
  | single => exact changes_insert ..

/-- So is a later one. -/
private theorem changes_fillLater {template : Element} {cell : CellRef} {token : Placeholder}
    {value : Value} {cells : List Element} {cols : Int}
    (h : p.fillLater given template cell token value = .ok (p', cells, cols)) : p.Changes p' := by
  cases laterFilled_of_ok h with
  | list items => exact changes_layOut p template cell items
  | picture _ _ hplace => exact changes_placePicture hplace
  | single => exact changes_insert ..

/-- Each later element may extend tables first. -/
private theorem changes_fillRows {state state' : RowState} {row template : Element}
    {cell : CellRef} {token : Placeholder} {inside : List Bool} {index : Nat}
    {elements : List Value}
    (h : fillRows given row template cell token inside index p state elements = .ok (p', state')) :
    p.Changes p' := by
  induction elements generalizing index p state with
  | nil =>
    cases h
    exact .refl
  | cons element elements ih =>
    obtain ⟨p₁, cells, cols, hlater, hrest⟩ := fillRows_cons_eq_ok h
    exact ((changes_fillLater hlater).trans (Change.extendTables p₁ inside _).changes).trans
      (ih hrest)

/-- A list down the column is its first element and the later ones. -/
private theorem changes_expandDown {state state' : RowState} {row template : Element}
    {cell : CellRef} {token : Placeholder} {items : List Value} {filled : Option Element}
    {cols : Int}
    (h : p.expandDown given state row template cell token items =
      .ok (p', state', filled, cols)) : p.Changes p' := by
  cases items with
  | nil =>
    cases h
    exact .refl
  | cons element elements =>
    obtain ⟨p₁, state₁, hfirst, hrows⟩ := expandDown_cons_eq_ok h
    exact (changes_fillFirst hfirst).trans (changes_fillRows hrows)

/-! ### Cells and rows -/

/-- The cell of one placeholder: a table, a list of a path, a picture or a value. -/
private theorem changes_fillWhole {state state' : RowState} {row element : Element}
    {cell : CellRef} {token : Placeholder}
    (h : p.fillWhole given state row element cell token = .ok (p', state')) : p.Changes p' := by
  cases wholeFilled_of_ok h with
  | table _ _ hdrawing hexpand =>
    have hensured : p.Changes _ := hdrawing.elim (fun hsame => hsame ▸ .refl) changes_ensureDrawing
    exact (hensured.trans (changes_expandDown hexpand)).trans (changes_insertColumns ..)
  | list => exact (changes_layOut p element cell _).trans (changes_insertColumns ..)
  | picture _ hplace => exact changes_placePicture hplace
  | single => exact changes_insert ..

/-- Any other cell is kept, or spliced, which adds a text. -/
private theorem changes_fillCell {state state' : RowState} {row element : Element} {cell : CellRef}
    (h : p.fillCell given state row element cell = .ok (p', state')) : p.Changes p' := by
  cases cellFilled_of_ok h with
  | kept => exact .refl
  | whole _ _ _ hfill => exact changes_fillWhole hfill
  | spliced => exact (Change.text p _).changes

/-- The cells of a row, from left to right. -/
private theorem changes_fillCells {state state' : RowState} {row : Element}
    {number previous : Nat} {elements : List Element}
    (h : fillCells given row number previous p state elements = .ok (p', state')) :
    p.Changes p' := by
  induction elements generalizing previous p state with
  | nil =>
    cases h
    exact .refl
  | cons element elements ih =>
    unfold fillCells at h
    split at h
    · dsimp only at h
      obtain ⟨⟨p₁, state₁⟩, hcell, hrest⟩ := bind_eq_ok.1 h
      exact (changes_fillCell hcell).trans (ih hrest)
    · exact ih h

/-- Generated rows are finished, what stands below moves, they are counted, and then pictures
move. -/
private theorem changes_finishNewRows (p : Pass) (number anchors : Nat) (newRows : List Element) :
    p.Changes (p.finishNewRows given number anchors newRows) := by
  unfold finishNewRows
  dsimp only
  -- The rows are appended, what is below moves down, the rows are counted, and the anchors may
  -- move.
  refine (Change.rows p (p.rows ++ newRows.map sortRow) p.rowsInserted
    p.maxColsInserted).changes.trans ?_
  refine (Change.shiftDown _ {
    anchor := number, rows := low32 newRows.length
    pushDownPageBreaks := given.options.pushDownPageBreaks
    sheetName := p.sheet.name }).changes.trans ?_
  generalize shiftDown _ _ = q
  have hcounted := (Change.rows q q.rows (add32 q.rowsInserted (low32 newRows.length))
    q.maxColsInserted).changes
  split
  · exact hcounted.trans (Change.moveAnchors _ number (low32 newRows.length)
      given.options.moveSameLineImages anchors).changes
  · exact hcounted

/-- A finished row is appended, and its generated rows after it. -/
private theorem changes_finishRow (p : Pass) (state : RowState) (row : Element)
    (number anchors : Nat) : p.Changes (p.finishRow given state row number anchors) := by
  unfold finishRow
  dsimp only
  generalize (if state.colsInserted = 0 then p.maxColsInserted else _) = most
  generalize (if given.options.substituteAllTableRows then _ else state.newRows) = newRows
  have hrow := (Change.rows p
    (p.rows.push (finishedRow row (sortCells state.cells) state.colsInserted)) p.rowsInserted
    most).changes
  refine hrow.trans ?_
  split
  · exact .refl
  · exact changes_finishNewRows ..

private theorem changes_fillRow {source : Nat} {row : Element}
    (h : p.fillRow given source row = .ok p') : p.Changes p' := by
  obtain ⟨p₁, state, hcells, rfl⟩ := fillRow_eq_ok h
  exact (changes_fillCells hcells).trans (changes_finishRow ..)

/-- Filling rows is a sequence of changes. -/
theorem changes_of_fillSourceRows {previous : Nat} {rows : List Element}
    (h : fillSourceRows given previous p rows = .ok p') : p.Changes p' := by
  induction rows generalizing previous p with
  | nil =>
    cases h
    exact .refl
  | cons row rows ih =>
    unfold fillSourceRows at h
    dsimp only at h
    obtain ⟨p₁, hrow, hrest⟩ := bind_eq_ok.1 h
    exact (changes_fillRow hrow).trans (ih hrest)

/-- A pass changes what it has while it fills rows, and then sees to the sheet as a whole. -/
theorem changes_of_run {options : FillOptions} {files : ImageFiles} {values : Substitutions}
    {q : Pass} (h : p.run options files values = .ok q) :
    ∃ r, p.withoutRows.Changes r ∧
      q = (r.finishSheet (p.givenFor options files values)).save := by
  obtain ⟨r, hrows, rfl⟩ := run_eq_ok h
  exact ⟨r, changes_of_fillSourceRows hrows, rfl⟩

/-- A pass changes neither where the workbook is nor what it links. -/
theorem workbook_of_run {options : FillOptions} {files : ImageFiles} {values : Substitutions}
    {q : Pass} (h : p.run options files values = .ok q) :
    q.workbook.path = p.workbook.path ∧ q.workbook.rels = p.workbook.rels := by
  obtain ⟨r, hchanges, rfl⟩ := changes_of_run h
  refine hchanges.keep (I := fun r => r.workbook.path = p.workbook.path ∧
    r.workbook.rels = p.workbook.rels) (fun p p' hchange hp => ?_) ⟨rfl, rfl⟩
  cases hchange <;> exact hp

end Pass

end Fill

end SheetTemplate
