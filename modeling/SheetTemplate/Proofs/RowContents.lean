import SheetTemplate.Proofs.RowSteps

/-!
# What filling rows keeps of their cells

All cells of a finished row, and of the rows generated below it, come from the cells of one source
row: by a few edits of a cell, by adding cells to a row, and by edits of the tag of a row. A
`RowRule` is about cells and rows and holds across these edits. What it says of a source row it
then says of all rows that come from it.

## Key results

- `RowRule`: what is asked of the single edits
- `rows_of_fillRow`: the rows that come from one row
- `rows_of_fillSourceRows`: the rows that come from all, each by a rule of its own
-/

namespace SheetTemplate.Fill

open Xml (Element)

/-- What is true of cells and rows whatever is filled into them. -/
structure RowRule where
  cell : Element → Prop
  row : Element → Prop
  setAttr {c : Element} {key : String} (value : String) : key = "r" ∨ key = "t" →
    cell c → cell (c.setAttr key value)
  removeType {c : Element} : cell c → cell (c.removeAttr "t")
  clear {c : Element} : cell c → cell c.shallow
  setShown {c : Element} (text : String) : cell c → cell (setShown c text)
  insertFormula {c : Element} (expression : String) : cell c → cell (insertFormula c expression)
  row_setAttr {e : Element} {key : String} (value : String) : key = "r" ∨ key = "spans" →
    row e → row (e.setAttr key value)
  row_shallow {e : Element} : row e → row e.shallow
  row_removeElements {e : Element} : row e → row e.removeElements
  row_pushAll {e : Element} {cells : List Element} : row e → (∀ c ∈ cells, cell c) →
    row (e.pushAll cells)
  cells {e : Element} : row e → ∀ c ∈ e.elements, cell c

namespace RowRule

variable (R : RowRule) {given : Given} {p p' : Pass} {state state' : RowState} {c : Element}

/-- What a rule says of the cells and the generated rows of the row at hand. -/
structure Holds (state : RowState) : Prop where
  cells : ∀ c ∈ state.cells, R.cell c
  newRows : ∀ row ∈ state.newRows, R.row row

variable {R}

/-- Cells that follow the rule may be put behind the cells of a row. -/
theorem Holds.append (h : R.Holds state) {cells : List Element} (hcells : ∀ c ∈ cells, R.cell c) :
    R.Holds { state with cells := state.cells ++ cells } :=
  ⟨List.forall_mem_append.2 ⟨h.cells, hcells⟩, h.newRows⟩

/-! ### Cells -/

/-- A cell may be given another place. -/
private theorem number (h : R.cell c) (value : String) : R.cell (c.setAttr "r" value) :=
  R.setAttr value (.inl rfl) h

/-- It may be filled with a text. -/
private theorem cell_insertText (h : R.cell c) (strings : StringTable) (text : String) :
    R.cell (insertText strings c text).2 := R.setShown _ (R.setAttr _ (.inr rfl) h)

/-- It may be filled with any value: a text, a number, a truth value, a formula or nothing. -/
private theorem cell_insertValue (h : R.cell c) (strings : StringTable) (value : Value) :
    R.cell (insertValue strings c value).2 := by
  unfold insertValue
  split
  · exact R.insertFormula _ h
  · split
    · exact R.setShown _ (R.setAttr _ (.inr rfl) h)
    · exact R.setShown _ (R.removeType h)
    · exact R.setShown _ (R.removeType h)
    · exact cell_insertText h strings _

/-- It may be emptied. -/
private theorem cell_emptied (h : R.cell c) : R.cell (emptied c) := R.clear (R.removeType h)

/-- So all cells of a list that is laid out follow the rule. -/
private theorem cell_layOutFrom (h : R.cell c) (cell : CellRef) (distance : Nat)
    (strings : StringTable) (items : List Value) :
    ∀ d ∈ (layOutFrom c cell distance strings items).2, R.cell d := by
  induction items generalizing distance strings with
  | nil => simp [layOutFrom]
  | cons item items ih =>
    exact List.forall_mem_cons.2 ⟨cell_insertValue (number h _) strings item, ih (distance + 1) _⟩

/-- So does a cell with a picture, which is emptied. -/
private theorem cell_placePicture {filled : Element} {cell : CellRef} {value : Value}
    (h : R.cell c) (hplace : p.placePicture given c cell value = .ok (p', filled)) :
    R.cell filled := by
  obtain ⟨-, rfl⟩ := Pass.quiet_of_placePicture hplace
  exact cell_insertValue h p.strings .empty

/-! ### Lists -/

/-- The cells to the right are put behind those there are. -/
private theorem holds_expandRight (h : R.Holds state) (hc : R.cell c) (cell : CellRef)
    (items : List Value) : R.Holds (p.expandRight state c cell items).2 :=
  h.append (cell_layOutFrom hc cell 0 p.strings items)

/-- Moving columns moves no cell that was put already. -/
private theorem holds_insertColumns (h : R.Holds state) (cell : CellRef) (cols : Int) :
    R.Holds (p.insertColumns state cell cols).2 := by
  unfold Pass.insertColumns
  split <;> exact ⟨h.cells, h.newRows⟩

/-- The first element gives either cells to the right or the one cell of the row. -/
private theorem holds_fillFirst {cell : CellRef} {token : Placeholder} {value : Value}
    {filled : Option Element} {cols : Int} (h : R.Holds state) (hc : R.cell c)
    (hfill : p.fillFirst given state c cell token value = .ok (p', state', filled, cols)) :
    R.Holds state' ∧ ∀ d ∈ filled, R.cell d := by
  cases Pass.firstFilled_of_ok hfill with
  | list items => exact ⟨holds_expandRight h hc cell items, nofun⟩
  | picture _ _ hplace =>
    exact ⟨h, fun d hd => Option.some.inj hd ▸ cell_placePicture hc hplace⟩
  | single => exact ⟨h, fun d hd => Option.some.inj hd ▸ cell_insertValue hc p.strings value⟩

/-- A later element gives the cells for a generated row. -/
private theorem cells_fillLater {cell : CellRef} {token : Placeholder} {value : Value}
    {cells : List Element} {cols : Int} (hc : R.cell c)
    (hfill : p.fillLater given c cell token value = .ok (p', cells, cols)) :
    ∀ d ∈ cells, R.cell d := by
  cases Pass.laterFilled_of_ok hfill with
  | list items => exact cell_layOutFrom hc cell 0 p.strings items
  | picture _ _ hplace =>
    exact fun d hd => List.mem_singleton.1 hd ▸ cell_placePicture (number hc _) hplace
  | single =>
    exact fun d hd => List.mem_singleton.1 hd ▸ cell_insertValue (number hc _) p.strings value

/-! ### Generated rows -/

/-- A row may have its spans widened. -/
private theorem row_widenSpans {row : Element} (h : R.row row) (cols : Int) :
    R.row (widenSpans row cols) := by
  unfold widenSpans
  dsimp only
  split
  · exact R.row_setAttr _ (.inr rfl) h
  · exact h

/-- Cells may be added to a row. -/
private theorem row_addCells {row : Element} (h : R.row row) {cells : List Element}
    (hcells : ∀ c ∈ cells, R.cell c) (cols : Int) : R.row (Pass.addCells cells cols row) := by
  unfold Pass.addCells
  dsimp only
  split
  · exact R.row_pushAll h hcells
  · exact row_widenSpans (R.row_pushAll h hcells) cols

/-- A generated row is made from the row and follows the rule. -/
private theorem rows_growRows {row : Element} (h : R.row row) (anchor index : Nat)
    {newRows : List Element} (hrows : ∀ e ∈ newRows, R.row e) :
    ∀ e ∈ growRows row anchor index newRows, R.row e := by
  unfold growRows
  split
  · refine List.forall_mem_append.2 ⟨hrows, fun e he => ?_⟩
    rw [List.mem_singleton.1 he]
    exact R.row_setAttr _ (.inl rfl) (R.row_shallow h)
  · exact hrows

/-- One generated row may be edited. -/
private theorem rows_mapNewRow {newRows : List Element} (hrows : ∀ e ∈ newRows, R.row e)
    (index : Nat) {f : Element → Element} (hf : ∀ e, R.row e → R.row (f e)) :
    ∀ e ∈ mapNewRow index f newRows, R.row e := by
  intro e he
  obtain ⟨i, hi⟩ := List.getElem?_of_mem he
  rw [mapNewRow, List.getElem?_modify] at hi
  obtain ⟨old, hold, rfl⟩ := Option.map_eq_some_iff.1 hi
  have hkept := hrows old (List.mem_of_getElem? hold)
  split
  · exact hf old hkept
  · exact hkept

/-- The later elements of a list put their cells into generated rows. -/
private theorem holds_fillRows {row : Element} {cell : CellRef} {token : Placeholder}
    {inside : List Bool} {index : Nat} {elements : List Value} (hrow : R.row row) (hc : R.cell c)
    (h : R.Holds state)
    (hfill : Pass.fillRows given row c cell token inside index p state elements =
      .ok (p', state')) : R.Holds state' := by
  -- Along the elements; each adds its row where it is missing and puts its cells there.
  induction elements generalizing index p state with
  | nil =>
    cases hfill
    exact h
  | cons element elements ih =>
    obtain ⟨p₁, cells, cols, hlater, hrest⟩ := Pass.fillRows_cons_eq_ok hfill
    have hnext := rows_mapNewRow (rows_growRows hrow cell.row index h.newRows) index
      fun e he => row_addCells he (cells_fillLater hc hlater) cols
    have hstate : R.Holds { state with
        newRows := mapNewRow index (Pass.addCells cells cols)
          (growRows row cell.row index state.newRows) } := ⟨h.cells, hnext⟩
    exact ih hstate hrest

/-- A list down the column keeps the rule in the row and in the rows generated. -/
private theorem holds_expandDown {row : Element} {cell : CellRef} {token : Placeholder}
    {items : List Value} {filled : Option Element} {cols : Int} (hrow : R.row row) (hc : R.cell c)
    (h : R.Holds state)
    (hfill : p.expandDown given state row c cell token items = .ok (p', state', filled, cols)) :
    R.Holds state' ∧ ∀ d ∈ filled, R.cell d := by
  cases items with
  | nil =>
    cases hfill
    exact ⟨h, fun d hd => Option.some.inj hd ▸ cell_emptied hc⟩
  | cons element elements =>
    obtain ⟨p₁, state₁, hfirst, hrows⟩ := Pass.expandDown_cons_eq_ok hfill
    obtain ⟨hstate, hfilled⟩ := holds_fillFirst h hc hfirst
    exact ⟨holds_fillRows hrow hc hstate hrows, hfilled⟩

/-! ### A row -/

/-- So does every placeholder that is the whole text of its cell. -/
private theorem holds_fillWhole {row : Element} {cell : CellRef} {token : Placeholder}
    (hrow : R.row row) (hc : R.cell c) (h : R.Holds state)
    (hfill : p.fillWhole given state row c cell token = .ok (p', state')) : R.Holds state' := by
  cases Pass.wholeFilled_of_ok hfill with
  | table _ _ _ hexpand =>
    -- Whether the sheet gets a drawing first does not concern its cells.
    have hcols : R.Holds { state with tableCols := state.tableCols ++ [cell.col] } :=
      ⟨h.cells, h.newRows⟩
    obtain ⟨hstate, hfilled⟩ := holds_expandDown hrow hc hcols hexpand
    exact (holds_insertColumns hstate cell _).append fun d hd =>
      hfilled d (Option.mem_toList.1 hd)
  | @list items =>
    exact holds_insertColumns (holds_expandRight h hc cell items) cell (netColumns items)
  | picture _ hplace =>
    exact h.append fun d hd => List.mem_singleton.1 hd ▸ cell_placePicture hc hplace
  | single => exact h.append fun d hd => List.mem_singleton.1 hd ▸ cell_insertValue hc p.strings _

/-- So does every cell, whether it is kept, filled or spliced. -/
private theorem holds_fillCell {row : Element} {cell : CellRef} (hrow : R.row row) (hc : R.cell c)
    (h : R.Holds state) (hfill : p.fillCell given state row c cell = .ok (p', state')) :
    R.Holds state' := by
  -- In all cases the cell was given its place first.
  have hplaced := number hc cell.a1
  cases Pass.cellFilled_of_ok hfill with
  | kept => exact h.append fun d hd => List.mem_singleton.1 hd ▸ hplaced
  | whole _ _ _ hwhole => exact holds_fillWhole hrow hplaced h hwhole
  | spliced =>
    exact h.append fun d hd => List.mem_singleton.1 hd ▸ cell_insertText hplaced p.strings _

/-- So do all cells of a row, and other children are kept as they are. -/
private theorem holds_fillCells {row : Element} {number previous : Nat} {elements : List Element}
    (hrow : R.row row) (helements : ∀ e ∈ elements, R.cell e) (h : R.Holds state)
    (hfill : Pass.fillCells given row number previous p state elements = .ok (p', state')) :
    R.Holds state' := by
  induction elements generalizing previous p state with
  | nil =>
    cases hfill
    exact h
  | cons element elements ih =>
    obtain ⟨helement, hrest⟩ := List.forall_mem_cons.1 helements
    unfold Pass.fillCells at hfill
    split at hfill
    · dsimp only at hfill
      obtain ⟨⟨p₁, state₁⟩, hcell, hfill⟩ := bind_eq_ok.1 hfill
      exact ih hrest (holds_fillCell hrow helement h hcell) hfill
    · exact ih hrest (h.append fun d hd => List.mem_singleton.1 hd ▸ helement) hfill

/-- Copies are cells of the row that are given another place. -/
private theorem cells_plainCopies {cells : List Element} (hcells : ∀ c ∈ cells, R.cell c)
    (tableCols : List Nat) (newRow : Element) :
    ∀ c ∈ Pass.plainCopies cells tableCols newRow, R.cell c := by
  unfold Pass.plainCopies
  split
  · exact nofun
  · refine List.forall_mem_map.2 fun c hc => ?_
    exact number (hcells c (List.mem_filter.1 hc).1) _

/-- Sorting a row removes its cells and puts them back in order. -/
private theorem row_sortRow {row : Element} (h : R.row row) : R.row (Pass.sortRow row) :=
  R.row_pushAll (R.row_removeElements h) fun c hc => R.cells h c (List.mem_mergeSort.1 hc)

/-- Finishing a row appends it and its generated rows, all of which follow the rule. -/
private theorem rows_finishRow (hstate : R.Holds state) {row : Element} (hrow : R.row row)
    (number anchors : Nat) :
    ∃ done, (p.finishRow given state row number anchors).rows.toList = p.rows.toList ++ done ∧
      ∀ e ∈ done, R.row e := by
  have hcells : ∀ c ∈ sortCells state.cells, R.cell c := fun c hc =>
    hstate.cells c (List.mem_mergeSort.1 hc)
  have hfinished : R.row (Pass.finishedRow row (sortCells state.cells) state.colsInserted) :=
    row_addCells hrow hcells _
  -- The generated rows may have copies of the row's cells put into them first.
  have hnew : ∀ e ∈ (if given.options.substituteAllTableRows then state.newRows.map fun newRow =>
      newRow.pushAll (Pass.plainCopies (sortCells state.cells) state.tableCols newRow)
      else state.newRows), R.row e := by
    split
    · exact List.forall_mem_map.2 fun e he =>
        R.row_pushAll (hstate.newRows e he) (cells_plainCopies hcells _ e)
    · exact hstate.newRows
  unfold Pass.finishRow
  dsimp only
  generalize (if given.options.substituteAllTableRows then _ else state.newRows) = newRows
    at hnew ⊢
  split
  · exact ⟨[_], by simp, fun e he => List.mem_singleton.1 he ▸ hfinished⟩
  · refine ⟨_ :: newRows.map Pass.sortRow, ?_, List.forall_mem_cons.2 ⟨hfinished,
      List.forall_mem_map.2 fun e he => row_sortRow (hnew e he)⟩⟩
    unfold Pass.finishNewRows
    dsimp only
    split <;> simp [Pass.shiftDown]

/-- The rows that come from a row. -/
theorem rows_of_fillRow {source : Nat} {row : Element} (hrow : R.row row.removeElements)
    (hcells : ∀ c ∈ row.elements, R.cell c) (h : p.fillRow given source row = .ok p') :
    ∃ done, p'.rows.toList = p.rows.toList ++ done ∧ ∀ e ∈ done, R.row e := by
  obtain ⟨p₁, state, hfill, rfl⟩ := Pass.fillRow_eq_ok h
  have hbare :
      R.row (row.setAttr "r" (toString (Text.add32 source p.rowsInserted))).removeElements :=
    R.row_setAttr _ (.inl rfl) hrow
  have hstate := holds_fillCells hbare hcells ⟨by simp, by simp⟩ hfill
  obtain ⟨done, hdone, hrows⟩ : ∃ done, (p₁.finishRow given state
      (row.setAttr "r" (toString (Text.add32 source p.rowsInserted))).removeElements
      (Text.add32 source p.rowsInserted)
      ((p.drawing.map fun d => d.anchors.length).getD 0)).rows.toList =
        p₁.rows.toList ++ done ∧ ∀ e ∈ done, R.row e :=
    rows_finishRow hstate hbare _ _
  exact ⟨done, by rw [hdone, (Pass.cellsRun_of_fillCells hfill).rows], hrows⟩

/-- The rows that come from rows, if there is a rule for each of those. -/
theorem rows_of_fillSourceRows {P : Element → Prop} {previous : Nat} {rows : List Element}
    (hrows : ∀ row ∈ rows, ∃ R : RowRule, R.row row.removeElements ∧
      (∀ c ∈ row.elements, R.cell c) ∧ ∀ e, R.row e → P e)
    (h : Pass.fillSourceRows given previous p rows = .ok p') :
    ∃ done, p'.rows.toList = p.rows.toList ++ done ∧ ∀ e ∈ done, P e := by
  -- Along the source rows, each with a rule of its own.
  induction rows generalizing previous p with
  | nil =>
    cases h
    exact ⟨[], by simp, nofun⟩
  | cons row rows ih =>
    unfold Pass.fillSourceRows at h
    dsimp only at h
    obtain ⟨p₁, hrow, hrest⟩ := bind_eq_ok.1 h
    obtain ⟨⟨R, hbare, hcells, hP⟩, hrows⟩ := List.forall_mem_cons.1 hrows
    obtain ⟨first, hfirst, hfirstRows⟩ := rows_of_fillRow hbare hcells hrow
    obtain ⟨done, hdone, hdoneRows⟩ := ih hrows hrest
    refine ⟨first ++ done, by rw [hdone, hfirst, List.append_assoc], ?_⟩
    exact List.forall_mem_append.2 ⟨fun e he => hP e (hfirstRows e he), hdoneRows⟩

end RowRule

end SheetTemplate.Fill
