import SheetTemplate.Proofs.Visits

/-!
# Passes without placeholders

Where no cell shows a text with a placeholder, a pass does nothing but number rows and cells and put
the cells in order: it inserts nothing, so that nothing moves. Such a pass cannot fail.

A cell shows a text only if the string table has one in its slot. With an empty string table there
are no placeholders in cells, and so the table stays empty.

## Key results

- `fillSourceRows_of_plain`, `run_of_plain`: what such a pass comes to
- `strings_of_run_of_empty`: an empty string table stays empty
-/

namespace SheetTemplate.Fill

open Text (add32)
open Xml (Element)

/-- A cell that shows no text with a placeholder. -/
def PlainCell (strings : StringTable) (cell : Element) : Prop :=
  ∀ text, shownText? strings cell = some text → Placeholder.extract text = []

/-- A row of such cells. -/
def PlainRow (strings : StringTable) (row : Element) : Prop :=
  ∀ cell ∈ row.named "c", PlainCell strings cell

instance (strings : StringTable) (cell : Element) : Decidable (PlainCell strings cell) :=
  decidable_of_iff (∀ text ∈ shownText? strings cell, Placeholder.extract text = []) Iff.rfl

instance (strings : StringTable) (row : Element) : Decidable (PlainRow strings row) :=
  inferInstanceAs (Decidable (∀ _ ∈ _, _))

/-- Without texts no cell has a placeholder. -/
theorem plainCell_of_empty {strings : StringTable} (h : strings.size = 0) (cell : Element) :
    PlainCell strings cell := by
  intro text htext
  obtain ⟨slot, -, hget⟩ := Option.bind_eq_some_iff.1 htext
  have hnone : strings.get? slot = none := by
    rw [StringTable.get?, Array.getElem?_eq_none]
    rw [StringTable.size] at h
    omega
  rw [hnone] at hget
  cases hget

namespace Pass

/-- The cells of a row with their references, given the number of the row and the source column of
the cell before them. -/
def placedCells (number : Nat) : Nat → List Element → List Element
  | _, [] => []
  | previous, element :: elements =>
    if element.name = "c" then
      let source := sourceColumn previous element
      let cell : CellRef := { col := max source 1, row := number }
      element.setAttr "r" cell.a1 :: placedCells number source elements
    else element :: placedCells number previous elements

/-- A row with a number and its cells in order. -/
def placedRow (number : Nat) (row : Element) : Element :=
  (row.setAttr "r" (toString number)).removeElements.pushAll
    (sortCells (placedCells number 0 row.elements))

/-- Rows with numbers, given how many were inserted above and the source number of the row before
them. -/
def placedRows (inserted : Nat) : Nat → List Element → List Element
  | _, [] => []
  | previous, row :: rows =>
    let source := sourceNumber previous row
    placedRow (add32 source inserted) row :: placedRows inserted source rows

variable {given : Given} {p : Pass}

/-- A cell without placeholders gets its reference. -/
private theorem fillCell_of_plain {element : Element} (h : PlainCell p.strings element)
    (state : RowState) (row : Element) (cell : CellRef) :
    p.fillCell given state row element cell =
      .ok (p, { state with cells := state.cells ++ [element.setAttr "r" cell.a1] }) := by
  -- Where a cell stands does not matter to what it shows.
  have hshown : shownText? p.strings (element.setAttr "r" cell.a1) =
      shownText? p.strings element := by
    simp [shownText?, shownSlot?, Element.attr?_setAttr_of_ne element (show "t" ≠ "r" by decide)]
  unfold fillCell
  dsimp only
  rw [hshown]
  cases htext : shownText? p.strings element with
  | none => rfl
  | some text =>
    dsimp only
    rw [h text htext]

/-- A row of plain cells is placed cell by cell. -/
private theorem fillCells_of_plain {elements : List Element}
    (h : ∀ cell ∈ elements.filter (·.name == "c"), PlainCell p.strings cell) (row : Element)
    (number previous : Nat) {state : RowState} (hcols : state.colsInserted = 0) :
    fillCells given row number previous p state elements =
      .ok (p, { state with cells := state.cells ++ placedCells number previous elements }) := by
  induction elements generalizing previous state with
  | nil => simp [fillCells, placedCells]
  | cons element elements ih =>
    have hrest : ∀ cell ∈ elements.filter (·.name == "c"), PlainCell p.strings cell := by
      intro cell hcell
      refine h cell ?_
      rw [List.filter_cons]
      split
      · exact List.mem_cons_of_mem _ hcell
      · exact hcell
    -- Only cells are placed; other elements stay as they are.
    by_cases hname : element.name = "c"
    · have hplain := h element (by simp [hname])
      have hcol : (max ((sourceColumn previous element : Int) + state.colsInserted) 1).toNat =
          max (sourceColumn previous element) 1 := by omega
      rw [fillCells, if_pos hname, placedCells, if_pos hname]
      dsimp only
      rw [hcol, fillCell_of_plain hplain]
      refine (@ih hrest _ { state with cells := state.cells ++ [element.setAttr "r" _] }
        hcols).trans ?_
      simp
    · rw [fillCells, if_neg hname, placedCells, if_neg hname]
      refine (@ih hrest _ { state with cells := state.cells ++ [element] } hcols).trans ?_
      simp

/-- A row without placeholders is finished by itself. -/
private theorem fillRow_of_plain {row : Element} (h : PlainRow p.strings row) (source : Nat) :
    p.fillRow given source row =
      .ok { p with rows := p.rows.push (placedRow (add32 source p.rowsInserted) row) } := by
  have hfinish : ∀ (bare : Element) (number anchors : Nat) (cells : List Element),
      p.finishRow given { cells } bare number anchors =
        { p with rows := p.rows.push (bare.pushAll (sortCells cells)) } := by
    intro bare number anchors cells
    unfold finishRow
    simp [finishedRow]
  unfold fillRow
  dsimp only
  rw [fillCells_of_plain h _ _ _ rfl]
  exact congrArg Except.ok (hfinish _ _ _ _)

/-- Rows without placeholders are finished one after another, and nothing else changes. -/
theorem fillSourceRows_of_plain {rows : List Element} (h : ∀ row ∈ rows, PlainRow p.strings row)
    (previous : Nat) :
    fillSourceRows given previous p rows =
      .ok { p with rows := p.rows ++ placedRows p.rowsInserted previous rows } := by
  induction rows generalizing p previous with
  | nil => simp [fillSourceRows, placedRows]
  | cons row rows ih =>
    rw [fillSourceRows, fillRow_of_plain (h row List.mem_cons_self)]
    show fillSourceRows given (sourceNumber previous row) { p with
      rows := p.rows.push (placedRow (add32 (sourceNumber previous row) p.rowsInserted) row) }
        rows = _
    refine (ih ?_ _).trans ?_
    · exact fun e he => h e (List.mem_cons_of_mem _ he)
    · simp [placedRows]

/-- A pass over rows without placeholders. -/
theorem run_of_plain (h : ∀ row ∈ sourceRows p.sheet.doc.root, PlainRow p.strings row)
    (options : FillOptions) (files : ImageFiles) (values : Substitutions) :
    p.run options files values =
      .ok (({ p.withoutRows with
        rows := p.rows ++ placedRows p.rowsInserted 0 (sourceRows p.sheet.doc.root) }).finishSheet
          (p.givenFor options files values)).save := by
  show (fillSourceRows (p.givenFor options files values) 0 p.withoutRows
    (sourceRows p.sheet.doc.root) >>= fun r => .ok (r.finishSheet _).save) = _
  have hrows : ∀ row ∈ sourceRows p.sheet.doc.root, PlainRow p.withoutRows.strings row := h
  rw [fillSourceRows_of_plain hrows]
  rfl

/-- As long as there are no texts, no pass adds one. -/
theorem strings_of_run_of_empty {q : Pass} (h : p.strings.size = 0) {options : FillOptions}
    {files : ImageFiles} {values : Substitutions} (hrun : p.run options files values = .ok q) :
    q.strings = p.strings := by
  rw [run_of_plain fun row _ cell _ => plainCell_of_empty h cell] at hrun
  cases hrun
  rfl

end Pass

end SheetTemplate.Fill
