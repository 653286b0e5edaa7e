import SheetTemplate.Proofs.CellSteps

/-!
# What filling one row does

The cells of a row are filled from left to right. Each starts where the source has it, moved by the
columns that the cells before it inserted, and moves what stands right of it. The row comes out with
the cells that its cells left behind, followed by the rows that they generated, and what stands
below moves down once.

`Pass.Moved` lists the moves that a part of a pass makes: it is all that later proofs need of what
refers to cells.

## Key results

- `cellsRun_of_fillCells`: the cells of a row
- `rowStep_of_fillRow`: a row and the rows generated below it
-/

namespace SheetTemplate

open Layout (Move)
open Text (max32 low32 add32 low32_le low32_of_le add32_of_le add32_low32_left add32_low32_right)
open Xml (Element)

/-! ### Moves of a pass -/

/-- The defined names after every one was changed. -/
theorem Workbook.definedNames_mapNames (w : Workbook) {f : Element → Element}
    (hf : ∀ e : Element, (f e).name = e.name) :
    (w.mapNames f).definedNames = w.definedNames.map f := by
  unfold definedNames mapNames
  dsimp only
  rw [Element.child?_mapChild_self _ _ fun e => Element.name_mapNamed e _ f]
  cases w.doc.root.child? "definedNames" with
  | none => rfl
  | some names => exact Element.named_mapNamed names "definedName" hf

namespace Fill

namespace Pass

/-- What a part of a pass does to all that refers to cells: it makes moves, one after another. The
string table may grow meanwhile. -/
structure Moved (p p' : Pass) (moves : List Move) : Prop where
  sheetName : p'.sheet.name = p.sheet.name
  names : p'.workbook.definedNames =
    p.workbook.definedNames.map (Layout.moveNames (moves.map Move.named?))
  merges : p'.sheet.doc.root.child? "mergeCells" =
    (p.sheet.doc.root.child? "mergeCells").map fun e => moves.foldl (fun e m => m.merges e) e
  breaks : p'.sheet.doc.root.child? "rowBreaks" =
    (p.sheet.doc.root.child? "rowBreaks").map fun e => moves.foldl (fun e m => m.breaks e) e
  others : ∀ n, n ≠ "drawing" → n ≠ "mergeCells" → n ≠ "rowBreaks" →
    p'.sheet.doc.root.child? n = p.sheet.doc.root.child? n
  strings : p.strings.GrowsTo p'.strings

/-- No move concerns the rows themselves. -/
theorem Moved.data {p p' : Pass} {moves : List Move} (h : p.Moved p' moves) :
    p'.sheet.doc.root.child? "sheetData" = p.sheet.doc.root.child? "sheetData" :=
  h.others _ (by decide) (by decide) (by decide)

theorem Moved.trans {p p' p'' : Pass} {moves moves' : List Move} (h : p.Moved p' moves)
    (h' : p'.Moved p'' moves') : p.Moved p'' (moves ++ moves') where
  sheetName := h'.sheetName.trans h.sheetName
  names := by
    rw [h'.names, h.names, List.map_map, List.map_append]
    exact List.map_congr_left fun e _ => (Layout.moveNames_append _ _ e).symm
  merges := by
    rw [h'.merges, h.merges, Option.map_map]
    simp only [Function.comp_def, List.foldl_append]
  breaks := by
    rw [h'.breaks, h.breaks, Option.map_map]
    simp only [Function.comp_def, List.foldl_append]
  others n hdrawing hmerges hbreaks :=
    (h'.others n hdrawing hmerges hbreaks).trans (h.others n hdrawing hmerges hbreaks)
  strings := h.strings.trans h'.strings

/-- A step that is still makes no moves. -/
theorem Still.moved {p p' : Pass} (h : p.Still p') : p.Moved p' [] where
  sheetName := h.sheetName
  names := by
    rw [h.workbook]
    exact (List.map_id _).symm
  merges := by
    rw [h.child _ (by decide)]
    exact Option.map_id'.symm
  breaks := by
    rw [h.child _ (by decide)]
    exact Option.map_id'.symm
  others n hdrawing _ _ := h.child n hdrawing
  strings := h.strings

theorem Moved.refl (p : Pass) : p.Moved p [] := (Still.refl p).moved

/-- Columns inserted at a cell are one move. -/
theorem moved_shiftRight (p : Pass) (anchor : CellRef) (cols : Int) :
    p.Moved (p.shiftRight anchor cols) [.right anchor cols] where
  sheetName := rfl
  names := p.workbook.definedNames_mapNames fun e => Layout.name_moveName _ e
  merges := Element.child?_mapChild_self _ _ fun _ => rfl
  breaks := (Element.child?_mapChild_of_ne _ (fun e => Element.name_mapNamed e _ _)
    (show "rowBreaks" ≠ "mergeCells" by decide)).trans Option.map_id'.symm
  others n _ hmerges _ :=
    Element.child?_mapChild_of_ne _ (fun e => Element.name_mapNamed e _ _) hmerges
  strings := .refl _

/-- Page breaks are moved only if rows come in and the option asks for it. -/
private theorem child?_rowBreaks_shiftSheet (s : Layout.RowShift) (sheet : Element) :
    (s.shiftSheet sheet).child? "rowBreaks" =
      (sheet.child? "rowBreaks").map (Move.breaks (.down s)) := by
  have hmerges : (sheet.mapChild "mergeCells" s.shiftMerges).child? "rowBreaks" =
      sheet.child? "rowBreaks" :=
    Element.child?_mapChild_of_ne sheet (f := s.shiftMerges) (fun _ => rfl)
      (show "rowBreaks" ≠ "mergeCells" by decide)
  unfold Layout.RowShift.shiftSheet Layout.RowShift.shiftBreaks
  by_cases hrows : s.rows = 0
  · simp [hrows, Move.breaks]
  · rw [if_neg hrows]
    split
    · rename_i hpush
      rw [Element.child?_mapChild_self _ _ fun e => Element.name_mapNamed e _ _, hmerges]
      simp [Move.breaks, hrows, hpush]
    · rename_i hpush
      rw [hmerges]
      simp [Move.breaks, hpush]

/-- Rows inserted below a row are one move. -/
theorem moved_shiftDown (p : Pass) (s : Layout.RowShift) :
    p.Moved (p.shiftDown s) [.down s] where
  sheetName := rfl
  names := by
    have := p.workbook.definedNames_mapNames fun e => Layout.name_moveName (Move.named? (.down s)) e
    rw [← s.shiftName_eq] at this
    exact this.trans (by rw [s.shiftName_eq]; rfl)
  merges := (Layout.child?_shiftSheet s _ (by decide)).trans (if_pos rfl)
  breaks := child?_rowBreaks_shiftSheet s _
  others n _ hmerges hbreaks := (Layout.child?_shiftSheet s _ hbreaks).trans (if_neg hmerges)
  strings := .refl _

end Pass

/-! ### The cells of a row -/

/-- The cell that a visit fills, on the row with a number and after inserted columns. -/
def CellVisit.target (v : CellVisit) (number : Nat) (inserted : Int) : CellRef :=
  { col := (max ((v.col : Int) + inserted) 1).toNat, row := number }

/-- The moves that cells of a row make after inserted columns. -/
def rightMoves (values : Substitutions) (number : Nat) : Int → List CellVisit → List Move
  | _, [] => []
  | inserted, v :: vs =>
    .right (v.target number inserted) (v.net values) ::
      rightMoves values number (inserted + v.net values) vs

/-- What becomes of cells of a row after inserted columns: one group of cells for each of them. -/
inductive Spread (values : Substitutions) (strings : StringTable) (number : Nat) :
    Int → List CellVisit → List (List Element) → Prop
  | nil (inserted : Int) : Spread values strings number inserted [] []
  | cons {inserted v vs group groups}
      (hgroup : Placed values strings v (v.target number inserted) group)
      (hrest : Spread values strings number (inserted + v.net values) vs groups) :
      Spread values strings number inserted (v :: vs) (group :: groups)

theorem Spread.mono {values : Substitutions} {strings strings' : StringTable} {number : Nat}
    {inserted : Int} {visits : List CellVisit} {groups : List (List Element)}
    (h : Spread values strings number inserted visits groups) (hs : strings.GrowsTo strings') :
    Spread values strings' number inserted visits groups := by
  induction h with
  | nil inserted => exact .nil inserted
  | cons hgroup _ ih => exact .cons (hgroup.mono hs) ih

/-- What becomes of generated rows under cells of a row after inserted columns. -/
inductive Grown (values : Substitutions) (strings : StringTable) (row : Element) (number : Nat) :
    Int → List CellVisit → List Element → List Element → Prop
  | nil (inserted : Int) (rows : List Element) :
      Grown values strings row number inserted [] rows rows
  | cons {inserted v vs rows rows₁ rows'}
      (hcell : FieldsPut strings row (v.element.setAttr "r" (v.target number inserted).a1)
        (v.target number inserted) (v.laterFields values) rows rows₁)
      (hrest : Grown values strings row number (inserted + v.net values) vs rows₁ rows') :
      Grown values strings row number inserted (v :: vs) rows rows'

theorem Grown.mono {values : Substitutions} {strings strings' : StringTable} {row : Element}
    {number : Nat} {inserted : Int} {visits : List CellVisit} {rows rows' : List Element}
    (h : Grown values strings row number inserted visits rows rows')
    (hs : strings.GrowsTo strings') :
    Grown values strings' row number inserted visits rows rows' := by
  induction h with
  | nil inserted rows => exact .nil inserted rows
  | cons hcell _ ih => exact .cons (hcell.mono hs) ih

/-- A table after cells of a row were filled after inserted columns. -/
def cellsTable (values : Substitutions) (number : Nat) : Int → List CellVisit → Table → Table
  | _, [], t => t
  | inserted, v :: vs, t =>
    cellsTable values number (inserted + v.net values) vs
      (extendedTable (v.target number inserted) (v.rows values) t)

/-- The columns in which cells of a row hold table placeholders after inserted columns. -/
def tableColsFrom (values : Substitutions) (number : Nat) : Int → List CellVisit → List Nat
  | _, [] => []
  | inserted, v :: vs =>
    v.tableCols values (v.target number inserted) ++
      tableColsFrom values number (inserted + v.net values) vs

/-- All that comes from a cell has its name. -/
theorem Placed.name {values : Substitutions} {strings : StringTable} {v : CellVisit}
    {cell : CellRef} {group : List Element} (h : Placed values strings v cell group)
    {c : Element} (hc : c ∈ group) : c.name = v.element.name := by
  -- A list, a single cell with a placeholder, and a cell without one keep the name alike.
  cases hitems : v.across? values with
  | some items =>
    have hlaid := h.list items hitems
    obtain ⟨i, hi, rfl⟩ := List.getElem_of_mem hc
    have hi' : i < items.length := hlaid.length ▸ hi
    obtain ⟨t, -, hshown⟩ := hlaid.shows i _ _ (List.getElem?_eq_getElem hi)
      (List.getElem?_eq_getElem hi')
    rw [hshown, name_insertValue, Element.name_setAttr, Element.name_setAttr]
  | none =>
    by_cases hhas : v.HasPlaceholder
    · obtain ⟨c', rfl, hc'⟩ := h.single hhas hitems
      rw [List.mem_singleton.1 hc, hc'.name, Element.name_setAttr]
    · rw [h.plain hhas] at hc
      rw [List.mem_singleton.1 hc, Element.name_setAttr]

namespace Pass

/-- What filling cells of a row does, given the row, its number, and the source column of the cell
before them. -/
structure CellsRun (values : Substitutions) (row : Element) (number previous : Nat)
    (elements : List Element) (visits : List CellVisit) (p p' : Pass) (state state' : RowState) :
    Prop where
  rows : p'.rows = p.rows
  rowsInserted : p'.rowsInserted = p.rowsInserted
  maxCols : p'.maxColsInserted = p.maxColsInserted
  moved : p.Moved p' (rightMoves values number state.colsInserted visits)
  cells : ∃ groups,
    state'.cells.filter (·.name == "c") = state.cells.filter (·.name == "c") ++ groups.flatten ∧
      Spread values p'.strings number state.colsInserted visits groups
  cols : state'.colsInserted = state.colsInserted + (visits.map (·.net values)).sum
  generated : state'.newRows.length =
    max state.newRows.length ((visits.map (·.rows values)).foldr max 0)
  newRows : NewRows row number state.newRows → NewRows row number state'.newRows
  grown : Grown values p'.strings row number state.colsInserted visits state.newRows state'.newRows
  /-- The numbers of all rows that the cells ask for have to fit. -/
  tables : (∀ c ∈ visits, number + c.rows values ≤ max32) →
    p'.tables = p.tables.map (cellsTable values number state.colsInserted visits)
  tableCols : state'.tableCols =
    state.tableCols ++ tableColsFrom values number state.colsInserted visits
  visited : visits.map CellVisit.element = elements.filter (·.name == "c")
  columns : visits.map CellVisit.col = sourceColumns previous (elements.filter (·.name == "c"))
  texts : ∀ c ∈ visits, ∃ t : StringTable,
    p.strings.GrowsTo t ∧ t.GrowsTo p'.strings ∧ c.text = shownText? t c.element

/-- A cell comes first. -/
private theorem CellsRun.cons {values : Substitutions} {row : Element} {number previous : Nat}
    {element : Element} {elements : List Element} {text : Option String} {visits : List CellVisit}
    {p p₁ p' : Pass} {state state₁ state' : RowState} (hname : element.name = "c")
    (htext : text = shownText? p.strings element)
    (hcell : CellStep values row { element, col := sourceColumn previous element, text }
      (CellVisit.target { element, col := sourceColumn previous element, text } number
        state.colsInserted) p p₁ state state₁)
    (hrest : CellsRun values row number (sourceColumn previous element) elements visits p₁ p'
      state₁ state') :
    CellsRun values row number previous (element :: elements)
      ({ element, col := sourceColumn previous element, text } :: visits) p p' state state' := by
  -- The steps that move nothing come first, then the move right of the cell.
  obtain ⟨still, hstill, hp₁⟩ := hcell.moved
  have hmoved := hstill.moved.trans (hp₁ ▸ moved_shiftRight still _ _)
  have hname' : (element.name == "c") = true := beq_iff_eq.2 hname
  refine ⟨?_, ?_, ?_, ?_, ?_, ?_, ?_, fun h => hrest.newRows (hcell.newRows h), ?_, fun hfit => ?_,
    ?_, ?_, ?_, ?_⟩
  · rw [hrest.rows, hp₁]
    exact hstill.rows
  · rw [hrest.rowsInserted, hp₁]
    exact hstill.rowsInserted
  · rw [hrest.maxCols, hp₁]
    exact hstill.maxCols
  · have := hmoved.trans hrest.moved
    rwa [hcell.cols] at this
  -- The cells of the first element come before those of the others.
  · obtain ⟨group, hgroup, hplaced⟩ := hcell.cells
    obtain ⟨groups, hgroups, hspread⟩ := hrest.cells
    -- All that comes from a cell is a cell.
    have hfilter : group.filter (·.name == "c") = group :=
      List.filter_eq_self.2 fun c hc => by simp [hplaced.name hc, hname]
    refine ⟨group :: groups, ?_, .cons (hplaced.mono hrest.moved.strings) ?_⟩
    · rw [hgroups, hgroup, List.filter_append, hfilter, List.append_assoc, List.flatten_cons]
    · rwa [hcell.cols] at hspread
  · rw [hrest.cols, hcell.cols, List.map_cons, List.sum_cons, Int.add_assoc]
  · rw [hrest.generated, hcell.generated, List.map_cons, List.foldr_cons, Nat.max_assoc]
  · have hgrown := hrest.grown
    rw [hcell.cols] at hgrown
    exact .cons (hcell.fields.mono hrest.moved.strings) hgrown
  · obtain ⟨hfitCell, hfitRest⟩ := List.forall_mem_cons.1 hfit
    rw [hrest.tables hfitRest, hcell.tables hfitCell, List.map_map, hcell.cols]
    rfl
  · rw [hrest.tableCols, hcell.tableCols, hcell.cols, List.append_assoc]
    rfl
  · rw [List.filter_cons, if_pos hname', List.map_cons, hrest.visited]
  · rw [List.filter_cons, if_pos hname', List.map_cons, hrest.columns]
    rfl
  · intro c hc
    rcases List.mem_cons.1 hc with rfl | hc
    · exact ⟨p.strings, .refl _, hmoved.strings.trans hrest.moved.strings, htext⟩
    · obtain ⟨t, ht, ht', hshown⟩ := hrest.texts c hc
      exact ⟨t, hmoved.strings.trans ht, ht', hshown⟩

/-- What filling the cells of a row does. -/
theorem cellsRun_of_fillCells {given : Given} {row : Element} {number previous : Nat} {p p' : Pass}
    {state state' : RowState} {elements : List Element}
    (h : fillCells given row number previous p state elements = .ok (p', state')) :
    CellsRun given.values row number previous elements
      (visitCells given row number previous p state elements) p p' state state' := by
  -- The visits fail to go on only where the pass does, so they follow the elements one by one.
  induction elements generalizing previous p state with
  | nil =>
    cases h
    refine ⟨rfl, rfl, rfl, .refl _, ⟨[], by simp, .nil _⟩, by simp [visitCells],
      by simp [visitCells], id, .nil _ _, fun _ => (List.map_id _).symm,
      (List.append_nil _).symm, rfl, rfl, fun c hc => ?_⟩
    simp [visitCells] at hc
  | cons element elements ih =>
    by_cases hname : element.name = "c"
    · simp only [fillCells, hname, ↓reduceIte] at h
      obtain ⟨⟨p₁, state₁⟩, hcell, hrest⟩ := bind_eq_ok.1 h
      have hstep := cellStep_of_fillCell (sourceColumn previous element) hcell
      simp only [visitCells, hname, ↓reduceIte, hcell]
      exact .cons hname rfl hstep (ih hrest)
    · -- What is no cell is kept, and nothing is made of it.
      simp only [fillCells, hname, ↓reduceIte] at h
      simp only [visitCells, hname, ↓reduceIte]
      have hname' : ¬(element.name == "c") = true := by simpa using hname
      obtain ⟨hrows, hinserted, hmax, hmoved, ⟨groups, hgroups, hspread⟩, hcols, hgenerated, hnew,
        hgrown, htables, htableCols, hvisited, hcolumns, htexts⟩ := ih h
      refine ⟨hrows, hinserted, hmax, hmoved, ⟨groups, ?_, hspread⟩, hcols, hgenerated, hnew,
        hgrown, htables, htableCols, ?_, ?_, htexts⟩
      · rw [hgroups, List.filter_append, List.filter_cons, if_neg hname', List.filter_nil,
          List.append_nil]
      · rw [List.filter_cons, if_neg hname', hvisited]
      · rw [List.filter_cons, if_neg hname', hcolumns]

end Pass

/-! ### A row -/

/-- A row without its cells, which has its number already. -/
def bareRow (row : Element) (number : Nat) : Element :=
  (row.setAttr "r" (toString number)).removeElements

/-- The moves that a row makes with generated rows above it. -/
def rowMoves (values : Substitutions) (pushDownPageBreaks : Bool) (sheetName : String) (above : Nat)
    (v : RowVisit) : List Move :=
  rightMoves values (v.number + above) 0 v.cells ++ [.down {
    anchor := v.number + above, rows := v.generated values, pushDownPageBreaks, sheetName }]

/-- A table after a row with generated rows above it: the cells of the row extend it, and if it
begins below the row it moves. -/
def rowTable (values : Substitutions) (pushDownPageBreaks : Bool) (sheetName : String) (above : Nat)
    (v : RowVisit) (t : Table) : Table :=
  Layout.RowShift.shiftTable {
    anchor := v.number + above, rows := v.generated values, pushDownPageBreaks, sheetName }
    (cellsTable values (v.number + above) 0 v.cells t)

/-- A generated row with the copies of other cells that it is given, if it is given any. -/
def withCopies (copied : Bool) (cells : List Element) (tableCols : List Nat) (newRow : Element) :
    Element :=
  if copied then newRow.pushAll (Pass.plainCopies cells tableCols newRow) else newRow

/-- What becomes of a row that comes out under a number: the row itself, and the rows generated
below it, which may be given copies of other cells of the row. -/
structure RowDone (values : Substitutions) (strings : StringTable) (copied : Bool) (number : Nat)
    (v : RowVisit) (block : Element × List Element) : Prop where
  anchor : ∃ cells groups,
    block.1 = Pass.finishedRow (bareRow v.row number) (sortCells cells)
      (v.cells.map (·.net values)).sum ∧
    cells.filter (·.name == "c") = groups.flatten ∧
    Spread values strings number 0 v.cells groups
  generated : block.2.length = v.generated values
  newRows : NewRows (bareRow v.row number) number block.2
  grown : ∃ newRows, Grown values strings (bareRow v.row number) number 0 v.cells [] newRows ∧
    block.2 = newRows.map fun newRow => Pass.sortRow (withCopies copied block.1.elements
      (tableColsFrom values number 0 v.cells) newRow)

section

variable {values : Substitutions} {strings strings' : StringTable} {copied : Bool} {number : Nat}
  {v : RowVisit} {block : Element × List Element}

theorem RowDone.mono (h : RowDone values strings copied number v block)
    (hs : strings.GrowsTo strings') : RowDone values strings' copied number v block := by
  obtain ⟨cells, groups, hrow, hcells, hspread⟩ := h.anchor
  obtain ⟨newRows, hgrown, hrows⟩ := h.grown
  exact ⟨⟨cells, groups, hrow, hcells, hspread.mono hs⟩, h.generated, h.newRows,
    ⟨newRows, hgrown.mono hs, hrows⟩⟩

/-- A generated row, if its number fits. -/
theorem RowDone.getElem? (h : RowDone values strings copied number v block)
    (hfit : number + v.generated values ≤ max32) {k : Nat} {row : Element}
    (hget : block.2[k]? = some row) :
    k < v.generated values ∧ Renumbered (bareRow v.row number) (number + (k + 1)) row := by
  have hk : k < v.generated values := h.generated ▸ (List.getElem?_eq_some_iff.1 hget).1
  have hrow := h.newRows k row hget
  rw [add32_of_le (by omega)] at hrow
  exact ⟨hk, hrow⟩

end

/-- Adding cells to generated rows and sorting them keeps their numbers. -/
private theorem NewRows.map {row : Element} {number : Nat} {newRows : List Element}
    (h : NewRows row number newRows) {f : Element → Element}
    (hf : ∀ n e, Renumbered row n e → Renumbered row n (f e)) :
    NewRows row number (newRows.map f) := by
  intro k e he
  rw [List.getElem?_map] at he
  obtain ⟨e', he', rfl⟩ := Option.map_eq_some_iff.1 he
  exact hf _ _ (h k e' he')

namespace Pass

/-- The cells of a finished row are those it was given. -/
private theorem elements_finishedRow (row : Element) (number : Nat) (cells : List Element)
    (cols : Int) : (finishedRow (bareRow row number) cells cols).elements = cells := by
  have hpushed : ((bareRow row number).pushAll cells).elements = cells := by
    rw [Element.elements_pushAll, bareRow, Element.elements_removeElements, List.nil_append]
  unfold finishedRow
  dsimp only
  split
  · exact hpushed
  · rw [elements_widenSpans, hpushed]

/-- What refers to cells after a row with generated rows above it. -/
structure RowOutcome (given : Given) (above : Nat) (v : RowVisit) (p p' : Pass) : Prop where
  moved : p.Moved p' (rowMoves given.values given.options.pushDownPageBreaks p.sheet.name above v)
  tables : p'.tables = p.tables.map (rowTable given.values given.options.pushDownPageBreaks
    p.sheet.name above v)

/-- What filling a row does, with generated rows above it. Numbers have 32 bits; past them those of
rows begin again at zero, and what refers to cells is moved as if the rows stood there. -/
structure RowStep (given : Given) (above : Nat) (v : RowVisit) (p p' : Pass)
    (block : Element × List Element) : Prop where
  rows : p'.rows.toList = p.rows.toList ++ block.1 :: block.2
  done : RowDone given.values p'.strings given.options.substituteAllTableRows
    (add32 v.number above) v block
  rowsInserted : p'.rowsInserted = low32 (above + v.generated given.values)
  maxCols : 0 ≤ p.maxColsInserted →
    p'.maxColsInserted = max p.maxColsInserted (v.cells.map (·.net given.values)).sum
  shifted : ∃ moves, p.Moved p' moves
  seen : v.Seen p.strings p'.strings
  outcome : RowFits given.values above v → RowOutcome given above v p p'

/-- No rows are inserted, and nothing moves. -/
private theorem moved_down_zero (p : Pass) {s : Layout.RowShift} (h : s.rows = 0) :
    p.Moved p [.down s] where
  sheetName := rfl
  names := by
    have hstay : Layout.moveNames [Move.named? (.down s)] = id := by
      funext e
      exact Layout.moveName_of_none (by cases Layout.nameRange? e <;> simp [Move.named?, h])
    rw [List.map_singleton, hstay, List.map_id]
  merges := by simp [Move.merges, h]
  breaks := by simp [Move.breaks, h]
  others _ _ _ _ := rfl
  strings := .refl _

/-- What finishing a row does, given the rows that are generated below it: to what refers to cells
below it, and to the rows that are done. -/
private structure RowFinished (given : Given) (state : RowState) (row : Element) (number : Nat)
    (newRows : List Element) (p p' : Pass) : Prop where
  rows : p'.rows.toList =
    p.rows.toList ++ finishedRow row (sortCells state.cells) state.colsInserted :: newRows
  length : newRows.length = state.newRows.length
  renumbered : NewRows row number newRows
  copies : newRows = state.newRows.map fun newRow =>
    sortRow (withCopies given.options.substituteAllTableRows (sortCells state.cells)
      state.tableCols newRow)
  rowsInserted : p'.rowsInserted = add32 p.rowsInserted newRows.length
  maxCols : 0 ≤ p.maxColsInserted →
    p'.maxColsInserted = max p.maxColsInserted state.colsInserted
  moved : p.Moved p' [.down {
    anchor := number, rows := low32 newRows.length
    pushDownPageBreaks := given.options.pushDownPageBreaks, sheetName := p.sheet.name }]
  tables : p'.tables = p.tables.map (Layout.RowShift.shiftTable {
    anchor := number, rows := low32 newRows.length
    pushDownPageBreaks := given.options.pushDownPageBreaks, sheetName := p.sheet.name })

/-- No rows are inserted, and no table moves. -/
private theorem shiftTable_zero {s : Layout.RowShift} (h : s.rows = 0) : s.shiftTable = id := by
  funext t
  exact if_pos h

/-- The cells of a row are put into it, and its generated rows come below. -/
private theorem rowFinished_of_finishRow (given : Given) {p : Pass} {state : RowState}
    {row : Element} {number : Nat} (anchors : Nat) (hinserted : p.rowsInserted ≤ max32)
    (hnew : NewRows row number state.newRows) :
    ∃ newRows, RowFinished given state row number newRows p
      (p.finishRow given state row number anchors) := by
  unfold finishRow
  extract_lets cells newRows pushed
  -- The heights and the order of generated rows do not concern how many there are.
  have hlength : newRows.length = state.newRows.length := by
    simp only [newRows]
    split
    · exact List.length_map _
    · rfl
  have hrows : NewRows row number (newRows.map sortRow) := by
    have hkept : NewRows row number newRows := by
      simp only [newRows]
      split
      · exact hnew.map fun n e he => ⟨he.name, he.number, he.attr⟩
      · exact hnew
    exact hkept.map fun n e he => ⟨he.name, he.number, he.attr⟩
  have hcopies : newRows.map sortRow = state.newRows.map fun newRow =>
      sortRow (withCopies given.options.substituteAllTableRows cells state.tableCols newRow) := by
    cases hcopied : given.options.substituteAllTableRows <;>
      simp [newRows, hcopied, withCopies, List.map_map, Function.comp_def]
  -- Where a row inserts no columns nothing is written, and the largest number stays the same.
  have hmax : 0 ≤ p.maxColsInserted →
      pushed.maxColsInserted = max p.maxColsInserted state.colsInserted := by
    intro hpos
    simp only [pushed]
    split <;> omega
  refine ⟨newRows.map sortRow, ?_⟩
  split
  · -- Without generated rows the step below the row is left out, which is a move by no rows.
    rename_i hempty
    have hnil : newRows = [] := List.isEmpty_iff.1 hempty
    have hzero : (newRows.map sortRow).length = 0 := by simp [hnil]
    have hnone : low32 (newRows.map sortRow).length = 0 := by rw [hzero]; rfl
    have := moved_down_zero p (s := {
      anchor := number, rows := low32 (newRows.map sortRow).length
      pushDownPageBreaks := given.options.pushDownPageBreaks, sheetName := p.sheet.name }) hnone
    refine ⟨by simp [hnil, pushed, cells], (List.length_map _).trans hlength, hrows, hcopies,
      by rw [hzero, Text.add32_zero hinserted], hmax,
      ⟨this.sheetName, this.names, this.merges, this.breaks, this.others, this.strings⟩, ?_⟩
    rw [shiftTable_zero hnone, List.map_id]
  · have := moved_shiftDown p {
      anchor := number, rows := low32 (newRows.map sortRow).length
      pushDownPageBreaks := given.options.pushDownPageBreaks, sheetName := p.sheet.name }
    rw [List.length_map] at this
    unfold finishNewRows
    dsimp only
    split <;>
      exact ⟨by simp [shiftDown, pushed, cells], (List.length_map _).trans hlength, hrows, hcopies,
        by simp [shiftDown, pushed, add32_low32_right], hmax, by
          rw [List.length_map]
          exact ⟨this.sheetName, this.names, this.merges, this.breaks, this.others, this.strings⟩,
        by rw [List.length_map]; rfl⟩

/-- What filling a row does. -/
theorem rowStep_of_fillRow {given : Given} {above : Nat} {p p' : Pass} {source : Nat}
    {row : Element} (h : p.fillRow given source row = .ok p')
    (habove : p.rowsInserted = low32 above) :
    ∃ block, RowStep given above
      { row, number := source
        cells := visitCells given (bareRow row (add32 source p.rowsInserted))
          (add32 source p.rowsInserted) 0 p {} row.elements } p p' block := by
  -- The row comes out under the sum of its number and the rows above it, in 32 bits.
  have hnumber : add32 source p.rowsInserted = add32 source above := by
    rw [habove, add32_low32_right]
  obtain ⟨p₁, state, hcells, rfl⟩ := fillRow_eq_ok h
  rw [hnumber] at hcells ⊢
  have hrun := cellsRun_of_fillCells hcells
  obtain ⟨groups, hgroups, hspread⟩ := hrun.cells
  -- A row begins without generated rows.
  have hnone : NewRows (bareRow row (add32 source above)) (add32 source above) [] :=
    fun k e he => by simp at he
  have hinserted : p₁.rowsInserted = low32 above := hrun.rowsInserted.trans habove
  obtain ⟨newRows, hfinished⟩ := rowFinished_of_finishRow given
    ((p.drawing.map fun d => d.anchors.length).getD 0)
    (show p₁.rowsInserted ≤ max32 from hinserted ▸ low32_le above) (hrun.newRows hnone)
  have hgenerated := hfinished.length.trans hrun.generated
  simp only [List.length_nil, Nat.zero_max] at hgenerated
  refine ⟨(finishedRow (bareRow row (add32 source above)) (sortCells state.cells)
      state.colsInserted, newRows), ?_,
    ⟨⟨state.cells, groups, ?_, hgroups, hspread.mono hfinished.moved.strings⟩, hgenerated,
      hfinished.renumbered, state.newRows, hrun.grown.mono hfinished.moved.strings, ?_⟩, ?_,
    fun hpos => ?_, ⟨_, hrun.moved.trans hfinished.moved⟩, ⟨hrun.visited, hrun.columns, ?_⟩,
    fun hfit => ?_⟩
  · apply hfinished.rows.trans
    rw [hrun.rows]
    rfl
  · rw [hrun.cols, Int.zero_add]
    rfl
  · rw [elements_finishedRow]
    exact hfinished.copies.trans (by rw [hrun.tableCols]; rfl)
  · apply hfinished.rowsInserted.trans
    rw [hinserted, add32_low32_left, hgenerated]
    rfl
  · have hcols := hfinished.maxCols (by rwa [hrun.maxCols])
    rwa [hrun.maxCols, hrun.cols, Int.zero_add] at hcols
  · intro c hc
    obtain ⟨t, ht, ht', htext⟩ := hrun.texts c hc
    exact ⟨t, ht, ht'.trans hfinished.moved.strings, htext⟩
  · -- The numbers fit, so that they are plain sums.
    have hcount : low32 newRows.length = newRows.length := by
      rw [hgenerated]
      exact low32_of_le (Nat.le_trans (Nat.le_add_left ..) hfit)
    have hmoved := hfinished.moved
    have htables := hfinished.tables
    have hsum : add32 source above = source + above := hfit.number
    rw [hrun.moved.sheetName, hcount, hgenerated] at hmoved htables
    rw [hsum] at hrun hmoved htables hfit ⊢
    refine ⟨hrun.moved.trans hmoved, htables.trans ?_⟩
    rw [hrun.tables hfit.cells, List.map_map]
    rfl

end Pass

end Fill

end SheetTemplate
