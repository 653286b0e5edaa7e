import SheetTemplate.Proofs.DeclaredSpans
import SheetTemplate.Proofs.Insertions

/-!
# Where the cells of a row come out

Each cell of a row comes out where the source has it, moved by the columns that the cells left of it
insert. A list takes as many columns as it has items, and every other cell takes one. So the
columns of the finished cells increase as those of the source cells do, and sorting the cells of a
row changes nothing.

## Key results

- `finishedColumns`: the columns in order, without a gap between the items of a list
- `rows_laid_out`: the cells of the rows of a pass
-/

namespace SheetTemplate.Fill

open Xml (Element)

/-! ### Columns -/

/-- The number of cells that come out of a cell. -/
def CellVisit.width (values : Substitutions) (v : CellVisit) : Nat :=
  match v.across? values with
  | some items => items.length
  | none => 1

/-- The column that a cell among those of a row comes out at. -/
def finishedColumn (values : Substitutions) (cells : List CellVisit) (v : CellVisit) : Nat :=
  (v.col + netLeft values v.col cells).toNat

/-- The columns of the finished cells of a row in order. -/
def finishedColumns (values : Substitutions) (cells : List CellVisit) : List Nat :=
  cells.flatMap fun v => List.range' (finishedColumn values cells v) (v.width values)

variable (values : Substitutions) {cells : List CellVisit}

/-- What a cell inserts is what it takes beyond the one column it had. -/
theorem net_eq_width (v : CellVisit) : v.net values = (v.width values : Int) - 1 := by
  unfold CellVisit.net CellVisit.width
  cases v.across? values <;> rfl

section

variable (hinc : (cells.map CellVisit.col).Pairwise (· < ·))

include hinc

/-- No cell is pulled beyond the first column. -/
theorem coe_finishedColumn (hpos : ∀ v ∈ cells, 0 < v.col) {v : CellVisit} (hv : v ∈ cells) :
    0 < finishedColumn values cells v ∧
      (finishedColumn values cells v : Int) = v.col + netLeft values v.col cells := by
  have := lt_add_netLeft values hinc hpos (hpos v hv)
  unfold finishedColumn
  omega

/-- The columns of the finished cells increase. -/
theorem pairwise_finishedColumns (hpos : ∀ v ∈ cells, 0 < v.col) :
    (finishedColumns values cells).Pairwise (· < ·) := by
  unfold finishedColumns
  rw [List.pairwise_flatMap]
  refine ⟨fun v _ => List.pairwise_lt_range', ?_⟩
  -- Two cells of the source: all that comes out of the left one ends before the right one.
  refine (List.pairwise_map.1 hinc).imp_of_mem fun {v w} hv hw hlt => ?_
  intro m hm n hn
  have hnext := add_net_lt values hinc hv hlt
  have hm := (List.mem_range'_1.1 hm).2
  have hn := (List.mem_range'_1.1 hn).1
  have hcolv := (coe_finishedColumn values hinc hpos hv).2
  have hcolw := (coe_finishedColumn values hinc hpos hw).2
  have hwidth := net_eq_width values v
  omega

/-- No cell is pulled beyond the first declared column. -/
theorem le_finishedColumn {first : Nat} (hfirst : ∀ v ∈ cells, first ≤ v.col)
    (hpos : ∀ v ∈ cells, 0 < v.col) {v : CellVisit} (hv : v ∈ cells) :
    first ≤ finishedColumn values cells v := by
  have hbefore : ∀ w ∈ cells, first - 1 < w.col := fun w hw => by
    have := hfirst w hw
    have := hpos w hw
    omega
  have := lt_add_netLeft values hinc hbefore (hbefore v hv)
  have hcolv := (coe_finishedColumn values hinc hpos hv).2
  omega

/-- Where the declared columns cover the source cells, they cover the finished ones once the last
column has moved by the columns inserted. -/
theorem finishedColumns_bounds {first last : Nat}
    (hcover : ∀ v ∈ cells, first ≤ v.col ∧ v.col ≤ last) (hpos : ∀ v ∈ cells, 0 < v.col)
    {col : Nat} (hcol : col ∈ finishedColumns values cells) :
    first ≤ col ∧ (col : Int) ≤ last + (cells.map (·.net values)).sum := by
  obtain ⟨v, hv, hcol⟩ := List.mem_flatMap.1 hcol
  have hrange := List.mem_range'_1.1 hcol
  have hcolv := (coe_finishedColumn values hinc hpos hv).2
  have hwidth := net_eq_width values v
  -- The first column is kept or moves to the right; the last one moves by all that is inserted up
  -- to it.
  constructor
  · have := le_finishedColumn values hinc (fun w hw => (hcover w hw).1) hpos hv
    omega
  · have hleft : ∀ w ∈ cells, w.col < last + 1 := fun w hw => by
      have := hcover w hw
      omega
    have := add_net_lt values hinc hv (hleft v hv)
    rw [netLeft_eq_sum hleft] at this
    omega

/-- The finished cells of a row stand inside the sheet. -/
theorem finishedColumns_inside (hpos : ∀ v ∈ cells, 0 < v.col)
    (hcols : ∀ v ∈ cells, v.col + netLeft values v.col cells + v.net values ≤ maxCols)
    {col : Nat} (hcol : col ∈ finishedColumns values cells) : 0 < col ∧ col ≤ maxCols := by
  obtain ⟨v, hv, hcol⟩ := List.mem_flatMap.1 hcol
  have hrange := List.mem_range'_1.1 hcol
  have hcolv := coe_finishedColumn values hinc hpos hv
  have hlast := hcols v hv
  rw [net_eq_width] at hlast
  omega

end

variable {values}

/-- The first column is never reached from the right, so nothing is cut off there. -/
theorem target_eq (hinc : (cells.map CellVisit.col).Pairwise (· < ·))
    (hpos : ∀ v ∈ cells, 0 < v.col) {v : CellVisit} (hv : v ∈ cells) (number : Nat) :
    v.target number (0 + netLeft values v.col cells) =
      { col := finishedColumn values cells v, row := number } := by
  have hcolumn := coe_finishedColumn values hinc hpos hv
  simp only [CellVisit.target, CellRef.mk.injEq, true_and, and_true]
  omega

/-! ### Cells -/

/-- A cell as it leaves the pass in a row of some name. -/
def uncachedCell (rowName : String) (cell : Element) : Element :=
  if rowName == "row" then dropCached cell else cell

/-- A cell keeps its attributes when its cached value is taken. -/
@[simp]
theorem attr?_uncachedCell (rowName : String) (cell : Element) (key : String) :
    (uncachedCell rowName cell).attr? key = cell.attr? key := by
  unfold uncachedCell
  split <;> simp

/-- It keeps its name. -/
@[simp]
theorem name_uncachedCell (rowName : String) (cell : Element) :
    (uncachedCell rowName cell).name = cell.name := by
  unfold uncachedCell
  split
  · exact name_dropCached cell
  · rfl

/-- Hence it keeps its column. -/
@[simp]
theorem sortColumn_uncachedCell (rowName : String) (cell : Element) :
    sortColumn (uncachedCell rowName cell) = sortColumn cell := by
  unfold sortColumn
  rw [name_uncachedCell, attr?_uncachedCell]

/-- Whether a formula shows a value is no matter of attributes. -/
theorem setAttr_uncachedCell (rowName : String) (cell : Element) (key value : String) :
    (uncachedCell rowName cell).setAttr key value =
      uncachedCell rowName (cell.setAttr key value) := by
  unfold uncachedCell dropCached
  have hformula : (cell.setAttr key value).child? "f" = cell.child? "f" := rfl
  rw [hformula]
  split
  · split <;> rfl
  · rfl

/-- The cells of the row are those of before, without cached values. -/
theorem named_uncachedRow (row : Element) :
    (uncachedRow row).named "c" = (row.named "c").map (uncachedCell row.name) := by
  unfold uncachedRow
  -- In an element that is no row nothing is taken away.
  split
  · rename_i hname
    have hcell : uncachedCell row.name = dropCached := by
      funext c
      simp [uncachedCell, hname]
    rw [hcell, Element.named_mapNamed row "c" name_dropCached]
  · rename_i hname
    have hcell : uncachedCell row.name = id := by
      funext c
      simp [uncachedCell, hname]
    rw [hcell, List.map_id]

/-- The attributes of the cells stay in their order. -/
theorem map_attr?_named_uncachedRow (row : Element) (key : String) :
    ((uncachedRow row).named "c").map (·.attr? key) = (row.named "c").map (·.attr? key) := by
  rw [named_uncachedRow, List.map_map]
  exact List.map_congr_left fun c _ => attr?_uncachedCell _ c key

/-- What comes out of one cell of a row: the cells from its finished column on. -/
structure CellLaidOut (values : Substitutions) (strings : StringTable) (rowName : String)
    (number : Nat) (cells : List CellVisit) (v : CellVisit) (group : List Element) : Prop where
  column : (finishedColumn values cells v : Int) = v.col + netLeft values v.col cells
  /-- Without a placeholder the cell comes out unchanged up to its reference. -/
  plain : ¬v.HasPlaceholder → group = [uncachedCell rowName
    (v.element.setAttr "r" { col := finishedColumn values cells v, row := number : CellRef }.a1)]
  /-- A list takes one cell for each item. -/
  list : ∀ items, v.across? values = some items → group.length = items.length ∧
    ∀ (i : Nat) (c : Element) (item : Value), group[i]? = some c → items[i]? = some item →
      ∃ shown, c = uncachedCell rowName shown ∧
        Shows strings (v.element.setAttr "r"
          { col := finishedColumn values cells v + i, row := number : CellRef }.a1) item shown ∧
        Refilled (v.element.setAttr "r"
          { col := finishedColumn values cells v + i, row := number : CellRef }.a1) shown
  /-- Any other placeholder fills one cell. -/
  single : v.HasPlaceholder → v.across? values = none →
    ∃ shown, group = [uncachedCell rowName shown] ∧ Refilled
      (v.element.setAttr "r" { col := finishedColumn values cells v, row := number : CellRef }.a1)
      shown

/-- A cell that shows a value is its template filled in. -/
theorem Shows.refilled {strings : StringTable} {template cell : Element} {value : Value}
    (h : Shows strings template value cell) : Refilled template cell := by
  obtain ⟨t, -, rfl⟩ := h
  exact ⟨name_insertValue t template value, fun _ hkey => attr?_insertValue t template value hkey⟩

/-- Inside the sheet, items stand in the columns right of the first. -/
theorem offset_eq {col row i : Nat} (hcol : 0 < col) (hlast : col + i ≤ maxCols)
    (hrow : 0 < row) (hrow' : row ≤ maxRows) :
    ({ col, row : CellRef }.offset i 0) = { col := col + i, row } := by
  have hmoved := CellRef.movedBy_offset { col, row : CellRef }
    (show (1 : Int) ≤ col + i by omega) (show (col + i : Int) ≤ maxCols by omega)
    (show (1 : Int) ≤ row + 0 by omega) (show (row + 0 : Int) ≤ maxRows by omega)
  have hcol' := hmoved.col
  have hrow' := hmoved.row
  simp only [CellRef.offset, CellRef.mk.injEq, true_and, and_true] at hcol' hrow' ⊢
  omega

/-- The cells put for a source cell are laid out from its finished column onwards. -/
private theorem cellLaidOut_of_placed {strings : StringTable} {number : Nat}
    {v : CellVisit} {shown : List Element} (rowName : String)
    (h : Placed values strings v { col := finishedColumn values cells v, row := number } shown)
    (hcol : 0 < finishedColumn values cells v)
    (hcolumn : (finishedColumn values cells v : Int) = v.col + netLeft values v.col cells)
    (hlast : finishedColumn values cells v + v.width values ≤ maxCols + 1)
    (hrow : 0 < number) (hrow' : number ≤ maxRows) :
    CellLaidOut values strings rowName number cells v (shown.map (uncachedCell rowName)) where
  column := hcolumn
  plain hplain := by
    rw [h.plain hplain]
    rfl
  list items hitems := by
    have hlaid := h.list items hitems
    refine ⟨(List.length_map _).trans hlaid.length, fun i c item hc hitem => ?_⟩
    rw [List.getElem?_map] at hc
    obtain ⟨c', hc', rfl⟩ := Option.map_eq_some_iff.1 hc
    have hshows := hlaid.shows i c' item hc' hitem
    have hi : i < items.length := (List.getElem?_eq_some_iff.1 hitem).1
    have hwidth : v.width values = items.length := by simp [CellVisit.width, hitems]
    rw [offset_eq hcol (by omega) hrow hrow', Element.setAttr_setAttr] at hshows
    exact ⟨c', rfl, hshows, hshows.refilled⟩
  single hhas hnone := by
    obtain ⟨c, rfl, hc⟩ := h.single hhas hnone
    exact ⟨c, rfl, hc⟩

/-- The cells of a row are filled at their finished columns. -/
theorem placed_of_spread {strings : StringTable} {number : Nat} {groups : List (List Element)}
    (h : Spread values strings number 0 cells groups)
    (hinc : (cells.map CellVisit.col).Pairwise (· < ·)) (hpos : ∀ v ∈ cells, 0 < v.col) :
    List.Forall₂ (fun v group =>
      Placed values strings v { col := finishedColumn values cells v, row := number } group)
      cells groups := by
  apply forall₂_imp_of_mem (h.forall₂ hinc)
  intro v hv group hplaced
  rwa [target_eq hinc hpos hv] at hplaced

/-- What comes out of the cells of a row, each taken by itself. -/
theorem laidOut_of_spread {strings : StringTable} {number : Nat}
    {groups : List (List Element)} (rowName : String)
    (h : Spread values strings number 0 cells groups)
    (hinc : (cells.map CellVisit.col).Pairwise (· < ·)) (hpos : ∀ v ∈ cells, 0 < v.col)
    (hcols : ∀ v ∈ cells, v.col + netLeft values v.col cells + v.net values ≤ maxCols)
    (hrow : 0 < number) (hrow' : number ≤ maxRows) :
    List.Forall₂ (CellLaidOut values strings rowName number cells) cells
      (groups.map (·.map (uncachedCell rowName))) := by
  rw [List.forall₂_map_right_iff]
  apply forall₂_imp_of_mem (placed_of_spread h hinc hpos)
  intro v hv group hplaced
  obtain ⟨hcol, hcolumn⟩ := coe_finishedColumn values hinc hpos hv
  have hlast := hcols v hv
  rw [net_eq_width] at hlast
  exact cellLaidOut_of_placed rowName hplaced hcol hcolumn (by omega) hrow hrow'

/-- The references of what comes out of a cell. -/
theorem CellLaidOut.attr?_eq {strings : StringTable} {rowName : String} {number : Nat}
    {v : CellVisit} {group : List Element}
    (h : CellLaidOut values strings rowName number cells v group) :
    group.map (·.attr? "r") =
      (List.range' (finishedColumn values cells v) (v.width values)).map
        fun col => some { col, row := number : CellRef }.a1 := by
  -- A list takes one column for each item, any other cell one.
  cases hitems : v.across? values with
  | none =>
    have hwidth : v.width values = 1 := by simp [CellVisit.width, hitems]
    rw [hwidth]
    by_cases hhas : v.HasPlaceholder
    · obtain ⟨c, rfl, hc⟩ := h.single hhas hitems
      simp [hc.attr "r" (by decide)]
    · simp [h.plain hhas]
  | some items =>
    obtain ⟨hlength, hshown⟩ := h.list items hitems
    have hwidth : v.width values = items.length := by simp [CellVisit.width, hitems]
    refine List.ext_getElem? fun i => ?_
    rw [List.getElem?_map, List.getElem?_map]
    by_cases hi : i < items.length
    · have hc := List.getElem?_eq_getElem (hlength ▸ hi : i < group.length)
      obtain ⟨c, heq, -, hc'⟩ := hshown i _ _ hc (List.getElem?_eq_getElem hi)
      rw [hc, List.getElem?_range' (by omega), Option.map_some, Option.map_some, heq,
        attr?_uncachedCell, hc'.attr "r" (by decide), Element.attr?_setAttr_self, Nat.one_mul]
    · rw [List.getElem?_eq_none (by omega), List.getElem?_eq_none (by simp; omega)]
      rfl

/-- What comes out of a cell has its name. -/
theorem CellLaidOut.name_eq {strings : StringTable} {rowName : String} {number : Nat}
    {v : CellVisit} {group : List Element}
    (h : CellLaidOut values strings rowName number cells v group) {c : Element} (hc : c ∈ group) :
    c.name = v.element.name := by
  -- The cells of a list are filled in from the cell, and so named as it is.
  cases hitems : v.across? values with
  | none =>
    by_cases hhas : v.HasPlaceholder
    · obtain ⟨shown, rfl, hshown⟩ := h.single hhas hitems
      rw [List.mem_singleton.1 hc, name_uncachedCell, hshown.name, Element.name_setAttr]
    · rw [h.plain hhas] at hc
      rw [List.mem_singleton.1 hc, name_uncachedCell, Element.name_setAttr]
  | some items =>
    obtain ⟨hlength, hlaid⟩ := h.list items hitems
    obtain ⟨i, hi, rfl⟩ := List.getElem_of_mem hc
    obtain ⟨shown, heq, -, hshown⟩ := hlaid i _ _ (List.getElem?_eq_getElem hi)
      (List.getElem?_eq_getElem (hlength ▸ hi))
    rw [heq, name_uncachedCell, hshown.name, Element.name_setAttr]

/-- The references of all cells of a row. -/
private theorem flatten_attr?_eq {strings : StringTable} {rowName : String} {number : Nat}
    {vs : List CellVisit} {groups : List (List Element)}
    (h : List.Forall₂ (CellLaidOut values strings rowName number cells) vs groups) :
    groups.flatten.map (·.attr? "r") =
      (vs.flatMap fun v => List.range' (finishedColumn values cells v) (v.width values)).map
        fun col => some { col, row := number : CellRef }.a1 := by
  induction h with
  | nil => rfl
  | cons hgroup _ ih =>
    rw [List.flatten_cons, List.map_append, hgroup.attr?_eq, ih, List.flatMap_cons,
      List.map_append]

/-! ### Sorting -/

/-- Cells that are in order already are not moved. -/
theorem sortCells_of_pairwise {cells : List Element}
    (h : cells.Pairwise fun a b => sortColumn a ≤ sortColumn b) : sortCells cells = cells :=
  List.mergeSort_of_pairwise (h.imp decide_eq_true)

/-- Sorting puts the cells in the order of their columns. -/
theorem pairwise_sortCells (cells : List Element) :
    (sortCells cells).Pairwise fun a b => sortColumn a ≤ sortColumn b := by
  refine (List.pairwise_mergeSort (fun a b c hab hbc => ?_) (fun a b => ?_) cells).imp
    of_decide_eq_true
  · simp only [decide_eq_true_eq] at hab hbc ⊢
    exact Nat.le_trans hab hbc
  · simp only [Bool.or_eq_true, decide_eq_true_eq]
    exact Nat.le_total _ _

/-- Cells that are in order already stay so when the row is sorted. -/
theorem filter_sortCells {cells : List Element}
    (h : ((cells.filter (·.name == "c")).map sortColumn).Pairwise (· < ·)) :
    (sortCells cells).filter (·.name == "c") = cells.filter (·.name == "c") := by
  have hsorted : (cells.filter (·.name == "c")).Pairwise
      (fun a b => decide (sortColumn a ≤ sortColumn b) = true) :=
    (List.pairwise_map.1 h).imp fun hlt => decide_eq_true (Nat.le_of_lt hlt)
  -- Sorting is stable, so a part that is sorted already keeps its order.
  have hsub : (cells.filter (·.name == "c")).Sublist (sortCells cells) :=
    List.sublist_mergeSort
      (fun a b c hab hbc => by
        simp only [decide_eq_true_eq] at hab hbc ⊢
        exact Nat.le_trans hab hbc)
      (fun a b => by
        simp only [Bool.or_eq_true, decide_eq_true_eq]
        exact Nat.le_total _ _)
      hsorted List.filter_sublist
  -- It has as many cells as the sorted row, so it is all of them.
  have hfilter := hsub.filter (·.name == "c")
  rw [List.filter_filter] at hfilter
  simp only [Bool.and_self] at hfilter
  exact (hfilter.eq_of_length
    ((List.mergeSort_perm cells _).filter (·.name == "c")).length_eq.symm).symm

/-- Cells with references inside the sheet are sorted by their columns. -/
theorem map_sortColumn {group : List Element} {cols : List Nat} {number : Nat}
    (hname : ∀ c ∈ group, c.name = "c")
    (hattr : group.map (·.attr? "r") = cols.map fun col => some { col, row := number : CellRef }.a1)
    (hcols : ∀ col ∈ cols, 0 < col ∧ col ≤ maxCols) (hrow : 0 < number) (hrow' : number ≤ maxRows) :
    group.map sortColumn = cols := by
  -- The columns are read from the references.
  have hsort : group.map sortColumn = (group.map (·.attr? "r")).map fun r =>
      ((r.bind CellRef.parse?).map CellRef.col).getD 0 := by
    rw [List.map_map]
    exact List.map_congr_left fun c hc => by simp [sortColumn, hname c hc]
  rw [hsort, hattr, List.map_map]
  conv_rhs => rw [← List.map_id cols]
  refine List.map_congr_left fun col hcol => ?_
  have hread : ({ col, row := number : CellRef }).Readable :=
    ⟨fun q hq => by simp at hq, (hcols col hcol).1, (hcols col hcol).2, hrow, hrow'⟩
  simp [CellRef.parse?_a1 hread]

/-! ### Rows -/

/-- What comes out of the cells of a row: for each of them its group of cells, in order. -/
structure RowLaidOut (values : Substitutions) (strings : StringTable) (visits : List RowVisit)
    (v : RowVisit) (row : Element) : Prop where
  cells : ∃ groups, row.named "c" = groups.flatten ∧
    List.Forall₂ (CellLaidOut values strings v.row.name (finishedNumber values visits v) v.cells)
      v.cells groups
  refs : (row.named "c").map (·.attr? "r") = (finishedColumns values v.cells).map fun col =>
    some { col, row := finishedNumber values visits v : CellRef }.a1
  increasing : (finishedColumns values v.cells).Pairwise (· < ·)
  inside : ∀ col ∈ finishedColumns values v.cells, 0 < col ∧ col ≤ maxCols
  /-- Declared columns that cover the source cells cover the finished cells. -/
  spans : ∀ first last, declaredSpan? v.row = some (first, last) →
    (∀ c ∈ v.cells, first ≤ c.col ∧ c.col ≤ last) →
    ∃ last', declaredSpan? row = some (first, last') ∧
      ∀ col ∈ finishedColumns values v.cells, first ≤ col ∧ col ≤ last'

/-- The cells of a finished row are those that were put in. -/
private theorem named_finishedRow (row : Element) (number : Nat) (cells : List Element)
    (cols : Int) :
    (Pass.finishedRow (bareRow row number) cells cols).named "c" =
      cells.filter (·.name == "c") := by
  have hpushed : ((bareRow row number).pushAll cells).named "c" = cells.filter (·.name == "c") := by
    rw [Element.named_pushAll, bareRow, Element.named, Element.elements_removeElements]
    rfl
  unfold Pass.finishedRow
  dsimp only
  -- Widening the spans writes an attribute and no cells.
  split
  · exact hpushed
  · rw [← hpushed]
    unfold widenSpans
    dsimp only
    split <;> rfl

/-- Sorting the cells of a row at hand changes nothing. -/
theorem named_of_rowDone {strings : StringTable} {copied : Bool} {number : Nat} {v : RowVisit}
    {block : Element × List Element} (h : RowDone values strings copied number v block)
    (hpos : ∀ c ∈ v.cells, 0 < c.col) (hinc : (v.cells.map CellVisit.col).Pairwise (· < ·))
    (hrow : 0 < number) (hrow' : number ≤ maxRows)
    (hcols : ∀ c ∈ v.cells, c.col + netLeft values c.col v.cells + c.net values ≤ maxCols) :
    ∃ shown, Spread values strings (number) 0 v.cells shown ∧
      (uncachedBlock block).1.named "c" =
        (shown.map (·.map (uncachedCell v.row.name))).flatten := by
  obtain ⟨cells, shown, hblock, hshown, hspread⟩ := h.anchor
  have hflatten : (shown.map (·.map (uncachedCell v.row.name))).flatten =
      shown.flatten.map (uncachedCell v.row.name) := List.map_flatten.symm
  -- Formulas lose the value they showed only after sorting, which does not change a reference.
  have hrefs : (cells.filter (·.name == "c")).map (·.attr? "r") =
      (finishedColumns values v.cells).map fun col =>
        some { col, row := number : CellRef }.a1 := by
    rw [hshown]
    refine Eq.trans ?_ (flatten_attr?_eq
      (laidOut_of_spread v.row.name hspread hinc hpos hcols hrow hrow'))
    rw [hflatten, List.map_map]
    exact List.map_congr_left fun c _ => (attr?_uncachedCell _ c "r").symm
  have hcells : ∀ c ∈ cells.filter (·.name == "c"), c.name = "c" := by
    intro c hc
    simpa using (List.mem_filter.1 hc).2
  -- The cells were in order already, so sorting the row keeps them where they are.
  have hsort : (cells.filter (·.name == "c")).map sortColumn = finishedColumns values v.cells :=
    map_sortColumn hcells hrefs (fun col hcol => finishedColumns_inside values hinc hpos hcols hcol)
      hrow hrow'
  have hsorted : (sortCells cells).filter (·.name == "c") = shown.flatten := by
    rw [← hshown]
    apply filter_sortCells
    rw [hsort]
    exact pairwise_finishedColumns values hinc hpos
  have hname : block.1.name = v.row.name := h.renumbered.name
  refine ⟨shown, hspread, ?_⟩
  rw [uncachedBlock, named_uncachedRow, hname, hblock, named_finishedRow, hsorted, hflatten]

/-- The references of the row at hand, before its formulas lose the values they showed. -/
theorem refs_of_rowDone {strings : StringTable} {copied : Bool} {number : Nat} {v : RowVisit}
    {block : Element × List Element} (h : RowDone values strings copied number v block)
    (hpos : ∀ c ∈ v.cells, 0 < c.col) (hinc : (v.cells.map CellVisit.col).Pairwise (· < ·))
    (hrow : 0 < number) (hrow' : number ≤ maxRows)
    (hcols : ∀ c ∈ v.cells, c.col + netLeft values c.col v.cells + c.net values ≤ maxCols) :
    (block.1.named "c").map (·.attr? "r") = (finishedColumns values v.cells).map fun col =>
      some { col, row := number : CellRef }.a1 := by
  obtain ⟨shown, hspread, hnamed⟩ := named_of_rowDone h hpos hinc hrow hrow' hcols
  rw [← map_attr?_named_uncachedRow]
  rw [uncachedBlock] at hnamed
  rw [hnamed]
  exact flatten_attr?_eq (laidOut_of_spread v.row.name hspread hinc hpos hcols hrow hrow')

/-- A row that is done is laid out as stated, if it stays inside the sheet. -/
private theorem rowLaidOut_of_rowDone {strings : StringTable} {copied : Bool}
    {visits : List RowVisit} {v : RowVisit} {block : Element × List Element}
    (h : RowDone values strings copied (finishedNumber values visits v) v block)
    (hpos : ∀ c ∈ v.cells, 0 < c.col)
    (hinc : (v.cells.map CellVisit.col).Pairwise (· < ·)) (hnumber : 0 < v.number)
    (hrows : v.number + rowsAbove values visits v.number + v.generated values ≤ maxRows)
    (hcols : ∀ c ∈ v.cells, c.col + netLeft values c.col v.cells + c.net values ≤ maxCols) :
    RowLaidOut values strings visits v (uncachedBlock block).1 := by
  have hrow0 : 0 < finishedNumber values visits v := by
    unfold finishedNumber
    omega
  have hrow1 : finishedNumber values visits v ≤ maxRows := by
    unfold finishedNumber
    omega
  have hinside : ∀ col ∈ finishedColumns values v.cells, 0 < col ∧ col ≤ maxCols :=
    fun col hcol => finishedColumns_inside values hinc hpos hcols hcol
  -- The cells are known from the row that is done; what is left is about its spans.
  obtain ⟨shown, hspread, hnamed⟩ := named_of_rowDone h hpos hinc hrow0 hrow1 hcols
  have hgroups := laidOut_of_spread v.row.name hspread hinc hpos hcols hrow0 hrow1
  refine ⟨⟨_, hnamed, hgroups⟩, ?_, pairwise_finishedColumns values hinc hpos, hinside, ?_⟩
  · rw [hnamed]
    exact flatten_attr?_eq hgroups
  · intro first last hdeclared hcover
    obtain ⟨cells, _, hblock, -, -⟩ := h.anchor
    obtain ⟨last', hspan, hlast⟩ := declaredSpan?_finishedRow
      (v.number + rowsAbove values visits v.number) (sortCells cells)
      (v.cells.map (·.net values)).sum hdeclared
    refine ⟨last', ?_, fun col hcol => ?_⟩
    · rw [uncachedBlock, hblock]
      exact hspan
    · -- Either the end of the span has moved far enough, or it is beyond the sheet.
      have hbounds := finishedColumns_bounds values hinc hcover hpos hcol
      have := (hinside col hcol).2
      omega

end SheetTemplate.Fill
