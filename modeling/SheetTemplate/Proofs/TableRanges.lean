import SheetTemplate.Proofs.RegionTracking
import SheetTemplate.Proofs.RowNumbers

/-!
# The rows of tables

A table moves down with the rows generated above it. Rows generated for a cell inside it extend it
too, but only as far as the generated cells reach below its last row. What stood below the cell
moves down by all of them. So a table keeps a row exactly as long as the rows generated inside it
have not pushed the row beyond the place where the table ended before: what is left below the row
makes up for the rows generated above it, and nothing else does.

## Key results

- `covers_sheetTable`: the rows that a table takes up after a pass
- `table_ranges_follow`: the rows that it keeps
- `table_row_lost`: these are not all of them
-/

namespace SheetTemplate

open Layout (RowShift)
open Xml (Element)

namespace Table

/-- The table takes up these rows and columns. -/
def Covers (t : Table) (first last left right : Nat) : Prop :=
  ∃ r, t.range? = some r ∧ r.start.row = first ∧ r.stop.row = last ∧ r.start.col = left ∧
    r.stop.col = right

/-- The range of a table was read. -/
theorem readable_of_range? {t : Table} {r : RangeRef} (h : t.range? = some r) : r.Readable := by
  obtain ⟨text, -, hparse⟩ := Option.bind_eq_some_iff.1 h
  exact RangeRef.readable_of_parse? hparse

/-- A range that a table was given reads back. -/
theorem range?_setRange (t : Table) {r : RangeRef} (h : r.Readable) :
    (t.setRange r).range? = some r := by
  simp [range?, setRange, RangeRef.parse?_a1 h]

/-- The names of its columns are not its range. -/
@[simp]
theorem range?_mapColumns (t : Table) (f : Element → Element) :
    (t.mapColumns f).range? = t.range? := rfl

end Table

namespace Fill

variable {values : Substitutions} {t : Table} {first last left right : Nat}

/-! ### One cell -/

/-- A table contains the cells within its rows and columns. -/
theorem isInside_iff (h : t.Covers first last left right) (cell : CellRef) :
    isInside cell t = true ↔
      (first ≤ cell.row ∧ cell.row ≤ last) ∧ left ≤ cell.col ∧ cell.col ≤ right := by
  obtain ⟨r, hr, rfl, rfl, rfl, rfl⟩ := h
  simp only [isInside, hr, Option.any_some, RangeRef.contains, CellRef.within, Bool.and_eq_true,
    decide_eq_true_eq]
  omega

/-- A cell right below a table extends it, and one inside does not. -/
theorem covers_extendTable (cell : CellRef) (h : t.Covers first last left right)
    (hrow : first ≤ cell.row) (hnext : cell.row ≤ last + 1) (hmax : cell.row ≤ maxRows)
    (hcol : left ≤ cell.col ∧ cell.col ≤ right) :
    (extendTable cell t).Covers first (max last cell.row) left right := by
  have hinside := isInside_iff h cell
  obtain ⟨r, hr, hfirst, hlast, hleft, hright⟩ := h
  simp only [isInside, hr, Option.any_some] at hinside
  unfold extendTable
  rw [hr]
  dsimp only
  by_cases hin : cell.row ≤ last
  · rw [if_pos (hinside.2 ⟨⟨hrow, hin⟩, hcol⟩)]
    exact ⟨r, hr, hfirst, by omega, hleft, hright⟩
  · rw [if_neg fun hcontains => hin (hinside.1 hcontains).1.2]
    -- The range is one row longer, which is still a row of the sheet.
    have hread := Table.readable_of_range? hr
    have hnext : r.stop.row + 1 ≤ maxRows := by omega
    have hnextRow : r.stop.nextRow.row = r.stop.row + 1 :=
      Text.add32_of_le (hnext.trans limits_le_max32.2)
    have hread' : RangeRef.Readable { r with stop := r.stop.nextRow } :=
      ⟨hread.start, ⟨hread.stop.qualifier, hread.stop.col_pos, hread.stop.col_le,
        show 0 < r.stop.nextRow.row by omega, show r.stop.nextRow.row ≤ maxRows by omega⟩,
        hread.colon⟩
    refine ⟨_, Table.range?_setRange t hread', hfirst, ?_, hleft, hright⟩
    show r.stop.nextRow.row = max last cell.row
    omega

/-- The cells that are generated for a cell extend a table row by row. -/
private theorem covers_foldl_extendTable {cell : CellRef} (k count : Nat)
    (h : t.Covers first last left right) (hrow : first ≤ cell.row) (hlast : cell.row + k ≤ last)
    (hmax : cell.row + k + count ≤ maxRows) (hcol : left ≤ cell.col ∧ cell.col ≤ right) :
    ((List.range' (k + 1) count).foldl (fun t k => extendTable (cell.withRow (cell.row + k)) t)
      t).Covers first (max last (cell.row + k + count)) left right := by
  -- One extension after another: each reaches one row further down.
  induction count generalizing k t last with
  | zero =>
    rw [show max last (cell.row + k + 0) = last by omega]
    exact h
  | succ count ih =>
    have hstep := covers_extendTable (cell.withRow (cell.row + (k + 1))) h
      (show first ≤ cell.row + (k + 1) by omega) (show cell.row + (k + 1) ≤ last + 1 by omega)
      (show cell.row + (k + 1) ≤ maxRows by omega) hcol
    have hrest := ih (k + 1) hstep (by simp [CellRef.withRow]) (by omega)
    rw [List.range'_succ, List.foldl_cons]
    have hmaxima : max (max last (cell.row + (k + 1))) (cell.row + (k + 1) + count) =
        max last (cell.row + k + (count + 1)) := by omega
    rw [← hmaxima]
    exact hrest

/-- A table is extended as far as the rows generated for a cell inside it reach. -/
theorem covers_extendedTable (cell : CellRef) {count : Nat} (h : t.Covers first last left right)
    (hrow : first ≤ cell.row ∧ cell.row ≤ last) (hcol : left ≤ cell.col ∧ cell.col ≤ right)
    (hmax : cell.row + count ≤ maxRows) :
    (extendedTable cell count t).Covers first (max last (cell.row + count)) left right := by
  unfold extendedTable
  rw [if_pos ((isInside_iff h cell).2 ⟨hrow, hcol⟩)]
  exact covers_foldl_extendTable 0 count h hrow.1 hrow.2 hmax hcol

/-! ### One row -/

/-- The rows that the cells between two columns ask for. -/
def rowsBetween (values : Substitutions) (left right : Nat) (cells : List CellVisit) : Nat :=
  ((cells.filter fun c => left ≤ c.col ∧ c.col ≤ right).map (·.rows values)).foldr max 0

/-- The rows that are asked for between two columns, cell by cell. -/
theorem rowsBetween_cons (left right : Nat) (c : CellVisit) (cells : List CellVisit) :
    rowsBetween values left right (c :: cells) =
      max (if left ≤ c.col ∧ c.col ≤ right then c.rows values else 0)
        (rowsBetween values left right cells) := by
  unfold rowsBetween
  by_cases h : left ≤ c.col ∧ c.col ≤ right
  · simp [h]
  · simp [h]

/-- No cell between the columns asks for more. -/
theorem rows_le_rowsBetween (values : Substitutions) {c : CellVisit} {cells : List CellVisit}
    (hc : c ∈ cells) (hcol : left ≤ c.col ∧ c.col ≤ right) :
    c.rows values ≤ rowsBetween values left right cells :=
  have hmem := List.mem_filter.2 ⟨hc, decide_eq_true hcol⟩
  List.le_max_of_le (List.mem_map_of_mem hmem) (Nat.le_refl _)

/-- A row generates at least as many. -/
theorem rowsBetween_le_generated (values : Substitutions) (left right : Nat) (v : RowVisit) :
    rowsBetween values left right v.cells ≤ v.generated values := by
  refine List.max_le_of_forall_le _ (v.generated values) fun n hn => ?_
  obtain ⟨c, hc, rfl⟩ := List.mem_map.1 hn
  exact rows_le_generated values (List.mem_of_mem_filter hc)

/-- A row that inserts no columns, and whose generated rows stay inside the sheet. -/
structure OnlyDown (values : Substitutions) (above : Nat) (v : RowVisit) : Prop where
  net : ∀ c ∈ v.cells, c.net values = 0
  positive : ∀ c ∈ v.cells, 0 < c.col
  rows : v.number + above + v.generated values ≤ maxRows

/-- The cells of a row extend a table that the row is inside of. -/
private theorem covers_cellsTable (number : Nat) {cells : List CellVisit}
    (h : t.Covers first last left right) (hnet : ∀ c ∈ cells, c.net values = 0)
    (hpos : ∀ c ∈ cells, 0 < c.col) (hmax : ∀ c ∈ cells, number + c.rows values ≤ maxRows) :
    (cellsTable values number 0 cells t).Covers first
      (if first ≤ number ∧ number ≤ last then
        max last (number + rowsBetween values left right cells) else last) left right := by
  -- From cell to cell, with the table as the cells before have left it.
  induction cells generalizing t last with
  | nil =>
    have hlast : (if first ≤ number ∧ number ≤ last then
        max last (number + rowsBetween values left right []) else last) = last := by
      simp only [rowsBetween, List.filter_nil, List.map_nil, List.foldr_nil]
      split <;> omega
    rw [hlast]
    exact h
  | cons c cells ih =>
    have hcell : c.target number 0 = { col := c.col, row := number } := by
      have := hpos c (by simp)
      simp only [CellVisit.target, CellRef.mk.injEq, true_and, and_true]
      omega
    have hnet' := fun d hd => hnet d (List.mem_cons_of_mem c hd)
    have hpos' := fun d hd => hpos d (List.mem_cons_of_mem c hd)
    have hmax' := fun d hd => hmax d (List.mem_cons_of_mem c hd)
    have hinside := isInside_iff h (c.target number 0)
    rw [hcell] at hinside
    rw [cellsTable, hnet c (by simp), Int.zero_add, hcell, rowsBetween_cons]
    by_cases hin : (first ≤ number ∧ number ≤ last) ∧ left ≤ c.col ∧ c.col ≤ right
    · -- The cell is inside, so the table grows, and the row stays inside for the other cells.
      have hstep := covers_extendedTable { col := c.col, row := number } h hin.1 hin.2
        (hmax c (by simp))
      have hrest := ih hstep hnet' hpos' hmax'
      rw [if_pos ⟨hin.1.1, Nat.le_trans hin.1.2 (Nat.le_max_left _ _)⟩] at hrest
      rw [if_pos hin.1, if_pos hin.2]
      have hmaxima : max (max last (number + c.rows values))
          (number + rowsBetween values left right cells) =
          max last (number + max (c.rows values) (rowsBetween values left right cells)) := by
        omega
      rw [← hmaxima]
      exact hrest
    · -- Otherwise the cell concerns neither the table nor what the others do to it.
      have hstay : extendedTable { col := c.col, row := number } (c.rows values) t = t :=
        if_neg fun hcontains => hin (hinside.1 hcontains)
      have hrest := ih h hnet' hpos' hmax'
      rw [hstay]
      by_cases hrow : first ≤ number ∧ number ≤ last
      · rw [if_neg fun hcol => hin ⟨hrow, hcol⟩, Nat.zero_max]
        exact hrest
      · rw [if_neg hrow] at hrest ⊢
        exact hrest

/-- Rows inserted above a table move it. -/
private theorem covers_shiftTable {s : RowShift} (h : t.Covers first last left right)
    (habove : s.anchor < first) (hrows : first ≤ last) (hcols : left ≤ right)
    (hmax : last + s.rows ≤ maxRows) :
    (s.shiftTable t).Covers (first + s.rows) (last + s.rows) left right := by
  obtain ⟨r, hr, rfl, rfl, rfl, rfl⟩ := h
  unfold RowShift.shiftTable
  by_cases hzero : s.rows = 0
  -- Moving by no rows leaves the table as it is.
  · rw [if_pos hzero, hzero]
    exact ⟨r, hr, rfl, rfl, rfl, rfl⟩
  · have hread := Table.readable_of_range? hr
    have hcol := hread.start.col_pos
    have hcol' := hread.stop.col_le
    obtain ⟨hmoved, hread'⟩ := RangeRef.movedBy_offset hread ⟨hcols, hrows⟩ 0 (s.rows : Nat)
      (by omega) (by omega) (by omega) (by omega)
    rw [if_neg hzero, hr, Option.bind_some, RowShift.moved?, if_pos habove]
    have hstart := hmoved.start
    have hstop := hmoved.stop
    refine ⟨_, Table.range?_setRange t hread', ?_, ?_, ?_, ?_⟩
    · have := hstart.row
      omega
    · have := hstop.row
      omega
    · have := hstart.col
      omega
    · have := hstop.col
      omega

/-- Rows inserted further down leave a table where it is. -/
private theorem shiftTable_of_le {s : RowShift} (h : t.Covers first last left right)
    (hbelow : first ≤ s.anchor) : s.shiftTable t = t := by
  obtain ⟨r, hr, rfl, -⟩ := h
  unfold RowShift.shiftTable
  split
  · rfl
  · rw [hr, Option.bind_some, RowShift.moved?, if_neg (by omega)]

section

variable (pushDownPageBreaks : Bool) (sheetName : String) {above : Nat} {v : RowVisit}

/-- A row above a table moves it by the rows it generates. -/
private theorem covers_rowTable_of_lt (h : t.Covers first last left right)
    (hv : OnlyDown values above v) (habove : v.number + above < first) (hrows : first ≤ last)
    (hcols : left ≤ right) (hmax : last + v.generated values ≤ maxRows) :
    (rowTable values pushDownPageBreaks sheetName above v t).Covers (first + v.generated values)
      (last + v.generated values) left right := by
  have hcells := covers_cellsTable (v.number + above) h hv.net hv.positive fun c hc => by
    have := rows_le_generated values hc
    have := hv.rows
    omega
  rw [if_neg (by omega)] at hcells
  exact covers_shiftTable hcells habove hrows hcols hmax

/-- A row that does not stand above a table extends it if it is inside. -/
private theorem covers_rowTable_of_le (h : t.Covers first last left right)
    (hv : OnlyDown values above v) (hbelow : first ≤ v.number + above) :
    (rowTable values pushDownPageBreaks sheetName above v t).Covers first
      (if v.number + above ≤ last then
        max last (v.number + above + rowsBetween values left right v.cells) else last)
      left right := by
  have hcells := covers_cellsTable (v.number + above) h hv.net hv.positive fun c hc => by
    have := rows_le_generated values hc
    have := hv.rows
    omega
  unfold rowTable
  rw [shiftTable_of_le hcells hbelow]
  simpa only [hbelow, true_and] using hcells

end

/-! ### A pass -/

section

variable (pushDownPageBreaks : Bool) (sheetName : String) {above : Nat} {visits : List RowVisit}

/-- Rows that do not stand above a table extend it or leave it alone. A row that is still inside
stays inside with the rows generated for it, and nothing reaches a row below the table from above,
since the rows generated in between push it further down. -/
private theorem covers_sheetTable_of_le (h : t.Covers first last left right)
    (hinc : (visits.map RowVisit.number).Pairwise (· < ·))
    (hvisits : ∀ v ∈ visits, OnlyDown values (above + rowsAbove values visits v.number) v)
    (hbelow : ∀ v ∈ visits, first ≤ v.number + above) :
    ∃ last', (sheetTable values pushDownPageBreaks sheetName above visits t).Covers first last'
        left right ∧
      last ≤ last' ∧
      (∀ v ∈ visits, v.number + (above + rowsAbove values visits v.number) ≤ last →
        v.number + (above + rowsAbove values visits v.number) +
          rowsBetween values left right v.cells ≤ last') ∧
      ∀ n, last < n →
        (∀ v ∈ visits, n ≤ v.number + (above + rowsAbove values visits v.number) ∨
          v.number + (above + rowsAbove values visits v.number) + v.generated values < n) →
        last' < n := by
  -- By the rows: `last` is where the table ends before the first of them.
  induction visits generalizing t last above with
  | nil => exact ⟨last, h, Nat.le_refl _, fun v hv => by simp at hv, fun n hn _ => hn⟩
  | cons v vs ih =>
    obtain ⟨hlater, hrest⟩ := List.pairwise_cons.1 hinc
    have hlt : ∀ w ∈ vs, v.number < w.number := fun w hw => hlater _ (List.mem_map_of_mem hw)
    have hfirst : rowsAbove values (v :: vs) v.number = 0 := rowsAbove_head hlt
    have hothers : ∀ w ∈ vs, above + rowsAbove values (v :: vs) w.number =
        above + v.generated values + rowsAbove values vs w.number := by
      intro w hw
      rw [rowsAbove_cons, if_pos (hlt w hw), Nat.add_assoc]
    have hv := hvisits v (by simp)
    rw [hfirst, Nat.add_zero] at hv
    have hrow := covers_rowTable_of_le pushDownPageBreaks sheetName h hv (hbelow v (by simp))
    have hasked := rowsBetween_le_generated values left right v
    obtain ⟨last', hcovers, hle, hkept, hbound⟩ := ih hrow hrest
      (fun w hw => by
        rw [← hothers w hw]
        exact hvisits w (List.mem_cons_of_mem _ hw))
      (fun w hw => by
        have := hbelow w (List.mem_cons_of_mem _ hw)
        omega)
    refine ⟨last', hcovers, ?_, fun w hw hin => ?_, fun n hn hblocks => ?_⟩
    · split at hle <;> omega
    · rcases List.mem_cons.1 hw with rfl | hw
      · rw [hfirst] at hin ⊢
        split at hle <;> omega
      · rw [hothers w hw] at hin ⊢
        apply hkept w hw
        split <;> omega
    · -- Neither the rows of the first block nor those of a later one are row `n`.
      apply hbound n
      · have hblock := hblocks v (by simp)
        rw [hfirst] at hblock
        split <;> omega
      · intro w hw
        rw [← hothers w hw]
        exact hblocks w (List.mem_cons_of_mem _ hw)

/-- The rows that a table takes up after a pass. Rows above it move it as a whole. -/
theorem covers_sheetTable {top bottom : Nat}
    (h : t.Covers (top + above) (bottom + above) left right) (hrows : top ≤ bottom)
    (hcols : left ≤ right)
    (hinc : (visits.map RowVisit.number).Pairwise (· < ·))
    (hvisits : ∀ v ∈ visits, OnlyDown values (above + rowsAbove values visits v.number) v)
    (hmax : bottom + (above + rowsAbove values visits top) ≤ maxRows) :
    ∃ last', (sheetTable values pushDownPageBreaks sheetName above visits t).Covers
        (top + (above + rowsAbove values visits top)) last' left right ∧
      bottom + (above + rowsAbove values visits top) ≤ last' ∧
      ∀ v ∈ visits, top ≤ v.number →
        (v.number + (above + rowsAbove values visits v.number) ≤
            bottom + (above + rowsAbove values visits top) →
          v.number + (above + rowsAbove values visits v.number) +
            rowsBetween values left right v.cells ≤ last') ∧
        (bottom + (above + rowsAbove values visits top) <
            v.number + (above + rowsAbove values visits v.number) →
          last' < v.number + (above + rowsAbove values visits v.number)) := by
  induction visits generalizing t above with
  | nil => exact ⟨bottom + above, h, Nat.le_refl _, fun v hv => by simp at hv⟩
  | cons v vs ih =>
    obtain ⟨hlater, hrest⟩ := List.pairwise_cons.1 hinc
    -- The rows above the table come first, and move it down.
    have hlt : ∀ w ∈ vs, v.number < w.number := fun w hw => hlater _ (List.mem_map_of_mem hw)
    by_cases hv : v.number < top
    · -- The row stands above the table, and above all rows that concern it later.
      have hothers : ∀ n, v.number < n → above + rowsAbove values (v :: vs) n =
          above + v.generated values + rowsAbove values vs n := by
        intro n hn
        rw [rowsAbove_cons, if_pos hn, Nat.add_assoc]
      have hdown := hvisits v (by simp)
      rw [rowsAbove_head hlt] at hdown
      rw [hothers top hv] at hmax ⊢
      have hrow := covers_rowTable_of_lt pushDownPageBreaks sheetName h hdown (by omega)
        (by omega) hcols (by omega)
      rw [Nat.add_assoc, Nat.add_assoc] at hrow
      obtain ⟨last', hcovers, hle, hkept⟩ := ih hrow hrest
        (fun w hw => by
          rw [← hothers _ (hlt w hw)]
          exact hvisits w (List.mem_cons_of_mem _ hw))
        hmax
      refine ⟨last', hcovers, hle, fun w hw htop => ?_⟩
      rcases List.mem_cons.1 hw with rfl | hw
      · exact absurd hv (by omega)
      · rw [hothers _ (hlt w hw)]
        exact hkept w hw htop
    · -- No row that is left stands above the table.
      have hbelow : ∀ w ∈ v :: vs, top ≤ w.number := by
        intro w hw
        rcases List.mem_cons.1 hw with rfl | hw
        · omega
        · have := hlt w hw
          omega
      rw [rowsAbove_eq_zero hbelow, Nat.add_zero]
      obtain ⟨last', hcovers, hle, hkept, hbound⟩ := covers_sheetTable_of_le
        pushDownPageBreaks sheetName h hinc hvisits
        fun w hw => Nat.add_le_add_right (hbelow w hw) above
      refine ⟨last', hcovers, hle, fun w hw _ => ⟨hkept w hw, fun hbeyond => ?_⟩⟩
      apply hbound _ hbeyond
      intro u hu
      rcases Nat.lt_or_ge u.number w.number with hlt | hge
      · have := rowsAbove_add_generated_le values hu hlt
        omega
      · have := rowsAbove_mono values (v :: vs) hge
        omega

end

/-- A table keeps a row, with the rows generated for the cells of the row that it takes up. -/
structure RowKept (values : Substitutions) (visits : List RowVisit) (r r' : RangeRef)
    (v : RowVisit) : Prop where
  start : r'.start.row ≤ finishedNumber values visits v
  generated : ∀ c ∈ v.cells, r.start.col ≤ c.col ∧ c.col ≤ r.stop.col →
    ∀ k ≤ c.rows values, finishedNumber values visits v + k ≤ r'.stop.row
  stop : finishedNumber values visits v ≤ r'.stop.row

/-- What becomes of a table where no columns are inserted. -/
def TableFollows (values : Substitutions) (visits : List RowVisit) (t t' : Table) : Prop :=
  ∀ r, t.range? = some r → r.Ordered →
    r.stop.row + rowsAbove values visits r.start.row ≤ maxRows →
    ∃ r', t'.range? = some r' ∧ r'.start.col = r.start.col ∧ r'.stop.col = r.stop.col ∧
      r'.start.row = r.start.row + rowsAbove values visits r.start.row ∧
      r.stop.row + rowsAbove values visits r.start.row ≤ r'.stop.row ∧
      ∀ v ∈ visits, r.start.row ≤ v.number → v.number ≤ r.stop.row →
        if finishedNumber values visits v ≤ r.stop.row + rowsAbove values visits r.start.row then
          RowKept values visits r r' v
        else r'.stop.row < finishedNumber values visits v

/-- Tables of a pass that inserts no columns: each begins where its first row comes out, and keeps
the rows that have not moved beyond its end. -/
theorem table_ranges_follow {options : FillOptions} {files : ImageFiles} {p q : Pass}
    (hp : p.Fresh) (hrun : p.run options files values = .ok q)
    (hinc : (sourceNumbers 0 (sourceRows p.sheet.doc.root)).Pairwise (· < ·))
    (hnet : ∀ v ∈ p.visits options files values, ∀ c ∈ v.cells, c.net values = 0)
    (hrows : ∀ v ∈ p.visits options files values,
      finishedNumber values (p.visits options files values) v + v.generated values ≤ maxRows) :
    Visited p.strings q.strings (sourceRows p.sheet.doc.root) (p.visits options files values) ∧
      List.Forall₂ (TableFollows values (p.visits options files values)) p.tables q.tables := by
  obtain ⟨blocks, hsheet⟩ := sheetRun_of_run hp hrun
  generalize p.visits options files values = visits at hsheet hnet hrows ⊢
  have hnumbers : (visits.map RowVisit.number).Pairwise (· < ·) := by
    rw [hsheet.visited.numbers]
    exact hinc
  have hdown : ∀ v ∈ visits, OnlyDown values (0 + rowsAbove values visits v.number) v := by
    intro v hv
    rw [Nat.zero_add]
    exact ⟨hnet v hv, hsheet.visited.col_pos v hv, hrows v hv⟩
  rw [(hsheet.outcome (rowsFit_of_inside hnumbers hrows)).tables]
  refine ⟨hsheet.visited, List.forall₂_map_right_iff.2 (List.forall₂_same.2 fun t _ => ?_)⟩
  intro r hr hordered hmax
  -- The table covers its own range before the first row.
  have hstart : t.Covers (r.start.row + 0) (r.stop.row + 0) r.start.col r.stop.col :=
    ⟨r, hr, rfl, rfl, rfl, rfl⟩
  obtain ⟨last', ⟨r', hr', hfirst, hlast, hleft, hright⟩, hle, hkept⟩ :=
    covers_sheetTable options.pushDownPageBreaks p.sheet.name hstart hordered.2 hordered.1 hnumbers
      hdown (by omega)
  simp only [Nat.zero_add] at hfirst hle hkept
  -- The names of its columns do not concern where a table is.
  refine ⟨r', (Table.range?_mapColumns ..).trans hr', hleft, hright, hfirst, by omega,
    fun v hv htop hbottom => ?_⟩
  have habove := rowsAbove_mono values visits htop
  obtain ⟨hin, hout⟩ := hkept v hv htop
  unfold finishedNumber
  split
  · rename_i hinside
    have hinside := hin hinside
    refine ⟨by unfold finishedNumber; omega, fun c hc hcol k hk => ?_,
      by unfold finishedNumber; omega⟩
    have := rows_le_rowsBetween values hc hcol
    unfold finishedNumber
    omega
  · rename_i hbeyond
    have := hout (by omega)
    omega

/-! ### A table with a row below the one that generates rows -/

/-- A pass over a sheet whose first three rows are a table; the second of them generates rows. -/
def totalsPass : Pass :=
  { samplePass with
    sheet := { samplePass.sheet with
      doc := { root := .ofChildren "worksheet" [] [
        .ofChildren "sheetData" [] [
          .ofChildren "row" [("r", "1")] [sampleCell [("r", "A1")] "2"],
          .ofChildren "row" [("r", "2")] [sampleCell [("r", "A2")] "0"],
          .ofChildren "row" [("r", "3")] [sampleCell [("r", "A3")] "2"]]] } }
    tables := [{
      path := "table1.xml", doc := { root := .ofChildren "table" [("ref", "A1:A3")] [] } }] }

/-- The table of the sample ends above what was its last row. -/
theorem totalsPass_runs : ∃ q, totalsPass.run {} (fun _ => none) sampleValues = .ok q ∧
    q.tables.map Table.range? = [some ⟨{ col := 1, row := 1 }, { col := 1, row := 3 }⟩] := by
  have hok : ((totalsPass.run {} (fun _ => none) sampleValues).toOption.map fun q =>
      q.tables.map Table.range?) =
      some [some ⟨{ col := 1, row := 1 }, { col := 1, row := 3 }⟩] := by
    decide +kernel
  exact exists_eq_ok hok

/-- The sample visits three rows. -/
private theorem two_lt_totalsVisits :
    2 < (totalsPass.visits {} (fun _ => none) sampleValues).length := by
  decide +kernel

/-- The generated row takes the place of the last row of the table, which comes out below it. -/
theorem table_ranges_follow_sample :
    ∃ q, totalsPass.run {} (fun _ => none) sampleValues = .ok q ∧
      ∃ t ∈ q.tables, ∃ r, t.range? = some r ∧ 3 ≤ r.stop.row ∧ r.stop.row < 4 := by
  obtain ⟨q, hq, -⟩ := totalsPass_runs
  obtain ⟨-, htables⟩ := table_ranges_follow ⟨rfl, rfl⟩ hq (by decide +kernel) (by decide +kernel)
    (by decide +kernel)
  have htable : 0 < q.tables.length := by
    rw [← htables.length_eq]
    decide +kernel
  obtain ⟨r, hr, -, -, -, hlast, hkept⟩ := htables.get (by decide +kernel) htable
    ⟨{ col := 1, row := 1 }, { col := 1, row := 3 }⟩ (by decide +kernel) (by decide +kernel)
    (by decide +kernel)
  -- The last of them has been pushed out of the table.
  have hlost := hkept _ (List.get_mem _ ⟨2, two_lt_totalsVisits⟩) (by decide +kernel)
    (by decide +kernel)
  rw [if_neg (by decide +kernel)] at hlost
  refine ⟨q, hq, _, List.get_mem _ ⟨0, htable⟩, r, hr, ?_, ?_⟩
  · refine Nat.le_trans ?_ hlast
    decide +kernel
  · refine Nat.lt_of_lt_of_le hlost ?_
    decide +kernel

/-- A table does not keep all its rows. -/
theorem table_row_lost :
    ¬∀ (options : FillOptions) (files : ImageFiles) (values : Substitutions) (p q : Pass),
      p.Fresh → p.run options files values = .ok q →
      (sourceNumbers 0 (sourceRows p.sheet.doc.root)).Pairwise (· < ·) →
      (∀ v ∈ p.visits options files values, ∀ c ∈ v.cells, c.net values = 0) →
      Inside values (p.visits options files values) →
      List.Forall₂ (fun t t' => ∀ r, t.range? = some r → ∃ r', t'.range? = some r' ∧
        ∀ v ∈ p.visits options files values, r.start.row ≤ v.number → v.number ≤ r.stop.row →
          RowKept values (p.visits options files values) r r' v) p.tables q.tables := by
  intro hclaim
  obtain ⟨q, hq, hranges⟩ := totalsPass_runs
  have htables := hclaim {} (fun _ => none) sampleValues totalsPass q ⟨rfl, rfl⟩ hq
    (by decide +kernel) (by decide +kernel) (by decide +kernel)
  have htable : 0 < q.tables.length := by
    rw [← htables.length_eq]
    decide +kernel
  obtain ⟨r, hr, hkept⟩ := htables.get (by decide +kernel) htable
    ⟨{ col := 1, row := 1 }, { col := 1, row := 3 }⟩ (by decide +kernel)
  -- The table ends on row 3, and its last source row comes out on row 4.
  have hrange : (q.tables.map Table.range?)[0]? = some (some r) := by
    rw [List.getElem?_map, List.getElem?_eq_getElem htable]
    exact congrArg some hr
  rw [hranges] at hrange
  cases hrange
  have hlast := (hkept _ (List.get_mem _ ⟨2, two_lt_totalsVisits⟩) (by decide +kernel)
    (by decide +kernel)).stop
  exact absurd hlast (by decide +kernel)

end Fill

end SheetTemplate
