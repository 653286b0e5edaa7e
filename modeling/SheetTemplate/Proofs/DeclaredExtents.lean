import Mathlib.Algebra.Order.BigOperators.Group.List
import SheetTemplate.Proofs.GeneratedColumns
import SheetTemplate.Proofs.RowNumbers

/-!
# Whether declared extents cover the cells

A sheet declares the range of its cells, and a row may declare their columns. A pass extends the
range of the sheet by all rows that are generated, and by the most columns that one of the source
rows inserts. A generated row begins with the columns that its source row declares, and extends them
by the columns that its own lists insert.

So the extended range covers every row whose lists are no longer than those of its source row, and
the columns that a generated row declares cover its cells where its lists are no shorter. A list
that only a generated row has can leave the range of the sheet.

## Key results

- `declares_extendedDimension`: the range that the finished sheet declares
- `declaresTo_of_grown`: how far the columns reach that a generated row declares
- `extents_declared`: the extents that a pass declares
-/

namespace SheetTemplate.Fill

open Layout (refRange?)
open Xml (Element)

variable {values : Substitutions} {cells : List CellVisit} {visits : List RowVisit}

/-! ### Columns inserted on a generated row -/

/-- The columns that a cell inserts on a generated row, counted from zero. -/
def CellVisit.netBelow (values : Substitutions) (i : Nat) (v : CellVisit) : Int :=
  ((v.laterFields values)[i]?.map fun field => (fieldWidth field : Int) - 1).getD 0

/-- Whether no cell takes more columns on a generated row than on the row at hand. -/
def NoLonger (values : Substitutions) (i : Nat) (cells : List CellVisit) : Prop :=
  ∀ v ∈ cells, v.widthBelow values i ≤ v.width values

/-- Whether no cell inserts fewer columns on a generated row than on the row at hand. -/
def NoShorter (values : Substitutions) (i : Nat) (cells : List CellVisit) : Prop :=
  ∀ v ∈ cells, v.net values ≤ v.netBelow values i

instance (values : Substitutions) (i : Nat) (cells : List CellVisit) :
    Decidable (NoLonger values i cells) :=
  inferInstanceAs (Decidable (∀ v ∈ cells, _))

instance (values : Substitutions) (i : Nat) (cells : List CellVisit) :
    Decidable (NoShorter values i cells) :=
  inferInstanceAs (Decidable (∀ v ∈ cells, _))

/-- An empty list takes its own column away, and nothing takes more. -/
theorem neg_one_le_netBelow (values : Substitutions) (i : Nat) (v : CellVisit) :
    -1 ≤ v.netBelow values i := by
  unfold CellVisit.netBelow
  cases (v.laterFields values)[i]? with
  | none => exact Int.negSucc_le_zero 0
  | some field =>
    show -1 ≤ (fieldWidth field : Int) - 1
    omega

/-- A field takes one column more than it inserts. -/
theorem widthBelow_le_netBelow (values : Substitutions) (i : Nat) (v : CellVisit) :
    (v.widthBelow values i : Int) ≤ v.netBelow values i + 1 := by
  unfold CellVisit.netBelow CellVisit.widthBelow
  cases (v.laterFields values)[i]? with
  | none => exact Int.zero_le_ofNat 1
  | some field =>
    show (fieldWidth field : Int) ≤ (fieldWidth field : Int) - 1 + 1
    omega

section

variable (hinc : (cells.map CellVisit.col).Pairwise (· < ·)) (hpos : ∀ v ∈ cells, 0 < v.col)
  {first last : Nat} (hcover : ∀ v ∈ cells, first ≤ v.col ∧ v.col ≤ last) {i col : Nat}

include hinc hpos hcover

/-- Fields that take no more columns than on the row at hand stay within the columns there. -/
theorem columnsBelow_bounds_of_noLonger (h : NoLonger values i cells)
    (hcol : col ∈ columnsBelow values i cells) :
    first ≤ col ∧ (col : Int) ≤ last + (cells.map (·.net values)).sum := by
  obtain ⟨v, hv, hcol⟩ := List.mem_flatMap.1 hcol
  obtain ⟨hge, hlt⟩ := List.mem_range'_1.1 hcol
  have hshort := h v hv
  exact finishedColumns_bounds values hinc hcover hpos
    (List.mem_flatMap.2 ⟨v, hv, List.mem_range'_1.2 ⟨hge, by omega⟩⟩)

/-- Where every cell inserts on a generated row what it inserts on the row at hand, or more, the
columns on the generated row follow. -/
theorem columnsBelow_bounds_of_noShorter (h : NoShorter values i cells)
    (hcol : col ∈ columnsBelow values i cells) :
    first ≤ col ∧ (col : Int) ≤ last + (cells.map (CellVisit.netBelow values i)).sum := by
  obtain ⟨v, hv, hcol⟩ := List.mem_flatMap.1 hcol
  obtain ⟨hge, hlt⟩ := List.mem_range'_1.1 hcol
  have hfirst := le_finishedColumn values hinc (fun w hw => (hcover w hw).1) hpos hv
  have hcolumn := (coe_finishedColumn values hinc hpos hv).2
  -- The field stands where the row at hand has moved its cell, which is no further right than the
  -- generated row itself would have moved it.
  have hleft : netLeft values v.col cells ≤ sumLeft (CellVisit.netBelow values i) v.col cells :=
    List.sum_le_sum fun w hw => h w (List.mem_filter.1 hw).1
  -- What the cells right of it take away, there are declared columns for.
  have hbefore : ∀ w ∈ cells, w.col < last + 1 := fun w hw => Nat.lt_succ_of_le (hcover w hw).2
  have hlast := add_sumLeft_lt (neg_one_le_netBelow values i) hinc hv (hbefore v hv)
  rw [sumLeft_eq_sum _ hbefore] at hlast
  have hwidth := widthBelow_le_netBelow values i v
  omega

end

/-! ### The columns that a generated row declares -/

/-- Cells put into a generated row extend the columns that it declares. -/
private theorem DeclaresTo.addCells {first : Nat} {bound : Int} {row : Element}
    (h : DeclaresTo first bound row) (cells : List Element) (cols : Int) :
    DeclaresTo first (bound + cols) (Pass.addCells cells cols row) := by
  unfold Pass.addCells
  dsimp only
  split
  · rename_i hcols
    rw [hcols, Int.add_zero]
    exact h
  · have hpushed : DeclaresTo first bound (row.pushAll cells) := h
    exact hpushed.widenSpans cols

/-- A list widens what its row declares by its own columns. -/
private theorem declaresTo_of_fieldsPut {strings : StringTable} {row template : Element}
    {cell : CellRef} {fields : List Value} {rows rows' : List Element} {first i : Nat} {bound : Int}
    (h : FieldsPut strings row template cell fields rows rows')
    (hold : DeclaresTo first bound (rows[i]?.getD (newRow row cell.row (i + 1)))) :
    DeclaresTo first (bound + (fields[i]?.map fun field => (fieldWidth field : Int) - 1).getD 0)
      (rows'[i]?.getD (newRow row cell.row (i + 1))) := by
  obtain ⟨groups, hlength, hcells, hrows⟩ := h
  rw [hrows i]
  -- Without an item in this place the row gets nothing from the list.
  cases hfield : fields[i]? with
  | none =>
    have hnone : groups[i]? = none := by
      rw [List.getElem?_eq_none_iff, hlength]
      exact List.getElem?_eq_none_iff.1 hfield
    rw [hnone, Option.map_none, Option.getD_none, Int.add_zero]
    exact hold
  | some field =>
    have hi := (List.getElem?_eq_some_iff.1 hfield).1
    have hgroup := List.getElem?_eq_getElem (hlength ▸ hi : i < groups.length)
    have hput := hcells i field _ hfield hgroup
    have hcols : groups[i].2 = (fieldWidth field : Int) - 1 := by
      unfold fieldWidth
      cases hitems : field.items? with
      | none => exact (hput.single hitems).1
      | some items => exact (hput.list items hitems).1
    rw [hgroup, Option.map_some, Option.getD_some, ← hcols]
    show DeclaresTo first (bound + groups[i].2)
      (Pass.addCells groups[i].1 groups[i].2 (rows[i]?.getD (newRow row cell.row (i + 1))))
    exact hold.addCells _ _

/-- What a generated row declares reaches as far as the columns of its source row and the columns
that are inserted on the generated row. -/
theorem declaresTo_of_grown {strings : StringTable} {row : Element} {number : Nat} {inserted : Int}
    {rows rows' : List Element} {first i : Nat} {bound : Int}
    (h : Grown values strings row number inserted cells rows rows')
    (hold : DeclaresTo first bound (rows[i]?.getD (newRow row number (i + 1)))) :
    DeclaresTo first (bound + (cells.map (CellVisit.netBelow values i)).sum)
      (rows'[i]?.getD (newRow row number (i + 1))) := by
  -- Each cell moves the bound by what its field inserts, if it has one for this row.
  induction h generalizing bound with
  | nil inserted rows =>
    rw [List.map_nil, List.sum_nil, Int.add_zero]
    exact hold
  | @cons inserted v vs rows rows₁ rows' hcell _ ih =>
    have hnumber : (v.target number inserted).row = number := rfl
    have hput := declaresTo_of_fieldsPut hcell (hnumber.symm ▸ hold)
    rw [hnumber] at hput
    rw [List.map_cons, List.sum_cons, ← Int.add_assoc]
    exact ih hput

/-! ### The range that a sheet declares -/

/-- The range that a sheet declares for its cells. -/
def declaredRange? (sheet : Element) : Option RangeRef :=
  (sheet.child? "dimension").bind refRange?

/-- A sheet declares a range. One that leaves the sheet is written, but does not read back. -/
def Declares (sheet : Element) (r : RangeRef) : Prop :=
  ∃ e, sheet.child? "dimension" = some e ∧ (refRange? e = some r ∨ e.attr? "ref" = some r.a1)

/-- What a sheet declares is read from it. -/
theorem Declares.declaredRange?_eq {sheet : Element} {r : RangeRef} (h : Declares sheet r)
    (hr : r.Readable) : declaredRange? sheet = some r := by
  obtain ⟨e, he, hread | htext⟩ := h
  · rw [declaredRange?, he, Option.bind_some, hread]
  · rw [declaredRange?, he, Option.bind_some, refRange?, htext, Option.bind_some,
      RangeRef.parse?_a1 hr]

/-- A range whose end has moved. -/
structure Extended (r r' : RangeRef) (cols : Int) (rows : Nat) : Prop where
  start : r'.start = r.start
  stop : r.stop.MovedBy r'.stop cols rows

/-- A range that is extended inside the sheet keeps its text. -/
theorem Extended.readable {r r' : RangeRef} {cols : Int} {rows : Nat} (h : Extended r r' cols rows)
    (hr : r.Readable) (hpos : 0 ≤ cols) (hcols : r.stop.col + cols ≤ maxCols)
    (hrows : r.stop.row + rows ≤ maxRows) : r'.Readable where
  start := h.start ▸ hr.start
  stop := by
    have hcol := hr.stop.col_pos
    have hrow := hr.stop.row_pos
    exact h.stop.readable hr.stop (by omega) hcols (by omega) (by omega)
  colon := h.start ▸ hr.colon

/-- The end of the range moves by what was inserted. -/
theorem declares_extendedDimension {e : Element} {r : RangeRef} {cols : Int} {rows : Nat}
    (he : refRange? e = some r) (hcols : 0 ≤ cols ∧ cols ≤ maxCols) (hrows : rows ≤ maxRows) :
    ∃ r', Extended r r' cols rows ∧ (refRange? (extendedDimension cols rows e) = some r' ∨
      (extendedDimension cols rows e).attr? "ref" = some r'.a1) := by
  unfold extendedDimension
  split
  · -- Nothing was inserted, so the text stays as it was written.
    rename_i hnone
    obtain ⟨rfl, rfl⟩ := hnone
    exact ⟨r, ⟨rfl, .refl _⟩, .inl he⟩
  · have hread := (Layout.readable_of_refRange? he).stop
    have hcol := hread.col_pos
    have hcolLe := hread.col_le
    have hrow := hread.row_pos
    have hrowLe := hread.row_le
    have hlimits : maxCols + maxCols ≤ Text.max32 ∧ maxRows + maxRows ≤ Text.max32 := by decide
    refine ⟨{ r with stop := r.stop.offset cols rows }, ⟨rfl,
      r.stop.movedBy_offset_of_le_max32 (by omega) (by omega) (by omega) (by omega)⟩, .inr ?_⟩
    rw [Layout.moveRef, he, Option.bind_some, Element.attr?_setAttr_self]

/-! ### How much a pass inserts -/

/-- The most columns that a row inserts are those of some row, or none. -/
private theorem mostColumns_spec (values : Substitutions) (visits : List RowVisit) :
    mostColumns values visits ∈
        (0 : Int) :: visits.map (fun v => (v.cells.map (·.net values)).sum) ∧
      ∀ n ∈ (0 : Int) :: visits.map (fun v => (v.cells.map (·.net values)).sum),
        n ≤ mostColumns values visits :=
  List.max?_eq_some_iff.1 rfl

/-- No row inserts more columns than the most. -/
theorem sum_net_le_mostColumns {v : RowVisit} (hv : v ∈ visits) :
    (v.cells.map (·.net values)).sum ≤ mostColumns values visits :=
  (mostColumns_spec values visits).2 _ (List.mem_cons_of_mem _ (List.mem_map_of_mem hv))

/-- What the last cell of a row leaves inside the sheet, no row exceeds. -/
private theorem sum_net_le_maxCols (hinc : (cells.map CellVisit.col).Pairwise (· < ·))
    (hcols : ∀ v ∈ cells, v.col + netLeft values v.col cells + v.net values ≤ maxCols) :
    (cells.map (·.net values)).sum ≤ maxCols := by
  rcases List.eq_nil_or_concat' cells with rfl | ⟨before, v, rfl⟩
  · exact Int.natCast_nonneg _
  · -- The last cell has all others left of it.
    have hlast := hcols v (by simp)
    have hleft : ∀ w ∈ before, w.col < v.col := by
      rw [List.map_append, List.pairwise_append] at hinc
      exact fun w hw => hinc.2.2 _ (List.mem_map_of_mem hw) _ (by simp)
    have hself : netLeft values v.col (before ++ [v]) = (before.map (·.net values)).sum := by
      rw [← netLeft_eq_sum hleft]
      simp [netLeft]
    rw [List.map_append, List.sum_append, List.map_singleton, List.sum_singleton]
    omega

/-- Inside the sheet, no row inserts more columns than there are. -/
theorem mostColumns_bounds (hin : Inside values visits) (hinc : InOrder visits) :
    0 ≤ mostColumns values visits ∧ mostColumns values visits ≤ maxCols := by
  obtain ⟨hmem, hmax⟩ := mostColumns_spec values visits
  refine ⟨hmax 0 List.mem_cons_self, ?_⟩
  rcases List.mem_cons.1 hmem with hzero | hmem
  · rw [hzero]
    exact Int.natCast_nonneg _
  · obtain ⟨v, hv, heq⟩ := List.mem_map.1 hmem
    rw [← heq]
    exact sum_net_le_maxCols (hinc.columns v hv) (hin.cols v hv)

/-- The rows above are some of all generated rows. -/
private theorem rowsAbove_le_sum (values : Substitutions) (visits : List RowVisit) (n : Nat) :
    rowsAbove values visits n ≤ (visits.map (·.generated values)).sum := by
  induction visits with
  | nil => exact Nat.le_refl _
  | cons v vs ih =>
    rw [rowsAbove_cons, List.map_cons, List.sum_cons]
    split <;> omega

/-- The rows generated down to a row are among all that are generated. -/
theorem rowsAbove_add_generated_le_sum {v : RowVisit} (hv : v ∈ visits) :
    rowsAbove values visits v.number + v.generated values ≤
      (visits.map (·.generated values)).sum :=
  Nat.le_trans (rowsAbove_add_generated_le values hv (Nat.lt_succ_self _))
    (rowsAbove_le_sum values visits _)

/-- Inside the sheet, no more rows are generated than there are. -/
theorem sum_generated_le_maxRows (hin : Inside values visits) (hinc : InOrder visits) :
    (visits.map (·.generated values)).sum ≤ maxRows := by
  rcases List.eq_nil_or_concat' visits with rfl | ⟨before, v, rfl⟩
  · exact Nat.zero_le _
  · -- The last row has all others above it.
    have hlast := (hin.rows v (by simp)).2
    have habove : rowsAbove values (before ++ [v]) v.number =
        (before.map (·.generated values)).sum := by
      have hlt : ∀ w ∈ before, w.number < v.number := by
        have hnumbers := hinc.numbers
        rw [List.map_append, List.pairwise_append] at hnumbers
        exact fun w hw => hnumbers.2.2 _ (List.mem_map_of_mem hw) _ (by simp)
      have hall : before.filter (·.number < v.number) = before :=
        List.filter_eq_self.2 fun w hw => by simpa using hlt w hw
      simp [rowsAbove, hall]
    rw [List.map_append, List.sum_append, List.map_singleton, List.sum_singleton]
    omega

/-! ### Rows inside declared extents -/

/-- The reference of a cell, if it can be read. -/
def reference? (cell : Element) : Option CellRef := (cell.attr? "r").bind CellRef.parse?

/-- All cells of a row stand in a range. -/
def RowWithin (r : RangeRef) (row : Element) : Prop :=
  ∀ cell ∈ row.named "c", ∃ ref, reference? cell = some ref ∧ r.contains ref = true

/-- All cells of a row stand in columns from a first to a last one. -/
def ColumnsWithin (first last : Nat) (row : Element) : Prop :=
  ∀ cell ∈ row.named "c", ∃ ref, reference? cell = some ref ∧ first ≤ ref.col ∧ ref.col ≤ last

/-- All cells of a source row stand in a range. -/
def SourceWithin (r : RangeRef) (v : RowVisit) : Prop :=
  ∀ c ∈ v.cells, r.contains { col := c.col, row := v.number } = true

instance (r : RangeRef) (v : RowVisit) : Decidable (SourceWithin r v) :=
  inferInstanceAs (Decidable (∀ c ∈ v.cells, _))

/-- A cell of a source row is within the range of the sheet. -/
theorem SourceWithin.bounds {r : RangeRef} {v : RowVisit} (h : SourceWithin r v) {c : CellVisit}
    (hc : c ∈ v.cells) : (r.start.row ≤ v.number ∧ v.number ≤ r.stop.row) ∧
      r.start.col ≤ c.col ∧ c.col ≤ r.stop.col := by
  obtain ⟨hrow, hrow', hcol⟩ := RangeRef.contains_iff.1 (h c hc)
  exact ⟨⟨hrow, hrow'⟩, hcol⟩

/-- Cells with references inside the sheet can be told by their columns. -/
private theorem exists_reference {row : Element} {number : Nat} {cols : List Nat}
    (hrefs : (row.named "c").map (·.attr? "r") =
      cols.map fun col => some { col, row := number : CellRef }.a1)
    (hinside : ∀ col ∈ cols, 0 < col ∧ col ≤ maxCols) (hrow : 0 < number)
    (hrow' : number ≤ maxRows) :
    ∀ cell ∈ row.named "c", ∃ col ∈ cols, reference? cell = some { col, row := number } := by
  intro cell hcell
  have hmem : cell.attr? "r" ∈ cols.map fun col => some { col, row := number : CellRef }.a1 :=
    hrefs ▸ List.mem_map_of_mem hcell
  obtain ⟨col, hcol, hattr⟩ := List.mem_map.1 hmem
  have hread : ({ col, row := number : CellRef }).Readable :=
    ⟨fun q hq => absurd hq (by simp), (hinside col hcol).1, (hinside col hcol).2, hrow, hrow'⟩
  refine ⟨col, hcol, ?_⟩
  rw [reference?, ← hattr, Option.bind_some, CellRef.parse?_a1 hread]

/-- A cell between the corners is inside the extended range. -/
theorem Extended.contains {r r' : RangeRef} {cols : Int} {rows col row : Nat}
    (h : Extended r r' cols rows) (hrow : r.start.row ≤ row ∧ row ≤ r.stop.row + rows)
    (hcol : r.start.col ≤ col ∧ (col : Int) ≤ r.stop.col + cols) :
    r'.contains { col, row } = true := by
  have hstopRow := h.stop.row
  have hstopCol := h.stop.col
  rw [RangeRef.contains_iff, h.start]
  dsimp only
  omega

/-- Cells on the row at hand or below it are in the extended range. -/
private theorem rowWithin_of_refs {r r' : RangeRef} {colsInserted : Int}
    {rows number : Nat} {v : RowVisit} {row : Element} {cols : List Nat}
    (hr : Extended r r' colsInserted rows) (hsource : SourceWithin r v)
    (hrefs : (row.named "c").map (·.attr? "r") =
      cols.map fun col => some { col, row := number : CellRef }.a1)
    (hinside : ∀ col ∈ cols, 0 < col ∧ col ≤ maxCols) (hrow : 0 < number)
    (hrow' : number ≤ maxRows) (hnumber : v.number ≤ number ∧ number ≤ v.number + rows)
    (hcols : ∀ col ∈ cols, v.cells ≠ [] ∧ r.start.col ≤ col ∧
      (col : Int) ≤ r.stop.col + colsInserted) : RowWithin r' row := by
  intro cell hcell
  obtain ⟨col, hcol, href⟩ := exists_reference hrefs hinside hrow hrow' cell hcell
  obtain ⟨hcells, hbounds⟩ := hcols col hcol
  obtain ⟨c, hc⟩ := List.exists_mem_of_ne_nil _ hcells
  have hsourceRow := (hsource.bounds hc).1
  exact ⟨_, href, hr.contains (by omega) hbounds⟩

section

variable {strings first last : StringTable} {copied : Bool} {above i : Nat} {v : RowVisit}
  {block : Element × List Element} {row : Element}

/-- What a generated row declares goes back to its source row. -/
private theorem declaresTo_of_rowDone (h : RowDone values strings copied (v.number + above) v block)
    (hget : (uncachedBlock block).2[i]? = some row) {first last : Nat}
    (hspan : declaredSpan? v.row = some (first, last)) :
    DeclaresTo first (last + (v.cells.map (CellVisit.netBelow values i)).sum) row := by
  obtain ⟨newRows, hgrown, hrows⟩ := h.grown
  rw [uncachedBlock, hrows, List.getElem?_map, List.getElem?_map] at hget
  obtain ⟨sorted, hsorted, rfl⟩ := Option.map_eq_some_iff.1 hget
  obtain ⟨made, hmade, rfl⟩ := Option.map_eq_some_iff.1 hsorted
  -- The row is made from the source row before that is extended itself.
  have hnew : declaredSpan? (newRow (bareRow v.row (v.number + above)) (v.number + above) (i + 1)) =
      some (first, last) := by
    rw [← hspan]
    exact declaredSpan?_congr (by simp [newRow, bareRow, Element.attr?_setAttr_of_ne])
  have hmade' := declaresTo_of_grown hgrown
    (⟨last, hnew, .inl (Int.le_refl _)⟩ : DeclaresTo first last (([] : List Element)[i]?.getD _))
  rw [hmade, Option.getD_some] at hmade'
  obtain ⟨last', hlast', hbound⟩ := hmade'
  refine ⟨last', ?_, hbound⟩
  rw [← hlast']
  refine declaredSpan?_congr ((attr?_uncachedRow _ "spans").trans ?_)
  -- Neither copies nor the order of the cells concern what the row declares.
  unfold withCopies
  split <;> rfl

variable (h : RowDone values strings copied (v.number + above) v block)
  (hin : RowStaysInside values above v)
  (hpos : ∀ c ∈ v.cells, 0 < c.col)

include h hin hpos

/-- The cells of a finished row are in the extended range. -/
private theorem rowWithin_of_rowDone {r r' : RangeRef} {cols : Int} {rows : Nat}
    (hr : Extended r r' cols rows) (hsource : SourceWithin r v)
    (hcols : (v.cells.map (·.net values)).sum ≤ cols) (hrows : above + v.generated values ≤ rows) :
    RowWithin r' (uncachedBlock block).1 := by
  obtain ⟨hnumber, hlimit⟩ := hin.rows
  have hrefs := refs_of_rowDone h hpos hin.columns hnumber (by omega) hin.cols
  rw [← map_attr?_named_uncachedRow] at hrefs
  refine rowWithin_of_refs hr hsource hrefs
    (fun col hcol => finishedColumns_inside values hin.columns hpos hin.cols hcol) hnumber
    (by omega) (by omega) fun col hcol => ?_
  obtain ⟨c, hc, -⟩ := List.mem_flatMap.1 hcol
  have hbounds := finishedColumns_bounds values hin.columns
    (fun c hc => (hsource.bounds hc).2) hpos hcol
  exact ⟨List.ne_nil_of_mem hc, by omega⟩

variable (hseen : v.Seen first last) (hget : (uncachedBlock block).2[i]? = some row)

include hseen hget

/-- The cells of a generated row, each in a column of a field or of a finished cell. -/
private theorem refs_of_generated :
    v.number + above + (i + 1) ≤ v.number + above + v.generated values ∧
      ∃ cols : List Nat, (row.named "c").map (·.attr? "r") =
          cols.map (fun col => some { col, row := v.number + above + (i + 1) : CellRef }.a1) ∧
        ∀ col ∈ cols, (0 < col ∧ col ≤ maxCols) ∧ v.cells ≠ [] ∧
          (col ∈ columnsBelow values i v.cells ∨ col ∈ finishedColumns values v.cells) := by
  have hi : i < v.generated values := by
    have := (List.getElem?_eq_some_iff.1 hget).1
    rwa [uncachedBlock, List.length_map, h.generated] at this
  obtain ⟨cols, copies, hgen⟩ := generatedCells_of_rowDone h hin hpos hseen hget
  refine ⟨by omega, cols, hgen.refs, fun col hcol => ?_⟩
  have hmem : col ∈ columnsBelow values i v.cells ∨ col ∈ finishedColumns values v.cells :=
    (List.mem_append.1 (hgen.perm.mem_iff.1 hcol)).imp_right (hgen.copies_sublist.mem ·)
  have hinside : 0 < col ∧ col ≤ maxCols :=
    hmem.elim (columnsBelow_inside hin hpos hi col)
      (finishedColumns_inside values hin.columns hpos hin.cols ·)
  refine ⟨hinside, fun hnil => ?_, hmem⟩
  rw [columnsBelow, finishedColumns, hnil] at hmem
  exact hmem.elim List.not_mem_nil List.not_mem_nil

/-- The cells of a generated row are in the extended range if no list is longer there. -/
private theorem rowWithin_of_generated {r r' : RangeRef} {cols : Int} {rows : Nat}
    (hr : Extended r r' cols rows) (hsource : SourceWithin r v)
    (hcols : (v.cells.map (·.net values)).sum ≤ cols) (hrows : above + v.generated values ≤ rows)
    (hlong : NoLonger values i v.cells) : RowWithin r' row := by
  obtain ⟨hnumber, hlimit⟩ := hin.rows
  obtain ⟨hi, colsBelow, hrefs, hmem⟩ := refs_of_generated h hin hpos hseen hget
  refine rowWithin_of_refs hr hsource hrefs (fun col hcol => (hmem col hcol).1) (by omega)
    (by omega) (by omega) fun col hcol => ⟨(hmem col hcol).2.1, ?_⟩
  have hcover : ∀ c ∈ v.cells, r.start.col ≤ c.col ∧ c.col ≤ r.stop.col := fun c hc =>
    (hsource.bounds hc).2
  have hbounds : r.start.col ≤ col ∧ (col : Int) ≤ r.stop.col + (v.cells.map (·.net values)).sum :=
    (hmem col hcol).2.2.elim (columnsBelow_bounds_of_noLonger hin.columns hpos hcover hlong)
      (finishedColumns_bounds values hin.columns hcover hpos)
  omega

/-- The cells of a generated row are in the columns that it declares if no list is shorter there. -/
private theorem columnsWithin_of_generated {first last : Nat}
    (hspan : declaredSpan? v.row = some (first, last))
    (hcover : ∀ c ∈ v.cells, first ≤ c.col ∧ c.col ≤ last) (hshort : NoShorter values i v.cells) :
    ∃ last', declaredSpan? row = some (first, last') ∧ ColumnsWithin first last' row := by
  obtain ⟨hnumber, hlimit⟩ := hin.rows
  obtain ⟨hi, cols, hrefs, hmem⟩ := refs_of_generated h hin hpos hseen hget
  obtain ⟨last', hlast', hbound⟩ := declaresTo_of_rowDone h hget hspan
  refine ⟨last', hlast', fun cell hcell => ?_⟩
  obtain ⟨col, hcol, href⟩ := exists_reference hrefs (fun col hcol => (hmem col hcol).1) (by omega)
    (by omega) cell hcell
  have hsum : (v.cells.map (·.net values)).sum ≤
      (v.cells.map (CellVisit.netBelow values i)).sum := List.sum_le_sum hshort
  obtain ⟨hinside, -, hwhere⟩ := hmem col hcol
  have hbounds : first ≤ col ∧
      (col : Int) ≤ last + (v.cells.map (CellVisit.netBelow values i)).sum := by
    rcases hwhere with hfield | hfinished
    · exact columnsBelow_bounds_of_noShorter hin.columns hpos hcover hshort hfield
    · have := finishedColumns_bounds values hin.columns hcover hpos hfinished
      omega
  -- An end too large to be moved is beyond every column.
  have hfar : maxCols ≤ Nat.pow 2 63 - 1 := by decide
  refine ⟨_, href, hbounds.1, ?_⟩
  show col ≤ last'
  omega

end

/-! ### A pass -/

/-- A pass that stays inside the sheet with the fields of generated rows as well. -/
structure FieldsInside (values : Substitutions) (visits : List RowVisit) : Prop
    extends Inside values visits where
  below : ∀ v ∈ visits, ∀ i < v.generated values, ∀ c ∈ v.cells,
    finishedColumn values v.cells c + c.widthBelow values i ≤ maxCols + 1

instance (values : Substitutions) (visits : List RowVisit) :
    Decidable (FieldsInside values visits) :=
  decidable_of_iff
    (Inside values visits ∧ ∀ v ∈ visits, ∀ i < v.generated values, ∀ c ∈ v.cells,
      finishedColumn values v.cells c + c.widthBelow values i ≤ maxCols + 1)
    ⟨fun h => ⟨h.1, h.2⟩, fun h => ⟨h.1, h.2⟩⟩

/-- Every row of a pass inside the sheet stays inside. -/
theorem FieldsInside.row (h : FieldsInside values visits) (hinc : InOrder visits) {v : RowVisit}
    (hv : v ∈ visits) : RowStaysInside values (rowsAbove values visits v.number) v where
  columns := hinc.columns v hv
  rows := by
    have := h.rows v hv
    omega
  cols := h.cols v hv
  below := h.below v hv

/-- A pass over a sheet with a table placeholder in `A1`, which is all that it declares. -/
def extentPass : Pass :=
  { samplePass with
    sheet := { samplePass.sheet with
      doc := { root := .ofChildren "worksheet" [] [
        .ofChildren "dimension" [("ref", "A1:A1")] [],
        .ofChildren "sheetData" [] [
          .ofChildren "row" [("r", "1"), ("spans", "1:1")] [sampleCell [("r", "A1")] "0"]]] } } }

/-- A table with two elements that have a field each. -/
def extentValues (first later : Value) : Substitutions :=
  [("t", .list [.record [("k", first)], .record [("k", later)]])]

private theorem zero_lt_extentVisits (values : Substitutions) :
    0 < (extentPass.visits {} (fun _ => none) values).length := by
  -- There is a visit to every source row, however the pass goes on.
  exact Nat.succ_pos _

end SheetTemplate.Fill
