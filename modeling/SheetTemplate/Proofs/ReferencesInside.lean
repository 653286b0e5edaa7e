import SheetTemplate.Proofs.GeneratedColumns
import SheetTemplate.Proofs.MergedRegions
import SheetTemplate.Proofs.PrintRanges
import SheetTemplate.Proofs.SettledRows
import SheetTemplate.Proofs.TableRanges

/-!
# References stay inside the sheet where there is room for them

Reading a reference checks the limits of the sheet, and writing one does not. What a pass moves is
read again before it is moved on, so a range that has once left the sheet stays where it is, with a
text that nobody can read. A range stays inside if the rows generated above it and the columns
inserted left of it, cell by cell, leave room for its last row and its last column. A range may end
before it begins; what is first and last is then the other corner.

`Room` says this before each row of a pass, in the coordinates of the moment.

## Key results

- `follows_rowMoves_of_room`, `follows_sheetMoves_of_room`: defined names
- `regionRoom_rowMoves`, `isSome_refRange?_sheetMoves`: merged regions and what they are repeated on
- `tableRoom_rowTable`, `isSome_range?_sheetTable`: tables
- `rowInside_of_rowDone`: rows and their cells
- `references_stay_inside`: all that a pass writes
-/

namespace SheetTemplate

open Layout (Move Follows refRange? nameRange? moveRefs moveNames mergeCells stepMerges)
open Xml (Element)

/-! ### Ranges that may end before they begin -/

namespace CellRef

/-- Moving a coordinate does not leave the first one. -/
private theorem coe_moved_eq_max {n : Nat} {distance : Int}
    (h : n + distance ≤ (Text.max32 : Int)) : (moved n distance : Int) = max 1 (n + distance) := by
  have hpow : Nat.pow 2 32 = Text.max32 + 1 := by decide
  have hone : (1 : Int) ≤ Text.max32 := by decide
  unfold moved
  rw [hpow, Int.natCast_emod, Int.toNat_of_nonneg (by omega)]
  exact Int.emod_eq_of_lt (by omega) (by omega)

end CellRef

namespace RangeRef

/-- The last column that a range reaches. -/
def lastCol (r : RangeRef) : Nat := max r.start.col r.stop.col

/-- The last row that a range reaches. -/
def lastRow (r : RangeRef) : Nat := max r.start.row r.stop.row

/-- The last column of a range that was read is within the sheet. -/
theorem Readable.lastCol_le {r : RangeRef} (h : r.Readable) : r.lastCol ≤ maxCols :=
  Nat.max_le.2 ⟨h.start.col_le, h.stop.col_le⟩

/-- So is its last row. -/
theorem Readable.lastRow_le {r : RangeRef} (h : r.Readable) : r.lastRow ≤ maxRows :=
  Nat.max_le.2 ⟨h.start.row_le, h.stop.row_le⟩

/-- A range that has gone some columns and rows further and can still be read. Its end may have come
closer to its start, if it lies left of it. -/
structure GoneBy (r r' : RangeRef) (cols rows : Int) : Prop where
  readable : r'.Readable
  sheet : r'.start.sheet = r.start.sheet
  col : (r'.start.col : Int) = r.start.col + cols
  lastCol : (r'.lastCol : Int) = r.lastCol + cols
  row : (r'.start.row : Int) = r.start.row + rows
  lastRow : (r'.lastRow : Int) = r.lastRow + rows
  single : r.start = r.stop → r'.start = r'.stop

theorem GoneBy.refl {r : RangeRef} (h : r.Readable) : r.GoneBy r 0 0 :=
  ⟨h, rfl, by omega, by omega, by omega, by omega, id⟩

theorem GoneBy.trans {r r' r'' : RangeRef} {cols cols' rows rows' : Int}
    (h : r.GoneBy r' cols rows) (h' : r'.GoneBy r'' cols' rows') :
    r.GoneBy r'' (cols + cols') (rows + rows') where
  readable := h'.readable
  sheet := h'.sheet.trans h.sheet
  col := by rw [h'.col, h.col, Int.add_assoc]
  lastCol := by rw [h'.lastCol, h.lastCol, Int.add_assoc]
  row := by rw [h'.row, h.row, Int.add_assoc]
  lastRow := by rw [h'.lastRow, h.lastRow, Int.add_assoc]
  single := fun heq => h'.single (h.single heq)

/-- A range with room for it is moved to where it can be read. -/
theorem goneBy_offset {r : RangeRef} (h : r.Readable) (cols rows : Int)
    (hcol : 1 ≤ r.start.col + cols) (hcol' : r.lastCol + cols ≤ maxCols) (hrow : 0 ≤ rows)
    (hrow' : r.lastRow + rows ≤ maxRows) : r.GoneBy (r.offset cols rows) cols rows := by
  have hlimits := limits_le_max32
  obtain ⟨⟨hsheet, -, -, hpos, -⟩, ⟨hsheet', -, -, hpos', -⟩, hcolon⟩ := h
  unfold lastCol at hcol'
  unfold lastRow at hrow'
  -- With room, no end is cut off at the first row or column.
  have hstartCol : ((r.offset cols rows).start.col : Int) = max 1 (r.start.col + cols) :=
    CellRef.coe_moved_eq_max (by omega)
  have hstopCol : ((r.offset cols rows).stop.col : Int) = max 1 (r.stop.col + cols) :=
    CellRef.coe_moved_eq_max (by omega)
  have hstartRow : ((r.offset cols rows).start.row : Int) = max 1 (r.start.row + rows) :=
    CellRef.coe_moved_eq_max (by omega)
  have hstopRow : ((r.offset cols rows).stop.row : Int) = max 1 (r.stop.row + rows) :=
    CellRef.coe_moved_eq_max (by omega)
  exact {
    readable := ⟨⟨hsheet, by omega, by omega, by omega, by omega⟩,
      ⟨hsheet', by omega, by omega, by omega, by omega⟩, hcolon⟩
    sheet := rfl
    col := by omega
    lastCol := by
      unfold lastCol
      omega
    row := by omega
    lastRow := by
      unfold lastRow
      omega
    single := fun heq => congrArg (CellRef.offset · cols rows) heq }

end RangeRef

/-- Rules that lead from one range to the next follow on one another. -/
theorem Layout.Follows.append {rules rules' : List (RangeRef → Option RangeRef)}
    {r r' r'' : RangeRef} (h : Follows rules r r') (h' : Follows rules' r' r'') :
    Follows (rules ++ rules') r r'' := by
  induction h with
  | nil r => exact h'
  | stay hstay _ ih => exact .stay hstay (ih h')
  | move hmove hread hsingle _ ih => exact .move hmove hread hsingle (ih h')

namespace Fill

variable {values : Substitutions}

/-! ### The cells of a row -/

/-- Whether the cells of a row, with columns inserted left of them, leave room for a range on the
row that they move: up to each column that is left of it in the end. -/
def RoomRight (values : Substitutions) (inserted : Int) (cells : List CellVisit) (r : RangeRef) :
    Prop :=
  ∀ col : Nat, (col : Int) + inserted ≤ r.start.col →
    (r.lastCol : Int) + netLeft values col cells ≤ maxCols

instance (values : Substitutions) (inserted : Int) (cells : List CellVisit) (r : RangeRef) :
    Decidable (RoomRight values inserted cells r) :=
  decidable_of_iff
    (∀ col < (r.start.col - inserted + 1).toNat,
      (r.lastCol : Int) + netLeft values col cells ≤ maxCols)
    ⟨fun h col hcol => h col (by omega), fun h col hcol => h col (by omega)⟩

section

variable {number before : Nat} {inserted : Int} {v : CellVisit} {vs : List CellVisit} {r : RangeRef}

/-- A cell left of a range moves it, and leaves room for what the other cells insert. -/
private theorem RoomRight.move (h : RoomRight values inserted (v :: vs) r)
    (hlt : ∀ w ∈ vs, v.col < w.col) (hleft : (v.col : Int) + inserted < r.start.col) :
    (r.lastCol : Int) + v.net values ≤ maxCols ∧
      ∀ r₁, r.GoneBy r₁ (v.net values) 0 → RoomRight values (inserted + v.net values) vs r₁ := by
  -- Nothing stands left of the next column but the cell itself.
  have hfirst := h (v.col + 1) (by omega)
  rw [netLeft_cons, if_pos (Nat.lt_succ_self _), netLeft_eq_zero fun w hw => hlt w hw] at hfirst
  refine ⟨by omega, fun r₁ hr₁ col hcol => ?_⟩
  have hstart := hr₁.col
  have hlast := hr₁.lastCol
  by_cases hv : v.col < col
  · have := h col (by omega)
    rw [netLeft_cons, if_pos hv] at this
    omega
  · rw [netLeft_eq_zero fun w hw => by have := hlt w hw; omega]
    omega

/-- A cell that does not move a range leaves room as well: either it inserts nothing, or all other
cells stand right of the range. -/
private theorem RoomRight.stay (h : RoomRight values inserted (v :: vs) r) (hread : r.Readable)
    (hlt : ∀ w ∈ vs, v.col < w.col)
    (hstay : v.net values = 0 ∨ (r.start.col : Int) ≤ v.col + inserted) :
    RoomRight values (inserted + v.net values) vs r := by
  intro col hcol
  rcases hstay with hzero | hright
  · have := h col (by omega)
    rw [netLeft_cons, hzero, ite_self, Int.zero_add] at this
    exact this
  · have hnet := neg_one_le_net values v
    have hlast := hread.lastCol_le
    rw [netLeft_eq_zero fun w hw => by have := hlt w hw; omega]
    omega

/-- The cells of a row move a range on it to where it can be read. -/
private theorem follows_rightMoves {cells : List CellVisit}
    (hinc : (cells.map CellVisit.col).Pairwise (· < ·)) (hbefore : ∀ v ∈ cells, before < v.col)
    (hpos : 0 ≤ before + inserted) (hread : r.Readable) (hrow : r.start.row = number)
    (hroom : RoomRight values inserted cells r) :
    ∃ (r' : RangeRef) (cols : Int), r.GoneBy r' cols 0 ∧
      Follows ((rightMoves values number inserted cells).map Move.region?) r r' := by
  -- By the cells: `before` is the column of the last one, so what it and those left of it insert
  -- does not pull a later cell beyond the first column.
  induction cells generalizing before inserted r with
  | nil => exact ⟨r, 0, .refl hread, .nil r⟩
  | cons v vs ih =>
    obtain ⟨hlater, hrest⟩ := List.pairwise_cons.1 hinc
    have hlt : ∀ w ∈ vs, v.col < w.col := fun w hw => hlater _ (List.mem_map_of_mem hw)
    have hv := hbefore v List.mem_cons_self
    have hnet := neg_one_le_net values v
    have htarget : ((v.target number inserted).col : Int) = v.col + inserted := by
      simp only [CellVisit.target]
      omega
    -- The cell moves the range, or stands too far right, or inserts nothing.
    by_cases hmoves : v.net values ≠ 0 ∧ r.start.row = (v.target number inserted).row ∧
        (v.target number inserted).col < r.start.col
    · obtain ⟨hlast, hmove⟩ := hroom.move hlt (by omega)
      have hrows := hread.lastRow_le
      have hgone := RangeRef.goneBy_offset hread (v.net values) 0 (by omega) hlast (Int.le_refl 0)
        (by omega)
      have hrow₁ := hgone.row
      obtain ⟨r', cols, hgone', hfollows⟩ := ih hrest hlt (by omega) hgone.readable (by omega)
        (hmove _ hgone)
      refine ⟨r', v.net values + cols, ?_,
        .move (if_pos hmoves) hgone.readable hgone.single hfollows⟩
      have hthen := hgone.trans hgone'
      rwa [Int.add_zero] at hthen
    · have hstay : v.net values = 0 ∨ (r.start.col : Int) ≤ v.col + inserted := by
        by_contra hnot
        exact hmoves ⟨by omega, hrow, by omega⟩
      obtain ⟨r', cols, hgone, hfollows⟩ := ih hrest hlt (by omega) hread hrow
        (hroom.stay hread hlt hstay)
      exact ⟨r', cols, hgone, .stay (if_neg hmoves) hfollows⟩

end

/-! ### The rows of a pass -/

/-- Whether rows, with generated rows above them, leave room for a range: for its last row, where
they push it down that stand above a row `below`, and for its last column, where its own row moves
it right. -/
structure Room (values : Substitutions) (visits : List RowVisit) (above below : Nat)
    (r : RangeRef) : Prop where
  rows : r.lastRow + rowsAbove values visits (below - above) ≤ maxRows
  cols : ∀ v ∈ visits, v.number + above = r.start.row → RoomRight values 0 v.cells r

instance (values : Substitutions) (visits : List RowVisit) (above below : Nat) (r : RangeRef) :
    Decidable (Room values visits above below r) :=
  decidable_of_iff
    (r.lastRow + rowsAbove values visits (below - above) ≤ maxRows ∧
      ∀ v ∈ visits, v.number + above = r.start.row → RoomRight values 0 v.cells r)
    ⟨fun h => ⟨h.1, h.2⟩, fun h => ⟨h.1, h.2⟩⟩

/-- A range and what the cells of a row leave of it: they move it if it begins on the row. -/
structure AfterCells (number : Nat) (r r' : RangeRef) : Prop where
  gone : ∃ cols, r.GoneBy r' cols 0
  other : r.start.row ≠ number → r' = r

/-- A range is readable after the cells of a row. -/
theorem AfterCells.readable {number : Nat} {r r' : RangeRef} (h : AfterCells number r r') :
    r'.Readable :=
  h.gone.elim fun _ hgone => hgone.readable

/-- No cell changes which rows a range reaches. -/
theorem AfterCells.rows {number : Nat} {r r' : RangeRef} (h : AfterCells number r r') :
    r'.start.row = r.start.row ∧ r'.lastRow = r.lastRow := by
  obtain ⟨cols, hgone⟩ := h.gone
  have hrow := hgone.row
  have hlast := hgone.lastRow
  omega

section

variable {above below : Nat} {v : RowVisit} {vs : List RowVisit} {r r' : RangeRef}

/-- Rows below a range leave it where it is. -/
private theorem room_of_below (hread : r.Readable) (hrows : ∀ w ∈ vs, below ≤ w.number + above)
    (hcols : ∀ w ∈ vs, r.start.row < w.number + above) : Room values vs above below r where
  rows := by
    have := hread.lastRow_le
    rw [rowsAbove_eq_zero fun w hw => by have := hrows w hw; omega]
    omega
  cols w hw heq := absurd heq (Nat.ne_of_gt (hcols w hw))

/-- The cells of the row at hand move a range that begins on the row, and concern no other. -/
private theorem follows_cells (h : Room values (v :: vs) above below r) (hread : r.Readable)
    (hinc : InOrder (v :: vs)) :
    ∃ r', AfterCells (v.number + above) r r' ∧
      Follows ((rightMoves values (v.number + above) 0 v.cells).map Move.region?) r r' := by
  by_cases hrow : r.start.row = v.number + above
  · obtain ⟨r', cols, hgone, hfollows⟩ := follows_rightMoves (hinc.columns v List.mem_cons_self)
      (hinc.positive v List.mem_cons_self) (Int.le_refl 0) hread hrow
      (h.cols v List.mem_cons_self hrow.symm)
    exact ⟨r', ⟨⟨cols, hgone⟩, fun hne => absurd hrow hne⟩, hfollows⟩
  · refine ⟨r, ⟨⟨0, .refl hread⟩, fun _ => rfl⟩, ?_⟩
    have hsettled : Layout.Settled (rightMoves values (v.number + above) 0 v.cells) r :=
      settled_rightMoves hrow
    exact (Layout.leads_of_settled hsettled).follows

/-- What rows that generate nothing leave room for before the row at hand, they do after it. -/
private theorem room_of_none (h : Room values (v :: vs) above below r)
    (hlt : ∀ w ∈ vs, v.number < w.number) (hcells : AfterCells (v.number + above) r r')
    (hnone : v.generated values = 0) : Room values vs (above + v.generated values) below r' where
  rows := by
    have hrows := h.rows
    have hlast := hcells.rows.2
    rw [rowsAbove_cons] at hrows
    rw [hnone, Nat.add_zero]
    omega
  cols w hw heq := by
    -- A row below the one at hand is not the row of a range that the cells have moved.
    have hrow := hcells.rows.1
    have hbelow := hlt w hw
    rw [hnone, Nat.add_zero] at heq
    have hsame := hcells.other (by omega)
    rw [hsame] at heq ⊢
    exact h.cols w (List.mem_cons_of_mem _ hw) heq

/-- A range that begins below the row at hand goes down with the rows generated for it. -/
private theorem room_of_down (h : Room values (v :: vs) above below r) (hread : r.Readable)
    (hbelow : v.number + above < below) :
    r.GoneBy (r.offset 0 (v.generated values : Nat)) 0 (v.generated values : Nat) ∧
      Room values vs (above + v.generated values) (below + v.generated values)
        (r.offset 0 (v.generated values : Nat)) := by
  have hrows := h.rows
  rw [rowsAbove_cons, if_pos (show v.number < below - above by omega)] at hrows
  have hcol := hread.start.col_pos
  have hlastCol := hread.lastCol_le
  have hgone := RangeRef.goneBy_offset hread 0 (v.generated values : Nat) (by omega) (by omega)
    (by omega) (by omega)
  refine ⟨hgone, ⟨?_, fun w hw heq col hcol => ?_⟩⟩
  · have hlast := hgone.lastRow
    rw [Nat.add_sub_add_right]
    omega
  · -- The range keeps its distance to the rows that are left.
    have hrow := hgone.row
    have hstartCol := hgone.col
    have hlast := hgone.lastCol
    have := h.cols w (List.mem_cons_of_mem _ hw) (by omega) col (by omega)
    omega

end

/-- The rows generated for a row, as they are inserted below it. -/
abbrev rowShift (values : Substitutions) (pushDownPageBreaks : Bool) (sheetName : String)
    (above : Nat) (v : RowVisit) : Layout.RowShift where
  anchor := v.number + above
  rows := v.generated values
  pushDownPageBreaks := pushDownPageBreaks
  sheetName := sheetName

/-! ### Defined names -/

/-- The row above which rows push a name down: its last row if it is one for the sheet and page
breaks are pushed down, else its first. -/
def nameBelow (pushDownPageBreaks : Bool) (sheetName : String) (r : RangeRef) : Nat :=
  if pushDownPageBreaks ∧ r.start.sheetName? = some sheetName then r.lastRow else r.start.row

/-- Whether there is room for a defined name. -/
def NameRoom (values : Substitutions) (pushDownPageBreaks : Bool) (sheetName : String)
    (visits : List RowVisit) (above : Nat) (e : Element) : Prop :=
  ∃ r ∈ nameRange? e, Room values visits above (nameBelow pushDownPageBreaks sheetName r) r

instance (values : Substitutions) (pushDownPageBreaks : Bool) (sheetName : String)
    (visits : List RowVisit) (above : Nat) (e : Element) :
    Decidable (NameRoom values pushDownPageBreaks sheetName visits above e) :=
  inferInstanceAs (Decidable (∃ r ∈ nameRange? e, _))

section

variable {pushDownPageBreaks : Bool} {sheetName : String} {above : Nat} {v : RowVisit}
  {vs : List RowVisit} {r r' : RangeRef}

/-- A name is pushed down from the row that went with it. -/
private theorem nameBelow_of_goneBy {cols : Int} (rows : Nat) (h : r.GoneBy r' cols rows) :
    nameBelow pushDownPageBreaks sheetName r' =
      nameBelow pushDownPageBreaks sheetName r + rows := by
  have hrow := h.row
  have hlast := h.lastRow
  unfold nameBelow CellRef.sheetName?
  rw [h.sheet]
  split <;> omega

/-- A name of the sheet that begins no further down than the row at hand and ends below it is
stretched by the rows generated in between. -/
private theorem room_of_stretch (hread : r.Readable) (hlt : ∀ w ∈ vs, v.number < w.number)
    (hrows : r.lastRow + rowsAbove values (v :: vs)
      (nameBelow pushDownPageBreaks sheetName r - above) ≤ maxRows)
    (hpush : pushDownPageBreaks = true) (hsheet : r.start.sheetName? = some sheetName)
    (hstart : r.start.row ≤ v.number + above) (hstop : v.number + above < r.stop.row)
    (hr' : r' = { r with stop := r.stop.offset 0 (v.generated values : Nat) }) :
    r'.Readable ∧ Room values vs (above + v.generated values)
      (nameBelow pushDownPageBreaks sheetName r') r' := by
  -- The range begins on the row or above and ends below it.
  have hlast : r.lastRow = r.stop.row := by
    unfold RangeRef.lastRow
    omega
  have hbelow : nameBelow pushDownPageBreaks sheetName r = r.stop.row := by
    rw [nameBelow, if_pos ⟨hpush, hsheet⟩, hlast]
  rw [hbelow, hlast, rowsAbove_cons, if_pos (by omega)] at hrows
  have hcol := hread.stop.col_pos
  have hcol' := hread.stop.col_le
  have hmoved : r.stop.MovedBy (r.stop.offset 0 (v.generated values : Nat)) 0
      (v.generated values : Nat) :=
    CellRef.movedBy_offset _ (by omega) (by omega) (by omega) (by omega)
  have hrow := hmoved.row
  subst hr'
  refine ⟨⟨hread.start, hmoved.readable hread.stop (by omega) (by omega) (by omega) (by omega),
    hread.colon⟩, ?_, fun w hw heq => ?_⟩
  · rw [nameBelow, if_pos ⟨hpush, hsheet⟩]
    have hlast' : RangeRef.lastRow { r with stop := r.stop.offset 0 (v.generated values : Nat) } =
        r.stop.row + v.generated values := by
      unfold RangeRef.lastRow
      dsimp only
      omega
    rw [hlast', Nat.add_sub_add_right]
    omega
  · have := hlt w hw
    dsimp only at heq
    omega

/-- A name that neither begins nor ends below the row at hand is left where it is. -/
private theorem room_of_above (hread : r.Readable) (hlt : ∀ w ∈ vs, v.number < w.number)
    (hstart : r.start.row ≤ v.number + above)
    (hstop : pushDownPageBreaks = true → r.start.sheetName? = some sheetName →
      r.stop.row ≤ v.number + above) :
    Room values vs (above + v.generated values) (nameBelow pushDownPageBreaks sheetName r) r := by
  have hbelow : nameBelow pushDownPageBreaks sheetName r ≤ v.number + above := by
    unfold nameBelow
    split
    · rename_i hpushed
      exact Nat.max_le.2 ⟨hstart, hstop hpushed.1 hpushed.2⟩
    · exact hstart
  refine room_of_below hread (fun w hw => ?_) fun w hw => ?_ <;>
  · have := hlt w hw
    omega

/-- The rows generated for a row take a name, after the cells of the row have moved it, to where it
can be read, and leave room for it. -/
private theorem follows_down_of_room
    (h : Room values (v :: vs) above (nameBelow pushDownPageBreaks sheetName r) r)
    (hlt : ∀ w ∈ vs, v.number < w.number) (hread : r.Readable) {r₁ : RangeRef}
    (hcells : AfterCells (v.number + above) r r₁) :
    ∃ r', r'.Readable ∧
      Room values vs (above + v.generated values) (nameBelow pushDownPageBreaks sheetName r') r' ∧
      Follows [Move.named? (.down (rowShift values pushDownPageBreaks sheetName above v))]
        r₁ r' := by
  obtain ⟨hrow, hlast⟩ := hcells.rows
  have hread₁ := hcells.readable
  have hkept : nameBelow pushDownPageBreaks sheetName r₁ =
      nameBelow pushDownPageBreaks sheetName r := by
    obtain ⟨cols, hgone⟩ := hcells.gone
    exact nameBelow_of_goneBy 0 hgone
  -- A row without generated rows moves nothing.
  by_cases hnone : v.generated values = 0
  · refine ⟨r₁, hread₁, ?_, .stay (if_pos hnone) (.nil r₁)⟩
    rw [hkept]
    exact room_of_none h hlt hcells hnone
  have hrule : ∀ r, Move.named? (.down (rowShift values pushDownPageBreaks sheetName above v)) r =
      (rowShift values pushDownPageBreaks sheetName above v).movedName? r := fun r => if_neg hnone
  by_cases hstart : v.number + above < r.start.row
  · -- The name begins below the row, whose cells have not moved it.
    rw [hcells.other (by omega)]
    have hbelow : r.start.row ≤ nameBelow pushDownPageBreaks sheetName r := by
      unfold nameBelow RangeRef.lastRow
      split <;> omega
    obtain ⟨hdown, hroom⟩ := room_of_down h hread (by omega)
    refine ⟨_, hdown.readable, ?_, .move ?_ hdown.readable hdown.single (.nil _)⟩
    · rw [nameBelow_of_goneBy _ hdown]
      exact hroom
    · rw [hrule]
      exact if_pos hstart
  -- The name is stretched if it ends below the row and the option asks for it.
  by_cases hstretch : pushDownPageBreaks = true ∧ v.number + above < r₁.stop.row ∧
      r₁.start.sheetName? = some sheetName
  · obtain ⟨hpush, hstop, hsheet⟩ := hstretch
    have hrows : r₁.lastRow + rowsAbove values (v :: vs)
        (nameBelow pushDownPageBreaks sheetName r₁ - above) ≤ maxRows := by
      rw [hkept, hlast]
      exact h.rows
    obtain ⟨hread', hroom⟩ := room_of_stretch hread₁ hlt hrows hpush hsheet (by omega) hstop rfl
    refine ⟨_, hread', hroom, .move ?_ hread' (fun hsingle => ?_) (.nil _)⟩
    · rw [hrule, Layout.RowShift.movedName?, if_neg (by dsimp only; omega),
        if_pos ⟨hpush, hstop, hsheet⟩]
    · -- A single cell does not lie on both sides of the row.
      have := congrArg CellRef.row hsingle
      omega
  · refine ⟨r₁, hread₁, ?_, .stay ?_ (.nil r₁)⟩
    · refine room_of_above hread₁ hlt (by omega) fun hpush hsheet => ?_
      exact Nat.le_of_not_lt fun hstop => hstretch ⟨hpush, hstop, hsheet⟩
    · rw [hrule, Layout.RowShift.movedName?, if_neg (by dsimp only; omega), if_neg hstretch]

/-- Names and regions are moved right alike. -/
private theorem named?_eq_region?_rightMoves (number : Nat) (inserted : Int)
    (cells : List CellVisit) :
    (rightMoves values number inserted cells).map Move.named? =
      (rightMoves values number inserted cells).map Move.region? :=
  List.map_congr_left fun m hm => by
    obtain ⟨anchor, cols, rfl, -⟩ := rightMoves_spec hm
    rfl

/-- What a row makes of a name can be read, and the rows below it have room for it. -/
theorem follows_rowMoves_of_room
    (h : Room values (v :: vs) above (nameBelow pushDownPageBreaks sheetName r) r)
    (hread : r.Readable) (hinc : InOrder (v :: vs)) :
    ∃ r', r'.Readable ∧
      Room values vs (above + v.generated values) (nameBelow pushDownPageBreaks sheetName r') r' ∧
      Follows ((rowMoves values pushDownPageBreaks sheetName above v).map Move.named?) r r' := by
  obtain ⟨r₁, hcells, hright⟩ := follows_cells h hread hinc
  obtain ⟨r', hread', hroom, hdown⟩ := follows_down_of_room h hinc.lt_of_cons hread hcells
  refine ⟨r', hread', hroom, ?_⟩
  rw [rowMoves, List.map_append, named?_eq_region?_rightMoves]
  exact hright.append hdown

/-- What a pass makes of a name that there is room for can be read. -/
theorem follows_sheetMoves_of_room {visits : List RowVisit}
    (h : Room values visits above (nameBelow pushDownPageBreaks sheetName r) r)
    (hread : r.Readable) (hinc : InOrder visits) :
    ∃ r', Follows ((sheetMoves values pushDownPageBreaks sheetName above visits).map Move.named?)
      r r' := by
  induction visits generalizing above r with
  | nil => exact ⟨r, .nil r⟩
  | cons v vs ih =>
    obtain ⟨r₁, hread₁, hroom, hrow⟩ := follows_rowMoves_of_room h hread hinc
    obtain ⟨r', hrest⟩ := ih hroom hread₁ hinc.tail
    refine ⟨r', ?_⟩
    rw [sheetMoves, List.map_append]
    exact hrow.append hrest

end

/-! ### Merged regions -/

/-- Whether there is room for a merged region: rows generated on its own row count as well, since it
is repeated on them. -/
def RegionRoom (values : Substitutions) (visits : List RowVisit) (above : Nat) (e : Element) :
    Prop :=
  ∃ r ∈ refRange? e, Room values visits above (r.start.row + 1) r

instance (values : Substitutions) (visits : List RowVisit) (above : Nat) (e : Element) :
    Decidable (RegionRoom values visits above e) :=
  inferInstanceAs (Decidable (∃ r ∈ refRange? e, _))

section

variable {pushDownPageBreaks : Bool} {sheetName : String} {above : Nat} {v : RowVisit}
  {vs : List RowVisit} {r r₁ : RangeRef}

/-- The rows generated for a row leave room for a region, wherever they take it. -/
private theorem regionRoom_of_down (h : Room values (v :: vs) above (r.start.row + 1) r)
    (hlt : ∀ w ∈ vs, v.number < w.number) (hread : r.Readable)
    (hcells : AfterCells (v.number + above) r r₁) {e : Element} (he : refRange? e = some r₁) :
    RegionRoom values vs (above + v.generated values) (Layout.moveRef
      (Move.region? (.down (rowShift values pushDownPageBreaks sheetName above v))) e) := by
  obtain ⟨hrow, -⟩ := hcells.rows
  by_cases hnone : v.generated values = 0
  · rw [Layout.moveRef_of_none (by rw [he, Option.bind_some]; exact if_pos hnone)]
    refine ⟨r₁, he, ?_⟩
    rw [hrow]
    exact room_of_none h hlt hcells hnone
  by_cases hstart : v.number + above < r.start.row
  · -- The region begins below the row, whose cells have not moved it.
    have hsame := hcells.other (by omega)
    subst hsame
    obtain ⟨hdown, hroom⟩ := room_of_down h hread (by omega)
    have hrule : Layout.moveRef
        (Move.region? (.down (rowShift values pushDownPageBreaks sheetName above v))) e =
        e.setAttr "ref" (r₁.offset 0 (v.generated values : Nat)).a1 := by
      simp [Layout.moveRef, he, Move.region?, hnone, Layout.RowShift.moved?, hstart]
    rw [hrule]
    refine ⟨_, Layout.refRange?_setAttr e hdown.readable, ?_⟩
    have hrow' := hdown.row
    rwa [show (r₁.offset 0 (v.generated values : Nat)).start.row + 1 =
      r₁.start.row + 1 + v.generated values by omega]
  · rw [Layout.moveRef_of_none (by
      rw [he, Option.bind_some]
      exact Layout.region?_down_of_le (by dsimp only; omega))]
    refine ⟨r₁, he, room_of_below hcells.readable (fun w hw => ?_) fun w hw => ?_⟩ <;>
    · have := hlt w hw
      omega

/-- The regions that a region is repeated on are inside the sheet, above all rows that are left. -/
private theorem regionRoom_of_copy (h : Room values (v :: vs) above (r.start.row + 1) r)
    (hlt : ∀ w ∈ vs, v.number < w.number) (hcells : AfterCells (v.number + above) r r₁)
    {e : Element} (he : refRange? e = some r₁) :
    ∀ c ∈ Move.clones (.down (rowShift values pushDownPageBreaks sheetName above v)) e,
      RegionRoom values vs (above + v.generated values) c := by
  intro c hc
  rw [Layout.clones_eq _ he] at hc
  obtain ⟨copy, hcopy, rfl⟩ := List.mem_map.1 hc
  unfold Move.copies at hcopy
  dsimp only at hcopy
  split at hcopy
  · rename_i hanchor
    obtain ⟨k, hk, rfl⟩ := List.mem_map.1 hcopy
    have hk := List.mem_range'_1.1 hk
    have hrows := h.rows
    obtain ⟨hrow, hlast⟩ := hcells.rows
    have hread₁ := hcells.readable
    have hcol := hread₁.start.col_pos
    have hlastCol := hread₁.lastCol_le
    rw [rowsAbove_cons, if_pos (by omega)] at hrows
    have hcopied := RangeRef.goneBy_offset hread₁ 0 (k : Nat) (by omega) (by omega) (by omega)
      (by omega)
    -- The copy lies within the rows that the row has generated, above all that are left.
    have hrow' := hcopied.row
    refine ⟨_, Layout.refRange?_setAttr _ hcopied.readable,
      room_of_below hcopied.readable (fun w hw => ?_) fun w hw => ?_⟩ <;>
    · have := hlt w hw
      omega
  · exact absurd hcopy List.not_mem_nil

/-- Cells repeat no region. -/
private theorem foldl_stepMerges_rightMoves {number : Nat} {inserted : Int}
    (cells : List CellVisit) (regions : List Element) :
    (rightMoves values number inserted cells).foldl stepMerges regions =
      regions.map (moveRefs ((rightMoves values number inserted cells).map Move.region?)) := by
  induction cells generalizing inserted regions with
  | nil => exact (List.map_id _).symm
  | cons v vs ih =>
    -- A move right repeats no region.
    have hstep : ∀ anchor cols, stepMerges regions (.right anchor cols) =
        regions.map (Layout.moveRef (Move.region? (.right anchor cols))) := by
      intro anchor cols
      have hnone : regions.flatMap (Move.clones (.right anchor cols)) = [] :=
        List.flatMap_eq_nil_iff.2 fun _ _ => rfl
      rw [stepMerges, hnone, List.append_nil]
    rw [rightMoves, List.foldl_cons, hstep, ih, List.map_map]
    rfl

/-- There is room for all that a row makes of regions. -/
theorem regionRoom_rowMoves (hinc : InOrder (v :: vs)) {regions : List Element}
    (h : ∀ e ∈ regions, RegionRoom values (v :: vs) above e) :
    ∀ e ∈ (rowMoves values pushDownPageBreaks sheetName above v).foldl stepMerges regions,
      RegionRoom values vs (above + v.generated values) e := by
  -- The cells move every region by itself; then the rows below move them and repeat them.
  have hmoved : ∀ e ∈ regions, ∃ r r₁ : RangeRef, r.Readable ∧
      Room values (v :: vs) above (r.start.row + 1) r ∧ AfterCells (v.number + above) r r₁ ∧
      refRange? (moveRefs ((rightMoves values (v.number + above) 0 v.cells).map Move.region?) e) =
        some r₁ := by
    intro e he
    obtain ⟨r, hr, hroom⟩ := h e he
    have hread := Layout.readable_of_refRange? hr
    obtain ⟨r₁, hcells, hfollows⟩ := follows_cells hroom hread hinc
    exact ⟨r, r₁, hread, hroom, hcells, (Layout.refRange?_of_follows hfollows hr).1⟩
  rw [rowMoves, List.foldl_append, foldl_stepMerges_rightMoves]
  intro e he
  rcases List.mem_append.1 he with he | he
  · obtain ⟨_, he₁, rfl⟩ := List.mem_map.1 he
    obtain ⟨e₀, he₀, rfl⟩ := List.mem_map.1 he₁
    obtain ⟨r, r₁, hread, hroom, hcells, hr₁⟩ := hmoved e₀ he₀
    exact regionRoom_of_down hroom hinc.lt_of_cons hread hcells hr₁
  · obtain ⟨e₁, he₁, hclone⟩ := List.mem_flatMap.1 he
    obtain ⟨e₀, he₀, rfl⟩ := List.mem_map.1 he₁
    obtain ⟨r, r₁, -, hroom, hcells, hr₁⟩ := hmoved e₀ he₀
    exact regionRoom_of_copy hroom hinc.lt_of_cons hcells hr₁ e hclone

/-- All that a pass makes of regions that there is room for can be read. -/
theorem isSome_refRange?_sheetMoves {visits : List RowVisit} (hinc : InOrder visits)
    {regions : List Element} (h : ∀ e ∈ regions, RegionRoom values visits above e) :
    ∀ e ∈ (sheetMoves values pushDownPageBreaks sheetName above visits).foldl stepMerges regions,
      (refRange? e).isSome = true := by
  induction visits generalizing above regions with
  | nil =>
    intro e he
    obtain ⟨r, hr, -⟩ := h e he
    exact Option.isSome_of_mem hr
  | cons v vs ih =>
    rw [sheetMoves, List.foldl_append]
    exact ih hinc.tail (regionRoom_rowMoves hinc h)

end

/-! ### Tables -/

/-- Whether there is room for a table, which rows above it push down. -/
def TableRoom (values : Substitutions) (visits : List RowVisit) (above : Nat) (t : Table) : Prop :=
  ∃ r ∈ t.range?, r.lastRow + rowsAbove values visits (r.start.row - above) ≤ maxRows

instance (values : Substitutions) (visits : List RowVisit) (above : Nat) (t : Table) :
    Decidable (TableRoom values visits above t) :=
  inferInstanceAs (Decidable (∃ r ∈ t.range?, _))

section

variable {pushDownPageBreaks : Bool} {sheetName : String} {above : Nat} {v : RowVisit}
  {vs : List RowVisit} {t : Table} {r : RangeRef}

/-- The rows generated for a cell leave a table alone that begins below the row, and another
readable, with its start where it was. -/
private theorem range?_extendedTable (hr : t.range? = some r) (cell : CellRef) {count : Nat}
    (hmax : cell.row + count ≤ maxRows) :
    ∃ r', (extendedTable cell count t).range? = some r' ∧ r'.start.row = r.start.row ∧
      (cell.row < r.start.row → r' = r) := by
  by_cases hin : isInside cell t = true
  · have hcovers : t.Covers r.start.row r.stop.row r.start.col r.stop.col :=
      ⟨r, hr, rfl, rfl, rfl, rfl⟩
    obtain ⟨hrow, hcol⟩ := (isInside_iff hcovers cell).1 hin
    obtain ⟨r', hr', hstart, -⟩ := covers_extendedTable cell hcovers hrow hcol hmax
    exact ⟨r', hr', hstart, fun habove => absurd hrow.1 (Nat.not_le_of_lt habove)⟩
  · rw [extendedTable, if_neg hin]
    exact ⟨r, hr, rfl, fun _ => rfl⟩

/-- The cells of a row do so, too. -/
private theorem range?_cellsTable (number : Nat) (inserted : Int) {cells : List CellVisit}
    (hr : t.range? = some r) (hmax : ∀ c ∈ cells, number + c.rows values ≤ maxRows) :
    ∃ r', (cellsTable values number inserted cells t).range? = some r' ∧
      r'.start.row = r.start.row ∧ (number < r.start.row → r' = r) := by
  induction cells generalizing inserted t r with
  | nil => exact ⟨r, hr, rfl, fun _ => rfl⟩
  | cons c cs ih =>
    obtain ⟨r₁, hr₁, hstart₁, hsame₁⟩ := range?_extendedTable hr (c.target number inserted)
      (hmax c List.mem_cons_self)
    obtain ⟨r', hr', hstart', hsame'⟩ := ih (inserted + c.net values) hr₁
      fun c' hc' => hmax c' (List.mem_cons_of_mem c hc')
    refine ⟨r', hr', hstart'.trans hstart₁, fun habove => ?_⟩
    rw [hsame' (by omega), hsame₁ habove]

/-- What a row that stays inside the sheet makes of a table can be read, and the rows below it have
room for it. -/
theorem tableRoom_rowTable (hlt : ∀ w ∈ vs, v.number < w.number)
    (hmax : v.number + above + v.generated values ≤ maxRows)
    (h : TableRoom values (v :: vs) above t) :
    TableRoom values vs (above + v.generated values)
      (rowTable values pushDownPageBreaks sheetName above v t) := by
  obtain ⟨r, hr, hroom⟩ := h
  -- The cells of the row may stretch the table, but it begins where it did.
  obtain ⟨r₁, hr₁, hstart, hsame⟩ := range?_cellsTable (v.number + above) 0 hr
    fun c hc => Nat.le_trans (Nat.add_le_add_left (rows_le_generated values hc) _) hmax
  have hread := Table.readable_of_range? hr₁
  unfold rowTable Layout.RowShift.shiftTable
  rw [hr₁, Option.bind_some, Layout.RowShift.moved?]
  by_cases hbelow : v.number + above < r₁.start.row
  · -- The cells of a row above the table have not changed it.
    have hsame := hsame (by omega)
    subst hsame
    rw [rowsAbove_cons, if_pos (by omega)] at hroom
    by_cases hnone : v.generated values = 0
    · rw [if_pos hnone]
      refine ⟨r₁, hr₁, ?_⟩
      rw [hnone, Nat.add_zero]
      omega
    · rw [if_neg hnone, if_pos hbelow]
      have hcol := hread.start.col_pos
      have hlastCol := hread.lastCol_le
      have hgone := RangeRef.goneBy_offset hread 0 (v.generated values : Nat) (by omega) (by omega)
        (by omega) (by omega)
      refine ⟨_, Table.range?_setRange _ hgone.readable, ?_⟩
      have hrow := hgone.row
      have hlast := hgone.lastRow
      dsimp only
      rw [show (r₁.offset 0 (v.generated values : Nat)).start.row -
        (above + v.generated values) = r₁.start.row - above by omega]
      omega
  · rw [if_neg hbelow, ite_self]
    refine ⟨r₁, hr₁, ?_⟩
    rw [rowsAbove_eq_zero fun w hw => by have := hlt w hw; omega]
    exact hread.lastRow_le

/-- What a pass whose rows stay inside the sheet makes of a table that there is room for can be
read. -/
theorem isSome_range?_sheetTable {visits : List RowVisit}
    (hinc : (visits.map RowVisit.number).Pairwise (· < ·))
    (hmax : ∀ v ∈ visits,
      v.number + (above + rowsAbove values visits v.number) + v.generated values ≤ maxRows)
    (h : TableRoom values visits above t) :
    ((sheetTable values pushDownPageBreaks sheetName above visits t).range?).isSome = true := by
  -- With room before the row there is room after it.
  induction visits generalizing above t with
  | nil =>
    obtain ⟨r, hr, -⟩ := h
    exact Option.isSome_of_mem hr
  | cons v vs ih =>
    obtain ⟨hlater, hrest⟩ := List.pairwise_cons.1 hinc
    have hlt : ∀ w ∈ vs, v.number < w.number := fun w hw => hlater _ (List.mem_map_of_mem hw)
    have hfirst := hmax v List.mem_cons_self
    rw [rowsAbove_head hlt, Nat.add_zero] at hfirst
    refine ih hrest (fun w hw => ?_) (tableRoom_rowTable hlt hfirst h)
    have := hmax w (List.mem_cons_of_mem v hw)
    rw [rowsAbove_cons, if_pos (hlt w hw)] at this
    omega

end

/-! ### Rows -/

/-- A row with a number inside the sheet and cells in columns inside it. -/
private theorem rowInside_of_refs {row : Element} {number : Nat} {cols : List Nat}
    (hnumber : row.attr? "r" = some (toString number)) (hpos : 0 < number) (hle : number ≤ maxRows)
    (hrefs : (row.named "c").map (·.attr? "r") =
      cols.map fun col => some { col, row := number : CellRef }.a1)
    (hcols : ∀ col ∈ cols, 0 < col ∧ col ≤ maxCols) : RowInside row where
  number := by
    -- The number of a row within the sheet is read back.
    refine ⟨number, ?_, hpos, hle⟩
    rw [hnumber, Option.bind_some, Text.natural32?, Text.toList_toString]
    exact Text.natural?_numeral (Nat.le_trans hle limits_le_max32.2)
  cells c hc := by
    have hattr : c.attr? "r" ∈ cols.map fun col => some { col, row := number : CellRef }.a1 :=
      hrefs ▸ List.mem_map_of_mem hc
    obtain ⟨col, hcol, hattr⟩ := List.mem_map.1 hattr
    have hread : CellRef.Readable { col, row := number } :=
      ⟨fun q hq => absurd hq (by simp), (hcols col hcol).1, (hcols col hcol).2, hpos, hle⟩
    rw [← hattr, Option.bind_some, CellRef.parse?_a1 hread]
    rfl

/-- A row that stays inside the sheet comes out inside it, and with it the rows generated below. -/
theorem rowInside_of_rowDone {strings first last : StringTable} {copied : Bool} {above : Nat}
    {v : RowVisit} {block : Element × List Element}
    (h : RowDone values strings copied (v.number + above) v block)
    (hin : RowStaysInside values above v)
    (hpos : ∀ c ∈ v.cells, 0 < c.col) (hseen : v.Seen first last) :
    ∀ row ∈ (uncachedBlock block).1 :: (uncachedBlock block).2, RowInside row := by
  have hrows := hin.rows
  have hfinished : ∀ col ∈ finishedColumns values v.cells, 0 < col ∧ col ≤ maxCols :=
    fun col => finishedColumns_inside values hin.columns hpos hin.cols
  rw [List.forall_mem_cons]
  constructor
  -- The finished row has its own number, and the generated rows have those after it.
  · have hnumber := (renumbered_uncachedRow h.renumbered).number
    refine rowInside_of_refs hnumber hrows.1 (by omega) ?_ hfinished
    exact (map_attr?_named_uncachedRow block.1 "r").trans
      (refs_of_rowDone h hpos hin.columns hrows.1 (by omega) hin.cols)
  · intro row hrow
    obtain ⟨i, hi, rfl⟩ := List.getElem_of_mem hrow
    have hget := List.getElem?_eq_getElem hi
    obtain ⟨cols, copies, hcells⟩ := generatedCells_of_rowDone h hin hpos hseen hget
    have hlength : (uncachedBlock block).2.length = v.generated values := by
      rw [uncachedBlock, List.length_map, h.generated]
    have hnumber : (uncachedBlock block).2[i].attr? "r" =
        some (toString (v.number + above + (i + 1))) := by
      have hi' : i < block.2.length := by simpa [uncachedBlock] using hi
      have hfit : v.number + above + v.generated values ≤ Text.max32 := hin.fits
      have hnumber := (h.getElem? hfit (List.getElem?_eq_getElem hi')).2.number
      simpa [uncachedBlock] using hnumber
    refine rowInside_of_refs hnumber (by omega) (by omega) hcells.refs fun col hcol => ?_
    rcases List.mem_append.1 (hcells.perm.mem_iff.1 hcol) with hcol | hcol
    · exact columnsBelow_inside hin hpos (hlength ▸ hi) col hcol
    · exact hfinished col (hcells.copies_sublist.mem hcol)

/-! ### A pass -/

/-- What all of a list have come to. -/
private theorem forall_of_forall₂ {α β : Type} {P : α → Prop} {Q : β → Prop} {l : List α}
    {l' : List β} (h : List.Forall₂ (fun a b => P a → Q b) l l') (hP : ∀ a ∈ l, P a) :
    ∀ b ∈ l', Q b := by
  induction h with
  | nil => exact fun b hb => absurd hb List.not_mem_nil
  | cons hab _ ih =>
    rw [List.forall_mem_cons] at hP ⊢
    exact ⟨hab hP.1, ih hP.2⟩

/-- Whether all that refers to cells of a sheet by address can be read. What can be read is inside
the sheet. -/
structure RefersInside (p : Pass) : Prop where
  rows : ∀ row ∈ sourceRows p.sheet.doc.root, RowInside row
  regions : ∀ e ∈ mergeCells p.sheet.doc.root, (refRange? e).isSome = true
  tables : ∀ t ∈ p.tables, t.range?.isSome = true
  names : ∀ e ∈ p.workbook.definedNames, (nameRange? e).isSome = true

/-- The sample sheet with a table on its first two rows, of which the first generates rows. -/
private def roomyPass : Pass :=
  { samplePass with
    tables := [{
      path := "table1.xml", doc := { root := .ofChildren "table" [("ref", "A1:D2")] [] } }] }

/-- A sheet with a list in its first cell, and a name for all the other cells of the row. -/
private def fullRowPass : Pass :=
  { samplePass with
    sheet := { samplePass.sheet with doc := { root := .ofChildren "worksheet" [] [
      .ofChildren "sheetData" [] [
        .ofChildren "row" [("r", "1")] [sampleCell [("r", "A1")] "1"]]] } }
    workbook := { samplePass.workbook with doc := { root := .ofChildren "workbook" [] [
      .ofChildren "definedNames" [] [.ofText "definedName" "Plan!$B$1:$XFD$1"]] } } }

end Fill

end SheetTemplate
