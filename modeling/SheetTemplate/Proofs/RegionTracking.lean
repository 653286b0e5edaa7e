import SheetTemplate.Proofs.Insertions
import SheetTemplate.Proofs.Moves

/-!
# Where a pass takes a region

The moves of a pass are made in the coordinates of the moment. `Leads` says where they take a region
and on which regions they repeat it, step by step. A region that begins on a source row first moves
down with every row above, then right with the cells left of it; after its own row nothing concerns
it any more, and neither does anything concern the regions it was repeated on.

## Key results

- `leads_sheetMoves`: where the moves of a pass take a region
-/

namespace SheetTemplate

/-- A range that stays inside the sheet is moved as a whole, and keeps its text. -/
theorem RangeRef.movedBy_offset {r : RangeRef} (h : r.Readable) (hordered : r.Ordered)
    (cols rows : Int) (hcol : 1 ≤ r.start.col + cols) (hcol' : r.stop.col + cols ≤ maxCols)
    (hrow : 1 ≤ r.start.row + rows) (hrow' : r.stop.row + rows ≤ maxRows) :
    r.MovedBy (r.offset cols rows) cols rows ∧ (r.offset cols rows).Readable := by
  obtain ⟨hcols, hrows⟩ := hordered
  have hstart := CellRef.movedBy_offset r.start hcol (by omega) hrow (by omega)
  have hstop := CellRef.movedBy_offset r.stop (show 1 ≤ r.stop.col + cols by omega) (by omega)
    (show 1 ≤ r.stop.row + rows by omega) (by omega)
  exact ⟨⟨hstart, hstop⟩, hstart.readable h.start hcol (by omega) hrow (by omega),
    hstop.readable h.stop (by omega) hcol' (by omega) hrow', h.colon⟩

namespace Layout

/-! ### Moves of one region -/

/-- The regions that a step repeats a region on. -/
def Move.copies : Move → RangeRef → List RangeRef
  | .right _ _ => fun _ => []
  | .down s => fun r =>
    if r.start.row = s.anchor then (List.range' 1 s.rows).map fun k => r.offset 0 (k : Nat) else []

/-- A region that no step concerns any more. -/
def Settled (moves : List Move) (r : RangeRef) : Prop :=
  ∀ m ∈ moves, m.region? r = none ∧ m.copies r = []

/-- Steps that take one region to another, and on their way repeat it on regions that no later step
concerns. -/
inductive Leads : List Move → RangeRef → RangeRef → List RangeRef → Prop
  | nil (r : RangeRef) : Leads [] r r []
  | stay {m moves r r' copies} (h : m.region? r = none)
      (hcopies : ∀ c ∈ m.copies r, Settled moves c) (hrest : Leads moves r r' copies) :
      Leads (m :: moves) r r' (m.copies r ++ copies)
  | move {m moves r r₁ r' copies} (h : m.region? r = some r₁) (hcopies : m.copies r = [])
      (hread : r₁.Readable) (hsingle : r.start = r.stop → r₁.start = r₁.stop)
      (hrest : Leads moves r₁ r' copies) : Leads (m :: moves) r r' copies

/-- Rows inserted below the row where a region begins do not move it. -/
theorem region?_down_of_le {s : RowShift} {r : RangeRef} (h : r.start.row ≤ s.anchor) :
    Move.region? (.down s) r = none := by
  simp only [Move.region?, RowShift.moved?]
  split
  · rfl
  · exact if_neg (by omega)

/-- Where a region leads it follows the moves. -/
theorem Leads.follows {moves : List Move} {r r' : RangeRef} {copies : List RangeRef}
    (h : Leads moves r r' copies) : Follows (moves.map Move.region?) r r' := by
  induction h with
  | nil r => exact .nil r
  | stay h _ _ ih => exact .stay h ih
  | move h _ hread hsingle _ ih => exact .move h hread hsingle ih

/-- A region that no move concerns stays. -/
theorem leads_of_settled {moves : List Move} {r : RangeRef} (h : Settled moves r) :
    Leads moves r r [] := by
  induction moves with
  | nil => exact .nil r
  | cons m moves ih =>
    obtain ⟨hstay, hcopies⟩ := h m (by simp)
    have hrest := Leads.stay hstay (fun c hc => by simp [hcopies] at hc)
      (ih fun m' hm' => h m' (List.mem_cons_of_mem _ hm'))
    rwa [hcopies] at hrest

/-- Steps that do not concern a region come first. -/
theorem Leads.of_settled {moves moves' : List Move} {r r' : RangeRef} {copies : List RangeRef}
    (h : Settled moves r) (hrest : Leads moves' r r' copies) :
    Leads (moves ++ moves') r r' copies := by
  induction moves with
  | nil => exact hrest
  | cons m moves ih =>
    obtain ⟨hstay, hcopies⟩ := h m (by simp)
    have := Leads.stay hstay (fun c hc => by simp [hcopies] at hc)
      (ih fun m' hm' => h m' (List.mem_cons_of_mem _ hm'))
    rwa [hcopies] at this

/-- A step down moves a region that begins below its row, and keeps it readable. -/
theorem Leads.down {s : RowShift} {moves : List Move} {r r' : RangeRef} {copies : List RangeRef}
    (h : s.anchor < r.start.row) (hmoved : r.MovedBy (r.offset 0 s.rows) 0 s.rows)
    (hread : (r.offset 0 s.rows).Readable)
    (hrest : Leads moves (r.offset 0 s.rows) r' copies) : Leads (.down s :: moves) r r' copies := by
  have hcopies : Move.copies (.down s) r = [] := if_neg (by omega)
  by_cases hrows : s.rows = 0
  · have hstay : Move.region? (.down s) r = none := if_pos hrows
    rw [hrows] at hmoved hrest
    rw [RangeRef.MovedBy.eq_self hmoved] at hrest
    have := Leads.stay hstay (fun c hc => by simp [hcopies] at hc) hrest
    rwa [hcopies] at this
  · refine .move ?_ hcopies hread hmoved.single hrest
    simp [Move.region?, hrows, RowShift.moved?, h]

/-- A step right moves a region that begins on its row and further right, and keeps it readable. -/
theorem Leads.right {anchor : CellRef} {cols : Int} {moves : List Move} {r r' : RangeRef}
    {copies : List RangeRef} (hrow : r.start.row = anchor.row) (hcol : anchor.col < r.start.col)
    (hmoved : r.MovedBy (r.offset cols 0) cols 0) (hread : (r.offset cols 0).Readable)
    (hrest : Leads moves (r.offset cols 0) r' copies) :
    Leads (.right anchor cols :: moves) r r' copies := by
  by_cases hzero : cols = 0
  · -- Inserting no columns is no move, so the region has to be the one that it is moved to.
    rw [hzero] at hmoved hrest
    rw [RangeRef.MovedBy.eq_self hmoved] at hrest
    exact .stay (if_neg fun hmoves => hmoves.1 hzero) (fun c hc => by simp [Move.copies] at hc)
      hrest
  · exact .move (if_pos ⟨hzero, hrow, hcol⟩) rfl hread hmoved.single hrest

end Layout

namespace Fill

open Layout (Move Leads Settled leads_of_settled region?_down_of_le)
open Xml (Element)

variable {values : Substitutions}

/-! ### The moves of one row -/

/-- The moves of a row are moves right on that row. -/
theorem rightMoves_spec {number : Nat} {inserted : Int} {cells : List CellVisit} {m : Move}
    (h : m ∈ rightMoves values number inserted cells) :
    ∃ anchor cols, m = .right anchor cols ∧ anchor.row = number := by
  induction cells generalizing inserted with
  | nil => simp [rightMoves] at h
  | cons v vs ih =>
    rw [rightMoves, List.mem_cons] at h
    rcases h with rfl | h
    · exact ⟨_, _, rfl, rfl⟩
    · exact ih h

/-- The cells of one row concern no region that begins on another. -/
theorem settled_rightMoves {number : Nat} {inserted : Int} {cells : List CellVisit} {r : RangeRef}
    (h : r.start.row ≠ number) : Settled (rightMoves values number inserted cells) r := by
  intro m hm
  obtain ⟨anchor, cols, rfl, hrow⟩ := rightMoves_spec hm
  exact ⟨if_neg fun hmoves => h (hmoves.2.1.trans hrow), rfl⟩

/-- Neither do cells that stand right of where the region begins, even if lists without items have
pulled them left. -/
theorem settled_rightMoves_of_le {number : Nat} (before : Nat) {inserted : Int}
    {cells : List CellVisit} {r : RangeRef} (hinc : (cells.map CellVisit.col).Pairwise (· < ·))
    (hbefore : ∀ v ∈ cells, before < v.col) (hcol : (r.start.col : Int) ≤ before + 1 + inserted) :
    Settled (rightMoves values number inserted cells) r := by
  induction cells generalizing before inserted with
  | nil => exact fun m hm => by simp [rightMoves] at hm
  | cons v vs ih =>
    obtain ⟨hlater, hrest⟩ := List.pairwise_cons.1 hinc
    have hv := hbefore v (by simp)
    have hnet := neg_one_le_net values v
    intro m hm
    rw [rightMoves, List.mem_cons] at hm
    rcases hm with rfl | hm
    · -- A move would need the cell to stand left of the region even now.
      refine ⟨if_neg fun hmoves => ?_, rfl⟩
      have := hmoves.2.2
      simp only [CellVisit.target] at this
      omega
    · exact ih v.col hrest (fun w hw => hlater _ (List.mem_map_of_mem hw)) (by omega) m hm

/-- What bounds the columns that cells insert bounds those that the later cells insert after the
first one. -/
private theorem add_netLeft_le_of_cons {v : CellVisit} {vs : List CellVisit} {stop bound : Int}
    {col : Nat} (hlt : ∀ w ∈ vs, v.col < w.col) (hleft : v.col < col)
    (h : ∀ col' ≤ col, stop + netLeft values col' (v :: vs) ≤ bound) :
    ∀ col' ≤ col, stop + v.net values + netLeft values col' vs ≤ bound := by
  intro col' hcol'
  by_cases hcell : v.col < col'
  · have := h col' hcol'
    rw [netLeft_cons, if_pos hcell] at this
    omega
  · -- Nothing stands left of the column but the first cell itself.
    have hfirst := h (v.col + 1) hleft
    rw [netLeft_cons, if_pos (Nat.lt_succ_self _), netLeft_eq_zero fun w hw => hlt w hw] at hfirst
    rw [netLeft_eq_zero fun w hw => by have := hlt w hw; omega]
    omega

/-- The cells of its row move a region by what they insert left of it. -/
theorem leads_rightMoves {number : Nat} (before : Nat) {col : Nat} (inserted : Int)
    {cells : List CellVisit} {r : RangeRef} (hinc : (cells.map CellVisit.col).Pairwise (· < ·))
    (hbefore : ∀ v ∈ cells, before < v.col) (hpos : 0 ≤ before + inserted)
    (hfirst : before < col) (hread : r.Readable) (hordered : r.Ordered)
    (hrow : r.start.row = number) (hcol : (r.start.col : Int) = col + inserted)
    (hinside : ∀ col' ≤ col, r.stop.col + netLeft values col' cells ≤ maxCols) :
    ∃ r₁ : RangeRef, r.MovedBy r₁ (netLeft values col cells) 0 ∧ r₁.Readable ∧
      ∀ moves r' copies, Leads moves r₁ r' copies →
        Leads (rightMoves values number inserted cells ++ moves) r r' copies := by
  -- The region stands at its source column `col`, moved by the columns inserted so far.
  induction cells generalizing before inserted r with
  | nil => exact ⟨r, .refl r, hread, fun _ _ _ h => h⟩
  | cons v vs ih =>
    obtain ⟨hlater, hrest⟩ := List.pairwise_cons.1 hinc
    have hlt : ∀ w ∈ vs, v.col < w.col := fun w hw => hlater _ (List.mem_map_of_mem hw)
    have hv := hbefore v (by simp)
    have hnet := neg_one_le_net values v
    by_cases hleft : v.col < col
    · -- The cell stands left of the region, so the region moves.
      have hinside' := add_netLeft_le_of_cons hlt hleft hinside
      have hstop := hinside' 0 (Nat.zero_le col)
      rw [netLeft_eq_zero fun w _ => Nat.zero_le w.col] at hstop
      have hrowpos := hread.start.row_pos
      have hrowlast := hread.stop.row_le
      obtain ⟨hmoved, hread'⟩ := RangeRef.movedBy_offset hread hordered (v.net values) 0
        (by omega) (by omega) (by omega) (by omega)
      have hstart := hmoved.start.col
      have hstop' := hmoved.stop.col
      have hrow' := hmoved.start.row
      rw [← hstop'] at hinside'
      obtain ⟨r₁, hmoved₁, hread₁, hleads⟩ := ih v.col (inserted + v.net values) hrest hlt
        (by omega) hleft hread' (hmoved.ordered hordered) (by omega) (by omega) hinside'
      rw [netLeft_cons, if_pos hleft]
      refine ⟨r₁, hmoved.trans hmoved₁, hread₁, fun moves r' copies h => ?_⟩
      refine .right hrow ?_ hmoved hread' (hleads moves r' copies h)
      simp only [CellVisit.target]
      omega
    · -- This cell and all that follow stand right of the region.
      have hall : ∀ w ∈ v :: vs, col ≤ w.col := by
        intro w hw
        rcases List.mem_cons.1 hw with rfl | hw
        · omega
        · have := hlt w hw
          omega
      rw [netLeft_eq_zero hall]
      refine ⟨r, .refl r, hread, fun moves r' copies h => .of_settled ?_ h⟩
      exact settled_rightMoves_of_le (col - 1) hinc
        (fun w hw => by have := hall w hw; omega) (by omega)

/-! ### The moves of a sheet -/

/-- Rows that come out below the row where a region begins do not concern it. -/
theorem settled_sheetMoves {pushDownPageBreaks : Bool} {sheetName : String} {above : Nat}
    {visits : List RowVisit} {r : RangeRef} (h : ∀ v ∈ visits, r.start.row < v.number + above) :
    Settled (sheetMoves values pushDownPageBreaks sheetName above visits) r := by
  -- The moves of a row are on the row or at it, and all of that is below the region.
  induction visits generalizing above with
  | nil => exact fun m hm => by simp [sheetMoves] at hm
  | cons v vs ih =>
    have hv := h v (by simp)
    intro m hm
    rw [sheetMoves, rowMoves, List.mem_append, List.mem_append, List.mem_singleton] at hm
    rcases hm with (hm | rfl) | hm
    · exact settled_rightMoves (Nat.ne_of_lt hv) m hm
    · exact ⟨region?_down_of_le (Nat.le_of_lt hv), if_neg (Nat.ne_of_lt hv)⟩
    · refine ih (fun w hw => ?_) m hm
      have := h w (List.mem_cons_of_mem _ hw)
      omega

/-- Copies on generated rows do not begin below them. -/
private theorem start_row_offset_le {r : RangeRef} (hrow : 0 < r.start.row) (k : Nat) :
    (r.offset 0 (k : Nat)).start.row ≤ r.start.row + k := by
  refine Nat.le_trans (Nat.mod_le _ _) ?_
  show (max 1 ((r.start.row : Int) + (k : Nat))).toNat ≤ r.start.row + k
  omega

/-- What holds of a region before each row, given the source row where it began and the rows that
were generated so far: the rows that are left to visit keep it inside the sheet. -/
structure Tracked (values : Substitutions) (visits : List RowVisit) (above row : Nat)
    (r : RangeRef) : Prop where
  readable : r.Readable
  ordered : r.Ordered
  start : r.start.row = row + above
  rows : r.stop.row + rowsAbove values visits row ≤ maxRows
  cols : ∀ col ≤ r.start.col, r.stop.col + netAt values visits row col ≤ maxCols

section

variable {pushDownPageBreaks : Bool} {sheetName : String} {above row : Nat} {v : RowVisit}
  {vs : List RowVisit} {r : RangeRef}

/-- A row above a region moves it down by the rows it generates. -/
private theorem leads_rowMoves_of_lt (h : Tracked values (v :: vs) above row r)
    (hv : v.number < row) :
    ∃ r₁ : RangeRef, r.MovedBy r₁ 0 (v.generated values) ∧
      Tracked values vs (above + v.generated values) row r₁ ∧
      ∀ moves r' copies, Leads moves r₁ r' copies →
        Leads (rowMoves values pushDownPageBreaks sheetName above v ++ moves) r r' copies := by
  obtain ⟨hread, hordered, hstart, hrows, hcols⟩ := h
  rw [rowsAbove_cons, if_pos hv] at hrows
  simp only [netAt_cons, if_neg (Nat.ne_of_lt hv), Int.zero_add] at hcols
  have hcol := hread.start.col_pos
  have hcol' := hread.stop.col_le
  obtain ⟨hmoved, hread₁⟩ := RangeRef.movedBy_offset hread hordered 0
    (v.generated values : Nat) (by omega) (by omega) (by omega) (by omega)
  have hstart₁ := hmoved.start
  have hstop₁ := hmoved.stop
  -- The region keeps its distance to the rows that are left, and the bounds that concern them.
  refine ⟨_, hmoved, ⟨hread₁, hmoved.ordered hordered, ?_, ?_, fun col hle => ?_⟩, ?_⟩
  · have := hstart₁.row
    omega
  · have := hstop₁.row
    omega
  · have := hstart₁.col
    have := hstop₁.col
    have := hcols col (by omega)
    omega
  · -- The cells of a row above concern nothing here; only the step below the row does.
    intro moves r' copies hleads
    rw [rowMoves, List.append_assoc]
    exact .of_settled (settled_rightMoves (by omega))
      (.down (by dsimp only; omega) hmoved hread₁ hleads)

/-- Its own row moves a region right and repeats it on the rows it generates. -/
private theorem leads_sheetMoves_of_eq (h : Tracked values (v :: vs) above v.number r)
    (hinc : (v.cells.map CellVisit.col).Pairwise (· < ·)) (hpos : ∀ c ∈ v.cells, 0 < c.col)
    (hlater : ∀ w ∈ vs, v.number < w.number) :
    ∃ r₁ : RangeRef, r.MovedBy r₁ (netLeft values r.start.col v.cells) 0 ∧ r₁.Readable ∧
      Leads (sheetMoves values pushDownPageBreaks sheetName above (v :: vs)) r r₁
        ((List.range' 1 (v.generated values)).map fun k => r₁.offset 0 (k : Nat)) := by
  obtain ⟨hread, hordered, hstart, -, hcols⟩ := h
  -- No later row has the number of this one.
  have hnet : ∀ col, netAt values vs v.number col = 0 := fun col =>
    netAt_eq_zero fun w hw => (Nat.ne_of_lt (hlater w hw)).symm
  simp only [netAt_cons, ↓reduceIte, hnet, Int.add_zero] at hcols
  obtain ⟨r₁, hmoved, hread₁, hleads⟩ := leads_rightMoves 0 0 hinc hpos (by omega)
    hread.start.col_pos hread hordered hstart (by omega) hcols
  have hrow₁ := hmoved.start.row
  refine ⟨r₁, hmoved, hread₁, ?_⟩
  have hcopies : Move.copies (.down {
        anchor := v.number + above, rows := v.generated values
        pushDownPageBreaks, sheetName }) r₁ =
      (List.range' 1 (v.generated values)).map fun k => r₁.offset 0 (k : Nat) :=
    if_pos (by dsimp only; omega)
  rw [sheetMoves, rowMoves, List.append_assoc, ← hcopies, ← List.append_nil (Move.copies _ _)]
  -- The region goes right with the cells, is repeated by its row, and then stays.
  refine hleads _ _ _ (.stay (region?_down_of_le (by dsimp only; omega)) (fun c hc => ?_) ?_)
  · -- A copy begins on one of the generated rows, above all rows that are left.
    rw [hcopies] at hc
    obtain ⟨k, hk, rfl⟩ := List.mem_map.1 hc
    have hk := List.mem_range'_1.1 hk
    have hstart := start_row_offset_le hread₁.start.row_pos k
    refine settled_sheetMoves fun w hw => ?_
    have := hlater w hw
    omega
  · refine leads_of_settled (settled_sheetMoves fun w hw => ?_)
    have := hlater w hw
    omega

end

/-- Where the moves of a pass take a region: down by the rows generated above it, and right by the
columns inserted left of it. They repeat it on every row generated for its own. -/
theorem leads_sheetMoves {pushDownPageBreaks : Bool} {sheetName : String} {above row : Nat}
    {visits : List RowVisit} {r : RangeRef} (hinc : InOrder visits)
    (h : Tracked values visits above row r) :
    ∃ r' : RangeRef,
      r.MovedBy r' (netAt values visits row r.start.col) (rowsAbove values visits row) ∧
      r'.Readable ∧
      Leads (sheetMoves values pushDownPageBreaks sheetName above visits) r r'
        ((List.range' 1 (generatedAt values visits row)).map fun k => r'.offset 0 (k : Nat)) := by
  -- The rows come above the region, then at its first row, then below it.
  induction visits generalizing above r with
  | nil => exact ⟨r, .refl r, h.readable, .nil r⟩
  | cons v vs ih =>
    have hlt := hinc.lt_of_cons
    rw [rowsAbove_cons, netAt_cons, generatedAt_cons]
    rcases Nat.lt_trichotomy v.number row with hv | rfl | hv
    · obtain ⟨r₁, hmoved, htracked, hrow⟩ := leads_rowMoves_of_lt h hv
      obtain ⟨r', hmoved', hread', hleads⟩ := ih hinc.tail htracked
      -- Moving down leaves the column as it was.
      have hcol : r₁.start.col = r.start.col := by
        have := hmoved.start.col
        omega
      rw [if_pos hv, if_neg (Nat.ne_of_lt hv), if_neg (Nat.ne_of_lt hv), Nat.zero_add]
      refine ⟨r', ?_, hread', hrow _ _ _ hleads⟩
      have := hmoved.trans hmoved'
      rwa [hcol, ← Int.natCast_add] at this
    · obtain ⟨r₁, hmoved, hread₁, hleads⟩ := leads_sheetMoves_of_eq h (hinc.columns v (by simp))
        (hinc.positive v (by simp)) hlt
      rw [if_neg (Nat.lt_irrefl _), if_pos rfl, if_pos rfl,
        netAt_eq_zero fun w hw => (Nat.ne_of_lt (hlt w hw)).symm,
        rowsAbove_eq_zero fun w hw => Nat.le_of_lt (hlt w hw),
        generatedAt_eq_zero fun w hw => (Nat.ne_of_lt (hlt w hw)).symm, Int.add_zero]
      exact ⟨r₁, hmoved, hread₁, hleads⟩
    · -- All rows that are left stand below the region.
      have hvs : ∀ w ∈ vs, row < w.number := fun w hw => Nat.lt_trans hv (hlt w hw)
      rw [if_neg (Nat.lt_asymm hv), if_neg (Nat.ne_of_gt hv), if_neg (Nat.ne_of_gt hv),
        netAt_eq_zero fun w hw => (Nat.ne_of_lt (hvs w hw)).symm,
        rowsAbove_eq_zero fun w hw => Nat.le_of_lt (hvs w hw),
        generatedAt_eq_zero fun w hw => (Nat.ne_of_lt (hvs w hw)).symm]
      refine ⟨r, .refl r, h.readable, leads_of_settled (settled_sheetMoves fun w hw => ?_)⟩
      have hstart := h.start
      rcases List.mem_cons.1 hw with rfl | hw
      · omega
      · have := hvs w hw
        omega

/-- A region that a pass keeps inside the sheet at every step. -/
structure StaysInside (values : Substitutions) (visits : List RowVisit) (r : RangeRef) : Prop where
  rows : r.stop.row + rowsAbove values visits r.start.row ≤ maxRows
  cols : ∀ col ≤ r.start.col, r.stop.col + netAt values visits r.start.row col ≤ maxCols

instance (values : Substitutions) (visits : List RowVisit) (r : RangeRef) :
    Decidable (StaysInside values visits r) :=
  decidable_of_iff
    (r.stop.row + rowsAbove values visits r.start.row ≤ maxRows ∧
      ∀ col ≤ r.start.col, r.stop.col + netAt values visits r.start.row col ≤ maxCols)
    ⟨fun h => ⟨h.1, h.2⟩, fun h => ⟨h.1, h.2⟩⟩

/-- Where a pass takes a region. -/
def MovedByPass (values : Substitutions) (visits : List RowVisit) (r r' : RangeRef) : Prop :=
  r.MovedBy r' (netAt values visits r.start.row r.start.col) (rowsAbove values visits r.start.row)

/-- Where the moves of a pass take a region, given that the source is in order. -/
theorem leads_of_increasing (pushDownPageBreaks : Bool) (sheetName : String)
    {first last : StringTable} {source : List Element} {visits : List RowVisit} {r : RangeRef}
    (hinc : Increasing source) (hvisited : Visited first last source visits)
    (hread : r.Readable) (hordered : r.Ordered) (hin : StaysInside values visits r) :
    ∃ r', MovedByPass values visits r r' ∧ r'.Readable ∧
      Leads (sheetMoves values pushDownPageBreaks sheetName 0 visits) r r'
        ((List.range' 1 (generatedAt values visits r.start.row)).map fun k =>
          r'.offset 0 (k : Nat)) :=
  leads_sheetMoves (hvisited.inOrder hinc) ⟨hread, hordered, rfl, hin.rows, hin.cols⟩

end Fill

end SheetTemplate
