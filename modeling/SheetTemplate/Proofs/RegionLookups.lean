import Mathlib.Data.List.Find
import SheetTemplate.Proofs.MergedRegions
import SheetTemplate.Proofs.PrintRanges

/-!
# Merged regions that are looked up while a pass goes on

The merged region that contains a cell is looked up while rows are filled. Rows above have moved the
regions below by then and have repeated their own; the row at hand and the rows below it have not.
Where regions take up one row each and no columns are inserted, only the row of the cell matters: a
cell below the rows that are filled is in the region that contained it before them, moved down, and
no step at or below a cell concerns the region that contains it.

## Key results

- `find?_contains_below`: regions below rows that are filled
- `find?_contains_settled`: regions above rows that are filled
-/

namespace SheetTemplate

open Xml (Element)

/-- A range that stays inside the sheet when it is moved down keeps its text. -/
theorem RangeRef.movedBy_down {r : RangeRef} (h : r.Readable) (rows : Nat)
    (hstart : r.start.row + rows ≤ maxRows) (hstop : r.stop.row + rows ≤ maxRows) :
    r.MovedBy (r.offset 0 rows) 0 rows ∧ (r.offset 0 rows).Readable := by
  have hcol := h.start.col_pos
  have hcol' := h.stop.col_pos
  have hcolLe := h.start.col_le
  have hcolLe' := h.stop.col_le
  have hrow := h.start.row_pos
  have hrow' := h.stop.row_pos
  -- Both cells move down by the rows.
  have hmoved : r.start.MovedBy (r.start.offset 0 rows) 0 rows :=
    CellRef.movedBy_offset _ (by omega) (by omega) (by omega) (by omega)
  have hmoved' : r.stop.MovedBy (r.stop.offset 0 rows) 0 rows :=
    CellRef.movedBy_offset _ (by omega) (by omega) (by omega) (by omega)
  exact ⟨⟨hmoved, hmoved'⟩, hmoved.readable h.start (by omega) (by omega) (by omega) (by omega),
    hmoved'.readable h.stop (by omega) (by omega) (by omega) (by omega), h.colon⟩

namespace Layout

/-! ### The regions of a list of elements -/

/-- Where a region is after a step. -/
def Move.moved (m : Move) (r : RangeRef) : RangeRef := (m.region? r).getD r

/-- One step on regions: all of them move, and the copies come last. -/
def stepRegions (regions : List RangeRef) (m : Move) : List RangeRef :=
  regions.map m.moved ++ regions.flatMap m.copies

/-- All that a step makes of a region can be read again. -/
structure Move.KeepsReadable (m : Move) (r : RangeRef) : Prop where
  moved : ∀ r', m.region? r = some r' → r'.Readable
  copies : ∀ c ∈ m.copies r, c.Readable

/-- The copies of a region are written so that they are read. -/
private theorem filterMap_clones {m : Move} {e : Element} {r : RangeRef}
    (he : refRange? e = some r) (h : m.KeepsReadable r) :
    (m.clones e).filterMap refRange? = m.copies r := by
  rw [clones_eq m he, List.filterMap_map]
  conv_rhs => rw [← List.filterMap_some (l := m.copies r)]
  exact List.filterMap_congr fun c hc => refRange?_setAttr _ (h.copies c hc)

/-- So is the region that has moved. -/
private theorem refRange?_moveRef {m : Move} {e : Element} {r : RangeRef}
    (he : refRange? e = some r) (h : m.KeepsReadable r) :
    refRange? (moveRef m.region? e) = some (m.moved r) := by
  unfold moveRef Move.moved
  rw [he, Option.bind_some]
  cases hmoved : m.region? r with
  | none => exact he
  | some r' => exact refRange?_setAttr e (h.moved r' hmoved)

/-- The regions after a step on the elements that they are written in. -/
theorem filterMap_stepMerges {m : Move} {elements : List Element}
    (h : ∀ r ∈ elements.filterMap refRange?, m.KeepsReadable r) :
    (stepMerges elements m).filterMap refRange? =
      stepRegions (elements.filterMap refRange?) m := by
  unfold stepMerges stepRegions
  rw [List.filterMap_append]
  congr 1
  -- What cannot be read is not moved and has no copies.
  · rw [List.filterMap_map, List.map_filterMap]
    refine List.filterMap_congr fun e he => ?_
    cases hread : refRange? e with
    | none =>
      rw [Function.comp_apply, moveRef_of_none (by rw [hread, Option.bind_none]), hread]
      rfl
    | some r => exact refRange?_moveRef hread (h r (List.mem_filterMap.2 ⟨e, he, hread⟩))
  -- The copies come element by element.
  · induction elements with
    | nil => rfl
    | cons e elements ih =>
      rw [List.flatMap_cons, List.filterMap_append]
      cases hread : refRange? e with
      | none =>
        rw [List.filterMap_cons_none hread] at h ⊢
        rw [ih h, (unmoved_of_none [m] hread m List.mem_cons_self).2]
        rfl
      | some r =>
        rw [List.filterMap_cons_some hread] at h ⊢
        rw [List.flatMap_cons, filterMap_clones hread (h r List.mem_cons_self),
          ih fun r' hr' => h r' (List.mem_cons_of_mem _ hr')]

/-- A step right that inserts no columns changes no regions. -/
theorem stepRegions_right_zero (regions : List RangeRef) (anchor : CellRef) :
    stepRegions regions (.right anchor 0) = regions := by
  have hmoved : Move.moved (.right anchor 0) = id := by
    funext r
    simp [Move.moved, Move.region?, movedRight?]
  have hcopies : Move.copies (.right anchor 0) = fun _ => [] := rfl
  unfold stepRegions
  rw [hmoved, hcopies, List.map_id]
  simp

/-- A move right by no columns writes nothing. -/
theorem keepsReadable_right_zero (anchor : CellRef) (r : RangeRef) :
    (Move.right anchor 0).KeepsReadable r :=
  ⟨fun r' h => by simp [Move.region?, movedRight?] at h, fun c hc => by simp [Move.copies] at hc⟩

end Layout

namespace Fill

open Layout (Move refRange? stepMerges stepRegions filterMap_stepMerges stepRegions_right_zero
  keepsReadable_right_zero region?_down_of_le)

variable {values : Substitutions}

/-! ### One row -/

/-- A region of one row that is inside the sheet together with all copies that are to come, given
the rows that are still to be visited. -/
structure OneRow (values : Substitutions) (visits : List RowVisit) (above : Nat) (r : RangeRef) :
    Prop where
  readable : r.Readable
  single : r.stop.row = r.start.row
  inside : ∃ row, Stands visits above row r.start.row ∧
    r.start.row + rowsAbove values visits row + generatedAt values visits row ≤ maxRows

/-- The step that a row makes last: what is below it moves down. -/
def lastMove (values : Substitutions) (pushDownPageBreaks : Bool) (sheetName : String) (above : Nat)
    (v : RowVisit) : Move :=
  .down {
    anchor := v.number + above, rows := v.generated values, pushDownPageBreaks, sheetName }

section

variable (pushDownPageBreaks : Bool) (sheetName : String) {above : Nat} {v : RowVisit}
  {vs : List RowVisit} {r : RangeRef}

/-- The row at hand moves a region below it. -/
private theorem OneRow.below (h : OneRow values (v :: vs) above r)
    (hlt : ∀ w ∈ vs, v.number < w.number) (hbelow : v.number + above < r.start.row) :
    r.MovedBy ((lastMove values pushDownPageBreaks sheetName above v).moved r) 0
        (v.generated values) ∧
      OneRow values vs (above + v.generated values)
        ((lastMove values pushDownPageBreaks sheetName above v).moved r) := by
  obtain ⟨hread, hsingle, row, hstands, hinside⟩ := h
  have hrow := hstands.anchor_lt_iff.1 hbelow
  rw [rowsAbove_cons, generatedAt_cons, if_pos hrow, if_neg (Nat.ne_of_lt hrow)] at hinside
  obtain ⟨hmoved, hread'⟩ := RangeRef.movedBy_down hread (v.generated values) (by omega) (by omega)
  have hstands' := hstands.step hlt (v.generated values)
  rw [if_pos hrow] at hstands'
  -- The region begins below the row, so it goes down as a whole.
  have heq : (lastMove values pushDownPageBreaks sheetName above v).moved r =
      r.offset 0 (v.generated values) := by
    unfold lastMove Move.moved Move.region?
    dsimp only
    by_cases hzero : v.generated values = 0
    · rw [if_pos hzero]
      rw [hzero] at hmoved ⊢
      exact hmoved.eq_self.symm
    · rw [if_neg hzero, Layout.RowShift.moved?, if_pos hbelow]
      rfl
  rw [heq]
  have hstart := hmoved.start.row
  have hstop := hmoved.stop.row
  have hnow : (r.offset 0 (v.generated values)).start.row = r.start.row + v.generated values := by
    omega
  refine ⟨hmoved, hread', by omega, row, ?_, ?_⟩
  · rwa [hnow]
  · rw [hnow]
    omega

/-- The row at hand leaves a region alone that is not below it. -/
private theorem OneRow.notBelow (h : OneRow values (v :: vs) above r)
    (hlt : ∀ w ∈ vs, v.number < w.number) (hle : r.start.row ≤ v.number + above) :
    (lastMove values pushDownPageBreaks sheetName above v).moved r = r ∧
      OneRow values vs (above + v.generated values) r := by
  obtain ⟨hread, hsingle, row, hstands, hinside⟩ := h
  have hrow : ¬v.number < row := fun hlt => by
    have := hstands.anchor_lt_iff.2 hlt
    omega
  have hstands' := hstands.step hlt (v.generated values)
  rw [if_neg hrow, Nat.add_zero] at hstands'
  rw [rowsAbove_cons, generatedAt_cons, if_neg hrow] at hinside
  refine ⟨?_, hread, hsingle, row, hstands', by omega⟩
  rw [lastMove, Move.moved, region?_down_of_le hle]
  rfl

/-- The row at hand repeats its own regions on the rows that it generates. -/
private theorem OneRow.copy (h : OneRow values (v :: vs) above r)
    (hlt : ∀ w ∈ vs, v.number < w.number) {c : RangeRef}
    (hc : c ∈ (lastMove values pushDownPageBreaks sheetName above v).copies r) :
    OneRow values vs (above + v.generated values) c ∧ v.number + above < c.start.row ∧
      c.start.row ≤ v.number + above + v.generated values := by
  obtain ⟨hread, hsingle, row, hstands, hinside⟩ := h
  unfold lastMove Move.copies at hc
  dsimp only at hc
  split at hc
  · rename_i hstart
    obtain ⟨k, hk, rfl⟩ := List.mem_map.1 hc
    obtain ⟨hk, hk'⟩ := List.mem_range'_1.1 hk
    -- The region begins on the row at hand, so that is its source row.
    have hrow : v.number = row := by
      rcases Nat.lt_trichotomy v.number row with hlt' | heq | hgt
      · have := hstands.anchor_lt_iff.2 hlt'
        omega
      · exact heq
      · have := hstands.le
        omega
    rw [generatedAt_cons, if_pos hrow] at hinside
    obtain ⟨hmoved, hread'⟩ := RangeRef.movedBy_down hread k (by omega) (by omega)
    have hnow := hmoved.start.row
    have hnow' := hmoved.stop.row
    have hnone : rowsAbove values vs v.number = 0 :=
      rowsAbove_eq_zero fun w hw => Nat.le_of_lt (hlt w hw)
    have hnone' : generatedAt values vs v.number = 0 :=
      generatedAt_eq_zero fun w hw => (Nat.ne_of_lt (hlt w hw)).symm
    -- The copy begins below the row, so that no row that is left concerns it.
    refine ⟨⟨hread', by omega, v.number, ⟨by omega, fun w hw hw' => ?_⟩, ?_⟩, by omega, by omega⟩
    · have := hlt w hw
      omega
    · rw [hnone, hnone']
      omega
  · cases hc

/-- A region on one row is readable after the move. -/
private theorem OneRow.keepsReadable (h : OneRow values (v :: vs) above r)
    (hlt : ∀ w ∈ vs, v.number < w.number) :
    (lastMove values pushDownPageBreaks sheetName above v).KeepsReadable r := by
  refine ⟨fun r' hr' => ?_, fun c hc => (h.copy _ _ hlt hc).1.readable⟩
  by_cases hbelow : v.number + above < r.start.row
  · have := (h.below pushDownPageBreaks sheetName hlt
      hbelow).2.readable
    rwa [Move.moved, hr'] at this
  · rw [lastMove, region?_down_of_le (Nat.not_lt.1 hbelow)] at hr'
    cases hr'

/-- So all regions stay on one row each, those that are repeated included. -/
private theorem oneRow_stepRegions {regions : List RangeRef}
    (h : ∀ r ∈ regions, OneRow values (v :: vs) above r) (hlt : ∀ w ∈ vs, v.number < w.number) :
    ∀ r ∈ stepRegions regions (lastMove values pushDownPageBreaks sheetName above v),
      OneRow values vs (above + v.generated values) r := by
  intro r' hr'
  rcases List.mem_append.1 hr' with hr' | hr'
  · obtain ⟨r, hr, rfl⟩ := List.mem_map.1 hr'
    by_cases hbelow : v.number + above < r.start.row
    · exact ((h r hr).below _ _ hlt hbelow).2
    · obtain ⟨hmoved, hrest⟩ := (h r hr).notBelow pushDownPageBreaks sheetName hlt
        (Nat.not_lt.1 hbelow)
      rwa [hmoved]
  · obtain ⟨r, hr, hc⟩ := List.mem_flatMap.1 hr'
    exact ((h r hr).copy _ _ hlt hc).1

/-- A cell below the row at hand is found in the region that contained it before, moved down. -/
private theorem find?_stepRegions_below {regions : List RangeRef} {cell : CellRef}
    (h : ∀ r ∈ regions, OneRow values (v :: vs) above r) (hlt : ∀ w ∈ vs, v.number < w.number)
    (hcell : v.number + above < cell.row) :
    (stepRegions regions (lastMove values pushDownPageBreaks sheetName above v)).find?
        (·.contains (cell.withRow (cell.row + v.generated values))) =
      (regions.find? (·.contains cell)).map
        (lastMove values pushDownPageBreaks sheetName above v).moved := by
  have hmoved : ∀ r ∈ regions,
      ((lastMove values pushDownPageBreaks sheetName above v).moved r).contains
        (cell.withRow (cell.row + v.generated values)) = r.contains cell := by
    intro r hr
    have hsingle := (h r hr).single
    rw [Bool.eq_iff_iff, RangeRef.contains_iff, RangeRef.contains_iff]
    dsimp only [CellRef.withRow]
    -- Below the row all regions move with the cell; the others are on rows above it.
    by_cases hbelow : v.number + above < r.start.row
    · have hmoved := ((h r hr).below pushDownPageBreaks sheetName hlt hbelow).1
      have := hmoved.start.row
      have := hmoved.stop.row
      have := hmoved.start.col
      have := hmoved.stop.col
      omega
    · rw [((h r hr).notBelow _ _ hlt (Nat.not_lt.1 hbelow)).1]
      omega
  -- The copies are on the rows between.
  have hcopies : ∀ c ∈ regions.flatMap
      (lastMove values pushDownPageBreaks sheetName above v).copies,
      ¬c.contains (cell.withRow (cell.row + v.generated values)) = true := by
    intro c hc
    obtain ⟨r, hr, hc⟩ := List.mem_flatMap.1 hc
    obtain ⟨hone, -, hle⟩ := (h r hr).copy _ _ hlt hc
    have hsingle := hone.single
    rw [RangeRef.contains_iff]
    dsimp only [CellRef.withRow]
    omega
  unfold stepRegions
  rw [List.find?_append, List.find?_eq_none.2 hcopies, Option.or_none, List.find?_map]
  congr 1
  exact List.find?_congr hmoved

/-- A cell that is not below the row at hand is found where it was. -/
private theorem find?_stepRegions_settled {regions : List RangeRef} {cell : CellRef}
    (h : ∀ r ∈ regions, OneRow values (v :: vs) above r) (hlt : ∀ w ∈ vs, v.number < w.number)
    (hcell : cell.row ≤ v.number + above) :
    (stepRegions regions (lastMove values pushDownPageBreaks sheetName above v)).find?
      (·.contains cell) = regions.find? (·.contains cell) := by
  -- A region that moves goes from below the cell to further below.
  have hmoved : ∀ r ∈ regions,
      ((lastMove values pushDownPageBreaks sheetName above v).moved r).contains cell =
        r.contains cell := by
    intro r hr
    have hsingle := (h r hr).single
    rw [Bool.eq_iff_iff, RangeRef.contains_iff, RangeRef.contains_iff]
    by_cases hbelow : v.number + above < r.start.row
    · have hmoved := ((h r hr).below pushDownPageBreaks sheetName hlt hbelow).1
      have := hmoved.start.row
      omega
    · rw [((h r hr).notBelow _ _ hlt (Nat.not_lt.1 hbelow)).1]
  -- The copies are below the cell as well.
  have hcopies : ∀ c ∈ regions.flatMap
      (lastMove values pushDownPageBreaks sheetName above v).copies, ¬c.contains cell = true := by
    intro c hc
    obtain ⟨r, hr, hc⟩ := List.mem_flatMap.1 hc
    obtain ⟨-, hgt, -⟩ := (h r hr).copy _ _ hlt hc
    rw [RangeRef.contains_iff]
    omega
  have hsame : regions.find? ((·.contains cell) ∘
      (lastMove values pushDownPageBreaks sheetName above v).moved) =
      regions.find? (·.contains cell) := List.find?_congr hmoved
  unfold stepRegions
  rw [List.find?_append, List.find?_eq_none.2 hcopies, Option.or_none, List.find?_map, hsame]
  cases hfound : regions.find? (·.contains cell) with
  | none => rfl
  | some r =>
    -- The region that contains the cell is not below the row at hand either.
    have hr := List.mem_of_find?_eq_some hfound
    have hcontains := List.find?_some hfound
    have hrow := RangeRef.contains_iff.1 hcontains
    rw [Option.map_some, ((h r hr).notBelow _ _ hlt (by omega)).1]

end

/-! ### Many rows -/

section

variable {pushDownPageBreaks : Bool} {sheetName : String} {above : Nat} {visits : List RowVisit}
  {regions : List RangeRef}

/-- Rows one after another are the moves of all of them. -/
theorem sheetMoves_append (before rest : List RowVisit) :
    sheetMoves values pushDownPageBreaks sheetName above (before ++ rest) =
      sheetMoves values pushDownPageBreaks sheetName above before ++
        sheetMoves values pushDownPageBreaks sheetName
          (above + (before.map (·.generated values)).sum) rest := by
  induction before generalizing above with
  | nil => rfl
  | cons v vs ih =>
    rw [List.cons_append, sheetMoves, sheetMoves, ih, List.append_assoc, List.map_cons,
      List.sum_cons, Nat.add_assoc]

/-- Moves right by no columns concern no region. -/
private theorem foldl_stepRegions_rightMoves {number : Nat} {inserted : Int}
    {cells : List CellVisit} (hcols : ∀ c ∈ cells, c.net values = 0) :
    (rightMoves values number inserted cells).foldl stepRegions regions = regions := by
  induction cells generalizing inserted with
  | nil => rfl
  | cons c cs ih =>
    rw [rightMoves, List.foldl_cons, hcols c List.mem_cons_self, stepRegions_right_zero]
    exact ih fun c' hc' => hcols c' (List.mem_cons_of_mem _ hc')

/-- Without inserted columns, what a row does to regions is its last step. -/
private theorem foldl_stepRegions_cons {v : RowVisit} {vs : List RowVisit}
    (hcols : ∀ c ∈ v.cells, c.net values = 0) :
    (sheetMoves values pushDownPageBreaks sheetName above (v :: vs)).foldl stepRegions regions =
      (sheetMoves values pushDownPageBreaks sheetName (above + v.generated values) vs).foldl
        stepRegions
          (stepRegions regions (lastMove values pushDownPageBreaks sheetName above v)) := by
  rw [sheetMoves, rowMoves, List.foldl_append, List.foldl_append,
    foldl_stepRegions_rightMoves hcols]
  rfl

/-- So they leave the list as it is. -/
private theorem filterMap_rightMoves {number : Nat} {inserted : Int} {cells : List CellVisit}
    (hcols : ∀ c ∈ cells, c.net values = 0) (elements : List Element) :
    ((rightMoves values number inserted cells).foldl stepMerges elements).filterMap refRange? =
      elements.filterMap refRange? := by
  induction cells generalizing inserted elements with
  | nil => rfl
  | cons c cs ih =>
    rw [rightMoves, List.foldl_cons, ih fun c' hc' => hcols c' (List.mem_cons_of_mem _ hc'),
      hcols c List.mem_cons_self, filterMap_stepMerges fun r _ => keepsReadable_right_zero _ r,
      stepRegions_right_zero]

/-- The regions after rows that insert no columns. -/
theorem filterMap_foldl_stepMerges (hinc : (visits.map RowVisit.number).Pairwise (· < ·))
    (hkeeps : KeepsColumns values visits) {elements : List Element}
    (h : ∀ r ∈ elements.filterMap refRange?, OneRow values visits above r) :
    ((sheetMoves values pushDownPageBreaks sheetName above visits).foldl stepMerges
        elements).filterMap refRange? =
      (sheetMoves values pushDownPageBreaks sheetName above visits).foldl stepRegions
        (elements.filterMap refRange?) := by
  -- Row by row: no cell moves right, and then the last move goes down.
  induction visits generalizing above elements with
  | nil => rfl
  | cons v vs ih =>
    have hlt : ∀ w ∈ vs, v.number < w.number := fun w hw =>
      (List.pairwise_cons.1 hinc).1 _ (List.mem_map_of_mem hw)
    have hcols := hkeeps v List.mem_cons_self
    have hright : ((rightMoves values (v.number + above) 0 v.cells).foldl stepMerges
        elements).filterMap refRange? = elements.filterMap refRange? :=
      filterMap_rightMoves hcols elements
    have hstep : (stepMerges ((rightMoves values (v.number + above) 0 v.cells).foldl stepMerges
        elements) (lastMove values pushDownPageBreaks sheetName above v)).filterMap refRange? =
        stepRegions (elements.filterMap refRange?)
          (lastMove values pushDownPageBreaks sheetName above v) := by
      rw [filterMap_stepMerges, hright]
      rw [hright]
      exact fun r hr => (h r hr).keepsReadable _ _ hlt
    rw [foldl_stepRegions_cons hcols, sheetMoves, rowMoves, List.foldl_append, List.foldl_append,
      ← hstep]
    refine ih (List.pairwise_cons.1 hinc).2 (fun w hw => hkeeps w (List.mem_cons_of_mem _ hw)) ?_
    rw [List.foldl_cons, List.foldl_nil]
    show ∀ r ∈ (stepMerges _ (lastMove values pushDownPageBreaks sheetName above v)).filterMap
      refRange?, _
    rw [hstep]
    exact oneRow_stepRegions _ _ h hlt

/-- Rows that are filled leave regions that the rows after them can go on with. -/
theorem oneRow_foldl (pushDownPageBreaks : Bool) (sheetName : String)
    {before rest : List RowVisit}
    (hinc : ((before ++ rest).map RowVisit.number).Pairwise (· < ·))
    (hkeeps : KeepsColumns values before)
    (h : ∀ r ∈ regions, OneRow values (before ++ rest) above r) :
    ∀ r ∈ (sheetMoves values pushDownPageBreaks sheetName above before).foldl stepRegions regions,
      OneRow values rest (above + (before.map (·.generated values)).sum) r := by
  induction before generalizing above regions with
  | nil => exact h
  | cons v vs ih =>
    have hlt : ∀ w ∈ vs ++ rest, v.number < w.number := fun w hw =>
      (List.pairwise_cons.1 hinc).1 _ (List.mem_map_of_mem hw)
    rw [foldl_stepRegions_cons (hkeeps v List.mem_cons_self), List.map_cons, List.sum_cons,
      ← Nat.add_assoc]
    exact ih (List.pairwise_cons.1 hinc).2 (fun w hw => hkeeps w (List.mem_cons_of_mem _ hw))
      (oneRow_stepRegions _ _ h hlt)

/-- A cell below rows that are filled is found in the region that contained it before them, moved
down by the rows that they generate. -/
theorem find?_contains_below (pushDownPageBreaks : Bool) (sheetName : String)
    {before rest : List RowVisit} {number : Nat} {cell : CellRef}
    (hinc : ((before ++ rest).map RowVisit.number).Pairwise (· < ·))
    (hkeeps : KeepsColumns values before)
    (h : ∀ r ∈ regions, OneRow values (before ++ rest) above r)
    (hnumber : ∀ v ∈ before, v.number < number) (hcell : cell.row = number + above) :
    Option.Rel (fun r r' => r.MovedBy r' 0 ((before.map (·.generated values)).sum : Nat))
      (regions.find? (·.contains cell))
      (((sheetMoves values pushDownPageBreaks sheetName above before).foldl stepRegions
        regions).find? (·.contains
          (cell.withRow (cell.row + (before.map (·.generated values)).sum)))) := by
  -- Each row moves the cell down with the region that contains it.
  induction before generalizing above regions cell with
  | nil =>
    rw [List.map_nil, List.sum_nil, Nat.add_zero]
    show Option.Rel _ (regions.find? (·.contains cell)) (regions.find? (·.contains cell))
    cases regions.find? (·.contains cell) with
    | none => exact .none
    | some r => exact .some (.refl r)
  | cons v vs ih =>
    have hlt : ∀ w ∈ vs ++ rest, v.number < w.number := fun w hw =>
      (List.pairwise_cons.1 hinc).1 _ (List.mem_map_of_mem hw)
    have hbelow : v.number + above < cell.row := by
      have := hnumber v List.mem_cons_self
      omega
    have hfirst := find?_stepRegions_below pushDownPageBreaks sheetName h hlt hbelow
    have hothers : Option.Rel (fun r r' => r.MovedBy r' 0 ((vs.map (·.generated values)).sum : Nat))
        ((stepRegions regions (lastMove values pushDownPageBreaks sheetName above v)).find?
          (·.contains (cell.withRow (cell.row + v.generated values))))
        (((sheetMoves values pushDownPageBreaks sheetName (above + v.generated values) vs).foldl
          stepRegions (stepRegions regions
            (lastMove values pushDownPageBreaks sheetName above v))).find? (·.contains
              (cell.withRow (cell.row + v.generated values +
                (vs.map (·.generated values)).sum)))) :=
      ih (List.pairwise_cons.1 hinc).2 (fun w hw => hkeeps w (List.mem_cons_of_mem _ hw))
        (oneRow_stepRegions pushDownPageBreaks sheetName h hlt)
        (fun w hw => hnumber w (List.mem_cons_of_mem _ hw))
        (show cell.row + v.generated values = number + (above + v.generated values) by omega)
    rw [hfirst] at hothers
    rw [foldl_stepRegions_cons (hkeeps v List.mem_cons_self), List.map_cons, List.sum_cons,
      ← Nat.add_assoc]
    generalize ((sheetMoves values pushDownPageBreaks sheetName (above + v.generated values)
      vs).foldl stepRegions _).find? _ = found at hothers ⊢
    -- The row finds the region that contained the cell before it, moved.
    cases hfound : regions.find? (·.contains cell) with
    | none =>
      rw [hfound, Option.map_none] at hothers
      cases hothers
      exact .none
    | some r =>
      rw [hfound, Option.map_some] at hothers
      have hr := List.mem_of_find?_eq_some hfound
      have hcontains := List.find?_some hfound
      have hrow := RangeRef.contains_iff.1 hcontains
      have hsingle := (h r hr).single
      have hmoved := ((h r hr).below pushDownPageBreaks sheetName hlt (by omega)).1
      cases hothers with
      | some hmoved' =>
        refine .some ?_
        have := hmoved.trans hmoved'
        rwa [Int.add_zero, ← Int.natCast_add] at this

/-- A cell that is not below the rows to come is found where it is now. -/
theorem find?_contains_settled {cell : CellRef}
    (hinc : (visits.map RowVisit.number).Pairwise (· < ·)) (hkeeps : KeepsColumns values visits)
    (h : ∀ r ∈ regions, OneRow values visits above r)
    (hcell : ∀ v ∈ visits, cell.row ≤ v.number + above) :
    ((sheetMoves values pushDownPageBreaks sheetName above visits).foldl stepRegions
      regions).find? (·.contains cell) = regions.find? (·.contains cell) := by
  -- Each row is at the cell or below it.
  induction visits generalizing above regions with
  | nil => rfl
  | cons v vs ih =>
    have hlt : ∀ w ∈ vs, v.number < w.number := fun w hw =>
      (List.pairwise_cons.1 hinc).1 _ (List.mem_map_of_mem hw)
    rw [foldl_stepRegions_cons (hkeeps v List.mem_cons_self),
      ih (List.pairwise_cons.1 hinc).2 (fun w hw => hkeeps w (List.mem_cons_of_mem _ hw))
        (oneRow_stepRegions _ _ h hlt) fun w hw => ?_]
    · exact find?_stepRegions_settled _ _ h hlt (hcell v List.mem_cons_self)
    · have := hcell w (List.mem_cons_of_mem _ hw)
      omega

end

end Fill

end SheetTemplate
