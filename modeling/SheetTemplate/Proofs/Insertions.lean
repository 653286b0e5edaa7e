import Mathlib.Data.List.Forall2
import SheetTemplate.Proofs.SheetRun

/-!
# How much is inserted before a row or a cell

The steps of a pass count what was inserted so far. If the source is in order, that is what the
rows above and the cells further left insert, so each row and each cell can be looked at by itself.

## Key results

- `RowsDone.forall₂`, `Spread.forall₂`: every row and every cell by itself
- `lt_add_netLeft`: lists without items do not pull a column beyond the first
-/

namespace SheetTemplate.Fill

open Xml (Element)

/-- What the cells left of a column count in all. -/
def sumLeft (f : CellVisit → Int) (col : Nat) (cells : List CellVisit) : Int :=
  ((cells.filter (·.col < col)).map f).sum

variable (values : Substitutions)

/-! ### Sums over the first visit and the others -/

/-- A sum over the visits on the left takes the first visit if it is one of them. -/
theorem sumLeft_cons (f : CellVisit → Int) (col : Nat) (v : CellVisit) (vs : List CellVisit) :
    sumLeft f col (v :: vs) = (if v.col < col then f v else 0) + sumLeft f col vs := by
  unfold sumLeft
  by_cases h : v.col < col <;> simp [h]

/-- So do the columns inserted on the left. -/
theorem netLeft_cons (col : Nat) (v : CellVisit) (vs : List CellVisit) :
    netLeft values col (v :: vs) =
      (if v.col < col then v.net values else 0) + netLeft values col vs :=
  sumLeft_cons (·.net values) col v vs

/-- So do the rows generated above. -/
theorem rowsAbove_cons (number : Nat) (v : RowVisit) (vs : List RowVisit) :
    rowsAbove values (v :: vs) number =
      (if v.number < number then v.generated values else 0) + rowsAbove values vs number := by
  unfold rowsAbove
  by_cases h : v.number < number <;> simp [h]

/-- The rows generated for a number are those of the visit of this number. -/
theorem generatedAt_cons (number : Nat) (v : RowVisit) (vs : List RowVisit) :
    generatedAt values (v :: vs) number =
      (if v.number = number then v.generated values else 0) + generatedAt values vs number := by
  unfold generatedAt
  by_cases h : v.number = number <;> simp [h]

/-- So are the columns inserted in a row. -/
theorem netAt_cons (number col : Nat) (v : RowVisit) (vs : List RowVisit) :
    netAt values (v :: vs) number col =
      (if v.number = number then netLeft values col v.cells else 0) +
        netAt values vs number col := by
  unfold netAt
  by_cases h : v.number = number <;> simp [h]

variable {values}

/-- Cells further right count nothing. -/
theorem sumLeft_eq_zero (f : CellVisit → Int) {col : Nat} {visits : List CellVisit}
    (h : ∀ v ∈ visits, col ≤ v.col) : sumLeft f col visits = 0 := by
  unfold sumLeft
  rw [List.filter_eq_nil_iff.2 fun v hv => by simpa using h v hv]
  rfl

/-- Cells further right insert nothing. -/
theorem netLeft_eq_zero {col : Nat} {visits : List CellVisit} (h : ∀ v ∈ visits, col ≤ v.col) :
    netLeft values col visits = 0 :=
  sumLeft_eq_zero _ h

/-- Rows that are all further down generate nothing above. -/
theorem rowsAbove_eq_zero {number : Nat} {visits : List RowVisit}
    (h : ∀ v ∈ visits, number ≤ v.number) : rowsAbove values visits number = 0 := by
  unfold rowsAbove
  rw [List.filter_eq_nil_iff.2 fun v hv => by simpa using h v hv]
  rfl

/-- A number without a visit has no rows generated for it. -/
theorem generatedAt_eq_zero {number : Nat} {visits : List RowVisit}
    (h : ∀ v ∈ visits, v.number ≠ number) : generatedAt values visits number = 0 := by
  unfold generatedAt
  rw [List.filter_eq_nil_iff.2 fun v hv => by simpa using h v hv]
  rfl

/-- Nor any columns inserted in its row. -/
theorem netAt_eq_zero {number col : Nat} {visits : List RowVisit}
    (h : ∀ v ∈ visits, v.number ≠ number) : netAt values visits number col = 0 := by
  unfold netAt
  rw [List.filter_eq_nil_iff.2 fun v hv => by simpa using h v hv]
  rfl

/-- What comes before the others comes after none of a list. -/
private theorem le_of_mem_head {α : Type} {place : α → Nat} {v : α} {vs : List α}
    (hlt : ∀ w ∈ vs, place v < place w) : ∀ w ∈ v :: vs, place v ≤ place w :=
  List.forall_mem_cons.2 ⟨Nat.le_refl _, fun w hw => Nat.le_of_lt (hlt w hw)⟩

/-- Nothing is inserted left of the first cell. -/
theorem netLeft_head {v : CellVisit} {vs : List CellVisit} (hlt : ∀ w ∈ vs, v.col < w.col) :
    netLeft values v.col (v :: vs) = 0 :=
  netLeft_eq_zero (le_of_mem_head hlt)

/-- No rows are generated above the first row. -/
theorem rowsAbove_head {v : RowVisit} {vs : List RowVisit} (hlt : ∀ w ∈ vs, v.number < w.number) :
    rowsAbove values (v :: vs) v.number = 0 :=
  rowsAbove_eq_zero (le_of_mem_head hlt)

/-! ### How far lists without items reach -/

/-- A cell takes away no more than itself. -/
theorem neg_one_le_net (values : Substitutions) (v : CellVisit) : -1 ≤ v.net values := by
  unfold CellVisit.net
  split
  · unfold netColumns
    omega
  · omega

section

variable {f : CellVisit → Int} {visits : List CellVisit} {col : Nat}

/-- Cells left of a column count before it all that they count. -/
theorem sumLeft_eq_sum (f : CellVisit → Int) (h : ∀ v ∈ visits, v.col < col) :
    sumLeft f col visits = (visits.map f).sum := by
  unfold sumLeft
  rw [List.filter_eq_self.2 fun v hv => by simpa using h v hv]

variable (hf : ∀ v, -1 ≤ f v) (hinc : (visits.map CellVisit.col).Pairwise (· < ·))

include hf hinc

/-- Cells that take away no more than themselves do not pull a column beyond the first: there is a
column for each of them. -/
theorem lt_add_sumLeft {first : Nat} (hfirst : ∀ v ∈ visits, first < v.col) (hcol : first < col) :
    (first : Int) < col + sumLeft f col visits := by
  -- The bound that carries the induction is the column of the cell before.
  induction visits generalizing first with
  | nil => simpa [sumLeft] using hcol
  | cons v vs ih =>
    obtain ⟨hlater, hrest⟩ := List.pairwise_cons.1 hinc
    rw [sumLeft_cons]
    by_cases hv : v.col < col
    · -- The column of `v` makes up for what `v` takes away.
      have hnext := ih hrest (fun w hw => hlater _ (List.mem_map_of_mem hw)) hv
      have hnet := hf v
      have hbefore := hfirst v (by simp)
      rw [if_pos hv]
      omega
    · have hnext := ih hrest (fun w hw => hfirst w (List.mem_cons_of_mem _ hw)) hcol
      rw [if_neg hv]
      omega

/-- What comes out of a cell stays left of what comes out of the columns further right. -/
theorem add_sumLeft_lt {v : CellVisit} (hv : v ∈ visits) (hcol : v.col < col) :
    (v.col : Int) + sumLeft f v.col visits + f v < col + sumLeft f col visits := by
  induction visits with
  | nil => simp at hv
  | cons w vs ih =>
    obtain ⟨hlater, hrest⟩ := List.pairwise_cons.1 hinc
    have hlt : ∀ u ∈ vs, w.col < u.col := fun u hu => hlater _ (List.mem_map_of_mem hu)
    rw [sumLeft_cons, sumLeft_cons]
    rcases List.mem_cons.1 hv with rfl | hv
    · -- What is left of `col` after the first cell cannot pull it back to that cell.
      have hnext := lt_add_sumLeft hf hrest hlt hcol
      rw [if_neg (Nat.lt_irrefl _), if_pos hcol,
        sumLeft_eq_zero f fun u hu => Nat.le_of_lt (hlt u hu)]
      omega
    · have hnext := ih hrest hv
      have hfirst := hlt v hv
      rw [if_pos hfirst, if_pos (Nat.lt_trans hfirst hcol)]
      omega

end

/-- Lists without items do not pull a column beyond the first. -/
theorem lt_add_netLeft (values : Substitutions) {first col : Nat} {visits : List CellVisit}
    (hinc : (visits.map CellVisit.col).Pairwise (· < ·)) (hfirst : ∀ v ∈ visits, first < v.col)
    (hcol : first < col) : (first : Int) < col + netLeft values col visits :=
  lt_add_sumLeft (neg_one_le_net values) hinc hfirst hcol

/-- Cells left of a column insert before it all that they insert. -/
theorem netLeft_eq_sum {col : Nat} {visits : List CellVisit} (h : ∀ v ∈ visits, v.col < col) :
    netLeft values col visits = (visits.map (·.net values)).sum :=
  sumLeft_eq_sum _ h

/-- What a list takes stays left of what comes out of the columns further right. -/
theorem add_net_lt (values : Substitutions) {col : Nat} {visits : List CellVisit}
    (hinc : (visits.map CellVisit.col).Pairwise (· < ·)) {v : CellVisit} (hv : v ∈ visits)
    (hcol : v.col < col) :
    (v.col : Int) + netLeft values v.col visits + v.net values <
      col + netLeft values col visits :=
  add_sumLeft_lt (neg_one_le_net values) hinc hv hcol

/-- Columns are counted from one. -/
theorem sourceColumns_pos {previous col : Nat} {cells : List Element}
    (h : col ∈ sourceColumns previous cells) : 0 < col := by
  -- Along the cells: a column that is read is not zero, and one that is counted follows another.
  induction cells generalizing previous with
  | nil => simp [sourceColumns] at h
  | cons cell cells ih =>
    simp only [sourceColumns, List.mem_cons] at h
    rcases h with rfl | h
    · unfold Pass.sourceColumn
      cases href : (cell.attr? "r").bind CellRef.parse? with
      | none => exact Nat.succ_pos _
      | some c =>
        obtain ⟨text, -, hparse⟩ := Option.bind_eq_some_iff.1 href
        exact (CellRef.readable_of_parse? hparse).col_pos
    · exact ih h

/-! ### Visits to a source in order -/

/-- Visits to rows from top to bottom, and to the cells of each from left to right. -/
structure InOrder (visits : List RowVisit) : Prop where
  numbers : (visits.map RowVisit.number).Pairwise (· < ·)
  columns : ∀ v ∈ visits, (v.cells.map CellVisit.col).Pairwise (· < ·)
  positive : ∀ v ∈ visits, ∀ c ∈ v.cells, 0 < c.col

/-- In order means that the first row is above all others. -/
theorem InOrder.lt_of_cons {v : RowVisit} {vs : List RowVisit} (h : InOrder (v :: vs)) :
    ∀ w ∈ vs, v.number < w.number := fun _ hw =>
  (List.pairwise_cons.1 h.numbers).1 _ (List.mem_map_of_mem hw)

/-- The others are in order, too. -/
theorem InOrder.tail {v : RowVisit} {vs : List RowVisit} (h : InOrder (v :: vs)) : InOrder vs where
  numbers := (List.pairwise_cons.1 h.numbers).2
  columns w hw := h.columns w (List.mem_cons_of_mem _ hw)
  positive w hw := h.positive w (List.mem_cons_of_mem _ hw)

/-- Columns of visits are counted from one. -/
theorem Visited.col_pos {first last : StringTable} {source : List Element}
    {visits : List RowVisit} (h : Visited first last source visits) :
    ∀ v ∈ visits, ∀ c ∈ v.cells, 0 < c.col := by
  intro v hv c hc
  have hmem : c.col ∈ sourceColumns 0 (v.row.named "c") := by
    rw [← (h.seen v hv).columns]
    exact List.mem_map_of_mem hc
  exact sourceColumns_pos hmem

/-- If the source is in order, so are the visits to it. -/
theorem Visited.inOrder {first last : StringTable} {source : List Element}
    {visits : List RowVisit} (h : Visited first last source visits) (hinc : Increasing source) :
    InOrder visits where
  numbers := by
    rw [h.numbers]
    exact hinc.numbers
  columns v hv := by
    rw [(h.seen v hv).columns]
    refine hinc.columns v.row ?_
    rw [← h.rows]
    exact List.mem_map_of_mem hv
  positive := h.col_pos

/-! ### Every row and every cell by itself -/

/-- Where two lists are compared place by place, the left places are in the left list. -/
theorem forall₂_imp_of_mem {α β : Type} {R S : α → β → Prop} {l : List α} {l' : List β}
    (h : List.Forall₂ R l l') (himp : ∀ a ∈ l, ∀ b, R a b → S a b) : List.Forall₂ S l l' :=
  ((List.forall₂_and_left l l').2 ⟨fun _ ha => ha, h⟩).imp fun a b hab => himp a hab.1 b hab.2

/-- What rows come to one after another, each with what the rows before it generate above it. -/
theorem flatMap_rowsAbove {α : Type} (all : Nat → List RowVisit → List α)
    (each : Nat → RowVisit → List α) (hnil : ∀ above, all above [] = [])
    (hcons : ∀ above v vs,
      all above (v :: vs) = each above v ++ all (above + v.generated values) vs) {above : Nat}
    {visits : List RowVisit} (hinc : (visits.map RowVisit.number).Pairwise (· < ·)) :
    all above visits = visits.flatMap fun v =>
        each (above + rowsAbove values visits v.number) v := by
  induction visits generalizing above with
  | nil => exact hnil above
  | cons v vs ih =>
    obtain ⟨hlater, hrest⟩ := List.pairwise_cons.1 hinc
    have hlt : ∀ w ∈ vs, v.number < w.number := fun w hw => hlater _ (List.mem_map_of_mem hw)
    rw [hcons, ih hrest, List.flatMap_cons, rowsAbove_head hlt, Nat.add_zero]
    congr 1
    refine List.flatMap_congr fun w hw => ?_
    rw [rowsAbove_cons, if_pos (hlt w hw), Nat.add_assoc]

/-- The numbers of all rows fit if those of every row do. -/
theorem rowsFit_iff {above : Nat} {visits : List RowVisit}
    (hinc : (visits.map RowVisit.number).Pairwise (· < ·)) :
    RowsFit values above visits ↔
      ∀ v ∈ visits, RowFits values (above + rowsAbove values visits v.number) v := by
  induction visits generalizing above with
  | nil => simp [RowsFit]
  | cons v vs ih =>
    obtain ⟨hlater, hrest⟩ := List.pairwise_cons.1 hinc
    have hlt : ∀ w ∈ vs, v.number < w.number := fun w hw => hlater _ (List.mem_map_of_mem hw)
    rw [RowsFit, ih hrest, List.forall_mem_cons, rowsAbove_head hlt, Nat.add_zero]
    refine and_congr_right fun _ => forall₂_congr fun w hw => ?_
    rw [rowsAbove_cons, if_pos (hlt w hw), Nat.add_assoc]

/-- Where the numbers of all rows fit, those of one row do. -/
theorem RowsFit.of_mem {visits : List RowVisit} (h : RowsFit values 0 visits)
    (hinc : (visits.map RowVisit.number).Pairwise (· < ·)) {v : RowVisit} (hv : v ∈ visits) :
    RowFits values (rowsAbove values visits v.number) v := by
  have hfits := (rowsFit_iff hinc).1 h v hv
  rwa [Nat.zero_add] at hfits

/-- The numbers of rows inside the sheet limits fit. -/
theorem rowsFit_of_inside {visits : List RowVisit}
    (hinc : (visits.map RowVisit.number).Pairwise (· < ·))
    (h : ∀ v ∈ visits, v.number + rowsAbove values visits v.number + v.generated values ≤ maxRows) :
    RowsFit values 0 visits := by
  refine (rowsFit_iff hinc).2 fun v hv => ?_
  rw [Nat.zero_add]
  exact Nat.le_trans (h v hv) limits_le_max32.2

/-- Each row by itself. -/
theorem RowsDone.forall₂ {strings : StringTable} {copied : Bool} {above : Nat}
    {visits : List RowVisit} {blocks : List (Element × List Element)}
    (h : RowsDone values strings copied above visits blocks)
    (hinc : (visits.map RowVisit.number).Pairwise (· < ·)) :
    List.Forall₂ (fun v b => RowDone values strings copied
      (Text.add32 v.number (above + rowsAbove values visits v.number)) v b) visits blocks := by
  induction h with
  | nil above => exact .nil
  | @cons above v vs block blocks hblock _ ih =>
    obtain ⟨hlater, hrest⟩ := List.pairwise_cons.1 hinc
    have hlt : ∀ w ∈ vs, v.number < w.number := fun w hw => hlater _ (List.mem_map_of_mem hw)
    constructor
    · -- The first row has none of the others above it.
      rw [rowsAbove_head hlt]
      exact hblock
    · -- Every other row has the first one above it.
      apply forall₂_imp_of_mem (ih hrest)
      intro w hw b hdone
      rw [rowsAbove_cons, if_pos (hlt w hw), ← Nat.add_assoc]
      exact hdone

/-- Each row by itself, if the numbers of all rows fit. -/
theorem RowsDone.forall₂_of_fit {strings : StringTable} {copied : Bool} {above : Nat}
    {visits : List RowVisit} {blocks : List (Element × List Element)}
    (h : RowsDone values strings copied above visits blocks)
    (hinc : (visits.map RowVisit.number).Pairwise (· < ·)) (hfit : RowsFit values above visits) :
    List.Forall₂ (fun v b => RowDone values strings copied
      (v.number + (above + rowsAbove values visits v.number)) v b) visits blocks :=
  forall₂_imp_of_mem (h.forall₂ hinc) fun v hv _ hdone =>
    ((rowsFit_iff hinc).1 hfit v hv).number ▸ hdone

/-- Each row of a sheet by itself, if the numbers of all rows fit. -/
theorem SheetRun.forall₂_of_fit {options : FillOptions} {visits : List RowVisit} {p q : Pass}
    {blocks : List (Element × List Element)} (h : SheetRun options values visits p q blocks)
    (hinc : (visits.map RowVisit.number).Pairwise (· < ·)) (hfit : RowsFit values 0 visits) :
    List.Forall₂ (fun v b => RowDone values q.strings options.substituteAllTableRows
      (finishedNumber values visits v) v b) visits blocks := by
  have hdone := h.done.forall₂_of_fit hinc hfit
  simp only [Nat.zero_add] at hdone
  exact hdone

/-- Every cell is placed by itself, the cells to its left counting for the columns only. -/
theorem Spread.forall₂ {strings : StringTable} {number : Nat} {inserted : Int}
    {visits : List CellVisit} {groups : List (List Element)}
    (h : Spread values strings number inserted visits groups)
    (hinc : (visits.map CellVisit.col).Pairwise (· < ·)) :
    List.Forall₂ (fun v group =>
      Placed values strings v (v.target number (inserted + netLeft values v.col visits)) group)
      visits groups := by
  -- Along the cells: those after the first have its columns on their left.
  induction h with
  | nil inserted => exact .nil
  | @cons inserted v vs group groups hgroup _ ih =>
    obtain ⟨hlater, hrest⟩ := List.pairwise_cons.1 hinc
    have hlt : ∀ w ∈ vs, v.col < w.col := fun w hw => hlater _ (List.mem_map_of_mem hw)
    constructor
    · rw [netLeft_head hlt, Int.add_zero]
      exact hgroup
    · apply forall₂_imp_of_mem (ih hrest)
      intro w hw group' hplaced
      rw [netLeft_cons, if_pos (hlt w hw), ← Int.add_assoc]
      exact hplaced

end SheetTemplate.Fill
