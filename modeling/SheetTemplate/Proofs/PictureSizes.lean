import SheetTemplate.Proofs.PicturePlaces
import SheetTemplate.Proofs.RegionLookups
import SheetTemplate.Proofs.RowNumbers

/-!
# Sizes of pictures

The size of a picture is settled when it is put into the drawing: it fits the merged region that
contains its cell by then, or is the natural one at a ratio. The row at hand has not repeated its
regions yet, and the rows below it still have their source numbers. So a picture on the row itself
gets the size that the finished sheet asks for. A picture of a later element, on a row that is
generated, gets the size that fits the source sheet as many rows further down, where another row
stands or none.

## Key results

- `pictureExtent_eq_extentAt`: when the size in a state of a pass is the size on a sheet
- `pictures_sized`: the sizes of all pictures that a pass adds
- `picture_of_later_element`: the regions of generated rows come too late for their pictures
-/

namespace SheetTemplate

open Decimal (Double)
open Layout (mergeContaining? mergedRegions mergeCells stepRegions refRange? readable_of_refRange?)
open Xml (Element Node)

/-! ### Sizes on a sheet -/

/-- Two regions of one row each that take up the same columns. -/
structure Alongside (row row' : Nat) (r r' : RangeRef) : Prop where
  firstCol : r'.start.col = r.start.col
  lastCol : r'.stop.col = r.stop.col
  firstRow : r.start.row = row
  lastRow : r.stop.row = row
  firstRow' : r'.start.row = row'
  lastRow' : r'.stop.row = row'

/-- To fit a region of one row, only the height of that row counts. -/
theorem Image.fit_alongside {row row' : Nat} {r r' : RangeRef} (h : Alongside row row' r r')
    (extent : Image.Extent) (width : Nat → Float) {height height' : Nat → Float}
    (hheight : height' row' = height row) :
    Image.fit extent r' width height' = Image.fit extent r width height := by
  -- The sum over one row is that of its height.
  have htotal : (Image.total row' row' fun r => Image.ofRowHeight (height' r)) =
      Image.total row row fun r => Image.ofRowHeight (height r) := by
    simp [Image.total, hheight]
  unfold Image.fit
  rw [h.firstCol, h.lastCol, h.firstRow, h.lastRow, h.firstRow', h.lastRow', htotal]

namespace Worksheet

/-- The height in points of the row with a number: the one it declares, or the one of all rows that
declare none. -/
def heightAt (w : Worksheet) (row : Nat) : Double :=
  ((Fill.declaredHeights (Fill.sourceRows w.doc.root)).lookup row).getD w.defaultRowHeight

/-- The size of a picture at a cell: it fits the merged region that contains the cell, or is the
natural size at a ratio. -/
def extentAt (w : Worksheet) (ratio : Int) (cell : CellRef) (picture : Image.Picture) :
    Image.Extent :=
  match mergeContaining? w.doc.root cell with
  | some region =>
    Image.fit (picture.extent 100) region (fun col => (w.columnWidth col).toFloat)
      fun row => (w.heightAt row).toFloat
  | none => picture.extent ratio

/-- The elements of a sheet that give its measures. -/
structure SameMeasures (w w' : Worksheet) : Prop where
  cols : w'.doc.root.child? "cols" = w.doc.root.child? "cols"
  format : w'.doc.root.child? "sheetFormatPr" = w.doc.root.child? "sheetFormatPr"

/-- The width of a column is the same on both sheets. -/
theorem SameMeasures.columnWidth {w w' : Worksheet} (h : SameMeasures w w') (col : Nat) :
    w'.columnWidth col = w.columnWidth col := by
  unfold Worksheet.columnWidth formatNumber?
  rw [h.cols, h.format]

/-- So is the height of a row that says none. -/
theorem SameMeasures.defaultRowHeight {w w' : Worksheet} (h : SameMeasures w w') :
    w'.defaultRowHeight = w.defaultRowHeight := by
  unfold Worksheet.defaultRowHeight formatNumber?
  rw [h.format]

end Worksheet

namespace Fill

open Worksheet (SameMeasures rowHeight?)

variable {values : Substitutions}

/-! ### Heights -/

/-- The number that a row names. -/
def namedNumber? (row : Element) : Option Nat := (row.attr? "r").bind Text.natural32?

/-- The height that rows declare for a number, if all rows of that number declare the same. -/
private theorem lookup_heights {rows : List Element} {number : Nat} {height : Option Double}
    (h : ∀ e ∈ rows, namedNumber? e = some number → rowHeight? e = height)
    (hsome : height = none ∨ ∃ e ∈ rows, namedNumber? e = some number) :
    (rows.filterMap fun row => do
      let number ← (row.attr? "r").bind Text.natural32?
      let height ← rowHeight? row
      return (number, height)).lookup number = height := by
  -- Along the rows: the first one with the number that says a height decides.
  induction rows with
  | nil =>
    rcases hsome with rfl | ⟨e, he, -⟩
    · rfl
    · cases he
  | cons row rows ih =>
    have hrest := ih fun e he => h e (List.mem_cons_of_mem _ he)
    -- What is left to find may be further on, unless the first row has the number.
    have htail : namedNumber? row ≠ some number →
        height = none ∨ ∃ e ∈ rows, namedNumber? e = some number := by
      intro hne
      rcases hsome with hnone | ⟨e, he, hnumber⟩
      · exact .inl hnone
      · rcases List.mem_cons.1 he with rfl | he
        · exact absurd hnumber hne
        · exact .inr ⟨e, he, hnumber⟩
    cases hnumber : (row.attr? "r").bind Text.natural32? with
    | none =>
      rw [List.filterMap_cons_none (by rw [hnumber]; rfl)]
      exact hrest (htail (by simp [namedNumber?, hnumber]))
    | some n =>
      cases hheight : rowHeight? row with
      | none =>
        rw [List.filterMap_cons_none (by rw [hnumber, hheight]; rfl)]
        by_cases hn : n = number
        · subst hn
          exact hrest (.inl ((h row List.mem_cons_self hnumber).symm.trans hheight))
        · exact hrest (htail (by simp [namedNumber?, hnumber, hn]))
      | some x =>
        rw [List.filterMap_cons_some (by rw [hnumber, hheight]; rfl), List.lookup_cons]
        by_cases hn : n = number
        · subst hn
          rw [beq_self_eq_true]
          exact hheight.symm.trans (h row List.mem_cons_self hnumber)
        · rw [beq_false_of_ne (Ne.symm hn)]
          exact hrest (htail (by simp [namedNumber?, hnumber, hn]))

/-- The height of a row whose number no row with another height has. -/
theorem heightAt_eq {w : Worksheet} {row : Element} {number : Nat}
    (hrow : row ∈ sourceRows w.doc.root) (hnumber : namedNumber? row = some number)
    (hsame : ∀ e ∈ sourceRows w.doc.root, namedNumber? e = some number →
      rowHeight? e = rowHeight? row) :
    w.heightAt number = (rowHeight? row).getD w.defaultRowHeight := by
  unfold Worksheet.heightAt declaredHeights
  rw [← List.filterMap_reverse]
  congr 1
  exact lookup_heights (fun e he => hsame e (List.mem_reverse.1 he))
    (.inr ⟨row, List.mem_reverse.2 hrow, hnumber⟩)

/-! ### The size in a state of a pass -/

namespace Pass

/-- A pass gives a picture the size that fits a sheet, if both have the same region there. -/
theorem pictureExtent_eq_extentAt {given : Given} {m : Pass} {w : Worksheet} {cell cell' : CellRef}
    (hregion : Option.Rel (Alongside cell'.row cell.row) (mergeContaining? w.doc.root cell')
      (mergeContaining? m.sheet.doc.root cell))
    (hmeasures : SameMeasures w m.sheet)
    (hheight : cell.row ≤ maxRows → m.rowHeight given cell.row = w.heightAt cell'.row)
    (picture : Image.Picture) :
    m.pictureExtent given cell picture = w.extentAt given.options.ratio cell' picture := by
  unfold pictureExtent Worksheet.extentAt
  have hwidth : (fun col => (m.sheet.columnWidth col).toFloat) =
      fun col => (w.columnWidth col).toFloat := by
    funext col
    rw [hmeasures.columnWidth]
  -- Either both cells are in regions that are as large as each other, or neither is in one.
  cases hfound : mergeContaining? m.sheet.doc.root cell with
  | none =>
    rw [hfound] at hregion
    generalize mergeContaining? w.doc.root cell' = found at hregion ⊢
    cases hregion
    rfl
  | some r' =>
    -- A region that can be read is inside the sheet.
    have hmem : r' ∈ mergedRegions m.sheet.doc.root := List.mem_of_find?_eq_some hfound
    rw [Layout.mergedRegions_eq] at hmem
    obtain ⟨e, -, hread⟩ := List.mem_filterMap.1 hmem
    have hinside := (readable_of_refRange? hread).start.row_le
    rw [hfound] at hregion
    generalize mergeContaining? w.doc.root cell' = found at hregion ⊢
    cases hregion with
    | some halong =>
      dsimp only
      rw [halong.firstRow'] at hinside
      rw [hwidth]
      exact Image.fit_alongside halong _ _ (by rw [hheight hinside])

/-- The size of a picture does not change with steps that move nothing. -/
theorem Still.pictureExtent_eq {given : Given} {m m' : Pass} (h : m.Still m') (cell : CellRef)
    (picture : Image.Picture) :
    m'.pictureExtent given cell picture = m.pictureExtent given cell picture := by
  have hmeasures : SameMeasures m.sheet m'.sheet := ⟨h.child _ (by decide), h.child _ (by decide)⟩
  have hregion : mergeContaining? m'.sheet.doc.root cell =
      mergeContaining? m.sheet.doc.root cell := by
    unfold mergeContaining? mergedRegions
    rw [h.child _ (by decide)]
  have hheight : ∀ row, m'.rowHeight given row = m.rowHeight given row := by
    intro row
    unfold rowHeight
    rw [h.rows, h.rowsInserted, hmeasures.defaultRowHeight]
  unfold pictureExtent
  simp only [hregion, hmeasures.columnWidth, hheight]

/-- While a row is filled, nothing moves if no columns are inserted. -/
theorem InRow.toStill {cells : List CellVisit} {m m' : Pass} (h : InRow values cells m m')
    (hnet : ∀ c ∈ cells, c.net values = 0) : m.Still m' := by
  induction h with
  | refl => exact .refl m
  | still _ hstill ih => exact ih.trans hstill
  | right _ hc cell ih =>
    rw [hnet _ hc, shiftRight_zero]
    exact ih

end Pass

/-! ### Rows that are done -/

/-- The number read from a row is the one written on it. -/
theorem eq_of_namedNumber? {row : Element} {n number : Nat}
    (hattr : row.attr? "r" = some (toString n)) (h : namedNumber? row = some number) :
    number = n := by
  rw [namedNumber?, hattr, Option.bind_some, Text.natural32?, Text.toList_toString] at h
  exact Text.eq_of_natural?_numeral h

/-- A number within the limits is read. -/
theorem namedNumber?_of_attr? {row : Element} {n : Nat} (hattr : row.attr? "r" = some (toString n))
    (h : n ≤ Text.max32) : namedNumber? row = some n := by
  rw [namedNumber?, hattr, Option.bind_some, Text.natural32?, Text.toList_toString]
  exact Text.natural?_numeral h

/-- The rows that come out of a row have the numbers from its own on, if these fit, and all have its
height. -/
private theorem attr?_of_mem_block {strings : StringTable} {copied : Bool} {number : Nat}
    {v : RowVisit} {block : Element × List Element}
    (h : RowDone values strings copied number v block)
    (hfit : number + v.generated values ≤ Text.max32) {e : Element}
    (he : e ∈ block.1 :: block.2) :
    (∃ n, e.attr? "r" = some (toString n) ∧ number ≤ n ∧ n ≤ number + v.generated values) ∧
      rowHeight? e = rowHeight? v.row := by
  unfold rowHeight?
  rcases List.mem_cons.1 he with rfl | he
  · have hnew := h.renumbered
    refine ⟨⟨_, hnew.number, Nat.le_refl _, Nat.le_add_right _ _⟩, ?_⟩
    rw [hnew.attr _ (by decide) (by decide)]
  · obtain ⟨k, hk, rfl⟩ := List.getElem_of_mem he
    obtain ⟨hlength, hnew⟩ := h.getElem? hfit (List.getElem?_eq_getElem hk)
    refine ⟨⟨_, hnew.number, by omega, by omega⟩, ?_⟩
    rw [hnew.attr _ (by decide) (by decide), bareRow, Element.attr?_removeElements,
      Element.attr?_setAttr_of_ne _ (by decide)]

/-- All rows above are counted if all rows are above. -/
theorem rowsAbove_eq_sum {visits : List RowVisit} {number : Nat}
    (h : ∀ v ∈ visits, v.number < number) :
    rowsAbove values visits number = (visits.map (·.generated values)).sum := by
  unfold rowsAbove
  rw [List.filter_eq_self.2 fun v hv => by simpa using h v hv]

namespace Pass

/-- While a row is filled, no row from its own number on is done. -/
private theorem rowHeight_of_rowsRun {given : Given} {source : List Element}
    {before : List RowVisit} {p m : Pass} {blocks : List (Element × List Element)}
    (hrun : RowsRun given 0 0 source before p m blocks) (hrows : p.rows = #[])
    (hfit : RowsFit given.values 0 before) (hinc : (before.map RowVisit.number).Pairwise (· < ·))
    {number row : Nat} (hbefore : ∀ w ∈ before, w.number < number)
    (hrow : number + m.rowsInserted ≤ row) :
    m.rowHeight given row =
      (given.heights.lookup (row - m.rowsInserted)).getD m.sheet.defaultRowHeight := by
  have hinserted := hrun.rowsInserted_of_fit hfit
  rw [← rowsAbove_eq_sum hbefore] at hinserted
  -- None of the finished rows has the number: they all stand above.
  have hnone : m.rows.toList.reverse.find? (fun e =>
      (e.attr? "r").bind Text.natural32? == some row) = none := by
    refine List.find?_eq_none.2 fun e he hfound => ?_
    rw [List.mem_reverse, hrun.rows, hrows, List.nil_append, List.mem_flatMap] at he
    obtain ⟨block, hblock, he⟩ := he
    obtain ⟨w, hw, hwdone⟩ := exists_left_of_mem (hrun.done.forall₂_of_fit hinc hfit) hblock
    have hroom : w.number + (0 + rowsAbove given.values before w.number) + _ ≤ _ :=
      (rowsFit_iff hinc).1 hfit w hw
    obtain ⟨⟨n, hattr, -, hn⟩, -⟩ := attr?_of_mem_block hwdone hroom he
    have heq := eq_of_namedNumber? hattr (beq_iff_eq.1 hfound)
    have hbelow := rowsAbove_add_generated_le given.values hw (hbefore w hw)
    have := hbefore w hw
    omega
  unfold rowHeight
  dsimp only
  rw [hnone]
  dsimp only
  rw [if_pos (by omega)]

end Pass

/-! ### Regions in a state of a pass -/

/-- A merged region of one row that stays inside the sheet together with its copies. -/
structure SingleRow (values : Substitutions) (visits : List RowVisit) (r : RangeRef) : Prop where
  single : r.stop.row = r.start.row
  inside : r.start.row + rowsAbove values visits r.start.row +
    generatedAt values visits r.start.row ≤ maxRows

instance (values : Substitutions) (visits : List RowVisit) (r : RangeRef) :
    Decidable (SingleRow values visits r) :=
  decidable_of_iff
    (r.stop.row = r.start.row ∧ r.start.row + rowsAbove values visits r.start.row +
      generatedAt values visits r.start.row ≤ maxRows)
    ⟨fun h => ⟨h.1, h.2⟩, fun h => ⟨h.1, h.2⟩⟩

/-- A region on one row is so at the start of the pass. -/
private theorem oneRow_of_singleRow {sheet : Element} {visits : List RowVisit}
    (h : ∀ r ∈ mergedRegions sheet, SingleRow values visits r) :
    ∀ r ∈ mergedRegions sheet, OneRow values visits 0 r := by
  intro r hr
  have hread := hr
  rw [Layout.mergedRegions_eq] at hread
  obtain ⟨e, -, hread⟩ := List.mem_filterMap.1 hread
  exact ⟨readable_of_refRange? hread, (h r hr).single, r.start.row, .source visits _,
    (h r hr).inside⟩

/-- The merged regions of a sheet after rows that insert no columns. -/
private theorem mergedRegions_of_merges {sheet sheet' : Element} {pushDownPageBreaks : Bool}
    {sheetName : String} {visits : List RowVisit}
    (hinc : (visits.map RowVisit.number).Pairwise (· < ·)) (hkeeps : KeepsColumns values visits)
    (hone : ∀ r ∈ mergedRegions sheet, OneRow values visits 0 r)
    (h : sheet'.child? "mergeCells" = (sheet.child? "mergeCells").map fun e =>
      (sheetMoves values pushDownPageBreaks sheetName 0 visits).foldl (fun e m => m.merges e) e) :
    mergedRegions sheet' =
      (sheetMoves values pushDownPageBreaks sheetName 0 visits).foldl stepRegions
        (mergedRegions sheet) := by
  rw [Layout.mergedRegions_eq] at hone ⊢
  rw [Layout.mergeCells_eq_foldl h, filterMap_foldl_stepMerges hinc hkeeps hone,
    Layout.mergedRegions_eq]

/-- A region that contains a cell takes up its row and no other. -/
private theorem alongside_of_movedBy {r r' : RangeRef} {rows : Nat} {cell : CellRef}
    (hsingle : r.stop.row = r.start.row) (hcontains : r.contains cell = true)
    (hmoved : r.MovedBy r' 0 rows) : Alongside cell.row (cell.row + rows) r r' := by
  obtain ⟨hfirst, hlast, -, -⟩ := RangeRef.contains_iff.1 hcontains
  have := hmoved.start.row
  have := hmoved.stop.row
  have := hmoved.start.col
  have := hmoved.stop.col
  exact ⟨by omega, by omega, by omega, by omega, by omega, by omega⟩

/-! ### A pass -/

/-- The pictures that a pass adds, each with the row that asks for it. -/
def addedPictures (options : FillOptions) (files : ImageFiles) (values : Substitutions)
    (visits : List RowVisit) : List (RowVisit × CellRef × Value) :=
  visits.flatMap fun v => (readablePictures files options.imageRoot
    (v.pictures values (rowsAbove values visits v.number))).map (v, ·)

/-- The pictures row by row, each with the rows generated above it. -/
private theorem readablePlaces_eq {files : ImageFiles} {root : Option String} {above : Nat}
    {visits : List RowVisit} (hinc : (visits.map RowVisit.number).Pairwise (· < ·)) :
    readablePlaces files root values above visits = visits.flatMap fun v =>
      (readablePictures files root
        (v.pictures values (above + rowsAbove values visits v.number))).map (v, ·) :=
  flatMap_rowsAbove (readablePlaces files root values)
    (fun above v => (readablePictures files root (v.pictures values above)).map (v, ·))
    (fun _ => rfl) (fun _ _ _ => rfl) hinc

/-- A picture that a row asks for, as the pass has put it into the drawing. It has the size that
fits the source sheet, on the row from which the rows generated above have moved it. On a row that
names its number it has the size that fits the finished sheet, unless it is for a later element. -/
structure Sized (options : FillOptions) (files : ImageFiles) (values : Substitutions) (p q : Pass)
    (visits : List RowVisit) (place : RowVisit × CellRef × Value) (n : Node) : Prop where
  source : 0 < place.2.1.row → IsPictureOf files options.imageRoot
    (p.sheet.extentAt options.ratio
      (place.2.1.withRow (place.2.1.row - rowsAbove values visits place.1.number))) place.2 n
  finished : 0 < place.2.1.row → (namedNumber? place.1.row).isSome = true →
    place.2.1.row = finishedNumber values visits place.1 →
    IsPictureOf files options.imageRoot (q.sheet.extentAt options.ratio place.2.1) place.2 n

/-- What is known in the state in which a row is filled, as far as sizes depend on it. -/
private structure AtRow (options : FillOptions) (values : Substitutions) (given : Given)
    (p m : Pass) (before : List RowVisit) (v : RowVisit) : Prop where
  measures : SameMeasures p.sheet m.sheet
  inserted : m.rowsInserted = (before.map (·.generated values)).sum
  regions : mergedRegions m.sheet.doc.root =
    (sheetMoves values options.pushDownPageBreaks p.sheet.name 0 before).foldl stepRegions
      (mergedRegions p.sheet.doc.root)
  height : ∀ row, v.number + m.rowsInserted ≤ row →
    m.rowHeight given row = p.sheet.heightAt (row - m.rowsInserted)

section

variable {options : FillOptions} {files : ImageFiles} {p q : Pass}

/-- The state in which a row is filled, as the rows before it leave it. -/
private theorem atRow_of_fillSourceRows {m : Pass} {rows : List Element} {v : RowVisit}
    {after : List RowVisit} (hp : p.Fresh)
    (hfill : Pass.fillSourceRows (p.givenFor options files values) 0 p.withoutRows rows = .ok m)
    (hinc : ((Pass.visitRows (p.givenFor options files values) 0 p.withoutRows rows ++
      v :: after).map RowVisit.number).Pairwise (· < ·))
    (hfit : RowsFit values 0
      (Pass.visitRows (p.givenFor options files values) 0 p.withoutRows rows ++ v :: after))
    (hkeeps : KeepsColumns values
      (Pass.visitRows (p.givenFor options files values) 0 p.withoutRows rows ++ v :: after))
    (hone : ∀ r ∈ mergedRegions p.sheet.doc.root, OneRow values
      (Pass.visitRows (p.givenFor options files values) 0 p.withoutRows rows ++ v :: after) 0 r) :
    AtRow options values (p.givenFor options files values) p m
      (Pass.visitRows (p.givenFor options files values) 0 p.withoutRows rows) v := by
  -- All that the rows before did is moves of the sheet, and they are known.
  obtain ⟨blocks, hrun⟩ := Pass.rowsRun_of_fillSourceRows hfill
    (show p.withoutRows.rowsInserted = Text.low32 0 from hp.rowsInserted)
  generalize Pass.visitRows (p.givenFor options files values) 0 p.withoutRows rows = before
    at hinc hfit hkeeps hone hrun ⊢
  have hfit : RowsFit values 0 before := hfit.of_append
  obtain ⟨hmoved, -⟩ := hrun.outcome hfit
  have hothers : ∀ n, n ≠ "sheetData" →
      p.withoutRows.sheet.doc.root.child? n = p.sheet.doc.root.child? n := fun n hn =>
    Element.child?_mapChild_of_ne _ Element.name_removeElements hn
  have hmeasures : SameMeasures p.sheet m.sheet :=
    ⟨(hmoved.others _ (by decide) (by decide) (by decide)).trans (hothers _ (by decide)),
      (hmoved.others _ (by decide) (by decide) (by decide)).trans (hothers _ (by decide))⟩
  rw [List.map_append, List.pairwise_append] at hinc
  obtain ⟨hbefore, -, hcross⟩ := hinc
  have hbelow : ∀ w ∈ before, w.number < v.number := fun w hw =>
    hcross _ (List.mem_map_of_mem hw) _ (List.mem_map_of_mem List.mem_cons_self)
  have hmerges := hmoved.merges
  rw [hothers _ (by decide)] at hmerges
  refine ⟨hmeasures, hrun.rowsInserted_of_fit hfit, ?_, fun row hrow => ?_⟩
  · refine mergedRegions_of_merges hbefore (fun w hw => hkeeps w (List.mem_append_left _ hw))
      (fun r hr => ?_) hmerges
    -- The copies that are to come are fewer if only the rows above are left to visit.
    obtain ⟨hread, hsingle, row, hstands, hinside⟩ := hone r hr
    refine ⟨hread, hsingle, row, ⟨hstands.le, fun w hw hlt =>
      hstands.eq w (List.mem_append_left _ hw) hlt⟩, ?_⟩
    simp only [rowsAbove, generatedAt, List.filter_append, List.map_append,
      List.sum_append] at hinside ⊢
    omega
  · rw [Pass.rowHeight_of_rowsRun hrun hp.rows hfit hbefore hbelow hrow, Worksheet.heightAt,
      hmeasures.defaultRowHeight]
    rfl

/-- The rows that are inserted by then are those generated above. -/
private theorem AtRow.rowsAbove_eq {given : Given} {m : Pass} {before after : List RowVisit}
    {v : RowVisit} (h : AtRow options values given p m before v)
    (hinc : ((before ++ v :: after).map RowVisit.number).Pairwise (· < ·)) :
    rowsAbove values (before ++ v :: after) v.number = m.rowsInserted := by
  rw [List.map_append, List.pairwise_append] at hinc
  obtain ⟨-, hfrom, hcross⟩ := hinc
  have hnone : rowsAbove values (v :: after) v.number = 0 := rowsAbove_head fun w hw =>
    (List.pairwise_cons.1 hfrom).1 _ (List.mem_map_of_mem hw)
  have hall : rowsAbove values before v.number = m.rowsInserted := by
    rw [h.inserted]
    exact rowsAbove_eq_sum fun w hw =>
      hcross _ (List.mem_map_of_mem hw) _ (List.mem_map_of_mem List.mem_cons_self)
  unfold rowsAbove at hnone hall ⊢
  rw [List.filter_append, List.map_append, List.sum_append, hnone, hall, Nat.add_zero]

/-- The size of a picture in the state in which its row is filled fits the source sheet. -/
private theorem AtRow.extent_source {given : Given} {m : Pass} {before after : List RowVisit}
    {v : RowVisit} (h : AtRow options values given p m before v)
    (hratio : given.options.ratio = options.ratio)
    (hinc : ((before ++ v :: after).map RowVisit.number).Pairwise (· < ·))
    (hkeeps : KeepsColumns values (before ++ v :: after))
    (hone : ∀ r ∈ mergedRegions p.sheet.doc.root, OneRow values (before ++ v :: after) 0 r)
    {cell : CellRef} (hcell : v.number + m.rowsInserted ≤ cell.row) (picture : Image.Picture) :
    m.pictureExtent given cell picture =
      p.sheet.extentAt options.ratio (cell.withRow (cell.row - m.rowsInserted)) picture := by
  rw [← hratio]
  -- The rows before are all above the cell's own row in the source.
  have hbefore : ∀ w ∈ before, w.number < cell.row - m.rowsInserted := by
    rw [List.map_append, List.pairwise_append] at hinc
    intro w hw
    have := hinc.2.2 _ (List.mem_map_of_mem hw) _ (List.mem_map_of_mem List.mem_cons_self)
    omega
  have hstart : (cell.withRow (cell.row - m.rowsInserted)).row = cell.row - m.rowsInserted + 0 :=
    rfl
  have hregion := find?_contains_below options.pushDownPageBreaks p.sheet.name hinc
    (fun w hw => hkeeps w (List.mem_append_left _ hw)) hone hbefore hstart
  rw [← h.regions, ← h.inserted] at hregion
  have hback : (cell.withRow (cell.row - m.rowsInserted)).withRow
      ((cell.withRow (cell.row - m.rowsInserted)).row + m.rowsInserted) = cell := by
    show cell.withRow (cell.row - m.rowsInserted + m.rowsInserted) = cell
    rw [Nat.sub_add_cancel (by omega)]
    rfl
  rw [hback] at hregion
  refine Pass.pictureExtent_eq_extentAt ?_ h.measures (fun _ => h.height _ hcell) picture
  unfold mergeContaining?
  generalize (mergedRegions m.sheet.doc.root).find? (·.contains cell) = found at hregion ⊢
  -- A region that contains the cell now has moved there, and contained the cell before.
  cases hfound : (mergedRegions p.sheet.doc.root).find?
      (·.contains (cell.withRow (cell.row - m.rowsInserted))) with
  | none =>
    rw [hfound] at hregion
    cases hregion
    exact .none
  | some r =>
    rw [hfound] at hregion
    cases hregion with
    | some hmoved =>
      have hcontains := List.find?_some hfound
      have halong := alongside_of_movedBy (hone r (List.mem_of_find?_eq_some hfound)).single
        hcontains hmoved
      have hrow : (cell.withRow (cell.row - m.rowsInserted)).row + m.rowsInserted = cell.row :=
        Nat.sub_add_cancel (by omega)
      rw [hrow] at halong
      exact .some halong

/-- A row that names its number has it. -/
theorem Visited.number_eq {first last : StringTable} {source : List Element}
    {visits : List RowVisit} (h : Visited first last source visits) {v : RowVisit}
    (hv : v ∈ visits) {number : Nat} (hnamed : namedNumber? v.row = some number) :
    v.number = number := by
  -- Numbers are read from the rows in the same order as the visits were made.
  have hall : ∀ (rows : List Element) (previous : Nat), List.Forall₂
      (fun row n => ∀ number, namedNumber? row = some number → n = number) rows
      (sourceNumbers previous rows) := by
    intro rows
    induction rows with
    | nil => exact fun previous => .nil
    | cons row rows ih =>
      refine fun previous => .cons (fun number hnumber => ?_) (ih _)
      rw [Pass.sourceNumber, show (row.attr? "r").bind Text.natural32? = some number from hnumber]
      rfl
  have hpairs := hall source 0
  rw [← h.numbers, ← h.rows, List.forall₂_map_left_iff, List.forall₂_map_right_iff,
    List.forall₂_same] at hpairs
  exact hpairs v hv number hnamed

/-- Only one row has the number. -/
private theorem eq_of_number_eq {visits : List RowVisit}
    (hinc : (visits.map RowVisit.number).Pairwise (· < ·)) {v w : RowVisit} (hv : v ∈ visits)
    (hw : w ∈ visits) (h : w.number = v.number) : w = v :=
  List.inj_on_of_nodup_map (hinc.imp Nat.ne_of_lt) hw hv h

/-- The height of a row of the source sheet that names its number. -/
private theorem heightAt_source {first last : StringTable} {sheet : Worksheet}
    {visits : List RowVisit} (h : Visited first last (sourceRows sheet.doc.root) visits)
    (hinc : (visits.map RowVisit.number).Pairwise (· < ·)) {v : RowVisit} (hv : v ∈ visits)
    (hnamed : namedNumber? v.row = some v.number) :
    sheet.heightAt v.number = (rowHeight? v.row).getD sheet.defaultRowHeight := by
  refine heightAt_eq ?_ hnamed fun e he hnumber => ?_
  · rw [← h.rows]
    exact List.mem_map_of_mem hv
  · rw [← h.rows] at he
    obtain ⟨w, hw, rfl⟩ := List.mem_map.1 he
    rw [eq_of_number_eq hinc hv hw (h.number_eq hw hnumber)]

/-- The height of a source row in the finished sheet. -/
private theorem heightAt_finished {visits : List RowVisit} {blocks : List (Element × List Element)}
    (h : SheetRun options values visits p q blocks)
    (hinc : (visits.map RowVisit.number).Pairwise (· < ·)) (hfit : RowsFit values 0 visits)
    {v : RowVisit} (hv : v ∈ visits)
    (hrow : finishedNumber values visits v ≤ maxRows) :
    q.sheet.heightAt (finishedNumber values visits v) =
      (rowHeight? v.row).getD q.sheet.defaultRowHeight := by
  have hdone := h.forall₂_of_fit hinc hfit
  obtain ⟨block, hblock, hvdone⟩ := exists_left_of_mem hdone.flip hv
  have hfinished := hvdone.renumbered
  have hheight : rowHeight? (uncachedRow block.1) = rowHeight? v.row := by
    unfold rowHeight?
    rw [attr?_uncachedRow, hfinished.attr _ (by decide) (by decide)]
  rw [← hheight]
  refine heightAt_eq ?_ (namedNumber?_of_attr?
    ((attr?_uncachedRow _ _).trans hfinished.number)
    (Nat.le_trans hrow limits_le_max32.2))
    fun e he hnumber => ?_
  · rw [h.rows]
    exact List.mem_flatMap.2 ⟨_, List.mem_map_of_mem hblock, List.mem_cons_self⟩
  · -- A row of another block has another number, since blocks do not overlap.
    rw [h.rows, List.mem_flatMap] at he
    obtain ⟨other, hother, he⟩ := he
    obtain ⟨source, hsource, rfl⟩ := List.mem_map.1 hother
    obtain ⟨w, hw, hwdone⟩ := exists_left_of_mem hdone hsource
    obtain ⟨done, hmem, rfl⟩ : ∃ e' ∈ source.1 :: source.2, uncachedRow e' = e :=
      List.mem_map.1 (show e ∈ (source.1 :: source.2).map uncachedRow from he)
    obtain ⟨⟨n, hattr, hfirst, hlast⟩, hsame⟩ :=
      attr?_of_mem_block hwdone (hfit.of_mem hinc hw) hmem
    have hn := eq_of_namedNumber? ((attr?_uncachedRow done _).trans hattr) hnumber
    unfold finishedNumber at hn hfirst hlast
    have hwv : w.number = v.number := by
      rcases Nat.lt_trichotomy w.number v.number with hlt | heq | hgt
      · have := rowsAbove_add_generated_le values hw hlt
        omega
      · exact heq
      · have := rowsAbove_add_generated_le values hv hgt
        omega
    rw [hheight, ← eq_of_number_eq hinc hv hw hwv, ← hsame]
    unfold rowHeight?
    rw [attr?_uncachedRow]

/-- The size of a picture on the row that is filled fits the finished sheet. -/
private theorem AtRow.extent_finished {given : Given} {m : Pass} {before after : List RowVisit}
    {v : RowVisit} {blocks : List (Element × List Element)}
    (h : AtRow options values given p m before v)
    (hratio : given.options.ratio = options.ratio)
    (hsheet : SheetRun options values (before ++ v :: after) p q blocks)
    (hinc : ((before ++ v :: after).map RowVisit.number).Pairwise (· < ·))
    (hfit : RowsFit values 0 (before ++ v :: after))
    (hkeeps : KeepsColumns values (before ++ v :: after))
    (hone : ∀ r ∈ mergedRegions p.sheet.doc.root, OneRow values (before ++ v :: after) 0 r)
    (hnamed : (namedNumber? v.row).isSome = true) {cell : CellRef}
    (hcell : cell.row = v.number + m.rowsInserted) (picture : Image.Picture) :
    m.pictureExtent given cell picture = q.sheet.extentAt options.ratio cell picture := by
  rw [← hratio]
  have hmid := oneRow_foldl options.pushDownPageBreaks p.sheet.name hinc
    (fun w hw => hkeeps w (List.mem_append_left _ hw)) hone
  rw [← h.regions, ← h.inserted, Nat.zero_add] at hmid
  have hv : v ∈ before ++ v :: after := List.mem_append_right _ List.mem_cons_self
  have hmeasures : ∀ n, n ≠ "drawing" → n ≠ "mergeCells" → n ≠ "rowBreaks" → n ≠ "sheetData" →
      n ≠ "dimension" → q.sheet.doc.root.child? n = p.sheet.doc.root.child? n := hsheet.others
  have hsame : SameMeasures q.sheet m.sheet :=
    ⟨h.measures.cols.trans (hmeasures _ (by decide) (by decide) (by decide) (by decide)
        (by decide)).symm,
      h.measures.format.trans (hmeasures _ (by decide) (by decide) (by decide) (by decide)
        (by decide)).symm⟩
  -- What comes after the row is below it.
  have hsplit := List.pairwise_append.1 (List.map_append (f := RowVisit.number) ▸ hinc)
  -- The rows from this one on do not concern the region that contains the cell.
  have hregion : mergeContaining? q.sheet.doc.root cell =
      mergeContaining? m.sheet.doc.root cell := by
    have hq := mergedRegions_of_merges hinc hkeeps hone (hsheet.outcome hfit).merges
    rw [sheetMoves_append, List.foldl_append, ← h.regions, ← h.inserted, Nat.zero_add] at hq
    unfold mergeContaining?
    rw [hq]
    refine find?_contains_settled hsplit.2.1 (fun w hw => hkeeps w (List.mem_append_right _ hw))
      hmid fun w hw => ?_
    rcases List.mem_cons.1 hw with rfl | hw
    · omega
    · have := (List.pairwise_cons.1 hsplit.2.1).1 _ (List.mem_map_of_mem hw)
      omega
  refine Pass.pictureExtent_eq_extentAt ?_ hsame (fun hinside => ?_) picture
  · rw [hregion]
    unfold mergeContaining?
    cases hfound : (mergedRegions m.sheet.doc.root).find? (·.contains cell) with
    | none => exact .none
    | some r =>
      have hcontains := List.find?_some hfound
      exact .some (alongside_of_movedBy (hmid r (List.mem_of_find?_eq_some hfound)).single
        hcontains (.refl r))
  -- The height is the one of the source row, which the finished row keeps.
  · obtain ⟨number, hnumber⟩ := Option.isSome_iff_exists.1 hnamed
    rw [← hsheet.visited.number_eq hv hnumber] at hnumber
    have hfinished : finishedNumber values (before ++ v :: after) v = cell.row := by
      rw [finishedNumber, h.rowsAbove_eq hinc, hcell]
    rw [h.height _ (by omega), show cell.row - m.rowsInserted = v.number by omega,
      heightAt_source hsheet.visited hinc hv hnumber, ← hfinished,
      heightAt_finished hsheet hinc hfit hv (by omega), ← h.measures.defaultRowHeight,
      hsame.defaultRowHeight]

/-- A picture that was drawn while its row was filled. -/
private theorem sized_of_drawnInRows {blocks : List (Element × List Element)}
    {place : RowVisit × CellRef × Value} {n : Node} (hp : p.Fresh)
    (hsheet : SheetRun options values (p.visits options files values) p q blocks)
    (hinc : ((p.visits options files values).map RowVisit.number).Pairwise (· < ·))
    (hfit : RowsFit values 0 (p.visits options files values))
    (hkeeps : KeepsColumns values (p.visits options files values))
    (hregions : ∀ r ∈ mergedRegions p.sheet.doc.root,
      SingleRow values (p.visits options files values) r)
    (hrow : finishedNumber values (p.visits options files values) place.1 ≤ place.2.1.row)
    (h : Pass.DrawnInRows (p.givenFor options files values) 0 p.withoutRows
      (sourceRows p.sheet.doc.root) place n) :
    Sized options files values p q (p.visits options files values) place n := by
  have hone := oneRow_of_singleRow hregions
  unfold finishedNumber at hrow
  -- What is needed of the state in which the picture was drawn, for a cell that is in a place.
  have hdrawn : 0 < place.2.1.row → ∃ m before after,
      p.visits options files values = before ++ place.1 :: after ∧
      AtRow options values (p.givenFor options files values) p m before place.1 ∧
      IsPictureOf files options.imageRoot
        (m.pictureExtent (p.givenFor options files values) place.2.1) place.2 n := by
    intro hcell
    obtain ⟨m, ⟨rows, after, hfill, hsplit⟩, m', hm', hnode⟩ := h hcell
    have hv : place.1 ∈ p.visits options files values := by
      rw [show p.visits options files values = _ from hsplit]
      exact List.mem_append_right _ List.mem_cons_self
    have hstill := hm'.toStill (hkeeps _ hv)
    refine ⟨m, _, after, hsplit, ?_, ?_⟩
    · rw [show p.visits options files values = _ from hsplit] at hinc hfit hkeeps hone
      exact atRow_of_fillSourceRows hp hfill hinc hfit hkeeps hone
    · rwa [show m'.pictureExtent (p.givenFor options files values) place.2.1 =
        m.pictureExtent (p.givenFor options files values) place.2.1 from
          funext (hstill.pictureExtent_eq place.2.1)] at hnode
  -- For a source row as it says, and for the finished one on its own row.
  constructor
  · intro hcell
    obtain ⟨m, before, after, hsplit, hat, hnode⟩ := hdrawn hcell
    rw [hsplit] at hinc hkeeps hone hrow ⊢
    rw [hat.rowsAbove_eq hinc] at hrow ⊢
    rwa [funext (hat.extent_source rfl hinc hkeeps hone hrow)] at hnode
  · intro hcell hnamed hown
    obtain ⟨m, before, after, hsplit, hat, hnode⟩ := hdrawn hcell
    rw [hsplit] at hinc hfit hkeeps hone hown hsheet
    rw [finishedNumber, hat.rowsAbove_eq hinc] at hown
    rwa [funext (hat.extent_finished rfl hsheet hinc hfit hkeeps hone hnamed hown)] at hnode

/-- The nodes of the drawing after a pass, if it has one. -/
private theorem sized_of_run {blocks : List (Element × List Element)} (hp : p.Fresh)
    (hrun : p.run options files values = .ok q)
    (hsheet : SheetRun options values (p.visits options files values) p q blocks)
    (hinc : (sourceNumbers 0 (sourceRows p.sheet.doc.root)).Pairwise (· < ·))
    (hfit : RowsFit values 0 (p.visits options files values))
    (hkeeps : KeepsColumns values (p.visits options files values))
    (hregions : ∀ r ∈ mergedRegions p.sheet.doc.root,
      SingleRow values (p.visits options files values) r) {d : Drawing} (hd : q.drawing = some d) :
    ∃ kept pictures, d.doc.root.children = kept ++ pictures ∧ kept.length = p.drawn.length ∧
      List.Forall₂ (Sized options files values p q (p.visits options files values))
        (addedPictures options files values (p.visits options files values)) pictures := by
  have hvisits : ((p.visits options files values).map RowVisit.number).Pairwise (· < ·) := by
    rw [hsheet.visited.numbers]
    exact hinc
  obtain ⟨r, hfill, hq⟩ := Pass.run_eq_ok hrun
  have hdrawing : q.drawing = r.drawing := by rw [hq]; rfl
  obtain ⟨hdraw, -, new, hnew, hplaces⟩ := Pass.redrawn_of_fillSourceRows hfill
    (show p.withoutRows.rowsInserted = Text.low32 0 from hp.rowsInserted) hvisits hfit
  rw [hdrawing] at hd
  -- A sheet that has a drawing in the end could have one from the start.
  have hcan : p.withoutRows.canDraw = true := by
    rw [← hdraw, Pass.canDraw, hd]
    rfl
  rw [hcan, if_pos rfl] at hplaces
  -- The pictures are those of the rows, in their order.
  have hadded : readablePlaces files options.imageRoot values 0 (p.visits options files values) =
      addedPictures options files values (p.visits options files values) := by
    rw [readablePlaces_eq hvisits, addedPictures]
    simp only [Nat.zero_add]
  refine ⟨p.drawn.map (sheetNode options values 0 (p.visits options files values)), new, ?_,
    List.length_map _, ?_⟩
  · rw [Pass.drawn, hd] at hnew
    exact hnew
  · rw [← hadded]
    refine forall₂_imp_of_mem hplaces fun place hplace n hn => ?_
    have hmem : place ∈ addedPictures options files values (p.visits options files values) :=
      hadded ▸ hplace
    obtain ⟨v, hv, hmem⟩ := List.mem_flatMap.1 hmem
    obtain ⟨picture, hpicture, rfl⟩ := List.mem_map.1 hmem
    have hroom := hfit.of_mem hvisits hv
    exact sized_of_drawnInRows hp hsheet hvisits hfit hkeeps hregions
      (row_le_of_mem_rowPictures hroom (List.mem_of_mem_filter hpicture)).1 hn

/-- The sizes of pictures, in a pass whose rows have numbers of 32 bits: after the nodes that were
there before, the drawing holds the pictures that rows ask for. Each fits the merged region that
contains its cell in the source sheet, moved down by the rows generated above; a picture on its own
row fits the finished sheet. -/
theorem pictures_sized (hp : p.Fresh) (hrun : p.run options files values = .ok q)
    (hinc : (sourceNumbers 0 (sourceRows p.sheet.doc.root)).Pairwise (· < ·))
    (hfit : RowsFit values 0 (p.visits options files values))
    (hkeeps : KeepsColumns values (p.visits options files values))
    (hregions : ∀ r ∈ mergedRegions p.sheet.doc.root,
      SingleRow values (p.visits options files values) r) :
    Visited p.strings q.strings (sourceRows p.sheet.doc.root) (p.visits options files values) ∧
      ∀ d, q.drawing = some d → ∃ kept pictures, d.doc.root.children = kept ++ pictures ∧
        kept.length = p.drawn.length ∧
        List.Forall₂ (Sized options files values p q (p.visits options files values))
          (addedPictures options files values (p.visits options files values)) pictures := by
  obtain ⟨blocks, hsheet⟩ := sheetRun_of_run hp hrun
  exact ⟨hsheet.visited, fun d hd => sized_of_run hp hrun hsheet hinc hfit hkeeps hregions hd⟩

end

/-- A sheet of one row with a table of pictures in a merged region. -/
private def framedPass : Pass :=
  { samplePass with
    sheet := { samplePass.sheet with doc := { root := .ofChildren "worksheet" [] [
      .ofChildren "sheetData" [] [.ofChildren "row" [("r", "1")] [sampleCell [("r", "A1")] "0"]],
      .ofChildren "mergeCells" [("count", "1")] [
        .ofChildren "mergeCell" [("ref", "A1:B1")] []]] } }
    strings := StringTable.ofList ["${table:t.k:image}"] }

private def framedValues : Substitutions :=
  [("t", .list [.record [("k", .image (.bytes Session.pixel))],
    .record [("k", .image (.bytes Session.pixel))]])]

/-- The pass of the sample draws two pictures, the second in a region that is repeated. -/
private theorem framedPass_runs : ∃ q d,
    framedPass.run {} (fun _ => none) framedValues = .ok q ∧ q.drawing = some d ∧
      mergeContaining? q.sheet.doc.root { col := 1, row := 2 } =
        some ⟨{ col := 1, row := 2 }, { col := 2, row := 2 }⟩ := by
  obtain ⟨q, hq, hfacts⟩ := exists_eq_ok
    (x := framedPass.run {} (fun _ => none) framedValues)
    (f := fun q => (q.drawing.isSome, mergeContaining? q.sheet.doc.root { col := 1, row := 2 }))
    (b := (true, some ⟨{ col := 1, row := 2 }, { col := 2, row := 2 }⟩)) (by decide +kernel)
  obtain ⟨hsome, hregion⟩ := Prod.mk.inj hfacts
  obtain ⟨d, hd⟩ := Option.isSome_iff_exists.1 hsome
  exact ⟨q, d, hq, hd, hregion⟩

/-- These are the cells that ask for them. -/
private theorem framedPass_cells :
    (addedPictures {} (fun _ => none) framedValues
      (framedPass.visits {} (fun _ => none) framedValues)).map (fun place =>
        (place.1.number, namedNumber? place.1.row, place.2.1)) =
      [(1, some 1, { col := 1, row := 1 }), (1, some 1, { col := 1, row := 2 })] := by
  decide +kernel

/-- What is known of the two pictures of the sheet. -/
private theorem framed_of_sized {q : Pass} {children : List Node}
    (h : ∃ kept pictures, children = kept ++ pictures ∧ kept.length = framedPass.drawn.length ∧
      List.Forall₂ (Sized {} (fun _ => none) framedValues framedPass q
          (framedPass.visits {} (fun _ => none) framedValues))
        (addedPictures {} (fun _ => none) framedValues
          (framedPass.visits {} (fun _ => none) framedValues)) pictures) :
    ∃ first second value value', children = [first, second] ∧
      IsPictureOf (fun _ => none) none (q.sheet.extentAt 100 { col := 1, row := 1 })
        ({ col := 1, row := 1 }, value) first ∧
      IsPictureOf (fun _ => none) none (framedPass.sheet.extentAt 100 { col := 1, row := 2 })
        ({ col := 1, row := 2 }, value') second := by
  obtain ⟨kept, pictures, hchildren, hkept, hpictures⟩ := h
  -- There was no drawing, so all its nodes are pictures.
  rw [List.eq_nil_of_length_eq_zero (l := kept) hkept, List.nil_append] at hchildren
  have hcells := framedPass_cells
  have habove : rowsAbove framedValues
      (framedPass.visits {} (fun _ => none) framedValues) 1 = 0 := by decide +kernel
  generalize addedPictures {} (fun _ => none) framedValues _ = places at hpictures hcells
  cases hpictures with
  | nil => simp at hcells
  | @cons place first places rest hfirst hrest =>
    cases hrest with
    | nil => simp at hcells
    | @cons place' second places rest hsecond hrest =>
      cases hrest with
      | cons _ _ => simp at hcells
      | nil =>
        obtain ⟨v, cell, value⟩ := place
        obtain ⟨v', cell', value'⟩ := place'
        simp only [List.map_cons, List.map_nil, List.cons.injEq, Prod.mk.injEq, and_true] at hcells
        obtain ⟨⟨hnumber, hnamed, rfl⟩, hnumber', -, rfl⟩ := hcells
        refine ⟨first, second, value, value', hchildren, hfirst.finished Nat.one_pos ?_ ?_, ?_⟩
        · dsimp only
          rw [hnamed]
          rfl
        · dsimp only
          rw [finishedNumber, hnumber, habove]
        · have hsource := hsecond.source Nat.two_pos
          dsimp only at hsource
          rw [hnumber', habove] at hsource
          exact hsource

/-- The first picture fits the region of the finished sheet, the second the row below the region in
the source sheet. -/
theorem pictures_sized_sample : ∃ (q : Pass) (d : Drawing),
    framedPass.run {} (fun _ => none) framedValues = .ok q ∧ q.drawing = some d ∧
      ∃ first second value value', d.doc.root.children = [first, second] ∧
        IsPictureOf (fun _ => none) none (q.sheet.extentAt 100 { col := 1, row := 1 })
          ({ col := 1, row := 1 }, value) first ∧
        IsPictureOf (fun _ => none) none (framedPass.sheet.extentAt 100 { col := 1, row := 2 })
          ({ col := 1, row := 2 }, value') second := by
  obtain ⟨q, d, hq, hd, -⟩ := framedPass_runs
  obtain ⟨-, hsized⟩ := pictures_sized ⟨rfl, rfl⟩ hq (by decide +kernel) (by decide +kernel)
    (by decide +kernel) (by decide +kernel)
  exact ⟨q, d, hq, hd, framed_of_sized (hsized d hd)⟩

/-- The picture of the second element has its natural size, although a merged region of the finished
sheet contains its cell: the region is repeated on the generated row after the picture was drawn. -/
theorem picture_of_later_element : ∃ (q : Pass) (d : Drawing),
    framedPass.run {} (fun _ => none) framedValues = .ok q ∧ q.drawing = some d ∧
      mergeContaining? q.sheet.doc.root { col := 1, row := 2 } =
        some ⟨{ col := 1, row := 2 }, { col := 2, row := 2 }⟩ ∧
      ∃ first second value, d.doc.root.children = [first, second] ∧
        IsPictureOf (fun _ => none) none (fun picture => picture.extent 100)
          ({ col := 1, row := 2 }, value) second := by
  obtain ⟨q, d, hq, hd, hregion⟩ := framedPass_runs
  obtain ⟨blocks, hsheet⟩ := sheetRun_of_run ⟨rfl, rfl⟩ hq
  obtain ⟨first, second, -, value, hchildren, -, hsecond⟩ := framed_of_sized
    (sized_of_run ⟨rfl, rfl⟩ hq hsheet (by decide +kernel) (by decide +kernel)
      (by decide +kernel) (by decide +kernel) hd)
  have hnatural : framedPass.sheet.extentAt 100 { col := 1, row := 2 } =
      fun picture => picture.extent 100 := by
    funext picture
    unfold Worksheet.extentAt
    rw [show mergeContaining? framedPass.sheet.doc.root { col := 1, row := 2 } = none by
      decide +kernel]
  rw [hnatural] at hsecond
  exact ⟨q, d, hq, hd, hregion, first, second, value, hchildren, hsecond⟩

end Fill

end SheetTemplate
