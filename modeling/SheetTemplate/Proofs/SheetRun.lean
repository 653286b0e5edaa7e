import SheetTemplate.Proofs.RowSteps

/-!
# What a pass does to its sheet

A pass fills the source rows from top to bottom and puts the finished rows back. `SheetRun` says
what comes out of it in terms of the visits alone: the finished rows as blocks, one for each source
row, and all moves that merged regions and defined names have made.

## Key results

- `sheetRun_of_run`: what a pass that succeeds has done
-/

namespace SheetTemplate

open Layout (Move)
open Text (low32 low32_of_le add32)
open Xml (Element)

namespace Fill

/-- The moves that rows make with generated rows above them. -/
def sheetMoves (values : Substitutions) (pushDownPageBreaks : Bool) (sheetName : String) :
    Nat → List RowVisit → List Move
  | _, [] => []
  | above, v :: vs =>
    rowMoves values pushDownPageBreaks sheetName above v ++
      sheetMoves values pushDownPageBreaks sheetName (above + v.generated values) vs

/-- A table after rows with generated rows above them. -/
def sheetTable (values : Substitutions) (pushDownPageBreaks : Bool) (sheetName : String) :
    Nat → List RowVisit → Table → Table
  | _, [], t => t
  | above, v :: vs, t =>
    sheetTable values pushDownPageBreaks sheetName (above + v.generated values) vs
      (rowTable values pushDownPageBreaks sheetName above v t)

/-- What becomes of rows with generated rows above them: one block for each of them, under its
number in 32 bits. -/
inductive RowsDone (values : Substitutions) (strings : StringTable) (copied : Bool) :
    Nat → List RowVisit → List (Element × List Element) → Prop
  | nil (above : Nat) : RowsDone values strings copied above [] []
  | cons {above v vs block blocks}
      (hblock : RowDone values strings copied (add32 v.number above) v block)
      (hrest : RowsDone values strings copied (above + v.generated values) vs blocks) :
      RowsDone values strings copied above (v :: vs) (block :: blocks)

namespace Pass

/-- What refers to cells after rows with generated rows above them. -/
structure RowsOutcome (given : Given) (above : Nat) (visits : List RowVisit) (p p' : Pass) :
    Prop where
  moved : p.Moved p' (sheetMoves given.values given.options.pushDownPageBreaks p.sheet.name above
    visits)
  tables : p'.tables = p.tables.map (sheetTable given.values given.options.pushDownPageBreaks
    p.sheet.name above visits)

/-- What filling rows does, given the source number of the row before them and the rows generated
above them. -/
structure RowsRun (given : Given) (above previous : Nat) (source : List Element)
    (visits : List RowVisit) (p p' : Pass) (blocks : List (Element × List Element)) : Prop where
  rows : p'.rows.toList = p.rows.toList ++ blocks.flatMap fun b => b.1 :: b.2
  rowsInserted : p'.rowsInserted = low32 (above + (visits.map (·.generated given.values)).sum)
  maxCols : 0 ≤ p.maxColsInserted → p'.maxColsInserted =
    (visits.map fun v => (v.cells.map (·.net given.values)).sum).foldl max p.maxColsInserted
  shifted : ∃ moves, p.Moved p' moves
  done : RowsDone given.values p'.strings given.options.substituteAllTableRows above visits blocks
  visited : visits.map RowVisit.row = source
  numbers : visits.map RowVisit.number = sourceNumbers previous source
  seen : ∀ v ∈ visits, v.Seen p.strings p'.strings
  outcome : RowsFit given.values above visits → RowsOutcome given above visits p p'

/-- The rows that are inserted are all that are generated, if the numbers of all rows fit. -/
theorem RowsRun.rowsInserted_of_fit {given : Given} {previous : Nat} {source : List Element}
    {visits : List RowVisit} {p p' : Pass} {blocks : List (Element × List Element)}
    (h : RowsRun given 0 previous source visits p p' blocks)
    (hfit : RowsFit given.values 0 visits) :
    p'.rowsInserted = (visits.map (·.generated given.values)).sum := by
  have hsum := hfit.sum_le (Nat.zero_le _)
  rw [h.rowsInserted, low32_of_le hsum, Nat.zero_add]

/-- What filling rows does. -/
theorem rowsRun_of_fillSourceRows {given : Given} {above previous : Nat} {p p' : Pass}
    {rows : List Element} (h : fillSourceRows given previous p rows = .ok p')
    (habove : p.rowsInserted = low32 above) :
    ∃ blocks, RowsRun given above previous rows (visitRows given previous p rows) p p' blocks := by
  -- Rows come out whether or not their numbers fit; what refers to cells follows them if they do.
  induction rows generalizing above previous p with
  | nil =>
    cases h
    exact ⟨[], by simp, habove, fun _ => rfl, ⟨[], .refl _⟩, .nil _, rfl, rfl,
      fun v hv => by simp [visitRows] at hv, fun _ => ⟨.refl _, (List.map_id _).symm⟩⟩
  | cons row rows ih =>
    simp only [fillSourceRows] at h
    obtain ⟨p₁, hrow, hrest⟩ := bind_eq_ok.1 h
    -- The first row is a step, and the rows below it are a run that goes on from there.
    obtain ⟨block, hstep⟩ := rowStep_of_fillRow hrow habove
    obtain ⟨blocks, hrun⟩ := ih hrest hstep.rowsInserted
    obtain ⟨moves, hshifted⟩ := hstep.shifted
    obtain ⟨moves', hshifted'⟩ := hrun.shifted
    simp only [visitRows, hrow]
    refine ⟨block :: blocks, ?_, ?_, fun hpos => ?_, ⟨_, hshifted.trans hshifted'⟩,
      .cons (hstep.done.mono hshifted'.strings) hrun.done, ?_, ?_, ?_, fun hfit => ?_⟩
    · rw [hrun.rows, hstep.rows, List.append_assoc]
      rfl
    · rw [hrun.rowsInserted, List.map_cons, List.sum_cons, Nat.add_assoc]
      rfl
    · have hmax := hstep.maxCols hpos
      rw [hrun.maxCols (by omega), hmax, List.map_cons, List.foldl_cons]
      rfl
    · rw [List.map_cons, hrun.visited]
    · rw [List.map_cons, hrun.numbers]
      rfl
    · intro v hv
      rcases List.mem_cons.1 hv with rfl | hv
      · exact hstep.seen.mono (.refl _) hshifted'.strings
      · exact (hrun.seen v hv).mono hshifted.strings (.refl _)
    -- When all numbers fit, the moves of the row come before those of the rows below.
    · obtain ⟨hmoved, htables⟩ := hstep.outcome hfit.1
      obtain ⟨hmoved', htables'⟩ := hrun.outcome hfit.2
      rw [hmoved.sheetName] at hmoved' htables'
      refine ⟨hmoved.trans hmoved', ?_⟩
      rw [htables', htables, List.map_map]
      rfl

end Pass

/-! ### The sheet as a whole -/

/-- A row as it leaves the pass: formulas have lost the values they showed. -/
def uncachedRow (row : Element) : Element :=
  if row.name == "row" then row.mapNamed "c" dropCached else row

/-- A cell keeps its name when its cached value is dropped. -/
@[simp]
theorem name_dropCached (cell : Element) : (dropCached cell).name = cell.name := by
  unfold dropCached
  split <;> rfl

/-- It keeps its attributes as well. -/
@[simp]
theorem attr?_dropCached (cell : Element) (key : String) :
    (dropCached cell).attr? key = cell.attr? key := by
  unfold dropCached
  split <;> rfl

/-- So does a row. -/
@[simp]
theorem name_uncachedRow (row : Element) : (uncachedRow row).name = row.name := by
  unfold uncachedRow
  split <;> rfl

/-- A row keeps its attributes. -/
@[simp]
theorem attr?_uncachedRow (row : Element) (key : String) :
    (uncachedRow row).attr? key = row.attr? key := by
  unfold uncachedRow
  split <;> rfl

/-- Dropping cached values does not renumber a row. -/
theorem renumbered_uncachedRow {row newRow : Element} {number : Nat}
    (h : Renumbered row number newRow) : Renumbered row number (uncachedRow newRow) :=
  ⟨(name_uncachedRow newRow).trans h.name, (attr?_uncachedRow newRow _).trans h.number,
    fun key hr hs => (attr?_uncachedRow newRow key).trans (h.attr key hr hs)⟩

/-- A finished row is the source row up to its number, the columns it declares, and its cells. -/
theorem renumbered_finishedRow (row : Element) (number : Nat) (cells : List Element) (cols : Int) :
    Renumbered row number (Pass.finishedRow (bareRow row number) cells cols) := by
  have hbare : Renumbered row number ((bareRow row number).pushAll cells) :=
    ⟨rfl, by simp [bareRow], fun key hr _ => by
      simp [bareRow, Element.attr?_setAttr_of_ne row hr]⟩
  unfold Pass.finishedRow
  dsimp only
  -- The spans are written anew only if columns were inserted.
  split
  · exact hbare
  · refine ⟨(name_widenSpans _ _).trans hbare.name, ?_, fun key hr hs => ?_⟩
    · rw [attr?_widenSpans _ _ (by decide)]
      exact hbare.number
    · rw [attr?_widenSpans _ _ hs]
      exact hbare.attr key hr hs

/-- What comes out of a row first is the row with its number. -/
theorem RowDone.renumbered {values : Substitutions} {strings : StringTable} {copied : Bool}
    {number : Nat} {v : RowVisit} {block : Element × List Element}
    (h : RowDone values strings copied number v block) : Renumbered v.row number block.1 := by
  obtain ⟨cells, groups, hrow, -, -⟩ := h.anchor
  rw [hrow]
  exact renumbered_finishedRow ..

/-- Finishing writes the rows and the dimension, and no other child of the sheet. -/
private theorem child?_finishSheet {given : Given} {p : Pass} {n : String} (hn : n ≠ "dimension") :
    (p.finishSheet given).sheet.doc.root.child? n =
      if n = "sheetData" then (p.sheet.doc.root.child? n).map fun data =>
        (data.pushAll p.rows.toList).mapNamed "row" (·.mapNamed "c" dropCached)
      else p.sheet.doc.root.child? n := by
  have hdimension : ∀ (cols : Int) (rows : Nat) (sheet : Element),
      (extendDimension cols rows sheet).child? n = sheet.child? n := by
    intro cols rows sheet
    unfold extendDimension
    split
    · rfl
    · exact Element.child?_mapChild_of_ne sheet (fun e => Layout.name_moveRef _ e) hn
  have hpush : ∀ e : Element, (e.pushAll p.rows.toList).name = e.name := fun e =>
    Element.name_pushAll e _
  have hdrop : ∀ e : Element, (e.mapNamed "row" (·.mapNamed "c" dropCached)).name = e.name :=
    fun e => Element.name_mapNamed e _ _
  -- The rows are put back first, then the dimension is extended, then cached values are dropped.
  show (dropCachedValues (extendDimension p.maxColsInserted p.rowsInserted
    (p.sheet.doc.root.mapChild "sheetData" (·.pushAll p.rows.toList)))).child? n = _
  unfold dropCachedValues
  by_cases h : n = "sheetData"
  · subst h
    rw [if_pos rfl, Element.child?_mapChild_self _ _ hdrop, hdimension,
      Element.child?_mapChild_self _ _ hpush, Option.map_map]
    rfl
  · rw [if_neg h, Element.child?_mapChild_of_ne _ hdrop h, hdimension,
      Element.child?_mapChild_of_ne _ hpush h]

/-- The dimension of a sheet after columns and rows were inserted. -/
def extendedDimension (cols : Int) (rows : Nat) (dimension : Element) : Element :=
  if cols = 0 ∧ rows = 0 then dimension
  else
    Layout.moveRef (fun range => some { range with stop := range.stop.offset cols rows }) dimension

/-- The dimension is extended by what the rows have inserted. -/
private theorem child?_dimension_finishSheet {given : Given} {p : Pass} :
    (p.finishSheet given).sheet.doc.root.child? "dimension" =
      (p.sheet.doc.root.child? "dimension").map
        (extendedDimension p.maxColsInserted p.rowsInserted) := by
  have hpush : ∀ e : Element, (e.pushAll p.rows.toList).name = e.name := fun e =>
    Element.name_pushAll e _
  have hdrop : ∀ e : Element, (e.mapNamed "row" (·.mapNamed "c" dropCached)).name = e.name :=
    fun e => Element.name_mapNamed e _ _
  have hne : "dimension" ≠ "sheetData" := by decide
  show (dropCachedValues (extendDimension p.maxColsInserted p.rowsInserted
    (p.sheet.doc.root.mapChild "sheetData" (·.pushAll p.rows.toList)))).child? "dimension" = _
  unfold dropCachedValues
  rw [Element.child?_mapChild_of_ne _ hdrop hne]
  unfold extendDimension
  -- A pass that has inserted nothing leaves the dimension as it is.
  by_cases hnone : p.maxColsInserted = 0 ∧ p.rowsInserted = 0
  · rw [if_pos hnone, Element.child?_mapChild_of_ne _ hpush hne, show extendedDimension
      p.maxColsInserted p.rowsInserted = id from funext fun e => if_pos hnone, Option.map_id]
    rfl
  · rw [if_neg hnone, Element.child?_mapChild_self _ _ fun e => Layout.name_moveRef _ e,
      Element.child?_mapChild_of_ne _ hpush hne, show extendedDimension
        p.maxColsInserted p.rowsInserted = _ from funext fun e => if_neg hnone]

/-- The largest number of columns that a row inserts, if one does. -/
def mostColumns (values : Substitutions) (visits : List RowVisit) : Int :=
  (visits.map fun v => (v.cells.map (·.net values)).sum).foldl max 0

/-- What a block of rows is after the pass. -/
def uncachedBlock (block : Element × List Element) : Element × List Element :=
  (uncachedRow block.1, block.2.map uncachedRow)

/-- What a pass has done to what refers to cells, given what it has visited. -/
structure SheetOutcome (options : FillOptions) (values : Substitutions) (visits : List RowVisit)
    (p q : Pass) : Prop where
  tables : q.tables = p.tables.map fun t => (sheetTable values options.pushDownPageBreaks
    p.sheet.name 0 visits t).mapColumns (fillHeader values)
  names : q.workbook.definedNames = p.workbook.definedNames.map (Layout.moveNames
    ((sheetMoves values options.pushDownPageBreaks p.sheet.name 0 visits).map Move.named?))
  merges : q.sheet.doc.root.child? "mergeCells" =
    (p.sheet.doc.root.child? "mergeCells").map fun e =>
      (sheetMoves values options.pushDownPageBreaks p.sheet.name 0 visits).foldl
        (fun e m => m.merges e) e
  breaks : q.sheet.doc.root.child? "rowBreaks" =
    (p.sheet.doc.root.child? "rowBreaks").map fun e =>
      (sheetMoves values options.pushDownPageBreaks p.sheet.name 0 visits).foldl
        (fun e m => m.breaks e) e
  dimension : p.maxColsInserted = 0 → q.sheet.doc.root.child? "dimension" =
    (p.sheet.doc.root.child? "dimension").map (extendedDimension (mostColumns values visits)
      (visits.map (·.generated values)).sum)

/-- What a pass has done to its sheet, given what it has visited. -/
structure SheetRun (options : FillOptions) (values : Substitutions) (visits : List RowVisit)
    (p q : Pass) (blocks : List (Element × List Element)) : Prop where
  rows : sourceRows q.sheet.doc.root = (blocks.map uncachedBlock).flatMap fun b => b.1 :: b.2
  done : RowsDone values q.strings options.substituteAllTableRows 0 visits blocks
  visited : Visited p.strings q.strings (sourceRows p.sheet.doc.root) visits
  /-- The numbers of all rows have to fit. -/
  outcome : RowsFit values 0 visits → SheetOutcome options values visits p q
  others : ∀ n, n ≠ "drawing" → n ≠ "mergeCells" → n ≠ "rowBreaks" → n ≠ "sheetData" →
    n ≠ "dimension" → q.sheet.doc.root.child? n = p.sheet.doc.root.child? n

/-- What a pass that succeeds has done. -/
theorem sheetRun_of_run {options : FillOptions} {files : ImageFiles} {values : Substitutions}
    {p q : Pass} (hp : p.Fresh) (h : p.run options files values = .ok q) :
    ∃ blocks, SheetRun options values (p.visits options files values) p q blocks := by
  obtain ⟨p', hfill, rfl⟩ := Pass.run_eq_ok h
  obtain ⟨blocks, hrun⟩ := Pass.rowsRun_of_fillSourceRows hfill
    (show p.withoutRows.rowsInserted = low32 0 from hp.rowsInserted)
  have hinserted := hrun.rowsInserted_of_fit
  obtain ⟨hrows, -, hmax, ⟨moves, hshifted⟩, hdone, hvisited, hnumbers, hseen, houtcome⟩ := hrun
  refine ⟨blocks, ?_, hdone, ⟨hvisited, hnumbers, hseen⟩, fun hfit => ?_,
    fun n hdrawing hmerges hbreaks hdata hdimension => ?_⟩
  · -- The list of rows was empty throughout, so it gets the finished rows and no others.
    have hdata : p'.sheet.doc.root.child? "sheetData" =
        (p.sheet.doc.root.child? "sheetData").map Element.removeElements :=
      hshifted.data.trans (Element.child?_mapChild_self _ _ Element.name_removeElements)
    have hpushed : p'.rows.toList = blocks.flatMap fun b => b.1 :: b.2 := by
      rw [hrows, show p.withoutRows.rows = #[] from hp.rows]
      rfl
    show sourceRows (p'.finishSheet (p.givenFor options files values)).sheet.doc.root = _
    rw [sourceRows, child?_finishSheet (by decide), if_pos rfl, hdata]
    cases hsource : p.sheet.doc.root.child? "sheetData" with
    | some data =>
      simp only [Option.map_some, Element.elements_mapNamed, Element.elements_pushAll,
        Element.elements_removeElements, List.nil_append, hpushed, List.map_flatMap,
        List.flatMap_map]
      rfl
    | none =>
      -- Without a list of rows there is nothing to visit.
      have hnone : sourceRows p.sheet.doc.root = [] := by simp [sourceRows, hsource]
      have hvisits : p.visits options files values = [] :=
        List.map_eq_nil_iff.1 (hvisited.trans hnone)
      have hnil : RowsDone values p'.strings options.substituteAllTableRows 0 [] blocks :=
        hvisits ▸ hdone
      cases hnil
      rfl
  -- When all numbers fit, the moves decide what is left of the regions, names and breaks.
  · obtain ⟨hmoved, htables⟩ := houtcome hfit
    refine ⟨?_, hmoved.names, ?_, ?_, fun hzero => ?_⟩
    · show p'.tables.map (·.mapColumns (fillHeader values)) = _
      rw [htables, List.map_map]
      rfl
    · refine (child?_finishSheet (by decide)).trans ((if_neg (by decide)).trans ?_)
      rw [hmoved.merges]
      congr 1
      exact Element.child?_mapChild_of_ne _ Element.name_removeElements (by decide)
    · refine (child?_finishSheet (by decide)).trans ((if_neg (by decide)).trans ?_)
      rw [hmoved.breaks]
      congr 1
      exact Element.child?_mapChild_of_ne _ Element.name_removeElements (by decide)
    -- A sheet that starts without inserted columns ends with those of its rows.
    · have hcols : p.withoutRows.maxColsInserted = 0 := hzero
      have hsum : p'.rowsInserted =
          ((p.visits options files values).map (·.generated values)).sum := hinserted hfit
      refine child?_dimension_finishSheet.trans ?_
      rw [hmoved.others _ (by decide) (by decide) (by decide), hmax (by omega), hsum, hcols]
      congr 1
      exact Element.child?_mapChild_of_ne _ Element.name_removeElements (by decide)
  · refine (child?_finishSheet hdimension).trans ((if_neg hdata).trans ?_)
    rw [hshifted.others n hdrawing hmerges hbreaks]
    exact Element.child?_mapChild_of_ne _ Element.name_removeElements hdata

/-- The finished rows take the place of the source rows, after all else that the list of rows has
inside. -/
theorem data_of_run {options : FillOptions} {files : ImageFiles} {values : Substitutions}
    {p q : Pass} (hp : p.Fresh) (h : p.run options files values = .ok q) :
    ∃ rows, q.sheet.doc.root.child? "sheetData" =
      (p.sheet.doc.root.child? "sheetData").map fun data =>
        (data.removeElements.pushAll rows).mapNamed "row" (·.mapNamed "c" dropCached) := by
  obtain ⟨p', hfill, rfl⟩ := Pass.run_eq_ok h
  obtain ⟨blocks, hrun⟩ := Pass.rowsRun_of_fillSourceRows hfill
    (show p.withoutRows.rowsInserted = low32 0 from hp.rowsInserted)
  obtain ⟨moves, hshifted⟩ := hrun.shifted
  -- The rows were emptied before and are pushed again at the end.
  have hdata : p'.sheet.doc.root.child? "sheetData" =
      (p.sheet.doc.root.child? "sheetData").map Element.removeElements :=
    hshifted.data.trans (Element.child?_mapChild_self _ _ Element.name_removeElements)
  refine ⟨p'.rows.toList, (child?_finishSheet (by decide)).trans ?_⟩
  rw [if_pos rfl, hdata, Option.map_map]
  rfl

/-! ### A small sheet -/

/-- A cell that shows a slot of the string table. -/
def sampleCell (attributes : List (String × String)) (slot : String) : Element :=
  .ofChildren "c" (attributes ++ [("t", "s")]) [.ofText "v" slot]

/-- A sheet with a table on its first row, and on its second row a list with items and one
without. -/
def sampleRoot : Element :=
  .ofChildren "worksheet" [] [
    .ofChildren "sheetData" [] [
      .ofChildren "row" [("r", "1")] [sampleCell [("r", "A1")] "0"],
      .ofChildren "row" [("spans", "1:4")] [
        sampleCell [("r", "A2")] "1", sampleCell [] "2", sampleCell [("r", "C2")] "3",
        sampleCell [("r", "D2"), ("s", "7")] "2"]],
    .ofChildren "mergeCells" [("count", "2")] [
      .ofChildren "mergeCell" [("ref", "A1:B1")] [],
      .ofChildren "mergeCell" [("ref", "B2:B3")] []]]

/-- A pass over the sheet, in a workbook with a name for one of its cells. -/
def samplePass : Pass where
  sheet := { name := "Plan", path := "sheet1.xml", doc := { root := sampleRoot }, rels := none }
  tables := []
  drawing := none
  strings := StringTable.ofList ["${table:t.k}", "${xs}", "total", "${none}"]
  workbook := {
    path := "workbook.xml", sheets := [], rels := .empty "workbook.xml.rels"
    doc := { root := .ofChildren "workbook" [] [
      .ofChildren "definedNames" [] [.ofText "definedName" "Plan!$B$2"]] } }
  package := default
  types := default

def sampleValues : Substitutions :=
  [("xs", .list [.text "a", .text "b", .text "c"]), ("none", .list []),
    ("t", .list [.record [("k", .text "p")], .record [("k", .text "q")]])]

/-- The pass of the sample has inserted nothing yet. -/
theorem samplePass_fresh : samplePass.Fresh := ⟨rfl, rfl⟩

/-- It succeeds. -/
theorem samplePass_runs : ∃ q, samplePass.run {} (fun _ => none) sampleValues = .ok q := by
  have hok : (samplePass.run {} (fun _ => none) sampleValues).isOk = true := by decide +kernel
  cases h : samplePass.run {} (fun _ => none) sampleValues with
  | error e =>
    rw [h] at hok
    exact nomatch hok
  | ok q => exact ⟨q, rfl⟩

end Fill

end SheetTemplate
