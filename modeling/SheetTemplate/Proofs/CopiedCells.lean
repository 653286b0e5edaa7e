import SheetTemplate.Proofs.GeneratedColumns

/-!
# Copies in generated rows

Where copies are asked for, a generated row is given those of the finished row it stands below. What
is copied is a matter of columns alone: all but the columns of table placeholders, and those that
the row has filled itself. So what other placeholders left on the finished row is copied too, be it
a value, a text, or an item of a list, and so are the items of a first element behind the column of
their placeholder. A plain cell is left out where an empty list pulls it into such a column.

`CopiesOnlyPlain` says that the columns tell plain cells from all others. It decides on whether the
copies are those of the cells without placeholders.

## Key results

- `finished_cells_copied`: the copies in the generated rows of a pass
- `copiesOnlyPlain_of_plainFields`: rows of plain cells and of table placeholders without lists
-/

namespace SheetTemplate.Fill

open Xml (Element)

variable {values : Substitutions} {cells : List CellVisit}

/-! ### Columns of table placeholders -/

/-- The columns in which cells of a row hold table placeholders for lists. -/
def tableColumns (values : Substitutions) (cells : List CellVisit) : List Nat :=
  (cells.filter fun c => (c.table? values).isSome).map (finishedColumn values cells)

/-- The columns of table placeholders, by their own columns and what is inserted left of them. -/
private theorem tableColsFrom_eq_map {number : Nat} {inserted : Int}
    (hinc : (cells.map CellVisit.col).Pairwise (· < ·)) :
    tableColsFrom values number inserted cells =
      (cells.filter fun c => (c.table? values).isSome).map fun c =>
        (c.target number (inserted + netLeft values c.col cells)).col := by
  induction cells generalizing inserted with
  | nil => rfl
  | cons v vs ih =>
    obtain ⟨hlater, hrest⟩ := List.pairwise_cons.1 hinc
    have hlt : ∀ w ∈ vs, v.col < w.col := fun w hw => hlater _ (List.mem_map_of_mem hw)
    -- The cells further right have the columns of `v` left of them.
    have hvs : tableColsFrom values number (inserted + v.net values) vs =
        (vs.filter fun c => (c.table? values).isSome).map fun c =>
          (c.target number (inserted + netLeft values c.col (v :: vs))).col := by
      rw [ih hrest]
      refine List.map_congr_left fun w hw => ?_
      rw [netLeft_cons, if_pos (hlt w (List.mem_filter.1 hw).1), ← Int.add_assoc]
    have hv : v.tableCols values (v.target number inserted) =
        if (v.table? values).isSome then
          [(v.target number (inserted + netLeft values v.col (v :: vs))).col] else [] := by
      rw [netLeft_head hlt, Int.add_zero]
      rfl
    rw [tableColsFrom, hvs, hv, List.filter_cons]
    split <;> rfl

/-- Table placeholders are remembered by their finished columns. -/
theorem tableColsFrom_eq (hinc : (cells.map CellVisit.col).Pairwise (· < ·))
    (hpos : ∀ c ∈ cells, 0 < c.col) (number : Nat) :
    tableColsFrom values number 0 cells = tableColumns values cells := by
  rw [tableColsFrom_eq_map hinc]
  refine List.map_congr_left fun c hc => ?_
  rw [target_eq hinc hpos (List.mem_filter.1 hc).1]

/-! ### Copies -/

/-- The copies of finished cells in the generated row with an index, counted from zero, below the
row with a number: all but those in columns of table placeholders and in columns that are taken. -/
def copiesBelow (values : Substitutions) (number i : Nat) (v : RowVisit) (finished : Element) :
    List Element :=
  ((finished.named "c").filter fun c => sortColumn c ∉ tableColumns values v.cells ∧
    sortColumn c ∉ columnsBelow values i v.cells).map fun c =>
      c.setAttr "r" { col := sortColumn c, row := number + (i + 1) : CellRef }.a1

/-- The copies of the source cells without placeholders, where their columns are not taken. -/
def plainBelow (values : Substitutions) (number i : Nat) (v : RowVisit) : List Element :=
  (v.cells.filter fun c =>
    ¬c.HasPlaceholder ∧ finishedColumn values v.cells c ∉ columnsBelow values i v.cells).map
      fun c => uncachedCell v.row.name (c.element.setAttr "r"
        { col := finishedColumn values v.cells c, row := number + (i + 1) : CellRef }.a1)

/-- Whether a generated row holds the fields that the cells of its source row put into it, and
besides them some copies. -/
def HoldsBeside (values : Substitutions) (strings : StringTable) (number i : Nat) (v : RowVisit)
    (row : Element) (copies : List Element) : Prop :=
  ∃ fields, List.Forall₂ (fun c => PutBelow values strings i c
      { col := finishedColumn values v.cells c, row := number }) v.cells fields ∧
    (row.named "c").Perm (fields.flatten.map (uncachedCell v.row.name) ++ copies)

/-- Whether of the finished cells in columns that a generated row has not taken just those stand in
columns of table placeholders that come from a placeholder. -/
def CopiesOnlyPlain (values : Substitutions) (i : Nat) (cells : List CellVisit) : Prop :=
  ∀ c ∈ cells, ∀ col ∈ List.range' (finishedColumn values cells c) (c.width values),
    col ∉ columnsBelow values i cells → (col ∈ tableColumns values cells ↔ c.HasPlaceholder)

instance (values : Substitutions) (i : Nat) (cells : List CellVisit) :
    Decidable (CopiesOnlyPlain values i cells) :=
  inferInstanceAs (Decidable (∀ c ∈ cells, ∀ col ∈ List.range' _ _, _ → (_ ↔ _)))

/-- What the generated row with an index, counted from zero, holds below a finished row with a
number. -/
structure RowCopies (values : Substitutions) (strings : StringTable) (number i : Nat)
    (v : RowVisit) (finished row : Element) : Prop where
  cells : HoldsBeside values strings number i v row (copiesBelow values number i v finished)
  plain_iff : HoldsBeside values strings number i v row (plainBelow values number i v) ↔
    CopiesOnlyPlain values i v.cells

/-- A cell without placeholders takes one column. -/
theorem mem_range'_of_plain (values : Substitutions) {c : CellVisit} (h : ¬c.HasPlaceholder)
    {col : Nat} :
    col ∈ List.range' (finishedColumn values cells c) (c.width values) ↔
      col = finishedColumn values cells c := by
  have hwidth : c.width values = 1 := by
    simp [CellVisit.width, (Pass.lists_eq_none values h).1]
  rw [hwidth, List.range'_one, List.mem_singleton]

/-! ### Columns of cells -/

section

variable (hinc : (cells.map CellVisit.col).Pairwise (· < ·)) (hpos : ∀ c ∈ cells, 0 < c.col)

include hinc hpos

/-- A finished column is that of one cell. -/
theorem eq_of_mem_range' {c d : CellVisit} (hc : c ∈ cells) (hd : d ∈ cells) {col : Nat}
    (hcol : col ∈ List.range' (finishedColumn values cells c) (c.width values))
    (hcol' : col ∈ List.range' (finishedColumn values cells d) (d.width values)) : c = d := by
  have hcol := List.mem_range'_1.1 hcol
  have hcol' := List.mem_range'_1.1 hcol'
  refine List.inj_on_of_nodup_map (hinc.imp Nat.ne_of_lt) hc hd ?_
  -- Of two columns the left one is at an end before the right one begins.
  rcases Nat.lt_trichotomy c.col d.col with hlt | heq | hlt
  · have hends : finishedColumn values cells c + c.width values ≤ finishedColumn values cells d :=
      finishedColumn_add_width_le hinc hpos hc hd hlt
    omega
  · exact heq
  · have hends : finishedColumn values cells d + d.width values ≤ finishedColumn values cells c :=
      finishedColumn_add_width_le hinc hpos hd hc hlt
    omega

/-- In a row of plain cells and of table placeholders that take no lists from their elements, the
columns tell plain cells from placeholders. -/
theorem copiesOnlyPlain_of_plainFields (i : Nat)
    (h : ∀ c ∈ cells, c.HasPlaceholder → (c.table? values).isSome ∧ c.PlainFields values) :
    CopiesOnlyPlain values i cells := by
  -- Every cell takes one column.
  have hone : ∀ c ∈ cells, ∀ col,
      col ∈ List.range' (finishedColumn values cells c) (c.width values) ↔
        col = finishedColumn values cells c := by
    intro c hc col
    by_cases hhas : c.HasPlaceholder
    · obtain ⟨htable, hplain⟩ := h c hc hhas
      have hwidth : c.width values = 1 := by
        simp [CellVisit.width, CellVisit.across?_of_plainFields hplain htable]
      rw [hwidth, List.range'_one, List.mem_singleton]
    · exact mem_range'_of_plain values hhas
  intro c hc col hcol _
  constructor
  · intro htable
    obtain ⟨d, hd, hdcol⟩ := List.mem_map.1 htable
    obtain ⟨hd, htable⟩ := List.mem_filter.1 hd
    rw [eq_of_mem_range' hinc hpos hc hd hcol ((hone d hd col).2 hdcol.symm)]
    exact CellVisit.hasPlaceholder_of_table? htable
  · intro hhas
    rw [(hone c hc col).1 hcol]
    exact List.mem_map_of_mem (List.mem_filter.2 ⟨hc, (h c hc hhas).1⟩)

end

/-! ### Copies of plain cells -/

section

variable {strings : StringTable} {rowName : String} {number : Nat} {c : CellVisit}
  {group : List Element}

/-- What is copied of the cells that come out of one cell, if the columns tell it from others. -/
private theorem copies_of_cellLaidOut {taken : List Nat}
    (h : CellLaidOut values strings rowName number cells c group)
    (hcols : group.map sortColumn =
      List.range' (finishedColumn values cells c) (c.width values))
    (honly : ∀ col ∈ List.range' (finishedColumn values cells c) (c.width values), col ∉ taken →
      (col ∈ tableColumns values cells ↔ c.HasPlaceholder)) (number' : Nat) :
    ((group.filter fun e => sortColumn e ∉ tableColumns values cells ∧ sortColumn e ∉ taken).map
        fun e => e.setAttr "r" { col := sortColumn e, row := number' : CellRef }.a1) =
      if ¬c.HasPlaceholder ∧ finishedColumn values cells c ∉ taken then
        [uncachedCell rowName (c.element.setAttr "r"
          { col := finishedColumn values cells c, row := number' : CellRef }.a1)]
      else [] := by
  have hrange : ∀ e ∈ group, sortColumn e ∈
      List.range' (finishedColumn values cells c) (c.width values) := by
    intro e he
    rw [← hcols]
    exact List.mem_map_of_mem he
  by_cases hhas : c.HasPlaceholder
  · -- All that is not taken stands in columns of table placeholders.
    rw [if_neg fun hno => hno.1 hhas, List.filter_eq_nil_iff.2, List.map_nil]
    intro e he hkeep
    obtain ⟨htable, htaken⟩ := of_decide_eq_true hkeep
    exact htable ((honly _ (hrange e he) htaken).2 hhas)
  · have hgroup := h.plain hhas
    subst hgroup
    have hcol := (mem_range'_of_plain values hhas).1 (hrange _ (List.mem_singleton_self _))
    by_cases htaken : finishedColumn values cells c ∈ taken
    · simp [hcol, htaken]
    · have htable := mt (honly _ ((mem_range'_of_plain values hhas).2 rfl) htaken).1 hhas
      simp only [List.filter_cons, hcol, htable, htaken, not_false_eq_true, and_self, decide_true,
        ↓reduceIte, List.filter_nil, List.map_cons, List.map_nil, hhas, setAttr_uncachedCell,
        Element.setAttr_setAttr]

end

/-- What is picked of lists is picked of each of them. -/
private theorem map_filter_flatten {α β γ : Type} {R : α → List β → Prop} {P : β → Bool}
    {f : β → γ} {Q : α → Prop} [DecidablePred Q] {g : α → γ} {l : List α} {groups : List (List β)}
    (h : List.Forall₂ R l groups)
    (hpick : ∀ a group, R a group → (group.filter P).map f = if Q a then [g a] else []) :
    (groups.flatten.filter P).map f = (l.filter fun a => Q a).map g := by
  induction h with
  | nil => rfl
  | @cons a group l groups hgroup _ ih =>
    rw [List.flatten_cons, List.filter_append, List.map_append, hpick a group hgroup, ih,
      List.filter_cons]
    by_cases hQ : Q a <;> simp [hQ]

/-! ### What a generated row holds -/

section

variable {strings first last : StringTable} {above i : Nat} {v : RowVisit}
  {block : Element × List Element}

/-- Copies of a row without cached values are the copies without them. -/
theorem copiesBelow_uncachedRow (number : Nat) (finished : Element) :
    copiesBelow values number i v (uncachedRow finished) =
      (copiesBelow values number i v finished).map (uncachedCell finished.name) := by
  unfold copiesBelow
  rw [named_uncachedRow, List.filter_map, List.map_map, List.map_map]
  simp only [Function.comp_def, sortColumn_uncachedCell, setAttr_uncachedCell]

/-- What is copied are cells. -/
theorem name_of_mem_copiesBelow {number : Nat} {finished c : Element}
    (hc : c ∈ copiesBelow values number i v finished) : c.name = "c" := by
  obtain ⟨d, hd, rfl⟩ := List.mem_map.1 hc
  rw [Element.name_setAttr]
  exact Element.name_of_mem_named finished "c" (List.mem_filter.1 hd).1

section

variable (hin : RowStaysInside values above v) (hpos : ∀ c ∈ v.cells, 0 < c.col)
  (hseen : v.Seen first last) (hi : i < v.generated values)

include hin hpos hseen hi

/-- The columns of copies of plain cells. -/
private theorem map_sortColumn_plainBelow :
    (plainBelow values (v.number + above) i v).map sortColumn =
      (v.cells.filter fun c => ¬c.HasPlaceholder ∧
        finishedColumn values v.cells c ∉ columnsBelow values i v.cells).map
          (finishedColumn values v.cells) := by
  have hbounds := hin.rows
  unfold plainBelow
  rw [List.map_map]
  refine List.map_congr_left fun c hc => ?_
  obtain ⟨hc, hplain⟩ := List.mem_filter.1 hc
  have hplain := of_decide_eq_true hplain
  have hinside := finishedColumns_inside values hin.columns hpos hin.cols
    (List.mem_flatMap.2 ⟨c, hc, (mem_range'_of_plain values hplain.1).2 rfl⟩)
  exact (sortColumn_uncachedCell _ _).trans
    (atColumn_setAttr (hseen.name_element c hc) hinside (by omega) (by omega)).1

/-- The columns of a generated row: those of the fields, and those of what it holds besides. -/
private theorem HoldsBeside.columns {row : Element} {copies : List Element}
    (hrow : HoldsBeside values strings (v.number + above) i v row copies) :
    ((row.named "c").map sortColumn).Perm
      (columnsBelow values i v.cells ++ copies.map sortColumn) := by
  obtain ⟨fields, hfields, hperm⟩ := hrow
  obtain ⟨hnames, hrefs⟩ := fields_side_by_side hfields hin hpos hseen.name_element hi
  have hbounds := hin.rows
  have hcols := map_sortColumn hnames hrefs (columnsBelow_inside hin hpos hi) (by omega) (by omega)
  have hmap := hperm.map sortColumn
  rwa [List.map_append, List.map_map, show sortColumn ∘ uncachedCell v.row.name = sortColumn from
    funext (sortColumn_uncachedCell _), hcols] at hmap

end

variable (h : RowDone values strings true (v.number + above) v block)
  (hin : RowStaysInside values above v)
  (hpos : ∀ c ∈ v.cells, 0 < c.col)

include h hin hpos

/-- The columns of the copies that a generated row is given. -/
private theorem map_sortColumn_copiesBelow (hi : i < v.generated values) :
    (copiesBelow values (v.number + above) i v (uncachedBlock block).1).map sortColumn =
      (finishedColumns values v.cells).filter fun col =>
        col ∉ tableColumns values v.cells ∧ col ∉ columnsBelow values i v.cells := by
  obtain ⟨hfinished, hcols⟩ := finished_atColumn h hin hpos
  have hbounds := hin.rows
  rw [uncachedBlock, copiesBelow_uncachedRow, List.map_map, ← hcols, List.filter_map]
  unfold copiesBelow
  rw [List.map_map]
  refine List.map_congr_left fun c hc => ?_
  have hc := hfinished c (List.mem_filter.1 hc).1
  exact (sortColumn_uncachedCell _ _).trans
    (atColumn_setAttr hc.name hc.inside (by omega) (by omega)).1

variable (hseen : v.Seen first last)

include hseen

/-- The cells of a generated row: those of the fields, and the copies. -/
theorem holdsBeside_of_rowDone {row : Element} (hget : (uncachedBlock block).2[i]? = some row) :
    HoldsBeside values strings (v.number + above) i v row
      (copiesBelow values (v.number + above) i v (uncachedBlock block).1) := by
  -- The row was made from its fields, then got its copies, and then was put in order.
  obtain ⟨hi, made, hmade, rfl⟩ := madeRow_of_rowDone h hin hpos hget
  obtain ⟨fields, hflatten, hfields⟩ := hmade.fields
  obtain ⟨hnames, hrefs⟩ := fields_side_by_side hfields hin hpos hseen.name_element hi
  have hbounds := hin.rows
  have hcols : made.elements.map sortColumn = columnsBelow values i v.cells := by
    rw [hflatten]
    exact map_sortColumn hnames hrefs (columnsBelow_inside hin hpos hi) (by omega) (by omega)
  have hcopies : Pass.plainCopies block.1.elements
      (tableColsFrom values (v.number + above) 0 v.cells) made =
        copiesBelow values (v.number + above) i v block.1 := by
    rw [plainCopies_eq hmade.number (by omega), tableColsFrom_eq hin.columns hpos, hcols]
    simp [copiesBelow, Element.named]
  -- The copies are put at the end of the row, and sorting keeps what it has.
  generalize hcopied : withCopies true block.1.elements
    (tableColsFrom values (v.number + above) 0 v.cells) made = copied
  have hname : copied.name = v.row.name := by
    rw [← hcopied]
    exact hmade.name
  have helements : copied.elements =
      fields.flatten ++ copiesBelow values (v.number + above) i v block.1 := by
    rw [← hcopied, withCopies, if_pos rfl, Element.elements_pushAll, hcopies, hflatten]
  have hcells : ∀ c ∈ copied.elements, c.name = "c" := by
    rw [helements]
    exact fun c hc => (List.mem_append.1 hc).elim (hnames c) name_of_mem_copiesBelow
  have hperm : (sortCells copied.elements).Perm copied.elements := List.mergeSort_perm ..
  refine ⟨fields, hfields, ?_⟩
  have hsorted : (Pass.sortRow copied).name = v.row.name := hname
  rw [named_uncachedRow, named_sortRow hcells, hsorted]
  refine (hperm.map _).trans ?_
  rw [helements, List.map_append, uncachedBlock, copiesBelow_uncachedRow, h.renumbered.name]

/-- Where the copies of a generated row can be taken for those of the plain cells, the columns tell
plain cells from all others. -/
private theorem copiesOnlyPlain_of_holdsBeside {row : Element}
    (hget : (uncachedBlock block).2[i]? = some row)
    (hplain : HoldsBeside values strings (v.number + above) i v row
      (plainBelow values (v.number + above) i v)) :
    CopiesOnlyPlain values i v.cells := by
  obtain ⟨hi, -⟩ := madeRow_of_rowDone h hin hpos hget
  -- The fields take the same columns, so the copies do.
  have hsame := (holdsBeside_of_rowDone h hin hpos hseen hget).columns hin hpos hseen hi
  have hcols := (List.perm_append_left_iff _).1
    (hsame.symm.trans (hplain.columns hin hpos hseen hi))
  rw [map_sortColumn_copiesBelow h hin hpos hi,
    map_sortColumn_plainBelow hin hpos hseen hi] at hcols
  intro c hc col hcol hbelow
  have hcopied : col ∈ (finishedColumns values v.cells).filter (fun col =>
      col ∉ tableColumns values v.cells ∧ col ∉ columnsBelow values i v.cells) ↔
        col ∉ tableColumns values v.cells := by
    have hfinished : col ∈ finishedColumns values v.cells := List.mem_flatMap.2 ⟨c, hc, hcol⟩
    simp [List.mem_filter, hfinished, hbelow]
  have hmem := hcopied.symm.trans hcols.mem_iff
  rw [← not_iff_not, hmem]
  constructor
  · -- A plain cell in the column can be no other one.
    intro hcopy
    obtain ⟨d, hd, hdcol⟩ := List.mem_map.1 hcopy
    obtain ⟨hd, hdplain⟩ := List.mem_filter.1 hd
    have hdplain := (of_decide_eq_true hdplain).1
    rwa [eq_of_mem_range' hin.columns hpos hc hd hcol
      ((mem_range'_of_plain values hdplain).2 hdcol.symm)]
  · intro hno
    have hcol := (mem_range'_of_plain values hno).1 hcol
    subst hcol
    exact List.mem_map_of_mem (List.mem_filter.2 ⟨hc, decide_eq_true ⟨hno, hbelow⟩⟩)

/-- Where the columns tell plain cells from all others, the copies are those of the plain cells. -/
private theorem copiesBelow_eq_plainBelow (honly : CopiesOnlyPlain values i v.cells) :
    copiesBelow values (v.number + above) i v (uncachedBlock block).1 =
      plainBelow values (v.number + above) i v := by
  have hrows := hin.rows
  obtain ⟨shown, hspread, hnamed⟩ :=
    named_of_rowDone h hpos hin.columns hrows.1 (by omega) hin.cols
  have hlaid := laidOut_of_spread v.row.name hspread hin.columns hpos hin.cols hrows.1 (by omega)
  have hmem := (List.forall₂_and_left _ _).2 ⟨fun c hc => hc, hlaid⟩
  -- Both sides are copies of the same cells, visit by visit.
  unfold copiesBelow plainBelow
  rw [hnamed]
  refine map_filter_flatten hmem fun c group ⟨hc, hgroup⟩ => ?_
  refine copies_of_cellLaidOut hgroup ?_ (honly c hc) _
  refine map_sortColumn (fun e he => (hgroup.name_eq he).trans (hseen.name_element c hc))
    hgroup.attr?_eq (fun col hcol => ?_) hrows.1 (by omega)
  exact finishedColumns_inside values hin.columns hpos hin.cols
    (List.mem_flatMap.2 ⟨c, hc, hcol⟩)

/-- What the rows generated for a row hold. -/
private theorem rowCopies_of_rowDone {row : Element}
    (hget : (uncachedBlock block).2[i]? = some row) :
    RowCopies values strings (v.number + above) i v (uncachedBlock block).1 row where
  cells := holdsBeside_of_rowDone h hin hpos hseen hget
  plain_iff := by
    refine ⟨copiesOnlyPlain_of_holdsBeside h hin hpos hseen hget, fun honly => ?_⟩
    rw [← copiesBelow_eq_plainBelow h hin hpos hseen honly]
    exact holdsBeside_of_rowDone h hin hpos hseen hget

end

/-! ### A pass -/

/-- Copies in generated rows: besides its fields each generated row holds copies of the cells of the
finished row above it that stand neither in a column of a table placeholder nor in one that is
taken. These are the cells without placeholders exactly if the columns tell them from others. -/
theorem finished_cells_copied {options : FillOptions} {files : ImageFiles} {p q : Pass}
    (hp : p.Fresh) (hrun : p.run options files values = .ok q)
    (hcopied : options.substituteAllTableRows = true) :
    Visited p.strings q.strings (sourceRows p.sheet.doc.root) (p.visits options files values) ∧
      ∃ blocks : List (Element × List Element),
        sourceRows q.sheet.doc.root = blocks.flatMap (fun b => b.1 :: b.2) ∧
        blocks.length = (p.visits options files values).length ∧
        ∀ (k : Nat) (v : RowVisit) (b : Element × List Element),
          (p.visits options files values)[k]? = some v → blocks[k]? = some b →
          b.2.length = v.generated values ∧
          (RowStaysInside values (rowsBefore values (p.visits options files values) k) v →
            ∀ (i : Nat) (row : Element), b.2[i]? = some row →
              RowCopies values q.strings
                (v.number + rowsBefore values (p.visits options files values) k) i v b.1 row) := by
  obtain ⟨blocks, hsheet⟩ := sheetRun_of_run hp hrun
  generalize p.visits options files values = visits at hsheet ⊢
  refine ⟨hsheet.visited, blocks.map uncachedBlock, hsheet.rows, hsheet.length_eq,
    fun k v b hv hb => ?_⟩
  have hmem := List.mem_of_getElem? hv
  obtain ⟨block, rfl, hrow⟩ := hsheet.getElem? hv hb
  rw [hcopied] at hrow
  refine ⟨?_, fun hin i row hget => rowCopies_of_rowDone (hin.fits.number ▸ hrow) hin
    (hsheet.visited.col_pos v hmem) (hsheet.visited.seen v hmem) hget⟩
  rw [uncachedBlock, List.length_map, hrow.generated]

/-! ### Lists of lists -/

/-- Options that ask for copies. -/
def copyingOptions : FillOptions := { substituteAllTableRows := true }

/-- A pass over a sheet with one row: a table placeholder in `A1`, and a plain cell in `B1`. -/
def totalPass : Pass :=
  { nestedPass with strings := StringTable.ofList ["${table:t.k}", "total"] }

private theorem zero_lt_totalVisits (first later : List Value) :
    0 < (totalPass.visits copyingOptions (fun _ => none) (nestedValues first later)).length :=
  Nat.succ_pos _

private theorem zero_lt_copyingVisits (first later : List Value) :
    0 < (nestedPass.visits copyingOptions (fun _ => none) (nestedValues first later)).length :=
  Nat.succ_pos _

/-- Where both elements have two items, the plain cell is copied right of them. -/
theorem finished_cells_copied_sample :
    ∃ q, totalPass.run copyingOptions (fun _ => none)
        (nestedValues [.text "a", .text "b"] [.text "c", .text "d"]) = .ok q ∧
      ∃ row ∈ sourceRows q.sheet.doc.root, sampleCell [("r", "C2")] "1" ∈ row.named "c" := by
  obtain ⟨q, hq, -⟩ := exists_eq_ok (show ((totalPass.run copyingOptions (fun _ => none)
      (nestedValues [.text "a", .text "b"] [.text "c", .text "d"])).toOption.map fun _ => ()) =
    some () by decide +kernel)
  obtain ⟨-, blocks, hrows, hlength, hcopies⟩ := finished_cells_copied ⟨rfl, rfl⟩ hq rfl
  have hblock : 0 < blocks.length := hlength ▸ zero_lt_totalVisits _ _
  obtain ⟨hgenerated, hinside⟩ := hcopies 0 _ _
    (List.getElem?_eq_getElem (zero_lt_totalVisits _ _)) (List.getElem?_eq_getElem hblock)
  have hrow : 0 < blocks[0].2.length := by
    rw [hgenerated]
    decide +kernel
  -- In the third column stands a plain cell, which is copied beside the list.
  obtain ⟨fields, -, hperm⟩ := (hinside
    ⟨by decide +kernel, by decide +kernel, by decide +kernel, by decide +kernel⟩ 0 _
    (List.getElem?_eq_getElem hrow)).plain_iff.2 (by decide +kernel)
  refine ⟨q, hq, blocks[0].2[0], ?_, hperm.mem_iff.2 (List.mem_append_right _ ?_)⟩
  · rw [hrows]
    exact List.mem_flatMap.2
      ⟨_, List.getElem_mem hblock, List.mem_cons_of_mem _ (List.getElem_mem hrow)⟩
  · decide +kernel

/-- An item of the first element can be copied into the row of the second. -/
theorem first_item_copied :
    ¬∀ (options : FillOptions) (files : ImageFiles) (values : Substitutions) (p q : Pass),
      p.Fresh → p.run options files values = .ok q → options.substituteAllTableRows = true →
      Increasing (sourceRows p.sheet.doc.root) →
      Inside values (p.visits options files values) →
      ∃ blocks : List (Element × List Element),
        sourceRows q.sheet.doc.root = blocks.flatMap (fun b => b.1 :: b.2) ∧
        List.Forall₂ (fun v b => b.2.length = v.generated values ∧
          ∀ (i : Nat) (row : Element), b.2[i]? = some row →
            HoldsBeside values q.strings
              (finishedNumber values (p.visits options files values) v) i v row
              (plainBelow values (finishedNumber values (p.visits options files values) v) i v))
          (p.visits options files values) blocks := by
  intro hclaim
  obtain ⟨q, hq, -⟩ := exists_eq_ok (show ((nestedPass.run copyingOptions (fun _ => none)
      (nestedValues [.text "a", .text "b"] [.text "c"])).toOption.map fun _ => ()) =
    some () by decide +kernel)
  have hinc : Increasing (sourceRows nestedPass.sheet.doc.root) := by decide +kernel
  obtain ⟨blocks, hrows, hblocks⟩ := hclaim copyingOptions (fun _ => none) _ nestedPass q
    ⟨rfl, rfl⟩ hq rfl hinc (by decide +kernel)
  obtain ⟨done, hsheet⟩ := sheetRun_of_run ⟨rfl, rfl⟩ hq
  have hone : (nestedPass.visits copyingOptions (fun _ => none)
      (nestedValues [.text "a", .text "b"] [.text "c"])).length = 1 := by decide +kernel
  obtain ⟨block, rfl⟩ := List.length_eq_one_iff.1 (hsheet.done.length_eq.trans hone)
  obtain rfl : blocks = [uncachedBlock block] :=
    eq_singleton_of_flatMap (hblocks.length_eq ▸ hone) (hrows.symm.trans hsheet.rows)
  obtain ⟨hgenerated, hplain⟩ := hblocks.get (zero_lt_copyingVisits _ _) Nat.zero_lt_one
  have hrow : 0 < (uncachedBlock block).2.length := by
    refine Nat.lt_of_lt_of_eq ?_ hgenerated.symm
    decide +kernel
  have hdone := (hsheet.forall₂_of_fit (hsheet.visited.inOrder hinc).numbers
    (by decide +kernel)).get (zero_lt_copyingVisits _ _) Nat.zero_lt_one
  have hmem := List.get_mem _ ⟨0, zero_lt_copyingVisits [.text "a", .text "b"] [.text "c"]⟩
  have honly := copiesOnlyPlain_of_holdsBeside hdone
    ⟨by decide +kernel, by decide +kernel, by decide +kernel, by decide +kernel⟩
    (hsheet.visited.col_pos _ hmem) (hsheet.visited.seen _ hmem) (List.getElem?_eq_getElem hrow)
    (hplain 0 _ (List.getElem?_eq_getElem hrow))
  -- The second item of the first element stands in `B1`, where no placeholder is.
  exact absurd honly (by decide +kernel)

end SheetTemplate.Fill
