import Mathlib.Data.List.Nodup
import Mathlib.Data.List.Pairwise
import SheetTemplate.Proofs.GeneratedRows

/-!
# The columns of generated rows

A generated row has a cell, or the items of a list, in the final column of every placeholder whose
list reaches so far. The placeholders have moved by what was inserted on the row at hand, and not by
what the generated row itself needs. So a list that is longer than the one on the row at hand can
reach the column of the next placeholder, and then the row has two cells with one reference.

`FieldsApart` says that no field reaches the next one. It is a matter of the lengths of the lists,
and decides on the order of the finished row.

## Key results

- `nodup_columnsBelow_iff`: when the fields in a generated row take different columns
- `fieldsApart_of_le_width`: they do where no list is longer than that on the row at hand
- `generated_columns_increase`: the columns of the generated rows of a pass
-/

namespace SheetTemplate.Fill

open Xml (Element)

variable {values : Substitutions} {cells : List CellVisit}

/-! ### Fields side by side -/

/-- The number of cells that a field takes. -/
def fieldWidth (value : Value) : Nat :=
  match value.items? with
  | some items => items.length
  | none => 1

/-- The number of cells that a cell puts into a generated row, counted from zero. -/
def CellVisit.widthBelow (values : Substitutions) (i : Nat) (v : CellVisit) : Nat :=
  ((v.laterFields values)[i]?.map fieldWidth).getD 0

/-- The columns that the cells of a row take in a generated row. -/
def columnsBelow (values : Substitutions) (i : Nat) (cells : List CellVisit) : List Nat :=
  cells.flatMap fun v => List.range' (finishedColumn values cells v) (v.widthBelow values i)

/-- Whether every field in a generated row ends before the next one begins. -/
def FieldsApart (values : Substitutions) (i : Nat) (cells : List CellVisit) : Prop :=
  ∀ v ∈ cells, ∀ w ∈ cells, v.col < w.col → 0 < w.widthBelow values i →
    finishedColumn values cells v + v.widthBelow values i ≤ finishedColumn values cells w

instance (values : Substitutions) (i : Nat) (cells : List CellVisit) :
    Decidable (FieldsApart values i cells) :=
  inferInstanceAs (Decidable (∀ v ∈ cells, ∀ w ∈ cells, _))

/-- Two runs of columns, of which the second begins no earlier, have nothing in common if it is
empty or the first ends before it. -/
private theorem disjoint_range'_iff {a m b n : Nat} (h : a ≤ b) :
    (List.range' a m).Disjoint (List.range' b n) ↔ (0 < n → a + m ≤ b) := by
  constructor
  · intro hdisjoint hn
    by_contra hlt
    exact hdisjoint (List.mem_range'_1.2 ⟨h, by omega⟩)
      (List.mem_range'_1.2 ⟨Nat.le_refl b, by omega⟩)
  · intro himp col hfirst hsecond
    have hfirst := List.mem_range'_1.1 hfirst
    have hsecond := List.mem_range'_1.1 hsecond
    have := himp (by omega)
    omega

/-- What holds of the cells of a row from left to right holds of any two of them. -/
private theorem forall_of_pairwise {R : CellVisit → CellVisit → Prop}
    (hinc : (cells.map CellVisit.col).Pairwise (· < ·)) (h : cells.Pairwise R) :
    ∀ v ∈ cells, ∀ w ∈ cells, v.col < w.col → R v w := by
  have hboth : cells.Pairwise fun v w => (v.col < w.col → R v w) ∧ (w.col < v.col → R w v) :=
    (h.and (List.pairwise_map.1 hinc)).imp fun {v w} hvw =>
      ⟨fun _ => hvw.1, fun hlt => absurd hlt (Nat.lt_asymm hvw.2)⟩
  intro v hv w hw hlt
  have hne : v ≠ w := fun heq => Nat.lt_irrefl _ (heq ▸ hlt)
  have : Std.Symm fun v w : CellVisit => (v.col < w.col → R v w) ∧ (w.col < v.col → R w v) :=
    ⟨fun _ _ hvw => ⟨hvw.2, hvw.1⟩⟩
  exact (hboth.forall hv hw hne).1 hlt

section

variable (hinc : (cells.map CellVisit.col).Pairwise (· < ·)) (hpos : ∀ v ∈ cells, 0 < v.col)

include hinc hpos

/-- A cell leaves the columns that it takes on the row at hand to itself. -/
theorem finishedColumn_add_width_le {v w : CellVisit} (hv : v ∈ cells) (hw : w ∈ cells)
    (hlt : v.col < w.col) :
    finishedColumn values cells v + v.width values ≤ finishedColumn values cells w := by
  have hnext := add_net_lt values hinc hv hlt
  have hwidth := net_eq_width values v
  have hcolv := (coe_finishedColumn values hinc hpos hv).2
  have hcolw := (coe_finishedColumn values hinc hpos hw).2
  omega

/-- Where no list is longer than the one on the row at hand, the fields stand apart. -/
theorem fieldsApart_of_le_width {i : Nat}
    (h : ∀ v ∈ cells, v.widthBelow values i ≤ v.width values) : FieldsApart values i cells := by
  intro v hv w hw hlt _
  have hbefore : finishedColumn values cells v + v.width values ≤ finishedColumn values cells w :=
    finishedColumn_add_width_le hinc hpos hv hw hlt
  have hshort := h v hv
  omega

/-- The fields in a generated row take different columns exactly if they stand apart. -/
theorem nodup_columnsBelow_iff (i : Nat) :
    (columnsBelow values i cells).Nodup ↔ FieldsApart values i cells := by
  -- Final columns are in the order of the placeholders.
  have hle : ∀ v ∈ cells, ∀ w ∈ cells, v.col < w.col →
      finishedColumn values cells v ≤ finishedColumn values cells w := fun v hv w hw hlt =>
    Nat.le_trans (Nat.le_add_right _ _) (finishedColumn_add_width_le hinc hpos hv hw hlt)
  unfold columnsBelow
  rw [List.nodup_flatMap, and_iff_right fun v _ => List.nodup_range']
  constructor
  · intro hpair v hv w hw hlt
    exact (disjoint_range'_iff (hle v hv w hw hlt)).1 (forall_of_pairwise hinc hpair v hv w hw hlt)
  · intro hapart
    exact (List.pairwise_map.1 hinc).imp_of_mem fun {v w} hv hw hlt =>
      (disjoint_range'_iff (hle v hv w hw hlt)).2 (hapart v hv w hw hlt)

end

/-! ### Cells of generated rows -/

/-- The cells of a generated row, none if there is no such row. -/
def rowCells (row : Option Element) : List Element := (row.map Element.elements).getD []

/-- The cells that one cell of a row puts into a generated row: those of its field, if it has
one. -/
def PutBelow (values : Substitutions) (strings : StringTable) (i : Nat) (v : CellVisit)
    (cell : CellRef) (group : List Element) : Prop :=
  match (v.laterFields values)[i]? with
  | some value => ∃ cols, FieldCells strings (v.element.setAttr "r" cell.a1)
      (cell.withRow (cell.row + (i + 1))) value group cols
  | none => group = []

/-- A field adds its own cells to the row that it belongs to. -/
private theorem rowCells_of_fieldsPut {strings : StringTable} {row : Element} {v : CellVisit}
    {cell : CellRef} {rows rows' : List Element}
    (h : FieldsPut strings row (v.element.setAttr "r" cell.a1) cell (v.laterFields values) rows
      rows') {i : Nat} (hfit : cell.row + (i + 1) ≤ Text.max32) :
    ∃ group, PutBelow values strings i v cell group ∧
      rowCells rows'[i]? = rowCells rows[i]? ++ group := by
  obtain ⟨groups, hlength, hgroups, hrows⟩ := h
  unfold PutBelow
  rw [← Text.add32_of_le hfit]
  cases hvalue : (v.laterFields values)[i]? with
  | none =>
    -- The list is at its end.
    have hnone : groups[i]? = none := by
      rw [List.getElem?_eq_none_iff, hlength]
      exact List.getElem?_eq_none_iff.1 hvalue
    refine ⟨[], rfl, ?_⟩
    rw [hrows i, hnone, List.append_nil]
    rfl
  | some value =>
    have hi := (List.getElem?_eq_some_iff.1 hvalue).1
    have hgroup := List.getElem?_eq_getElem (hlength ▸ hi : i < groups.length)
    refine ⟨groups[i].1, ⟨groups[i].2, hgroups i value _ hvalue hgroup⟩, ?_⟩
    rw [hrows i, hgroup]
    -- A row that is made for the field has no cells yet.
    have hold : (rows[i]?.getD (newRow row cell.row (i + 1))).elements = rowCells rows[i]? := by
      cases rows[i]? <;> rfl
    -- The spans of a row are not its cells.
    have hadd : ∀ (cells : List Element) (cols : Int) (e : Element),
        (Pass.addCells cells cols e).elements = e.elements ++ cells := by
      intro cells cols e
      unfold Pass.addCells
      dsimp only
      split
      · exact e.elements_pushAll cells
      · rw [elements_widenSpans, e.elements_pushAll]
    rw [← hold]
    exact hadd ..

/-- The cells of a generated row come from the cells of the source row, one after another. -/
theorem rowCells_of_grown {strings : StringTable} {row : Element} {number : Nat} {inserted : Int}
    {visits : List CellVisit} {rows rows' : List Element}
    (h : Grown values strings row number inserted visits rows rows')
    (hinc : (visits.map CellVisit.col).Pairwise (· < ·)) {i : Nat}
    (hfit : number + (i + 1) ≤ Text.max32) :
    ∃ groups, List.Forall₂ (fun v => PutBelow values strings i v
        (v.target number (inserted + netLeft values v.col visits))) visits groups ∧
      rowCells rows'[i]? = rowCells rows[i]? ++ groups.flatten := by
  induction h with
  | nil inserted rows => exact ⟨[], .nil, (List.append_nil _).symm⟩
  | @cons inserted v vs rows rows₁ rows' hcell _ ih =>
    obtain ⟨hlater, hrest⟩ := List.pairwise_cons.1 hinc
    have hlt : ∀ w ∈ vs, v.col < w.col := fun w hw => hlater _ (List.mem_map_of_mem hw)
    obtain ⟨group, hgroup, hput⟩ := rowCells_of_fieldsPut hcell hfit
    obtain ⟨groups, hgroups, hputs⟩ := ih hrest
    refine ⟨group :: groups, .cons ?_ ?_, ?_⟩
    · rw [netLeft_head hlt, Int.add_zero]
      exact hgroup
    · -- The cells further right have the columns of `v` left of them.
      apply forall₂_imp_of_mem hgroups
      intro w hw group' hw'
      rwa [netLeft_cons, if_pos (hlt w hw), ← Int.add_assoc]
    · rw [hputs, hput, List.append_assoc, List.flatten_cons]

/-- Inside the sheet, the cells of a field stand side by side from the column of its placeholder
on. -/
private theorem FieldCells.side_by_side {strings : StringTable} {template : Element} {col row : Nat}
    {value : Value} {group : List Element} {cols : Int}
    (h : FieldCells strings template { col, row } value group cols) (hcol : 0 < col)
    (hlast : col + fieldWidth value ≤ maxCols + 1) (hrow : 0 < row) (hrow' : row ≤ maxRows) :
    (∀ c ∈ group, c.name = template.name) ∧
      group.map (·.attr? "r") =
        (List.range' col (fieldWidth value)).map fun col => some { col, row : CellRef }.a1 := by
  unfold fieldWidth at hlast ⊢
  -- A single value takes its own column, and a list one column for each item.
  cases hitems : value.items? with
  | none =>
    obtain ⟨-, c, rfl, hc⟩ := h.single hitems
    have hc := hc.refilled
    refine ⟨fun c' hc' => ?_, ?_⟩
    · rw [List.mem_singleton.1 hc', hc.name, Element.name_setAttr]
    · rw [List.map_singleton, hc.attr "r" (by decide), Element.attr?_setAttr_self]
      rfl
  | some items =>
    rw [hitems] at hlast
    dsimp only at hlast
    have hlaid := (h.list items hitems).2
    -- Item `i` stands `i` columns right of the placeholder.
    have hshown : ∀ i (hi : i < group.length), Refilled
        (template.setAttr "r" { col := col + i, row : CellRef }.a1) group[i] := by
      intro i hi
      have hi' : i < items.length := hlaid.length ▸ hi
      have hshows := hlaid.shows i _ _ (List.getElem?_eq_getElem hi) (List.getElem?_eq_getElem hi')
      rw [offset_eq hcol (by omega) hrow hrow'] at hshows
      exact hshows.refilled
    refine ⟨fun c hc => ?_, List.ext_getElem ?_ fun i hi hi' => ?_⟩
    · obtain ⟨i, hi, rfl⟩ := List.getElem_of_mem hc
      rw [(hshown i hi).name, Element.name_setAttr]
    · rw [List.length_map, hlaid.length, List.length_map, List.length_range']
    · rw [List.length_map] at hi
      rw [List.getElem_map, (hshown i hi).attr "r" (by decide), Element.attr?_setAttr_self,
        List.getElem_map, List.getElem_range', Nat.one_mul]

/-- What a cell at its finished column puts into a generated row. -/
private theorem PutBelow.side_by_side {strings : StringTable} {i number : Nat} {v : CellVisit}
    {group : List Element}
    (h : PutBelow values strings i v { col := finishedColumn values cells v, row := number } group)
    (hcol : 0 < finishedColumn values cells v)
    (hlast : finishedColumn values cells v + v.widthBelow values i ≤ maxCols + 1)
    (hrow : number + (i + 1) ≤ maxRows) :
    (∀ c ∈ group, c.name = v.element.name) ∧
      group.map (·.attr? "r") =
        (List.range' (finishedColumn values cells v) (v.widthBelow values i)).map fun col =>
          some { col, row := number + (i + 1) : CellRef }.a1 := by
  unfold PutBelow at h
  unfold CellVisit.widthBelow at hlast ⊢
  -- A list that has come to its end takes none.
  cases hvalue : (v.laterFields values)[i]? with
  | none =>
    rw [hvalue] at h
    subst h
    exact ⟨fun c hc => absurd hc List.not_mem_nil, rfl⟩
  | some value =>
    rw [hvalue] at h hlast
    obtain ⟨cols, hcells⟩ := h
    have hcells : FieldCells strings _ { col := finishedColumn values cells v
                                         row := number + (i + 1) } value group cols := hcells
    exact hcells.side_by_side hcol hlast (by omega) hrow

/-- The cells of a row, group by group. -/
private theorem flatten_side_by_side {number : Nat} {columns : CellVisit → List Nat}
    {groups : List (List Element)}
    (h : List.Forall₂ (fun v group => (∀ c ∈ group, c.name = "c") ∧
      group.map (·.attr? "r") =
        (columns v).map fun col => some { col, row := number : CellRef }.a1) cells groups) :
    (∀ c ∈ groups.flatten, c.name = "c") ∧
      groups.flatten.map (·.attr? "r") =
        (cells.flatMap columns).map fun col => some { col, row := number : CellRef }.a1 := by
  induction h with
  | nil => exact ⟨fun c hc => absurd hc List.not_mem_nil, rfl⟩
  | cons hgroup _ ih =>
    rw [List.flatten_cons, List.flatMap_cons, List.map_append, List.map_append]
    refine ⟨fun c hc => ?_, by rw [hgroup.2, ih.2]⟩
    exact (List.mem_append.1 hc).elim (hgroup.1 c) (ih.1 c)

/-! ### Finished generated rows -/

/-- A row that stays inside the sheet together with the rows that are generated for it, with
generated rows above it. -/
structure RowStaysInside (values : Substitutions) (above : Nat) (v : RowVisit) : Prop where
  columns : (v.cells.map CellVisit.col).Pairwise (· < ·)
  rows : 0 < v.number + above ∧ v.number + above + v.generated values ≤ maxRows
  cols : ∀ c ∈ v.cells, c.col + netLeft values c.col v.cells + c.net values ≤ maxCols
  below : ∀ i < v.generated values, ∀ c ∈ v.cells,
    finishedColumn values v.cells c + c.widthBelow values i ≤ maxCols + 1

/-- What stays inside the sheet has numbers that fit. -/
theorem RowStaysInside.fits {values : Substitutions} {above : Nat} {v : RowVisit}
    (h : RowStaysInside values above v) : RowFits values above v :=
  Nat.le_trans h.rows.2 (by decide)

/-- A cell whose reference is that of its column on the row with a number. -/
structure AtColumn (number : Nat) (cell : Element) : Prop where
  name : cell.name = "c"
  ref : cell.attr? "r" = some { col := sortColumn cell, row := number : CellRef }.a1
  inside : 0 < sortColumn cell ∧ sortColumn cell ≤ maxCols

/-- Cells with references inside the sheet stand at their columns. -/
private theorem atColumn_of_refs {number : Nat} {group : List Element} {cols : List Nat}
    (hname : ∀ c ∈ group, c.name = "c")
    (hattr : group.map (·.attr? "r") = cols.map fun col => some { col, row := number : CellRef }.a1)
    (hcols : ∀ col ∈ cols, 0 < col ∧ col ≤ maxCols) (hrow : 0 < number) (hrow' : number ≤ maxRows) :
    ∀ c ∈ group, AtColumn number c := by
  have hsort := map_sortColumn hname hattr hcols hrow hrow'
  intro c hc
  refine ⟨hname c hc, ?_, hcols _ (hsort ▸ List.mem_map_of_mem hc)⟩
  rw [← hsort, List.map_map] at hattr
  exact List.map_inj_left.1 hattr c hc

/-- A cell stands where its reference puts it. -/
theorem atColumn_setAttr {col number : Nat} {c : Element} (hname : c.name = "c")
    (hcol : 0 < col ∧ col ≤ maxCols) (hrow : 0 < number) (hrow' : number ≤ maxRows) :
    sortColumn (c.setAttr "r" { col, row := number : CellRef }.a1) = col ∧
      AtColumn number (c.setAttr "r" { col, row := number : CellRef }.a1) := by
  have hsort : [c.setAttr "r" { col, row := number : CellRef }.a1].map sortColumn = [col] :=
    map_sortColumn (by simpa using hname) (by simp) (by simpa using hcol) hrow hrow'
  have hsort : sortColumn (c.setAttr "r" { col, row := number : CellRef }.a1) = col :=
    List.singleton_inj.1 hsort
  exact ⟨hsort, hname, by rw [hsort, Element.attr?_setAttr_self], by rwa [hsort]⟩

section

variable {strings : StringTable} {above i : Nat} {v : RowVisit} {made : Element}

/-- The fields in a generated row stand in their columns. -/
theorem fields_side_by_side {groups : List (List Element)}
    (h : List.Forall₂ (fun c => PutBelow values strings i c
      { col := finishedColumn values v.cells c, row := v.number + above }) v.cells groups)
    (hin : RowStaysInside values above v) (hpos : ∀ c ∈ v.cells, 0 < c.col)
    (hname : ∀ c ∈ v.cells, c.element.name = "c") (hi : i < v.generated values) :
    (∀ c ∈ groups.flatten, c.name = "c") ∧
      groups.flatten.map (·.attr? "r") = (columnsBelow values i v.cells).map fun col =>
        some { col, row := v.number + above + (i + 1) : CellRef }.a1 := by
  have hrows := hin.rows
  apply flatten_side_by_side
  -- The fields are put side by side, each in the final column of its placeholder.
  apply forall₂_imp_of_mem h
  intro c hc group hgroup
  have hside := hgroup.side_by_side (coe_finishedColumn values hin.columns hpos hc).1
    (hin.below i hi c hc) (by omega)
  rwa [hname c hc] at hside

/-- A generated row as its fields leave it, before it is given copies and sorted. -/
structure MadeRow (values : Substitutions) (strings : StringTable) (above i : Nat) (v : RowVisit)
    (made : Element) : Prop where
  name : made.name = v.row.name
  number : made.attr? "r" = some (toString (v.number + above + (i + 1)))
  fields : ∃ groups, made.elements = groups.flatten ∧
    List.Forall₂ (fun c => PutBelow values strings i c
      { col := finishedColumn values v.cells c, row := v.number + above }) v.cells groups

/-- The rows that are generated for a row are made by its fields, then given copies and sorted. -/
theorem madeRow_of_rowDone {copied : Bool} {block : Element × List Element}
    (h : RowDone values strings copied (v.number + above) v block)
    (hin : RowStaysInside values above v)
    (hpos : ∀ c ∈ v.cells, 0 < c.col) {row : Element}
    (hget : (uncachedBlock block).2[i]? = some row) :
    i < v.generated values ∧ ∃ made, MadeRow values strings above i v made ∧
      row = uncachedRow (Pass.sortRow (withCopies copied block.1.elements
        (tableColsFrom values (v.number + above) 0 v.cells) made)) := by
  obtain ⟨newRows, hgrown, hrows⟩ := h.grown
  have hfit : v.number + above + v.generated values ≤ Text.max32 := hin.fits
  rw [uncachedBlock, List.getElem?_map] at hget
  obtain ⟨sorted, hsorted, rfl⟩ := Option.map_eq_some_iff.1 hget
  obtain ⟨hi, hname, hnumber, -⟩ := h.getElem? hfit hsorted
  rw [hrows, List.getElem?_map] at hsorted
  obtain ⟨made, hmade, rfl⟩ := Option.map_eq_some_iff.1 hsorted
  -- Copies and sorting concern the children alone.
  refine ⟨hi, made, ⟨?_, ?_, ?_⟩, rfl⟩
  · refine Eq.trans ?_ hname
    unfold withCopies Pass.sortRow
    split <;> rfl
  · rw [← hnumber]
    unfold withCopies Pass.sortRow
    split <;> rfl
  · obtain ⟨groups, hgroups, hcells⟩ := rowCells_of_grown hgrown hin.columns (i := i) (by omega)
    rw [hmade, List.getElem?_nil] at hcells
    refine ⟨groups, hcells, ?_⟩
    apply forall₂_imp_of_mem hgroups
    intro c hc group hgroup
    rwa [target_eq hin.columns hpos hc] at hgroup

/-- The copies of finished cells that a row with a number is given. -/
theorem plainCopies_eq {number : Nat} (hnumber : made.attr? "r" = some (toString number))
    (hrow : number ≤ maxRows) (finished : List Element) (tableCols : List Nat) :
    Pass.plainCopies finished tableCols made =
      ((finished.filter (·.name == "c")).filter fun c =>
        !(tableCols ++ made.elements.map sortColumn).contains (sortColumn c)).map fun c =>
          c.setAttr "r" { col := sortColumn c, row := number : CellRef }.a1 := by
  have hread : (made.attr? "r").bind Text.natural32? = some number := by
    rw [hnumber]
    show Text.natural? Text.max32 (Nat.repr number).toList = _
    rw [show (Nat.repr number).toList = Text.numeral number by simp [Nat.repr, Text.numeral]]
    exact Text.natural?_numeral (Nat.le_trans hrow (by decide))
  unfold Pass.plainCopies
  rw [hread, List.filter_filter]
  simp only [Bool.and_comm]

/-- The copies of finished cells that a generated row is given stand in their columns, of which
none is taken. -/
private theorem copies_atColumn {number number' : Nat} {finished : List Element}
    (hfinished : ∀ c ∈ finished.filter (·.name == "c"), AtColumn number c)
    (tableCols : List Nat) (hnumber : made.attr? "r" = some (toString number')) (hrow : 0 < number')
    (hrow' : number' ≤ maxRows) :
    (∀ c ∈ Pass.plainCopies finished tableCols made, AtColumn number' c) ∧
      ((Pass.plainCopies finished tableCols made).map sortColumn).Sublist
        ((finished.filter (·.name == "c")).map sortColumn) ∧
      ∀ col ∈ (Pass.plainCopies finished tableCols made).map sortColumn,
        col ∉ made.elements.map sortColumn := by
  rw [plainCopies_eq hnumber hrow']
  generalize hfilter : ((finished.filter (·.name == "c")).filter fun c =>
    !(tableCols ++ made.elements.map sortColumn).contains (sortColumn c)) = plain
  -- What is copied stands at its own column, and the row has filled none of those.
  have hplain : ∀ c ∈ plain, AtColumn number c ∧ sortColumn c ∉ made.elements.map sortColumn := by
    intro c hc
    rw [← hfilter] at hc
    obtain ⟨hc, hkeep⟩ := List.mem_filter.1 hc
    simp only [Bool.not_eq_true', List.contains_eq_mem, decide_eq_false_iff_not, List.mem_append,
      not_or] at hkeep
    exact ⟨hfinished c hc, hkeep.2⟩
  have hcols : (plain.map fun c =>
      c.setAttr "r" { col := sortColumn c, row := number' : CellRef }.a1).map sortColumn =
        plain.map sortColumn := by
    rw [List.map_map]
    exact List.map_congr_left fun c hc =>
      (atColumn_setAttr (hplain c hc).1.name (hplain c hc).1.inside hrow hrow').1
  rw [hcols]
  refine ⟨fun copy hcopy => ?_, List.Sublist.map _ (hfilter ▸ List.filter_sublist),
    fun col hcol => ?_⟩
  · obtain ⟨c, hc, rfl⟩ := List.mem_map.1 hcopy
    exact (atColumn_setAttr (hplain c hc).1.name (hplain c hc).1.inside hrow hrow').2
  · obtain ⟨c, hc, rfl⟩ := List.mem_map.1 hcol
    exact (hplain c hc).2

/-- The cells of a row that is given copies, if copies are asked for. -/
private theorem elements_withCopies (copied : Bool) {number number' : Nat}
    {finished : List Element}
    (hfinished : ∀ c ∈ finished.filter (·.name == "c"), AtColumn number c)
    (tableCols : List Nat) (hnumber : made.attr? "r" = some (toString number')) (hrow : 0 < number')
    (hrow' : number' ≤ maxRows) :
    ∃ extra, (withCopies copied finished tableCols made).elements = made.elements ++ extra ∧
      (∀ c ∈ extra, AtColumn number' c) ∧
      (extra.map sortColumn).Sublist ((finished.filter (·.name == "c")).map sortColumn) ∧
      (∀ col ∈ extra.map sortColumn, col ∉ made.elements.map sortColumn) ∧
      (copied = false → extra = []) := by
  unfold withCopies
  cases copied with
  | false => exact ⟨[], by simp, by simp, by simp, by simp, fun _ => rfl⟩
  | true =>
    obtain ⟨hcells, hsub, hapart⟩ := copies_atColumn hfinished tableCols hnumber hrow hrow'
    exact ⟨_, made.elements_pushAll _, hcells, hsub, hapart, fun hfalse => Bool.noConfusion hfalse⟩

/-- Sorting a row of cells sorts its cells. -/
theorem named_sortRow {row : Element} (h : ∀ c ∈ row.elements, c.name = "c") :
    (Pass.sortRow row).named "c" = sortCells row.elements := by
  have hperm : (sortCells row.elements).Perm row.elements := List.mergeSort_perm ..
  unfold Pass.sortRow Element.named
  rw [Element.elements_pushAll, Element.elements_removeElements, List.nil_append]
  exact List.filter_eq_self.2 fun c hc => by simp [h c (hperm.mem_iff.1 hc)]

/-- Sorting puts cells in the order of their columns. -/
private theorem refs_sortRow {number : Nat} {row : Element}
    (h : ∀ c ∈ row.elements, AtColumn number c) :
    ∃ cols : List Nat, ((Pass.sortRow row).named "c").map (·.attr? "r") =
        cols.map (fun col => some { col, row := number : CellRef }.a1) ∧
      cols.Pairwise (· ≤ ·) ∧ cols.Perm (row.elements.map sortColumn) := by
  have hperm : (sortCells row.elements).Perm row.elements := List.mergeSort_perm ..
  refine ⟨(sortCells row.elements).map sortColumn, ?_, ?_, hperm.map _⟩
  · rw [named_sortRow fun c hc => (h c hc).name, List.map_map]
    exact List.map_congr_left fun c hc => (h c (hperm.mem_iff.1 hc)).ref
  · rw [List.pairwise_map]
    exact pairwise_sortCells row.elements

end

/-- The cells of the generated row with an index, counted from zero, below a row with a number:
those in the columns of the fields, and copies of finished cells in columns between them. -/
structure GeneratedCells (values : Substitutions) (copied : Bool) (number i : Nat) (v : RowVisit)
    (row : Element) (cols copies : List Nat) : Prop where
  refs : (row.named "c").map (·.attr? "r") =
    cols.map fun col => some { col, row := number + (i + 1) : CellRef }.a1
  perm : cols.Perm (columnsBelow values i v.cells ++ copies)
  copies_sublist : copies.Sublist (finishedColumns values v.cells)
  copies_apart : ∀ col ∈ copies, col ∉ columnsBelow values i v.cells
  uncopied : copied = false → copies = []
  sorted : cols.Pairwise (· ≤ ·)
  /-- The columns increase exactly if no field reaches the next one. -/
  increasing : cols.Pairwise (· < ·) ↔ FieldsApart values i v.cells
  distinct : ((row.named "c").map (·.attr? "r")).Nodup ↔ FieldsApart values i v.cells

section

variable {strings first last : StringTable} {copied : Bool} {above i : Nat} {v : RowVisit}

/-- The cells of a row are distinct if its columns are, and in order then. -/
private theorem generatedCells_of_cols {number : Nat} {row : Element} {cols copies : List Nat}
    (hinc : (v.cells.map CellVisit.col).Pairwise (· < ·)) (hpos : ∀ c ∈ v.cells, 0 < c.col)
    (hrefs : (row.named "c").map (·.attr? "r") =
      cols.map fun col => some { col, row := number + (i + 1) : CellRef }.a1)
    (hinside : ∀ col ∈ cols, 0 < col ∧ col ≤ maxCols) (hrow : number + (i + 1) ≤ maxRows)
    (hperm : cols.Perm (columnsBelow values i v.cells ++ copies))
    (hcopies : copies.Sublist (finishedColumns values v.cells))
    (hapart : ∀ col ∈ copies, col ∉ columnsBelow values i v.cells)
    (huncopied : copied = false → copies = []) (hsorted : cols.Pairwise (· ≤ ·)) :
    GeneratedCells values copied number i v row cols copies := by
  have hnodup : cols.Nodup ↔ FieldsApart values i v.cells := by
    rw [hperm.nodup_iff, List.nodup_append', nodup_columnsBelow_iff hinc hpos]
    -- The copies never stand in the way.
    have := ((pairwise_finishedColumns values hinc hpos).sublist hcopies).imp Nat.ne_of_lt
    exact ⟨And.left, fun h => ⟨h, this, fun col hfield hcopy => hapart col hcopy hfield⟩⟩
  refine ⟨hrefs, hperm, hcopies, hapart, huncopied, hsorted, ?_, ?_⟩
  · rw [← hnodup]
    refine ⟨fun h => h.imp Nat.ne_of_lt, fun h => ?_⟩
    exact (hsorted.and h).imp fun hlt => Nat.lt_of_le_of_ne hlt.1 hlt.2
  · rw [hrefs, ← hnodup]
    refine ⟨List.Nodup.of_map _, List.Nodup.map_on fun col hcol col' hcol' heq => ?_⟩
    -- Inside the sheet a reference can be read back.
    have hread : ∀ n ∈ cols, { col := n, row := number + (i + 1) : CellRef }.Readable := fun n hn =>
      ⟨fun q hq => absurd hq (by simp), (hinside n hn).1, (hinside n hn).2, Nat.succ_pos _, hrow⟩
    have := CellRef.parse?_a1 (hread col hcol)
    rw [Option.some_inj.1 heq, CellRef.parse?_a1 (hread col' hcol')] at this
    exact (congrArg CellRef.col (Option.some_inj.1 this)).symm

/-- The columns of the fields of a generated row are inside the sheet. -/
theorem columnsBelow_inside (hin : RowStaysInside values above v)
    (hpos : ∀ c ∈ v.cells, 0 < c.col) (hi : i < v.generated values) :
    ∀ col ∈ columnsBelow values i v.cells, 0 < col ∧ col ≤ maxCols := by
  intro col hcol
  obtain ⟨c, hc, hcol⟩ := List.mem_flatMap.1 hcol
  have hrange := List.mem_range'_1.1 hcol
  have hleft := (coe_finishedColumn values hin.columns hpos hc).1
  have hright := hin.below i hi c hc
  omega

/-- The cells of a finished row stand at their finished columns. -/
theorem finished_atColumn {block : Element × List Element}
    (h : RowDone values strings copied (v.number + above) v block)
    (hin : RowStaysInside values above v)
    (hpos : ∀ c ∈ v.cells, 0 < c.col) :
    (∀ c ∈ block.1.named "c", AtColumn (v.number + above) c) ∧
      (block.1.named "c").map sortColumn = finishedColumns values v.cells := by
  have hrows := hin.rows
  have hrefs := refs_of_rowDone h hpos hin.columns hrows.1 (by omega) hin.cols
  have hinside : ∀ col ∈ finishedColumns values v.cells, 0 < col ∧ col ≤ maxCols :=
    fun col => finishedColumns_inside values hin.columns hpos hin.cols
  have hnames : ∀ c ∈ block.1.named "c", c.name = "c" :=
    fun c => Element.name_of_mem_named _ _
  exact ⟨atColumn_of_refs hnames hrefs hinside hrows.1 (by omega),
    map_sortColumn hnames hrefs hinside hrows.1 (by omega)⟩

/-- The cells of the rows that are generated for a row. -/
theorem generatedCells_of_rowDone {block : Element × List Element}
    (h : RowDone values strings copied (v.number + above) v block)
    (hin : RowStaysInside values above v)
    (hpos : ∀ c ∈ v.cells, 0 < c.col) (hseen : v.Seen first last) {row : Element}
    (hget : (uncachedBlock block).2[i]? = some row) :
    ∃ cols copies, GeneratedCells values copied (v.number + above) i v row cols copies := by
  obtain ⟨hi, made, hmade, rfl⟩ := madeRow_of_rowDone h hin hpos hget
  have hbounds := hin.rows
  obtain ⟨groups, hflatten, hgroups⟩ := hmade.fields
  obtain ⟨hnames, hrefs⟩ := fields_side_by_side hgroups hin hpos hseen.name_element hi
  rw [← hflatten] at hnames hrefs
  have hfields := columnsBelow_inside hin hpos hi
  have hmadeCells := atColumn_of_refs hnames hrefs hfields (by omega) (by omega)
  have hmadeCols := map_sortColumn hnames hrefs hfields (by omega) (by omega)
  -- The copies are made of the finished row, whose cells stand at their columns.
  obtain ⟨hfinished, hfinishedCols⟩ := finished_atColumn h hin hpos
  obtain ⟨extra, helements, hextra, hsub, hapart, huncopied⟩ :=
    elements_withCopies copied hfinished (tableColsFrom values (v.number + above) 0 v.cells)
      hmade.number (by omega) (by omega)
  rw [hmadeCols] at hapart
  -- Both the fields and the copies stand at their columns, so that sorting puts them in order.
  have hall : ∀ c ∈ (withCopies copied block.1.elements
      (tableColsFrom values (v.number + above) 0 v.cells) made).elements,
      AtColumn (v.number + above + (i + 1)) c := by
    rw [helements]
    exact fun c hc => (List.mem_append.1 hc).elim (hmadeCells c) (hextra c)
  obtain ⟨cols, hcols, hsorted, hperm⟩ := refs_sortRow hall
  have hmem : ∀ col ∈ cols, 0 < col ∧ col ≤ maxCols := by
    intro col hcol
    obtain ⟨c, hc, rfl⟩ := List.mem_map.1 (hperm.mem_iff.1 hcol)
    exact (hall c hc).inside
  rw [helements, List.map_append, hmadeCols] at hperm
  refine ⟨cols, _, generatedCells_of_cols hin.columns hpos ?_ hmem (by omega) hperm
    (hfinishedCols ▸ hsub) hapart (fun hcopied => by rw [huncopied hcopied, List.map_nil]) hsorted⟩
  rw [map_attr?_named_uncachedRow, hcols]

end

/-! ### A pass -/

/-- Columns of generated rows: the cells of a row that is generated are in the order of their
columns, and two of them have one reference exactly if a field reaches the next one. -/
theorem generated_columns_increase {options : FillOptions} {files : ImageFiles} {p q : Pass}
    (hp : p.Fresh) (hrun : p.run options files values = .ok q) :
    Visited p.strings q.strings (sourceRows p.sheet.doc.root) (p.visits options files values) ∧
      ∃ blocks : List (Element × List Element),
        sourceRows q.sheet.doc.root = blocks.flatMap (fun b => b.1 :: b.2) ∧
        blocks.length = (p.visits options files values).length ∧
        ∀ (k : Nat) (v : RowVisit) (b : Element × List Element),
          (p.visits options files values)[k]? = some v → blocks[k]? = some b →
          b.2.length = v.generated values ∧
          (RowStaysInside values (rowsBefore values (p.visits options files values) k) v →
            ∀ (i : Nat) (row : Element), b.2[i]? = some row →
              ∃ cols copies, GeneratedCells values options.substituteAllTableRows
                (v.number + rowsBefore values (p.visits options files values) k) i v row cols
                copies) := by
  obtain ⟨blocks, hsheet⟩ := sheetRun_of_run hp hrun
  generalize p.visits options files values = visits at hsheet ⊢
  refine ⟨hsheet.visited, blocks.map uncachedBlock, hsheet.rows, hsheet.length_eq,
    fun k v b hv hb => ?_⟩
  have hmem := List.mem_of_getElem? hv
  obtain ⟨block, rfl, hrow⟩ := hsheet.getElem? hv hb
  refine ⟨?_, fun hin i row hget => generatedCells_of_rowDone (hin.fits.number ▸ hrow) hin
    (hsheet.visited.col_pos v hmem) (hsheet.visited.seen v hmem) hget⟩
  rw [uncachedBlock, List.length_map, hrow.generated]

/-! ### Two lists of lists -/

/-- A pass over a sheet with one row of two table placeholders, `A1` and `B1`. -/
def nestedPass : Pass :=
  { samplePass with
    sheet := { samplePass.sheet with
      doc := { root := .ofChildren "worksheet" [] [
        .ofChildren "sheetData" [] [
          .ofChildren "row" [("r", "1")] [
            sampleCell [("r", "A1")] "0", sampleCell [("r", "B1")] "1"]]] } }
    strings := StringTable.ofList ["${table:t.k}", "${table:u.k}"] }

/-- A table whose two elements have lists as fields, and one beside it that has texts. -/
def nestedValues (first later : List Value) : Substitutions :=
  [("t", .list [.record [("k", .list first)], .record [("k", .list later)]]),
    ("u", .list [.record [("k", .text "x")], .record [("k", .text "y")]])]

private theorem zero_lt_nestedVisits (first later : List Value) :
    0 < (nestedPass.visits {} (fun _ => none) (nestedValues first later)).length := by
  -- There is a visit to every source row, however the pass goes on.
  exact Nat.succ_pos _

/-- Where both lists have two items, the second field stands right of them on both rows. -/
theorem generated_columns_increase_sample :
    ∃ q, nestedPass.run {} (fun _ => none)
        (nestedValues [.text "a", .text "b"] [.text "c", .text "d"]) = .ok q ∧
      ∃ row ∈ sourceRows q.sheet.doc.root, ∃ cols : List Nat, cols.Pairwise (· < ·) ∧
        (row.named "c").map (·.attr? "r") =
          cols.map fun col => some { col, row := 2 : CellRef }.a1 := by
  obtain ⟨q, hq, -⟩ := exists_eq_ok (show ((nestedPass.run {} (fun _ => none)
      (nestedValues [.text "a", .text "b"] [.text "c", .text "d"])).toOption.map fun _ => ()) =
    some () by decide +kernel)
  obtain ⟨-, blocks, hrows, hlength, hcells⟩ := generated_columns_increase ⟨rfl, rfl⟩ hq
  have hblock : 0 < blocks.length := hlength ▸ zero_lt_nestedVisits _ _
  obtain ⟨hgenerated, hinside⟩ := hcells 0 _ _
    (List.getElem?_eq_getElem (zero_lt_nestedVisits _ _)) (List.getElem?_eq_getElem hblock)
  have hrow : 0 < blocks[0].2.length := by
    rw [hgenerated]
    decide +kernel
  -- The lists of the sample are no longer than those of the row at hand.
  obtain ⟨cols, copies, hgen⟩ := hinside
    ⟨by decide +kernel, by decide +kernel, by decide +kernel, by decide +kernel⟩ 0 _
    (List.getElem?_eq_getElem hrow)
  refine ⟨q, hq, blocks[0].2[0], ?_, cols, hgen.increasing.2 (by decide +kernel), hgen.refs⟩
  rw [hrows]
  exact List.mem_flatMap.2
    ⟨_, List.getElem_mem hblock, List.mem_cons_of_mem _ (List.getElem_mem hrow)⟩

/-- The rows that come from one source row are told apart in one way only. -/
theorem eq_singleton_of_flatMap {blocks : List (Element × List Element)}
    {block : Element × List Element} (h : blocks.length = 1)
    (hrows : blocks.flatMap (fun b => b.1 :: b.2) = [block].flatMap fun b => b.1 :: b.2) :
    blocks = [block] := by
  obtain ⟨b, rfl⟩ := List.length_eq_one_iff.1 h
  simp only [List.flatMap_cons, List.flatMap_nil, List.append_nil, List.cons.injEq] at hrows
  rw [Prod.ext hrows.1 hrows.2]

/-- A generated row can hold a cell twice. -/
theorem generated_cell_twice :
    ¬∀ (options : FillOptions) (files : ImageFiles) (values : Substitutions) (p q : Pass),
      p.Fresh → p.run options files values = .ok q →
      Increasing (sourceRows p.sheet.doc.root) →
      Inside values (p.visits options files values) →
      ∃ blocks : List (Element × List Element),
        sourceRows q.sheet.doc.root = blocks.flatMap (fun b => b.1 :: b.2) ∧
        List.Forall₂ (fun v b => b.2.length = v.generated values ∧
          ∀ row ∈ b.2, ((row.named "c").map (·.attr? "r")).Nodup)
          (p.visits options files values) blocks := by
  intro hclaim
  obtain ⟨q, hq, -⟩ := exists_eq_ok (show ((nestedPass.run {} (fun _ => none)
      (nestedValues [.text "a"] [.text "b", .text "c"])).toOption.map fun _ => ()) =
    some () by decide +kernel)
  obtain ⟨blocks, hrows, hblocks⟩ := hclaim {} (fun _ => none) _ nestedPass q ⟨rfl, rfl⟩ hq
    (by decide +kernel) (by decide +kernel)
  obtain ⟨done, hsheet⟩ := sheetRun_of_run ⟨rfl, rfl⟩ hq
  have hone : (nestedPass.visits {} (fun _ => none)
      (nestedValues [.text "a"] [.text "b", .text "c"])).length = 1 := by decide +kernel
  obtain ⟨block, rfl⟩ := List.length_eq_one_iff.1 (hsheet.done.length_eq.trans hone)
  obtain rfl : blocks = [uncachedBlock block] :=
    eq_singleton_of_flatMap (hblocks.length_eq ▸ hone) (hrows.symm.trans hsheet.rows)
  obtain ⟨hgenerated, hnodup⟩ := hblocks.get (zero_lt_nestedVisits _ _) Nat.zero_lt_one
  have hrow : 0 < (uncachedBlock block).2.length := by
    refine Nat.lt_of_lt_of_eq ?_ hgenerated.symm
    decide +kernel
  have hmem := List.getElem_mem (zero_lt_nestedVisits [.text "a"] [.text "b", .text "c"])
  obtain ⟨cols, copies, hgen⟩ := generatedCells_of_rowDone
    (hsheet.done.getElem?_of_fit (List.getElem?_eq_getElem (zero_lt_nestedVisits _ _)) rfl
      (by decide +kernel))
    ⟨by decide +kernel, by decide +kernel, by decide +kernel, by decide +kernel⟩
    (hsheet.visited.col_pos _ hmem) (hsheet.visited.seen _ hmem) (List.getElem?_eq_getElem hrow)
  -- The second list of the first field reaches the second field.
  have hapart := hgen.distinct.1 (hnodup _ (List.getElem_mem hrow))
  exact absurd hapart (by decide +kernel)

end SheetTemplate.Fill
