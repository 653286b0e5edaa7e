import SheetTemplate.Proofs.Moves
import SheetTemplate.Proofs.StepResults

/-!
# Steps that move nothing

Most of what a pass does while it fills a cell moves nothing: it shows values, stores pictures, and
writes into generated rows. `Pass.Still` collects what such steps keep. Only the elements after the
first of a list that is laid out downwards concern tables, so all other steps are `Pass.Quiet`.

## Key results

- `quiet_of_placePicture`: a picture empties its cell
- `still_of_fillRows`, `fieldsPut_of_fillRows`: generated rows, how many there are and what is put
  into them
- `tables_of_fillRows`: the tables that generated rows extend
-/

namespace SheetTemplate.Fill

open Text (max32 add32 add32_of_le)
open Xml (Element)

namespace Pass

/-! ### Pictures -/

/-- A step that finishes no row and moves nothing. It may add to the string table, store pictures,
and give the sheet a drawing. -/
structure Still (p p' : Pass) : Prop where
  workbook : p'.workbook = p.workbook
  sheetName : p'.sheet.name = p.sheet.name
  child : ∀ n, n ≠ "drawing" → p'.sheet.doc.root.child? n = p.sheet.doc.root.child? n
  rows : p'.rows = p.rows
  rowsInserted : p'.rowsInserted = p.rowsInserted
  maxCols : p'.maxColsInserted = p.maxColsInserted
  strings : p.strings.GrowsTo p'.strings

theorem Still.refl (p : Pass) : p.Still p :=
  ⟨rfl, rfl, fun _ _ => rfl, rfl, rfl, rfl, .refl _⟩

theorem Still.trans {p p' p'' : Pass} (h : p.Still p') (h' : p'.Still p'') : p.Still p'' where
  workbook := h'.workbook.trans h.workbook
  sheetName := h'.sheetName.trans h.sheetName
  child n hn := (h'.child n hn).trans (h.child n hn)
  rows := h'.rows.trans h.rows
  rowsInserted := h'.rowsInserted.trans h.rowsInserted
  maxCols := h'.maxCols.trans h.maxCols
  strings := h.strings.trans h'.strings

/-- A step that extends no table either. -/
structure Quiet (p p' : Pass) : Prop extends Still p p' where
  tables : p'.tables = p.tables

theorem Quiet.refl (p : Pass) : p.Quiet p := ⟨.refl p, rfl⟩

theorem Quiet.trans {p p' p'' : Pass} (h : p.Quiet p') (h' : p'.Quiet p'') : p.Quiet p'' :=
  ⟨h.toStill.trans h'.toStill, h'.tables.trans h.tables⟩

/-- A longer string table is all that is new. -/
theorem quiet_of_strings {p : Pass} {strings : StringTable} (h : p.strings.GrowsTo strings) :
    p.Quiet { p with strings } :=
  ⟨⟨rfl, rfl, fun _ _ => rfl, rfl, rfl, rfl, h⟩, rfl⟩

/-- Showing a value may add a text to the table and does nothing else. -/
theorem quiet_insert (p : Pass) (cell : Element) (value : Value) :
    p.Quiet (p.insert cell value).1 := quiet_of_strings (insertValue_growsTo p.strings cell value)

/-- A drawing is attached under its own name. -/
private theorem child?_attachDrawing (w : Worksheet) (id : String) {n : String}
    (h : n ≠ "drawing") : (w.attachDrawing id).doc.root.child? n = w.doc.root.child? n :=
  Element.child?_insert_of_ne _ _ (Ne.symm h)

/-- A drawing that is begun is linked from the sheet, in an element that is none of those read
later. -/
private theorem quiet_of_create {p : Pass} {sheet sheet' : Worksheet} {types types' : ContentTypes}
    {drawing : Drawing} (hsheet : p.sheet.withRels? p.package = some sheet)
    (h : Drawing.create p.package sheet types = .ok (drawing, sheet', types')) :
    p.Quiet { p with sheet := sheet', types := types', drawing := some drawing } := by
  obtain ⟨-, hwith, -⟩ := Worksheet.withRels?_eq_some hsheet
  obtain ⟨rels, rels', id, -, -, rfl, rfl, rfl⟩ := Drawing.create_eq_ok h
  rw [hwith]
  exact ⟨⟨rfl, rfl, fun n hn => child?_attachDrawing _ id hn, rfl, rfl, rfl, .refl _⟩, rfl⟩

/-- Making sure of a drawing is quiet, whether there is one, none can be made or one is begun. -/
theorem quiet_of_ensureDrawing {given : Given} {p p' : Pass} (h : p.ensureDrawing given = .ok p') :
    p.Quiet p' := by
  cases drawingEnsured_of_ok h with
  | there => exact .refl p
  | without => exact .refl p
  | begun _ hsheet hcreate => exact quiet_of_create hsheet hcreate

/-- A picture is embedded, which changes the package and the drawing, or left out. -/
private theorem quiet_of_placeSource {given : Given} {p p' : Pass} {drawing : Drawing}
    {cell : CellRef} {source : ImageSource}
    (h : p.placeSource given drawing cell source = .ok p') : p.Quiet p' := by
  cases sourcePlaced_of_ok h with
  | shown => exact ⟨⟨rfl, rfl, fun _ _ => rfl, rfl, rfl, rfl, .refl _⟩, rfl⟩
  | skipped => exact ⟨⟨rfl, rfl, fun _ _ => rfl, rfl, rfl, rfl, .refl _⟩, rfl⟩

/-- A picture empties its cell, and nothing after that concerns a cell or a table. -/
theorem quiet_of_placePicture {given : Given} {p p' : Pass} {element e : Element} {cell : CellRef}
    {value : Value} (h : p.placePicture given element cell value = .ok (p', e)) :
    (p.insert element .empty).1.Quiet p' ∧ e = (p.insert element .empty).2 := by
  cases picturePlaced_of_ok h with
  | sourceless => exact ⟨.refl _, rfl⟩
  | undrawn _ hensure => exact ⟨quiet_of_ensureDrawing hensure, rfl⟩
  | placed _ hensure _ hplace =>
    exact ⟨(quiet_of_ensureDrawing hensure).trans (quiet_of_placeSource hplace), rfl⟩

end Pass

/-! ### Cells of a value -/

/-- A cell that differs from another in its type and its children only. -/
structure Refilled (template cell : Element) : Prop where
  name : cell.name = template.name
  attr : ∀ key, key ≠ "t" → cell.attr? key = template.attr? key

/-- Inserting a value into a template fills the template. -/
theorem refilled_insert (p : Pass) (template : Element) (value : Value) :
    Refilled template (p.insert template value).2 :=
  ⟨name_insertValue p.strings template value,
    fun _ hkey => attr?_insertValue p.strings template value hkey⟩

/-- A value that was inserted is shown from then on. -/
theorem shows_insert {p p' : Pass} {template : Element} {value : Value}
    (h : (p.insert template value).1.Still p') :
    Shows p'.strings template value (p.insert template value).2 := ⟨p.strings, h.strings, rfl⟩

/-- The cells that items are laid out in from a cell on. -/
structure LaidOut (strings : StringTable) (template : Element) (cell : CellRef)
    (items : List Value) (cells : List Element) : Prop where
  length : cells.length = items.length
  shows : ∀ (i : Nat) (c : Element) (item : Value), cells[i]? = some c → items[i]? = some item →
    Shows strings (template.setAttr "r" (cell.offset (i : Int) 0).a1) item c

/-- What is laid out to the right are the cells of the list. -/
theorem laidOut_layOut (strings : StringTable) (template : Element) (cell : CellRef)
    (items : List Value) :
    LaidOut (layOut strings template cell items).1 template cell items
      (layOut strings template cell items).2 :=
  ⟨length_layOut strings template cell items, fun _ _ _ hc hitem => getElem?_layOut hc hitem⟩

theorem LaidOut.mono {strings strings' : StringTable} {template : Element} {cell : CellRef}
    {items : List Value} {cells : List Element} (h : LaidOut strings template cell items cells)
    (hs : strings.GrowsTo strings') : LaidOut strings' template cell items cells :=
  ⟨h.length, fun i c item hc hitem => (h.shows i c item hc hitem).mono hs⟩

/-- The cells that a field puts into its generated row, and the columns that it inserts there. -/
structure FieldCells (strings : StringTable) (template : Element) (cell : CellRef) (value : Value)
    (cells : List Element) (cols : Int) : Prop where
  list : ∀ items, value.items? = some items →
    cols = netColumns items ∧ LaidOut strings template cell items cells
  single : value.items? = none →
    cols = 0 ∧ ∃ c, cells = [c] ∧ Shows strings (template.setAttr "r" cell.a1) value c

theorem FieldCells.mono {strings strings' : StringTable} {template : Element} {cell : CellRef}
    {value : Value} {cells : List Element} {cols : Int}
    (h : FieldCells strings template cell value cells cols) (hs : strings.GrowsTo strings') :
    FieldCells strings' template cell value cells cols where
  list items hitems := ⟨(h.list items hitems).1, (h.list items hitems).2.mono hs⟩
  single hnone := by
    obtain ⟨hcols, c, hc, hshows⟩ := h.single hnone
    exact ⟨hcols, c, hc, hshows.mono hs⟩

/-- A list is laid out, so it does not go into one cell. -/
theorem items?_eq_none {value : Value} (h : ∀ items, value ≠ .list items) :
    value.items? = none := by
  unfold Value.items?
  split
  · exact absurd rfl (h _)
  · rfl

/-- A field that is no list is shown as the value itself, or as nothing where a picture stands. -/
theorem shownField_of_ne {token : Placeholder} {value : Value}
    (h : ∀ items, value ≠ .list items) :
    shownField token value =
      if token.wantsImage && !value.isEmpty then .empty else value := by
  unfold shownField
  split
  · exact absurd rfl (h _)
  · rfl

/-- A single value fills a single cell and takes no columns. -/
private theorem fieldCells_single {strings : StringTable} {template : Element} {cell : CellRef}
    {value : Value} {c : Element} (hvalue : ∀ items, value ≠ .list items)
    (hc : Shows strings (template.setAttr "r" cell.a1) value c) :
    FieldCells strings template cell value [c] 0 where
  list items hitems := by
    rw [items?_eq_none hvalue] at hitems
    exact nomatch hitems
  single _ := ⟨rfl, c, rfl, hc⟩

/-! ### Generated rows -/

/-- The generated row with a number, made after the row at hand. -/
structure Renumbered (row : Element) (number : Nat) (newRow : Element) : Prop where
  name : newRow.name = row.name
  number : newRow.attr? "r" = some (toString number)
  attr : ∀ key, key ≠ "r" → key ≠ "spans" → newRow.attr? key = row.attr? key

/-- Generated rows that are numbered from the row after the one at hand on. -/
def NewRows (row : Element) (number : Nat) (newRows : List Element) : Prop :=
  ∀ (k : Nat) (e : Element), newRows[k]? = some e → Renumbered row (add32 number (k + 1)) e

/-- A row is named as before when its spans are widened. -/
@[simp]
theorem name_widenSpans (row : Element) (cols : Int) : (widenSpans row cols).name = row.name := by
  unfold widenSpans
  dsimp only
  split <;> rfl

/-- It has the same cells. -/
@[simp]
theorem elements_widenSpans (row : Element) (cols : Int) :
    (widenSpans row cols).elements = row.elements := by
  unfold widenSpans
  dsimp only
  split <;> rfl

/-- It has the same attributes but the spans. -/
theorem attr?_widenSpans (row : Element) (cols : Int) {key : String} (h : key ≠ "spans") :
    (widenSpans row cols).attr? key = row.attr? key := by
  unfold widenSpans
  dsimp only
  split
  · exact Element.attr?_setAttr_of_ne _ h _
  · rfl

/-- A row that is added is numbered for its place below the row. -/
private theorem newRows_growRows {row : Element} {number index : Nat} {newRows : List Element}
    (h : NewRows row number newRows) : NewRows row number (growRows row number index newRows) := by
  unfold growRows
  split
  · -- A row is added after those that are there.
    intro k e he
    by_cases hk : k < newRows.length
    · rw [List.getElem?_append_left hk] at he
      exact h k e he
    · rw [List.getElem?_append_right (by omega)] at he
      -- The row that was added is the next one.
      have hlast : k = newRows.length := by
        have := (List.getElem?_eq_some_iff.1 he).1
        simp only [List.length_singleton] at this
        omega
      subst hlast
      simp only [Nat.sub_self, List.getElem?_cons_zero, Option.some.injEq] at he
      subst he
      exact ⟨rfl, by simp [newRow], fun key hr _ => by
        simp [newRow, Element.attr?_setAttr_of_ne _ hr]⟩
  · exact h

/-- Adding cells leaves the number of a row. -/
private theorem renumbered_addCells {row newRow : Element} {number : Nat}
    (h : Renumbered row number newRow) (cells : List Element) (cols : Int) :
    Renumbered row number (Pass.addCells cells cols newRow) := by
  unfold Pass.addCells
  dsimp only
  split
  · exact ⟨h.name, h.number, h.attr⟩
  · refine ⟨by simp [h.name], ?_, fun key hr hs => ?_⟩
    · rw [attr?_widenSpans _ _ (by decide)]
      exact h.number
    · rw [attr?_widenSpans _ _ hs]
      exact h.attr key hr hs

/-- An edit of one generated row that leaves its number leaves the numbers of all. -/
private theorem newRows_mapNewRow {row : Element} {number index : Nat} {newRows : List Element}
    {f : Element → Element} (h : NewRows row number newRows)
    (hf : ∀ n e, Renumbered row n e → Renumbered row n (f e)) :
    NewRows row number (mapNewRow index f newRows) := by
  intro k e he
  unfold mapNewRow at he
  rw [List.getElem?_modify] at he
  obtain ⟨e', he', heq⟩ := Option.map_eq_some_iff.1 he
  have hrow := h k e' he'
  split at heq
  · exact heq ▸ hf _ _ hrow
  · exact heq ▸ hrow

/-- A generated row with an index after a field was put into it. If there is none, it is made. -/
def withField (row : Element) (number i : Nat) :
    Option (List Element × Int) → Option Element → Option Element
  | some (cells, cols), old =>
    some (Pass.addCells cells cols (old.getD (newRow row number (i + 1))))
  | none, old => old

/-- Generated rows after fields of a cell were put into them, the first field into the first row. -/
def FieldsPut (strings : StringTable) (row template : Element) (cell : CellRef)
    (fields : List Value) (rows rows' : List Element) : Prop :=
  ∃ groups : List (List Element × Int), groups.length = fields.length ∧
    (∀ (i : Nat) (value : Value) (group : List Element × Int),
      fields[i]? = some value → groups[i]? = some group →
      FieldCells strings template (cell.withRow (add32 cell.row (i + 1))) value group.1 group.2) ∧
    ∀ i, rows'[i]? = withField row cell.row i groups[i]? rows[i]?

theorem FieldsPut.mono {strings strings' : StringTable} {row template : Element} {cell : CellRef}
    {fields : List Value} {rows rows' : List Element}
    (h : FieldsPut strings row template cell fields rows rows') (hs : strings.GrowsTo strings') :
    FieldsPut strings' row template cell fields rows rows' := by
  obtain ⟨groups, hlength, hcells, hrows⟩ := h
  exact ⟨groups, hlength, fun i value group hvalue hgroup =>
    (hcells i value group hvalue hgroup).mono hs, hrows⟩

/-- Without fields the rows stay as they are. -/
theorem fieldsPut_nil (strings : StringTable) (row template : Element) (cell : CellRef)
    (rows : List Element) : FieldsPut strings row template cell [] rows rows :=
  ⟨[], rfl, fun i value group hvalue _ => by simp at hvalue, fun i => by simp [withField]⟩

/-- The row of an element is there once it was asked for, so it can be changed. -/
private theorem getElem?_mapNewRow (row : Element) (number : Nat) {index : Nat}
    {newRows : List Element} (f : Element → Element) (hindex : 1 ≤ index)
    (hlength : index ≤ newRows.length + 1) (i : Nat) :
    (mapNewRow index f (growRows row number index newRows))[i]? =
      if i + 1 = index then some (f (newRows[i]?.getD (newRow row number (i + 1))))
      else newRows[i]? := by
  -- First the row that may be added, then the edit of the row at the place of the element.
  have hplace : (if newRows.length < index then
      newRows ++ [newRow row number (newRows.length + 1)] else newRows)[i]? =
      if i + 1 = index then some (newRows[i]?.getD (newRow row number (i + 1)))
      else newRows[i]? := by
    by_cases hlt : i < newRows.length
    · -- The row was there before.
      have hget := List.getElem?_eq_getElem hlt
      have hkept : (if newRows.length < index then
          newRows ++ [newRow row number (newRows.length + 1)] else newRows)[i]? = newRows[i]? := by
        split
        · exact List.getElem?_append_left hlt
        · rfl
      rw [hkept, hget]
      split <;> rfl
    · -- The row is added now if the element needs it.
      rw [List.getElem?_eq_none (show newRows.length ≤ i by omega)]
      by_cases hi : i + 1 = index
      · have hi' : i = newRows.length := by omega
        rw [if_pos hi, if_pos (by omega), List.getElem?_append_right (by omega), hi', Nat.sub_self]
        rfl
      · rw [if_neg hi, List.getElem?_eq_none_iff]
        split
        · rw [List.length_append, List.length_singleton]
          omega
        · omega
  unfold mapNewRow growRows
  rw [List.getElem?_modify, hplace]
  by_cases hi : i + 1 = index
  · simp [show index - 1 = i by omega, hi]
  · simp [show index - 1 ≠ i by omega, hi]

namespace Pass

/-- What the field of a later element does to its generated row. -/
theorem quiet_of_fillLater {given : Given} {p p' : Pass} {template : Element}
    {cell : CellRef} {token : Placeholder} {value : Value} {cells : List Element} {cols : Int}
    (h : p.fillLater given template cell token value = .ok (p', cells, cols)) :
    p.Quiet p' ∧ FieldCells p'.strings template cell (shownField token value) cells cols := by
  -- A nested list is laid out; a picture empties its cell; any other value is inserted.
  cases laterFilled_of_ok h with
  | list items =>
    refine ⟨quiet_of_strings (layOut_growsTo ..), fun items' hitems => ?_, fun hnone => ?_⟩
    · cases hitems
      exact ⟨rfl, laidOut_layOut ..⟩
    · exact nomatch hnone
  | picture hlist hwanted hplace =>
    rw [shownField_of_ne hlist, if_pos hwanted]
    obtain ⟨hquiet, rfl⟩ := quiet_of_placePicture hplace
    exact ⟨(quiet_insert ..).trans hquiet,
      fieldCells_single (fun _ => nofun) (shows_insert hquiet.toStill)⟩
  | single hlist hshown =>
    rw [shownField_of_ne hlist, if_neg hshown]
    exact ⟨quiet_insert .., fieldCells_single hlist (shows_insert (.refl _))⟩

/-- The elements after the first fill generated rows, of which there are enough for all of them. -/
theorem still_of_fillRows {given : Given} {row template : Element} {cell : CellRef}
    {token : Placeholder} {inside : List Bool} {index : Nat} {p p' : Pass}
    {state state' : RowState} {elements : List Value}
    (h : fillRows given row template cell token inside index p state elements = .ok (p', state'))
    (hindex : 1 ≤ index) (hlength : index ≤ state.newRows.length + 1) :
    p.Still p' ∧ (∃ newRows, state' = { state with newRows }) ∧
      state'.newRows.length = max state.newRows.length (index - 1 + elements.length) ∧
      (NewRows row cell.row state.newRows → NewRows row cell.row state'.newRows) := by
  -- Element `index` fills generated row `index`, which is added first if it is the next one.
  induction elements generalizing index p state with
  | nil =>
    simp only [fillRows, Except.ok.injEq, Prod.mk.injEq] at h
    obtain ⟨rfl, rfl⟩ := h
    exact ⟨.refl p, ⟨_, rfl⟩, by rw [List.length_nil]; omega, id⟩
  | cons element elements ih =>
    obtain ⟨p₁, cells, cols, hlater, h⟩ := fillRows_cons_eq_ok h
    have hgrown : (growRows row cell.row index state.newRows).length =
        max state.newRows.length index := by
      unfold growRows
      split
      · rw [List.length_append, List.length_singleton]
        omega
      · omega
    obtain ⟨hstill, ⟨newRows, hstate⟩, hlen, hnew⟩ := ih h (by omega) (by
      rw [mapNewRow, List.length_modify, hgrown]
      omega)
    have hfirst := (quiet_of_fillLater hlater).1.toStill
    refine ⟨hfirst.trans ?_, ⟨newRows, hstate⟩, ?_, fun hrows => hnew ?_⟩
    · exact ⟨hstill.workbook, hstill.sheetName, hstill.child, hstill.rows, hstill.rowsInserted,
        hstill.maxCols, hstill.strings⟩
    · rw [hlen, mapNewRow, List.length_modify, hgrown, List.length_cons]
      omega
    · exact newRows_mapNewRow (newRows_growRows hrows) fun n e he => renumbered_addCells he _ _

/-- What the elements from an index on put into generated rows. -/
private theorem getElem?_of_fillRows {given : Given} {row template : Element} {cell : CellRef}
    {token : Placeholder} {inside : List Bool} {index : Nat} {p p' : Pass}
    {state state' : RowState} {elements : List Value}
    (h : fillRows given row template cell token inside index p state elements = .ok (p', state'))
    (hindex : 1 ≤ index) (hlength : index ≤ state.newRows.length + 1) :
    ∃ groups : List (List Element × Int), groups.length = elements.length ∧
      (∀ (j : Nat) (element : Value) (group : List Element × Int),
        elements[j]? = some element → groups[j]? = some group →
        FieldCells p'.strings template (cell.withRow (add32 cell.row (index + j)))
          (shownField token (fieldOf element token)) group.1 group.2) ∧
      ∀ i, state'.newRows[i]? = withField row cell.row i
        (if i + 1 < index then none else groups[i + 1 - index]?) state.newRows[i]? := by
  -- Along the elements: the groups of cells that the later ones put follow the group of the first.
  induction elements generalizing index p state with
  | nil =>
    simp only [fillRows, Except.ok.injEq, Prod.mk.injEq] at h
    obtain ⟨rfl, rfl⟩ := h
    exact ⟨[], rfl, fun j element group helement _ => by simp at helement,
      fun i => by simp [withField]⟩
  | cons element elements ih =>
    obtain ⟨p₁, cells, cols, hlater, h⟩ := fillRows_cons_eq_ok h
    obtain ⟨-, hcells⟩ := quiet_of_fillLater hlater
    have hrow := getElem?_mapNewRow row cell.row (addCells cells cols) hindex hlength
    -- The next element finds at most one row missing, since this one has its row now.
    have hnext : index + 1 ≤ (mapNewRow index (addCells cells cols)
        (growRows row cell.row index state.newRows)).length + 1 := by
      rw [mapNewRow, List.length_modify]
      unfold growRows
      split
      · rw [List.length_append, List.length_singleton]
        omega
      · omega
    have hstrings := (still_of_fillRows h (by omega) hnext).1.strings
    obtain ⟨groups, hcount, hgroups, hget⟩ := ih h (by omega) hnext
    refine ⟨(cells, cols) :: groups, by rw [List.length_cons, List.length_cons, hcount], ?_, ?_⟩
    · intro j element' group helement hgroup
      cases j with
      | zero =>
        cases helement
        cases hgroup
        exact hcells.mono hstrings
      | succ j =>
        rw [List.getElem?_cons_succ] at helement hgroup
        have := hgroups j element' group helement hgroup
        rwa [show index + 1 + j = index + (j + 1) by omega] at this
    · -- A row is concerned by this element, or by a later one, or by none.
      intro i
      rw [hget i, hrow i]
      rcases Nat.lt_trichotomy (i + 1) index with hlt | rfl | hgt
      · rw [if_pos (by omega), if_neg (by omega), if_pos hlt]
      · rw [if_pos (by omega), if_pos rfl, if_neg (by omega), Nat.sub_self]
        rfl
      · rw [if_neg (by omega), if_neg (by omega), if_neg (by omega),
          show i + 1 - index = i + 1 - (index + 1) + 1 by omega, List.getElem?_cons_succ]

/-- What the elements after the first put into generated rows. -/
theorem fieldsPut_of_fillRows {given : Given} {row template : Element} {cell : CellRef}
    {token : Placeholder} {inside : List Bool} {p p' : Pass} {state state' : RowState}
    {elements : List Value}
    (h : fillRows given row template cell token inside 1 p state elements = .ok (p', state')) :
    FieldsPut p'.strings row template cell
      (elements.map fun element => shownField token (fieldOf element token))
      state.newRows state'.newRows := by
  obtain ⟨groups, hlength, hgroups, hget⟩ := getElem?_of_fillRows h (by omega) (by omega)
  refine ⟨groups, by rw [List.length_map, hlength], fun i value group hvalue hgroup => ?_, ?_⟩
  · rw [List.getElem?_map] at hvalue
    obtain ⟨element, helement, rfl⟩ := Option.map_eq_some_iff.1 hvalue
    have := hgroups i element group helement hgroup
    rwa [Nat.add_comm 1 i] at this
  · intro i
    rw [hget i, if_neg (by omega), Nat.add_sub_cancel]

end Pass

/-! ### Tables -/

/-- A table after rows were generated for a cell: if the cell is inside, every generated cell that
is not extends the table by a row. -/
def extendedTable (cell : CellRef) (count : Nat) (t : Table) : Table :=
  if isInside cell t then
    (List.range' 1 count).foldl (fun t k => extendTable (cell.withRow (cell.row + k)) t) t
  else t

/-- A table is not extended for the first element, which stands in the row itself. -/
@[simp]
theorem extendedTable_zero (cell : CellRef) (t : Table) : extendedTable cell 0 t = t := by
  simp [extendedTable]

namespace Pass

/-- Some tables are extended for the elements from an index on, if the numbers of their rows fit. -/
theorem tables_of_fillRows {given : Given} {row template : Element} {cell : CellRef}
    {token : Placeholder} {index : Nat} {p p' : Pass} {state state' : RowState}
    {elements : List Value} {base : List Table} {f : Table → Table} {inside : Table → Bool}
    (hp : p.tables = base.map f)
    (h : fillRows given row template cell token (base.map inside) index p state elements =
      .ok (p', state')) (hfit : cell.row + index + elements.length ≤ max32 + 1) :
    p'.tables = base.map fun t =>
      if inside t then (List.range' index elements.length).foldl
        (fun t k => extendTable (cell.withRow (cell.row + k)) t) (f t)
      else f t := by
  -- The tables are those of the start, changed so far by `f`.
  induction elements generalizing index p state f with
  | nil =>
    simp only [fillRows, Except.ok.injEq, Prod.mk.injEq] at h
    obtain ⟨rfl, rfl⟩ := h
    simpa using hp
  | cons element elements ih =>
    obtain ⟨p₁, cells, cols, hlater, h⟩ := fillRows_cons_eq_ok h
    have hp₁ : p₁.tables = base.map f := (quiet_of_fillLater hlater).1.tables.trans hp
    rw [List.length_cons] at hfit
    rw [add32_of_le (show cell.row + index ≤ max32 by omega)] at h
    have hstep : (p₁.extendTables (base.map inside) (cell.withRow (cell.row + index))).tables =
        base.map fun t =>
          if inside t then extendTable (cell.withRow (cell.row + index)) (f t) else f t := by
      simp only [extendTables, hp₁, List.zip_map', List.map_map, Function.comp_def]
    rw [ih hstep h (by omega)]
    refine List.map_congr_left fun t _ => ?_
    rw [List.length_cons, List.range'_succ, List.foldl_cons]
    cases inside t <;> rfl

end Pass

end SheetTemplate.Fill
