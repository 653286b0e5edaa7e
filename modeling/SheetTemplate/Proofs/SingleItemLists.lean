import SheetTemplate.Proofs.AddedRelationships
import SheetTemplate.Proofs.PlaceholderExtraction
import SheetTemplate.Proofs.RewrittenParts
import SheetTemplate.Proofs.SheetRun

/-!
# Lists of one item

A list of one item fills a cell like the item itself. Laid out to the right it takes the place of
the cell, and laid out downwards it fills the row at hand; neither inserts anything. Only the
columns of table placeholders are kept in another way, which nobody reads unless the rows that are
generated get copies of the other cells.

A list counts the place of its cells from the cell that it stands in, and there is no row before the
first: in a row with the number zero the item of a list comes to stand in row one.

## Key results

- `Pass.fillSourceRows_of_wrapped`: the rows of a pass
- `single_item_lists`: a call with a list of one item, and with the item
-/

namespace SheetTemplate

open Text (add32)
open Xml (Element)

namespace CellRef

/-- A place that can be counted from: in a row from the first on, with coordinates of 32 bits. -/
structure Countable (c : CellRef) : Prop where
  row_pos : 0 < c.row
  row_le : c.row ≤ Text.max32
  col_pos : 0 < c.col
  col_le : c.col ≤ Text.max32

instance (c : CellRef) : Decidable c.Countable :=
  decidable_of_iff (0 < c.row ∧ c.row ≤ Text.max32 ∧ 0 < c.col ∧ c.col ≤ Text.max32)
    ⟨fun h => ⟨h.1, h.2.1, h.2.2.1, h.2.2.2⟩, fun h => ⟨h.row_pos, h.row_le, h.col_pos, h.col_le⟩⟩

/-- The first place that is counted is the one counted from. -/
theorem Countable.offset_zero {c : CellRef} (h : c.Countable) : c.offset 0 0 = c := by
  obtain ⟨hrow, hrow', hcol, hcol'⟩ := h
  exact (c.movedBy_offset_of_le_max32 (by omega) (by omega) (by omega) (by omega)).eq_self

end CellRef

/-! ### Looking up what a placeholder names -/

/-- The value under a name. -/
theorem Substitutions.get?_name (values : Substitutions) {p : Placeholder}
    (hname : '.' ∉ p.name.toList) : values.get? p.name = values.lookup p.name := by
  rw [Substitutions.get?, Value.get?, Text.pieces_of_not_mem hname, List.map_singleton,
    String.ofList_toList, Value.descend]
  cases values.lookup p.name <;> rfl

/-- The value of a placeholder: what the value under its name has at its key. -/
theorem Substitutions.get?_path (values : Substitutions) {p : Placeholder}
    (hname : '.' ∉ p.name.toList) :
    values.get? p.path = (values.lookup p.name).bind fun v =>
      match p.key with
      | some key => v.get? key
      | none => some v := by
  unfold Placeholder.path
  -- A key is one step further down than the name, which has no dot of its own.
  cases p.key with
  | none =>
    dsimp only
    rw [values.get?_name hname]
    cases values.lookup p.name <;> rfl
  | some key =>
    have hpath : (p.name ++ "." ++ key).toList = p.name.toList ++ '.' :: key.toList := by
      simp [String.toList_append]
    rw [Substitutions.get?, Value.get?, hpath, Text.pieces_append hname, List.map_cons,
      String.ofList_toList, Value.descend]
    cases values.lookup p.name <;> rfl

namespace Fill

/-- Values, and the same with one of them put into a list of its own. -/
structure Wrapped (name : String) (value : Value) (values values' : Substitutions) : Prop where
  item : values.lookup name = some value
  list : values'.lookup name = some (.list [value])
  others : ∀ other, other ≠ name → values'.lookup other = values.lookup other

/-- The first of some values, in a list of its own. -/
theorem Wrapped.head (name : String) (value : Value) (others : Substitutions) :
    Wrapped name value ((name, value) :: others) ((name, .list [value]) :: others) where
  item := List.lookup_cons_self
  list := List.lookup_cons_self
  others other hother := by rw [List.lookup_cons, List.lookup_cons, beq_false_of_ne hother]

variable {name : String} {value : Value} {values values' : Substitutions}

/-- What a placeholder with another name is looked up by is the same. -/
theorem Wrapped.get?_eq (h : Wrapped name value values values') {p : Placeholder}
    (hdot : '.' ∉ p.name.toList) (hname : p.name ≠ name) :
    values'.get? p.name = values.get? p.name ∧ values'.get? p.path = values.get? p.path := by
  rw [values'.get?_name hdot, values.get?_name hdot, values'.get?_path hdot,
    values.get?_path hdot, h.others _ hname]
  exact ⟨rfl, rfl⟩

/-- A text is spliced alike if none of its placeholders has the name. -/
theorem Wrapped.splice_eq (h : Wrapped name value values values') {text : String}
    (htext : ∀ p ∈ Placeholder.extract text, p.name ≠ name) :
    splice values' text = splice values text := by
  have hone : ∀ p ∈ Placeholder.extract text, ∀ t,
      spliceOne values' t p = spliceOne values t p := by
    intro p hp t
    rw [spliceOne, spliceOne, spliceText, spliceText,
      (h.get?_eq (Placeholder.dot_not_mem_name hp) (htext p hp)).2]
  unfold splice
  exact List.foldl_ext _ _ _ fun t p hp => hone p hp t

/-! ### Cells -/

/-- Whether a text takes the item of a list for the list: the placeholders with the name are the
whole of it; one that lays the list out to the right has no key, and one that lays it out downwards
asks for no picture and takes no list from the item. -/
def TakesItem (name : String) (value : Value) (text : String) : Prop :=
  ∀ token ∈ Placeholder.extract text, token.name = name → token.full = true ∧
    (token.kind = .normal ∧ token.key = none ∨
      token.kind = .table ∧ token.wantsImage = false ∧ (fieldOf value token).items? = none)

instance (name : String) (value : Value) (text : String) :
    Decidable (TakesItem name value text) :=
  inferInstanceAs (Decidable (∀ token ∈ Placeholder.extract text, _ → _))

/-- Whether a list that a text lays out to the right has a place to count from. -/
def CountsFrom (name : String) (text : String) (cell : CellRef) : Prop :=
  ∀ token ∈ Placeholder.extract text, token.name = name → token.kind = .normal → cell.Countable

instance (name text : String) (cell : CellRef) : Decidable (CountsFrom name text cell) :=
  inferInstanceAs (Decidable (∀ token ∈ Placeholder.extract text, _ → _ → _))

namespace Pass

variable {given : Given} {p : Pass}

/-- What is known of a row, with other columns of table placeholders. -/
def withTableCols (cols : List Nat) (r : Pass × RowState) : Pass × RowState :=
  (r.1, { r.2 with tableCols := cols })

/-- No step but the choice of what a placeholder stands for looks at the values. -/
private theorem placePicture_values (p : Pass) (element : Element) (cell : CellRef)
    (v : Value) : p.placePicture { given with values := values' } element cell v =
      p.placePicture given element cell v := rfl

/-- A later element is filled in without looking at the substitutions. -/
private theorem fillLater_values (p : Pass) (template : Element) (cell : CellRef)
    (token : Placeholder) (v : Value) :
    p.fillLater { given with values := values' } template cell token v =
      p.fillLater given template cell token v := rfl

/-- The first element looks at neither the substitutions nor the columns of tables. -/
private theorem fillFirst_withTableCols (p : Pass) (state : RowState) (cols : List Nat)
    (template : Element) (cell : CellRef) (token : Placeholder) (v : Value) :
    p.fillFirst { given with values := values' } { state with tableCols := cols } template cell
        token v =
      (p.fillFirst given state template cell token v).map fun r =>
        (r.1, { r.2.1 with tableCols := cols }, r.2.2) := by
  unfold fillFirst
  split
  · rfl
  · split
    · rw [placePicture_values]
      cases p.placePicture given template cell v <;> rfl
    · rfl

/-- So do the rows of a list, the columns being passed on. -/
private theorem fillRows_withTableCols (row template : Element) (cell : CellRef)
    (token : Placeholder) (inside : List Bool) (cols : List Nat) (items : List Value) (index : Nat)
    (p : Pass) (state : RowState) :
    fillRows { given with values := values' } row template cell token inside index p
        { state with tableCols := cols } items =
      (fillRows given row template cell token inside index p state items).map
        (withTableCols cols) := by
  induction items generalizing index p state with
  | nil => rfl
  | cons item items ih =>
    simp only [fillRows]
    rw [fillLater_values]
    cases p.fillLater given template (cell.withRow (add32 cell.row index)) token
      (fieldOf item token) with
    | error f => rfl
    | ok r =>
      exact ih (index + 1) _ { state with
        newRows := mapNewRow index (addCells r.2.1 r.2.2)
          (growRows row cell.row index state.newRows) }

/-- And the whole list down the column. -/
private theorem expandDown_withTableCols (given : Given) (values' : Substitutions) (p : Pass)
    (state : RowState) (cols : List Nat) (row template : Element) (cell : CellRef)
    (token : Placeholder) (items : List Value) :
    p.expandDown { given with values := values' } { state with tableCols := cols } row template cell
        token items =
      (p.expandDown given state row template cell token items).map fun r =>
        (r.1, { r.2.1 with tableCols := cols }, r.2.2) := by
  cases items with
  | nil => rfl
  | cons item items =>
    simp only [expandDown]
    rw [fillFirst_withTableCols]
    cases p.fillFirst given state template cell token (fieldOf item token) with
    | error f => rfl
    | ok r =>
      obtain ⟨p₁, state₁, filled, inserted⟩ := r
      simp only [Except.map, bind, Except.bind]
      rw [fillRows_withTableCols]
      cases fillRows given row template cell token (p.tables.map (isInside cell)) 1 p₁ state₁
        items <;> rfl

/-- A placeholder that looks up the same values fills its cell alike. -/
private theorem fillWhole_of_other {token : Placeholder}
    (hname : values'.get? token.name = given.values.get? token.name)
    (hpath : values'.get? token.path = given.values.get? token.path) (p : Pass) (state : RowState)
    (cols : List Nat) (row element : Element) (cell : CellRef) :
    ∃ cols', p.fillWhole { given with values := values' } { state with tableCols := cols } row
        element cell token =
      (p.fillWhole given state row element cell token).map (withTableCols cols') := by
  unfold fillWhole
  simp only [hname, hpath, insertColumns_eq]
  -- Only a table and a list of a path ask for the name; both get the same answer.
  split
  · rename_i items _ _
    refine ⟨cols ++ [cell.col], ?_⟩
    have hdrawing : p.ensureDrawing { given with values := values' } = p.ensureDrawing given := rfl
    have hexpand := fun p₁ => expandDown_withTableCols given values' p₁
      { state with tableCols := state.tableCols ++ [cell.col] } (cols ++ [cell.col]) row element
      cell token items
    simp only [hdrawing, bind, Except.bind, pure, Except.pure] at hexpand ⊢
    split
    · cases p.ensureDrawing given with
      | error f => rfl
      | ok p₁ =>
        dsimp only
        rw [hexpand]
        cases p₁.expandDown given { state with tableCols := state.tableCols ++ [cell.col] } row
          element cell token items <;> rfl
    · rw [hexpand]
      cases p.expandDown given { state with tableCols := state.tableCols ++ [cell.col] } row
        element cell token items <;> rfl
  · exact ⟨cols, rfl⟩
  · refine ⟨cols, ?_⟩
    rw [placePicture_values]
    cases p.placePicture given element cell ((given.values.get? token.path).getD .empty) <;> rfl
  · exact ⟨cols, rfl⟩

/-- What is no list fills its cell with its value. -/
private theorem fillWhole_of_item {value : Value} {token : Placeholder}
    (hkind : token.kind = .normal ∨ token.kind = .table)
    (hname : given.values.get? token.name = some value) (hvalue : value.items? = none) (p : Pass)
    (state : RowState) (row element : Element) (cell : CellRef) :
    p.fillWhole given state row element cell token =
      .ok ((p.insert element ((given.values.get? token.path).getD .empty)).1,
        { state with cells := state.cells ++
          [(p.insert element ((given.values.get? token.path).getD .empty)).2] }) := by
  unfold fillWhole
  rcases hkind with hkind | hkind <;> rw [hkind, hname] <;> cases value <;>
    first | rfl | cases hvalue

/-- One item laid out to the right takes the place of its cell. -/
private theorem fillWhole_of_one_across (given : Given) {value : Value} {token : Placeholder}
    (hkind : token.kind = .normal) (hname : given.values.get? token.name = some (.list [value]))
    (p : Pass) (state : RowState) (row : Element) {element : Element} {cell : CellRef}
    (hcell : cell.Countable) (hr : element.attr? "r" = some cell.a1) :
    p.fillWhole given state row element cell token =
      .ok ((p.insert element value).1,
        { state with cells := state.cells ++ [(p.insert element value).2] }) := by
  have hcopy : element.setAttr "r" (cell.offset ((0 : Nat) : Int) 0).a1 = element := by
    rw [Nat.cast_zero, hcell.offset_zero, Element.setAttr_of_attr? hr]
  unfold fillWhole expandRight layOut
  simp only [hkind, hname, layOutFrom, hcopy]
  rfl

/-- Without a picture, what is no list fills the cell of the row at hand. -/
private theorem fillFirst_of_item {token : Placeholder} {v : Value}
    (himage : token.wantsImage = false) (hitems : v.items? = none) (p : Pass) (state : RowState)
    (template : Element) (cell : CellRef) :
    p.fillFirst given state template cell token v =
      .ok ((p.insert template v).1, state, some (p.insert template v).2, 0) := by
  unfold fillFirst
  rw [himage]
  cases v <;> first | rfl | cases hitems

/-- One item laid out downwards fills its cell with what the placeholder takes from it. -/
private theorem fillWhole_of_one_down (given : Given) {value : Value} {token : Placeholder}
    (hkind : token.kind = .table) (hname : given.values.get? token.name = some (.list [value]))
    (himage : token.wantsImage = false) (hfield : (fieldOf value token).items? = none) (p : Pass)
    (state : RowState) (row element : Element) (cell : CellRef) :
    p.fillWhole given state row element cell token =
      .ok ((p.insert element (fieldOf value token)).1, { state with
        cells := state.cells ++ [(p.insert element (fieldOf value token)).2]
        tableCols := state.tableCols ++ [cell.col] }) := by
  unfold fillWhole
  simp only [hkind, hname, himage, expandDown, fillFirst_of_item himage hfield]
  rfl

/-- A list of one item fills its cell like the item. -/
private theorem fillWhole_of_wrapped {name : String} {value : Value}
    (h : Wrapped name value given.values values') (hvalue : value.items? = none)
    {token : Placeholder} (hdot : '.' ∉ token.name.toList) (hname : token.name = name)
    (htoken : token.kind = .normal ∧ token.key = none ∨
      token.kind = .table ∧ token.wantsImage = false ∧ (fieldOf value token).items? = none)
    (p : Pass) (state : RowState) (cols : List Nat) (row : Element) {element : Element}
    {cell : CellRef} (hcell : token.kind = .normal → cell.Countable)
    (hr : element.attr? "r" = some cell.a1) :
    ∃ cols', p.fillWhole { given with values := values' } { state with tableCols := cols } row
        element cell token =
      (p.fillWhole given state row element cell token).map (withTableCols cols') := by
  have hitem : given.values.get? token.name = some value := by
    rw [given.values.get?_name hdot, hname, h.item]
  have hlist : values'.get? token.name = some (.list [value]) := by
    rw [values'.get?_name hdot, hname, h.list]
  have hfield : (given.values.get? token.path).getD .empty = fieldOf value token := by
    rw [given.values.get?_path hdot, hname, h.item, fieldOf]
    cases token.key <;> rfl
  -- A single value fills the cell like the one item of a list: laid out to the right or down the
  -- column.
  rcases htoken with ⟨hkind, hkey⟩ | ⟨hkind, himage, hitems⟩
  · have hwhole : fieldOf value token = value := by rw [fieldOf, hkey]
    rw [fillWhole_of_one_across { given with values := values' } hkind hlist p _ row (hcell hkind)
        hr,
      fillWhole_of_item (.inl hkind) hitem hvalue, hfield, hwhole]
    exact ⟨cols, rfl⟩
  · rw [fillWhole_of_one_down { given with values := values' } hkind hlist himage hitems,
      fillWhole_of_item (.inr hkind) hitem hvalue, hfield]
    exact ⟨cols ++ [cell.col], rfl⟩

/-- A cell is filled alike if its text takes the item for the list. -/
private theorem fillCell_of_wrapped {name : String} {value : Value}
    (h : Wrapped name value given.values values') (hvalue : value.items? = none) {p : Pass}
    {element : Element} {cell : CellRef}
    (htakes : ∀ text ∈ shownText? p.strings element,
      TakesItem name value text ∧ CountsFrom name text cell)
    (state : RowState) (cols : List Nat) (row : Element) :
    ∃ cols', p.fillCell { given with values := values' } { state with tableCols := cols } row
        element cell =
      (p.fillCell given state row element cell).map (withTableCols cols') := by
  have hr : (element.setAttr "r" cell.a1).attr? "r" = some cell.a1 := by simp
  have hspliced : ∀ text, (∀ token ∈ Placeholder.extract text, token.name ≠ name) →
      p.fillSpliced { given with values := values' } { state with tableCols := cols }
          (element.setAttr "r" cell.a1) text =
        withTableCols cols (p.fillSpliced given state (element.setAttr "r" cell.a1) text) := by
    intro text htext
    unfold fillSpliced
    rw [show splice values' text = splice given.values text from h.splice_eq htext]
    rfl
  unfold fillCell
  dsimp only
  rw [shownText?_setAttr]
  -- A cell without a text is kept. Otherwise its one placeholder has the name or not, or the text
  -- is spliced.
  cases htext : shownText? p.strings element with
  | none => exact ⟨cols, rfl⟩
  | some text =>
    obtain ⟨htakes, hcounts⟩ := htakes text htext
    -- A placeholder with the name is the whole text, so that there is no name in a part of it.
    have hpart : (∀ token, Placeholder.extract text = [token] → token.full = false) →
        ∀ token ∈ Placeholder.extract text, token.name ≠ name := by
      intro hfull token htoken hname
      have hwhole := (htakes token htoken hname).1
      have := hfull token (Placeholder.extract_eq_singleton_of_full htoken hwhole)
      rw [hwhole] at this
      cases this
    dsimp only
    split
    · exact ⟨cols, rfl⟩
    · rename_i token hextract
      have htoken : token ∈ Placeholder.extract text := hextract ▸ List.mem_singleton_self _
      have hdot := Placeholder.dot_not_mem_name htoken
      split
      · by_cases hname : token.name = name
        · exact fillWhole_of_wrapped h hvalue hdot hname (htakes token htoken hname).2 p state cols
            row (hcounts token htoken hname) hr
        · obtain ⟨hsame, hsame'⟩ := h.get?_eq hdot hname
          exact fillWhole_of_other hsame hsame' p state cols row _ cell
      · rename_i hfull
        refine ⟨cols, congrArg Except.ok (hspliced text (hpart ?_))⟩
        intro token' hextract'
        cases hextract.symm.trans hextract'
        simpa using hfull
    · rename_i hnil hsingle
      exact ⟨cols, congrArg Except.ok (hspliced text (hpart fun token hextract =>
        absurd hextract (hsingle token)))⟩

end Pass

/-! ### Rows -/

/-- The cells of a row and where they come to stand, after inserted columns. -/
def rowPlaces (values : Substitutions) (number : Nat) :
    Int → List CellVisit → List (CellVisit × CellRef)
  | _, [] => []
  | inserted, v :: vs =>
    (v, v.target number inserted) :: rowPlaces values number (inserted + v.net values) vs

/-- The cells of rows and where they come to stand, with generated rows above them. -/
def places (values : Substitutions) : Nat → List RowVisit → List (CellVisit × CellRef)
  | _, [] => []
  | above, v :: vs =>
    rowPlaces values (add32 v.number above) 0 v.cells ++
      places values (above + v.generated values) vs

/-- Whether the text of a cell takes the item of a list for the list, at the place of the cell. -/
def TakesItemAt (name : String) (value : Value) (place : CellVisit × CellRef) : Prop :=
  ∀ text ∈ place.1.text, TakesItem name value text ∧ CountsFrom name text place.2

namespace Pass

variable {given : Given} {p : Pass}

/-- The cells of a row, from left to right; the columns of tables may differ, and nothing else
does. -/
private theorem fillCells_of_wrapped {name : String} {value : Value}
    (h : Wrapped name value given.values values') (hvalue : value.items? = none) {row : Element}
    {number previous : Nat} {p : Pass} (state : RowState) {elements : List Element}
    (htakes : ∀ place ∈ rowPlaces given.values number state.colsInserted
      (visitCells given row number previous p state elements), TakesItemAt name value place)
    (cols : List Nat) :
    ∃ cols', fillCells { given with values := values' } row number previous p
        { state with tableCols := cols } elements =
      (fillCells given row number previous p state elements).map (withTableCols cols') := by
  -- By the cells: the states differ in the columns of table placeholders, which no cell looks at.
  induction elements generalizing previous p state cols with
  | nil => exact ⟨cols, rfl⟩
  | cons element elements ih =>
    by_cases hname : element.name = "c"
    · simp only [visitCells, hname, ↓reduceIte, rowPlaces, List.forall_mem_cons] at htakes
      simp only [fillCells, hname, ↓reduceIte]
      obtain ⟨hfirst, hrest⟩ := htakes
      obtain ⟨cols₁, hcell⟩ := fillCell_of_wrapped h hvalue hfirst state cols row
      unfold CellVisit.target at hcell
      rw [hcell]
      generalize hstep : p.fillCell given state row element _ = x at hrest ⊢
      cases x with
      | error f => exact ⟨cols, rfl⟩
      | ok r =>
        obtain ⟨p₁, state₁⟩ := r
        have hcols := (cellStep_of_fillCell (sourceColumn previous element) hstep).cols
        rw [← hcols] at hrest
        exact ih state₁ hrest cols₁
    · simp only [visitCells, hname, ↓reduceIte] at htakes
      simp only [fillCells, hname, ↓reduceIte]
      exact ih { state with cells := state.cells ++ [element] } htakes cols

/-- The columns of table placeholders are read where generated rows get copies of other cells. -/
private theorem finishRow_withTableCols (hoff : given.options.substituteAllTableRows = false)
    (p : Pass) (state : RowState) (cols : List Nat) (row : Element) (number anchors : Nat) :
    p.finishRow { given with values := values' } { state with tableCols := cols } row number
        anchors = p.finishRow given state row number anchors := by
  unfold finishRow
  simp only [hoff, Bool.false_eq_true, ↓reduceIte]
  rfl

/-- Without the option no one looks at the columns of tables when the row is finished. -/
private theorem fillRow_of_wrapped {name : String} {value : Value}
    (hoff : given.options.substituteAllTableRows = false)
    (h : Wrapped name value given.values values') (hvalue : value.items? = none) {p : Pass}
    {source : Nat} {row : Element}
    (htakes : ∀ place ∈ rowPlaces given.values (add32 source p.rowsInserted) 0
      (visitCells given (bareRow row (add32 source p.rowsInserted))
        (add32 source p.rowsInserted) 0 p {} row.elements), TakesItemAt name value place) :
    p.fillRow { given with values := values' } source row = p.fillRow given source row := by
  obtain ⟨cols, hcells⟩ := fillCells_of_wrapped h hvalue {} htakes []
  unfold fillRow
  dsimp only
  unfold bareRow at hcells
  rw [hcells]
  generalize fillCells given
    ((row.setAttr "r" (toString (add32 source p.rowsInserted))).removeElements)
    (add32 source p.rowsInserted) 0 p {} row.elements = x
  cases x with
  | error f => rfl
  | ok r => exact congrArg Except.ok (finishRow_withTableCols hoff r.1 r.2 cols _ _ _)

/-- Rows are filled alike if all their cells take the item for the list. -/
theorem fillSourceRows_of_wrapped {name : String} {value : Value}
    (hoff : given.options.substituteAllTableRows = false)
    (h : Wrapped name value given.values values') (hvalue : value.items? = none)
    {above previous : Nat} {p : Pass} (habove : p.rowsInserted = Text.low32 above)
    {rows : List Element}
    (htakes : ∀ place ∈ places given.values above (visitRows given previous p rows),
      TakesItemAt name value place) :
    fillSourceRows { given with values := values' } previous p rows =
      fillSourceRows given previous p rows := by
  -- By the rows: what is known of a row is given up when it is finished, so that both runs meet the
  -- next one alike.
  induction rows generalizing above previous p with
  | nil => rfl
  | cons row rows ih =>
    simp only [visitRows, places, List.forall_mem_append] at htakes
    obtain ⟨hfirst, hrest⟩ := htakes
    rw [fillSourceRows, fillSourceRows]
    dsimp only [bind, Except.bind]
    rw [← Text.add32_low32_right, ← habove] at hfirst
    rw [fillRow_of_wrapped hoff h hvalue hfirst]
    cases hrow : p.fillRow given (sourceNumber previous row) row with
    | error f => rfl
    | ok p₁ =>
      obtain ⟨block, hstep⟩ := rowStep_of_fillRow hrow habove
      rw [hrow] at hrest
      exact ih hstep.rowsInserted hrest

end Pass

/-! ### Links and headers -/

/-- Whether no placeholder in the decoded target of a link has the name. -/
def NotInLink (name : String) (rel : Element) : Prop :=
  Relationships.hasType "hyperlink" rel = true → ∀ target ∈ rel.attr? "Target",
    ∀ token ∈ Placeholder.extract (String.ofList (Text.Percent.decodeText target.toList)),
      token.name ≠ name

instance (name : String) (rel : Element) : Decidable (NotInLink name rel) :=
  inferInstanceAs (Decidable (_ → ∀ target ∈ rel.attr? "Target", _))

/-- Whether no placeholder in the name of a table column has the name. -/
def NotInHeader (name : String) (column : Element) : Prop :=
  ∀ text ∈ column.attr? "name", ∀ token ∈ Placeholder.extract text, token.name ≠ name

instance (name : String) (column : Element) : Decidable (NotInHeader name column) :=
  inferInstanceAs (Decidable (∀ text ∈ column.attr? "name", _))

/-- A link that does not have the name is filled in the same way. -/
private theorem fillLink_of_wrapped (h : Wrapped name value values values') {rel : Element}
    (hrel : NotInLink name rel) : fillLink values' rel = fillLink values rel := by
  unfold fillLink
  split
  · rename_i htype
    split
    · rename_i target htarget
      unfold fillTarget
      dsimp only
      rw [h.splice_eq (hrel htype target htarget)]
    · rfl
  · rfl

/-- So is a header. -/
private theorem fillHeader_of_wrapped (h : Wrapped name value values values') {column : Element}
    (hcolumn : NotInHeader name column) : fillHeader values' column = fillHeader values column := by
  unfold fillHeader
  split
  · rename_i text htext
    rw [h.splice_eq (hcolumn text htext)]
  · rfl

/-- A table keeps its columns when it gets another range. -/
private theorem columns_setRange (t : Table) (r : RangeRef) :
    (t.setRange r).columns = t.columns := by
  have hchild : (t.setRange r).doc.root.child? "tableColumns" =
      t.doc.root.child? "tableColumns" :=
    Element.child?_mapChild_of_ne t.doc.root (f := (·.setAttr "ref" r.a1)) (fun _ => rfl)
      (show "tableColumns" ≠ "autoFilter" by decide)
  rw [Table.columns, hchild, Table.columns]

/-- The names of table columns stay while rows are filled. -/
private theorem columns_shiftTable (shift : Layout.RowShift) (t : Table) :
    (shift.shiftTable t).columns = t.columns := by
  unfold Layout.RowShift.shiftTable
  split
  · rfl
  · split
    · exact columns_setRange ..
    · rfl

/-- It keeps them when it is extended. -/
private theorem columns_extendTable (cell : CellRef) (t : Table) :
    (extendTable cell t).columns = t.columns := by
  unfold extendTable
  split
  · split
    · rfl
    · exact columns_setRange ..
  · rfl

namespace Pass

/-- Whether no link of the sheet and no column of its tables has a placeholder with the name. -/
structure NotNamed (name : String) (p : Pass) : Prop where
  links : ∀ rel ∈ p.sheetLinks, NotInLink name rel
  headers : ∀ t ∈ p.tables, ∀ column ∈ t.columns, NotInHeader name column

/-- Headers are those from before the pass. -/
private theorem headers_of_change {p p' : Pass} (hchange : Change p p')
    (h : ∀ t ∈ p.tables, ∀ column ∈ t.columns, NotInHeader name column) :
    ∀ t ∈ p'.tables, ∀ column ∈ t.columns, NotInHeader name column := by
  -- Only two changes concern tables at all, and both leave the headers.
  cases hchange with
  | shiftDown shift =>
    intro t ht column hcolumn
    obtain ⟨t', ht', rfl⟩ := List.mem_map.1 ht
    rw [columns_shiftTable] at hcolumn
    exact h t' ht' column hcolumn
  | extendTables inside cell =>
    intro t ht column hcolumn
    obtain ⟨⟨t', isParent⟩, ht', rfl⟩ := List.mem_map.1 ht
    have hcolumns : (if isParent = true then extendTable cell t' else t').columns = t'.columns := by
      split
      · exact columns_extendTable cell t'
      · rfl
    rw [hcolumns] at hcolumn
    exact h t' (List.of_mem_zip ht').1 column hcolumn
  | _ => exact h

/-- Filling rows adds no link but the one to a drawing, and leaves the columns of tables alone. -/
theorem notNamed_of_changes {p p' : Pass} (hchanges : p.Changes p') (h : p.NotNamed name) :
    p'.NotNamed name := by
  obtain ⟨drawn, pictured, stored, hlinked⟩ := linked_of_changes hchanges
  refine ⟨fun rel hrel => ?_, hchanges.keep (fun _ _ => headers_of_change) h.headers⟩
  rw [hlinked.sheet, List.mem_append] at hrel
  rcases hrel with hrel | hrel
  · exact h.links rel hrel
  · intro htype
    rw [Relationships.hasType, (hlinked.drawn rel hrel).1] at htype
    exact absurd htype (by decide)

/-- Finishing fills in links and headers, none of which has the name. -/
private theorem finishSheet_of_wrapped {given : Given} {p : Pass} (hp : p.NotNamed name)
    (h : Wrapped name value given.values values') :
    p.finishSheet { given with values := values' } = p.finishSheet given := by
  have hlinks : ∀ sheet : Worksheet, sheet.rels = p.sheet.rels →
      fillLinks values' sheet = fillLinks given.values sheet := by
    intro sheet hsheet
    unfold fillLinks
    rw [hsheet]
    -- A sheet without relationships has no links.
    cases hrels : p.sheet.rels with
    | none => simp only [Option.map_none]
    | some rels =>
      have hroot : rels.doc.root.mapNamed "Relationship" (fillLink values') =
          rels.doc.root.mapNamed "Relationship" (fillLink given.values) := by
        refine Element.mapNamed_congr _ _ fun rel hrel hname => ?_
        refine fillLink_of_wrapped h (hp.links rel ?_)
        rw [sheetLinks, hrels]
        exact List.mem_filter.2 ⟨hrel, by simp [hname]⟩
      simp only [Option.map_some, Relationships.mapRoot, hroot]
  have htables : p.tables.map (·.mapColumns (fillHeader values')) =
      p.tables.map (·.mapColumns (fillHeader given.values)) := by
    refine List.map_congr_left fun t ht => ?_
    have hroot : t.doc.root.mapChild "tableColumns"
          (·.mapNamed "tableColumn" (fillHeader values')) =
        t.doc.root.mapChild "tableColumns"
          (·.mapNamed "tableColumn" (fillHeader given.values)) := by
      refine Element.mapChild_congr _ _ fun cols hcols => ?_
      refine Element.mapNamed_congr _ _ fun column hcolumn hname => ?_
      refine fillHeader_of_wrapped h (hp.headers t ht column ?_)
      rw [Table.columns, hcols]
      exact List.mem_filter.2 ⟨hcolumn, by simp [hname]⟩
    rw [Table.mapColumns, Table.mapColumns, hroot]
  -- Nothing else is filled when the rows are put back.
  have hrels : ∀ f, (p.sheet.mapRoot f).rels = p.sheet.rels := fun _ => rfl
  unfold finishSheet
  dsimp only
  rw [hlinks _ (hrels _), htables]

/-- What a pass asks of a sheet for a list of one item to be its item: every placeholder with the
name in a cell takes the item, and none is in a link or a header. -/
structure TakesItem (options : FillOptions) (files : ImageFiles) (name : String) (value : Value)
    (values : Substitutions) (p : Pass) : Prop extends NotNamed name p where
  cells : ∀ v ∈ p.visits options files values, ∀ c ∈ v.cells, ∀ text ∈ c.text,
    Fill.TakesItem name value text

/-- Whether every list with the name that is laid out to the right has a place to count from. -/
def CountsFrom (options : FillOptions) (files : ImageFiles) (name : String)
    (values : Substitutions) (p : Pass) : Prop :=
  ∀ place ∈ places values 0 (p.visits options files values), ∀ text ∈ place.1.text,
    Fill.CountsFrom name text place.2

instance (options : FillOptions) (files : ImageFiles) (name : String) (value : Value)
    (values : Substitutions) (p : Pass) : Decidable (p.TakesItem options files name value values) :=
  decidable_of_iff
    (((∀ rel ∈ p.sheetLinks, NotInLink name rel) ∧
        ∀ t ∈ p.tables, ∀ column ∈ t.columns, NotInHeader name column) ∧
      ∀ v ∈ p.visits options files values, ∀ c ∈ v.cells, ∀ text ∈ c.text,
        Fill.TakesItem name value text)
    ⟨fun h => ⟨⟨h.1.1, h.1.2⟩, h.2⟩, fun h => ⟨⟨h.links, h.headers⟩, h.cells⟩⟩

instance (options : FillOptions) (files : ImageFiles) (name : String) (values : Substitutions)
    (p : Pass) : Decidable (p.CountsFrom options files name values) :=
  inferInstanceAs (Decidable (∀ place ∈ _, ∀ text ∈ _, _))

/-- Every place is that of a visited cell. -/
private theorem exists_visit_of_mem_places {above : Nat} {visits : List RowVisit}
    {place : CellVisit × CellRef} (h : place ∈ places values above visits) :
    ∃ v ∈ visits, place.1 ∈ v.cells := by
  -- A place of a row is that of one of its cells.
  have hrow : ∀ {number : Nat} {inserted : Int} {cells : List CellVisit},
      place ∈ rowPlaces values number inserted cells → place.1 ∈ cells := by
    intro number inserted cells hplace
    induction cells generalizing inserted with
    | nil => cases hplace
    | cons c cells ih =>
      rcases List.mem_cons.1 hplace with rfl | hplace
      · exact List.mem_cons_self
      · exact List.mem_cons_of_mem c (ih hplace)
  induction visits generalizing above with
  | nil => cases h
  | cons v visits ih =>
    rcases List.mem_append.1 h with h | h
    · exact ⟨v, List.mem_cons_self, hrow h⟩
    · obtain ⟨w, hw, hcell⟩ := ih h
      exact ⟨w, List.mem_cons_of_mem v hw, hcell⟩

/-- A pass fills the rows of its sheet, finishes the sheet and saves what it holds. -/
theorem run_eq_map (options : FillOptions) (files : ImageFiles) (values : Substitutions)
    (p : Pass) :
    p.run options files values =
      (fillSourceRows (p.givenFor options files values) 0 p.withoutRows
        (sourceRows p.sheet.doc.root)).map fun r =>
          (r.finishSheet (p.givenFor options files values)).save := by
  unfold run
  exact bind_pure_comp _ _

/-- Functions need to agree on the result only. -/
private theorem map_congr_of_ok {α β : Type} {x : Except Failure α} {f g : α → β}
    (h : ∀ a, x = .ok a → f a = g a) : x.map f = x.map g := by
  cases x with
  | error e => simp only [Except.map]
  | ok a => simp only [Except.map, h a rfl]

/-- A pass takes the item for the list. -/
theorem run_of_wrapped {options : FillOptions} {files : ImageFiles} {p : Pass} (hp : p.Fresh)
    (hoff : options.substituteAllTableRows = false) (h : Wrapped name value values values')
    (hvalue : value.items? = none) (htakes : p.TakesItem options files name value values)
    (hcounts : p.CountsFrom options files name values) :
    p.run options files values' = p.run options files values := by
  have hplaces : ∀ place ∈ places values 0
      (visitRows (p.givenFor options files values) 0 p.withoutRows
        (sourceRows p.sheet.doc.root)), TakesItemAt name value place := by
    intro place hplace text htext
    obtain ⟨v, hv, hcell⟩ := exists_visit_of_mem_places hplace
    exact ⟨htakes.cells v hv place.1 hcell text htext, hcounts place hplace text htext⟩
  have hgiven : p.givenFor options files values' =
      { p.givenFor options files values with values := values' } := by
    simp only [givenFor]
  have hrows : fillSourceRows { p.givenFor options files values with values := values' } 0
      p.withoutRows (sourceRows p.sheet.doc.root) =
      fillSourceRows (p.givenFor options files values) 0 p.withoutRows
        (sourceRows p.sheet.doc.root) :=
    fillSourceRows_of_wrapped hoff h hvalue hp.rowsInserted hplaces
  -- The name is in no link and no header at the start, and no change of the pass brings it there.
  have hstart : p.withoutRows.NotNamed name := ⟨htakes.links, htakes.headers⟩
  rw [run_eq_map, run_eq_map, hgiven, hrows]
  refine map_congr_of_ok fun r hfill => ?_
  have hnamed := notNamed_of_changes (changes_of_fillSourceRows hfill) hstart
  rw [finishSheet_of_wrapped hnamed h]

end Pass

end Fill

/-! ### Calls -/

namespace Session

open Fill (Wrapped Pass)

/-- A call with a list of one item in the place of the item gives the same session and the same
report: if all placeholders with the name take the item, and a list that is laid out to the right
stands where places can be counted from. -/
theorem single_item_lists {options : FillOptions} {files : ImageFiles} {s : Session}
    {selector : SheetSelector} {name : String} {value : Value} {values values' : Substitutions}
    (hoff : options.substituteAllTableRows = false) (h : Wrapped name value values values')
    (hvalue : value.items? = none)
    (htakes : ∀ p, s.startPass selector = .ok p → p.TakesItem options files name value values)
    (hcounts : ∀ p, s.startPass selector = .ok p → p.CountsFrom options files name values) :
    s.fill options files selector values' = s.fill options files selector values := by
  unfold fill
  cases hstart : s.startPass selector with
  | error e => rfl
  | ok p =>
    have hfresh : p.Fresh := by
      obtain ⟨_, _, _, _, -, -, -, -, rfl⟩ := startPass_eq_ok hstart
      exact ⟨rfl, rfl⟩
    have hpass : s.runPass options files values' p = s.runPass options files values p := by
      rw [runPass, runPass,
        Pass.run_of_wrapped hfresh hoff h hvalue (htakes p hstart) (hcounts p hstart)]
    dsimp only
    rw [hpass]

/-- A session with a sheet of one column, with the number and the text of each row. -/
def ofColumn (rows : List (String × String)) : Session :=
  let sheet := Xml.Element.ofChildren "worksheet" [] [.ofChildren "sheetData" []
    (rows.zipIdx.map fun (row, i) => .ofChildren "row" [("r", row.1)]
      [.ofChildren "c" [("t", "s")] [.ofText "v" (toString i)]])]
  { package := ⟨[("plan.xml", Xml.Document.toBytes { root := sheet })]⟩
    workbook := {
      path := "workbook.xml", doc := { root := { name := "workbook" } }
      rels := .empty "workbook.xml.rels", sheets := [⟨"Plan", none, "a", "plan.xml"⟩] }
    strings := {
      path := "strings.xml", table := .ofList (rows.map Prod.snd), read := []
      root := { name := "sst" }, existed := true }
    types := { doc := { root := { name := "Types" } } } }

/-- The sheet as the workbook of such a session lists it. -/
private def columnInfo : SheetInfo :=
  { name := "Plan", sheetId := none, relId := "a", path := "plan.xml" }

/-- A list of one item is laid out to the right, and downwards by a field. -/
theorem single_item_lists_sample :
    let s := ofColumn [("1", "${x}"), ("2", "${table:x.k}"), ("5", "${y}")]
    (∃ p, s.startPass (.name "Plan") = .ok p) ∧
      s.fill {} (fun _ => none) (.name "Plan") [("x", .list [.text "a"]), ("y", .text "b")] =
        s.fill {} (fun _ => none) (.name "Plan") [("x", .text "a"), ("y", .text "b")] := by
  have hstart := startPass_unlinked (s := ofColumn [("1", "${x}"), ("2", "${table:x.k}"),
    ("5", "${y}")]) (.name "Plan") columnInfo rfl rfl (by decide +kernel) (by decide +kernel) rfl
  refine ⟨⟨_, hstart⟩, single_item_lists rfl (.head ..) rfl ?_ ?_⟩
  · intro p hp
    cases hstart.symm.trans hp
    decide +kernel
  · intro p hp
    cases hstart.symm.trans hp
    decide +kernel

/-- In a row with the number zero an item stays where it is, and a list of it does not. -/
theorem list_leaves_row_zero :
    let s := ofColumn [("0", "${x}")]
    Wrapped "x" (.text "a") [("x", .text "a")] [("x", .list [.text "a"])] ∧
      (∃ p, s.startPass (.name "Plan") = .ok p ∧
        p.TakesItem {} (fun _ => none) "x" (.text "a") [("x", .text "a")]) ∧
      s.fill {} (fun _ => none) (.name "Plan") [("x", .list [.text "a"])] ≠
        s.fill {} (fun _ => none) (.name "Plan") [("x", .text "a")] := by
  refine ⟨.head .., ?_, fun h => ?_⟩
  · exact ⟨_, startPass_unlinked (.name "Plan") columnInfo rfl rfl (by decide +kernel)
      (by decide +kernel) rfl, by decide +kernel⟩
  · exact absurd (congrArg (fun r => r.1.package.get? "plan.xml") h) (by decide +kernel)

end Session

end SheetTemplate
