import Mathlib.Algebra.Order.Ring.Int
import Mathlib.Data.List.MinMax
import Mathlib.Order.Nat
import SheetTemplate.Fill.Sheet
import SheetTemplate.Proofs.CellContents

/-!
# The source rows and cells that a pass visits

What a pass does to a sheet depends on the source rows, their cells, and the text that each cell
shows when the pass reaches it. `Pass.visits` lists them in order. What a row inserts is read off
its visit: `CellVisit.net` counts the columns of one cell, `RowVisit.generated` the rows of all.

A text of the string table never changes during a pass, so a cell shows the text that its slot
holds in the source. Only a slot that the source table does not have may be filled meanwhile.

## Key results

- `Visited`: what the visits of a pass have to do with the source sheet
- `RowVisit.Seen.text_eq`: the text of a cell is known before the pass
- `Increasing`, `Inside`: sheets in good order, and passes that stay inside the sheet limits
- `RowsFit`: passes whose finished rows have numbers of 32 bits
-/

namespace SheetTemplate.Fill

open Text (max32 add32)
open Xml (Element)

/-! ### Lists that texts stand for -/

/-- The placeholder that a text consists of, if it is nothing but one. -/
def wholePlaceholder? (text : String) : Option Placeholder :=
  match Placeholder.extract text with
  | [token] => if token.full then some token else none
  | _ => none

/-- The list that a text lays out to the right: the value of a placeholder, or the field that a
table placeholder takes from the first element. -/
def listAcross? (values : Substitutions) (text : String) : Option (List Value) :=
  (wholePlaceholder? text).bind fun token =>
    match token.kind, values.get? token.name with
    | .normal, some (.list items) => some items
    | .table, some (.list (first :: _)) => (fieldOf first token).items?
    | _, _ => none

/-- The list that a text lays out downwards. -/
def listDown? (values : Substitutions) (text : String) : Option (List Value) :=
  (wholePlaceholder? text).bind fun token =>
    match token.kind, values.get? token.name with
    | .table, some (.list items) => some items
    | _, _ => none

/-- The table placeholder that a text consists of, with the list that it stands for. -/
def tableList? (values : Substitutions) (text : String) : Option (Placeholder × List Value) :=
  (wholePlaceholder? text).bind fun token =>
    match token.kind, values.get? token.name with
    | .table, some (.list items) => some (token, items)
    | _, _ => none

/-- A list down is the one that the table placeholder of a text finds. -/
theorem listDown?_eq (values : Substitutions) (text : String) :
    listDown? values text = (tableList? values text).map Prod.snd := by
  unfold listDown? tableList?
  cases wholePlaceholder? text with
  | none => rfl
  | some token =>
    simp only [Option.bind_some]
    split <;> rfl

/-- What a cell shows of a field: where a picture is wanted, nothing but the picture. -/
def shownField (token : Placeholder) : Value → Value
  | .list items => .list items
  | value => if token.wantsImage && !value.isEmpty then .empty else value

/-! ### Visits -/

/-- A source cell as a pass meets it. -/
structure CellVisit where
  element : Element
  /-- Its source column. -/
  col : Nat
  /-- The text that it shows when it is reached. -/
  text : Option String

namespace CellVisit

/-- The list that the cell lays out to the right. -/
def across? (values : Substitutions) (v : CellVisit) : Option (List Value) :=
  v.text.bind (listAcross? values)

/-- The list that the cell lays out downwards. -/
def down? (values : Substitutions) (v : CellVisit) : Option (List Value) :=
  v.text.bind (listDown? values)

/-- The table placeholder in the cell, with the list that it stands for. -/
def table? (values : Substitutions) (v : CellVisit) : Option (Placeholder × List Value) :=
  v.text.bind (tableList? values)

/-- So it is at a visit. -/
theorem down?_eq (values : Substitutions) (v : CellVisit) :
    v.down? values = (v.table? values).map Prod.snd := by
  unfold down? table?
  cases v.text with
  | none => rfl
  | some text => exact listDown?_eq values text

/-- A table placeholder lays out to the right what it takes from the first element. -/
theorem across?_of_table? {values : Substitutions} {v : CellVisit} {token : Placeholder}
    {items : List Value} (h : v.table? values = some (token, items)) :
    v.across? values = items.head?.bind fun first => (fieldOf first token).items? := by
  obtain ⟨text, htext, hlist⟩ := Option.bind_eq_some_iff.1 h
  obtain ⟨token', hwhole, hlist⟩ := Option.bind_eq_some_iff.1 hlist
  split at hlist
  · rename_i items' hkind hvalue
    cases hlist
    cases items <;> simp [across?, htext, listAcross?, hwhole, hkind, hvalue]
  · exact nomatch hlist

/-- What the elements after the first show in generated rows. -/
def laterFields (values : Substitutions) (v : CellVisit) : List Value :=
  match v.table? values with
  | some (token, items) => items.tail.map fun element => shownField token (fieldOf element token)
  | none => []

/-- The columns that the cell inserts. -/
def net (values : Substitutions) (v : CellVisit) : Int :=
  match v.across? values with
  | some items => netColumns items
  | none => 0

/-- The rows that the cell asks for. -/
def rows (values : Substitutions) (v : CellVisit) : Nat :=
  match v.down? values with
  | some items => items.length - 1
  | none => 0

/-- There is a row for every element after the first. -/
theorem length_laterFields (values : Substitutions) (v : CellVisit) :
    (v.laterFields values).length = v.rows values := by
  unfold laterFields rows
  rw [down?_eq]
  cases v.table? values with
  | none => rfl
  | some table => simp

/-- Whether the cell holds a placeholder. -/
def HasPlaceholder (v : CellVisit) : Prop :=
  ∃ text, v.text = some text ∧ Placeholder.extract text ≠ []

instance (v : CellVisit) : Decidable v.HasPlaceholder :=
  decidable_of_iff ((v.text.any fun text => !(Placeholder.extract text).isEmpty) = true)
    (by simp [HasPlaceholder, Option.any_eq_true])

end CellVisit

/-- A source row as a pass meets it. -/
structure RowVisit where
  row : Element
  /-- Its source number. -/
  number : Nat
  cells : List CellVisit

/-- The rows that a row generates: enough for the longest of its lists. -/
def RowVisit.generated (values : Substitutions) (v : RowVisit) : Nat :=
  (v.cells.map (·.rows values)).foldr max 0

/-- No cell asks for more rows than its row generates. -/
theorem rows_le_generated (values : Substitutions) {v : RowVisit} {c : CellVisit}
    (hc : c ∈ v.cells) : c.rows values ≤ v.generated values :=
  List.le_max_of_le (List.mem_map_of_mem hc) (Nat.le_refl _)

namespace Pass

/-- The visits to the cells of a row, as `fillCells` makes them. -/
def visitCells (given : Given) (row : Element) (number : Nat) :
    Nat → Pass → RowState → List Element → List CellVisit
  | _, _, _, [] => []
  | previous, p, state, element :: elements =>
    if element.name = "c" then
      let source := sourceColumn previous element
      let col := (max ((source : Int) + state.colsInserted) 1).toNat
      { element, col := source, text := shownText? p.strings element } ::
        match p.fillCell given state row element { col, row := number } with
        | .ok (p, state) => visitCells given row number source p state elements
        | .error _ => []
    else
      visitCells given row number previous p { state with cells := state.cells ++ [element] }
        elements

/-- The visits to rows, as `fillSourceRows` makes them. -/
def visitRows (given : Given) : Nat → Pass → List Element → List RowVisit
  | _, _, [] => []
  | previous, p, row :: rows =>
    let source := sourceNumber previous row
    let number := add32 source p.rowsInserted
    let bare := (row.setAttr "r" (toString number)).removeElements
    { row, number := source, cells := visitCells given bare number 0 p {} row.elements } ::
      match p.fillRow given source row with
      | .ok p => visitRows given source p rows
      | .error _ => []

/-- What a pass over a sheet is given. -/
def givenFor (options : FillOptions) (files : ImageFiles) (values : Substitutions) (p : Pass) :
    Given :=
  { options, files, values, heights := declaredHeights (sourceRows p.sheet.doc.root) }

/-- The pass with the rows taken out of its sheet. -/
def withoutRows (p : Pass) : Pass :=
  { p with sheet := p.sheet.mapRoot (·.mapChild "sheetData" Element.removeElements) }

/-- The source rows and cells of a sheet, as a pass visits them. -/
def visits (options : FillOptions) (files : ImageFiles) (values : Substitutions) (p : Pass) :
    List RowVisit :=
  visitRows (p.givenFor options files values) 0 p.withoutRows (sourceRows p.sheet.doc.root)

/-- A step that may fail gives its result. -/
theorem tryStep_eq_ok {α : Type} {p : Pass} {step : Except Error α} {a : α}
    (h : p.tryStep step = .ok a) : step = .ok a := by
  cases step with
  | error e => cases h
  | ok b =>
    cases h
    rfl

/-- A pass before its first row. -/
structure Fresh (p : Pass) : Prop where
  rows : p.rows = #[]
  rowsInserted : p.rowsInserted = 0

end Pass

/-! ### Source numbers and columns -/

/-- The numbers of source rows, given the number before them. -/
def sourceNumbers : Nat → List Element → List Nat
  | _, [] => []
  | previous, row :: rows =>
    let number := Pass.sourceNumber previous row
    number :: sourceNumbers number rows

/-- The columns of source cells, given the column before them. -/
def sourceColumns : Nat → List Element → List Nat
  | _, [] => []
  | previous, cell :: cells =>
    let col := Pass.sourceColumn previous cell
    col :: sourceColumns col cells

/-- Rows whose numbers increase, and with them the columns of the cells of each row. -/
structure Increasing (rows : List Element) : Prop where
  numbers : (sourceNumbers 0 rows).Pairwise (· < ·)
  columns : ∀ row ∈ rows, (sourceColumns 0 (row.named "c")).Pairwise (· < ·)

instance (rows : List Element) : Decidable (Increasing rows) :=
  decidable_of_iff
    ((sourceNumbers 0 rows).Pairwise (· < ·) ∧
      ∀ row ∈ rows, (sourceColumns 0 (row.named "c")).Pairwise (· < ·))
    ⟨fun h => ⟨h.1, h.2⟩, fun h => ⟨h.1, h.2⟩⟩

/-- What the visit to a row has to do with the cells of the row, and with the string table before
and after. -/
structure RowVisit.Seen (first last : StringTable) (v : RowVisit) : Prop where
  cells : v.cells.map CellVisit.element = v.row.named "c"
  columns : v.cells.map CellVisit.col = sourceColumns 0 (v.row.named "c")
  /-- A text is the one in the source table, unless its slot was filled during the pass. -/
  texts : ∀ c ∈ v.cells, ∃ t : StringTable,
    first.GrowsTo t ∧ t.GrowsTo last ∧ c.text = shownText? t c.element

/-- What a visit meets in a row is a cell. -/
theorem RowVisit.Seen.name_element {first last : StringTable} {v : RowVisit}
    (h : v.Seen first last) : ∀ c ∈ v.cells, c.element.name = "c" := by
  intro c hc
  apply Element.name_of_mem_named v.row "c"
  rw [← h.cells]
  exact List.mem_map_of_mem hc

theorem RowVisit.Seen.mono {first first' last last' : StringTable} {v : RowVisit}
    (h : v.Seen first last) (hfirst : first'.GrowsTo first) (hlast : last.GrowsTo last') :
    v.Seen first' last' where
  cells := h.cells
  columns := h.columns
  texts c hc :=
    let ⟨t, ht, ht', htext⟩ := h.texts c hc
    ⟨t, hfirst.trans ht, ht'.trans hlast, htext⟩

/-- A cell shows the text that its slot holds in the table before the pass. -/
theorem RowVisit.Seen.text_eq {first last : StringTable} {v : RowVisit} (h : v.Seen first last)
    {c : CellVisit} (hc : c ∈ v.cells) {text : String}
    (htext : shownText? first c.element = some text) : c.text = some text := by
  obtain ⟨t, ht, -, hshown⟩ := h.texts c hc
  obtain ⟨slot, hslot, hget⟩ := Option.bind_eq_some_iff.1 htext
  rw [hshown, shownText?, hslot, Option.bind_some]
  exact ht.get? hget

/-- What visits have to do with the source rows. -/
structure Visited (first last : StringTable) (source : List Element) (visits : List RowVisit) :
    Prop where
  rows : visits.map RowVisit.row = source
  numbers : visits.map RowVisit.number = sourceNumbers 0 source
  seen : ∀ v ∈ visits, v.Seen first last

/-! ### Insertions -/

/-- The columns that cells left of a column insert. -/
def netLeft (values : Substitutions) (col : Nat) (cells : List CellVisit) : Int :=
  ((cells.filter (·.col < col)).map (·.net values)).sum

/-- The columns inserted left of a column on the source row with a number. -/
def netAt (values : Substitutions) (visits : List RowVisit) (number col : Nat) : Int :=
  ((visits.filter (·.number = number)).map fun v => netLeft values col v.cells).sum

/-- The rows that the source rows above a number generate. -/
def rowsAbove (values : Substitutions) (visits : List RowVisit) (number : Nat) : Nat :=
  ((visits.filter (·.number < number)).map (·.generated values)).sum

/-- The number of a source row among the finished rows. -/
def finishedNumber (values : Substitutions) (visits : List RowVisit) (v : RowVisit) : Nat :=
  v.number + rowsAbove values visits v.number

/-- The rows that the source row with a number generates. -/
def generatedAt (values : Substitutions) (visits : List RowVisit) (number : Nat) : Nat :=
  ((visits.filter (·.number = number)).map (·.generated values)).sum

/-- Whether a row with generated rows above it, and those that are generated for it, have numbers
of 32 bits. -/
def RowFits (values : Substitutions) (above : Nat) (v : RowVisit) : Prop :=
  v.number + above + v.generated values ≤ max32

instance (values : Substitutions) (above : Nat) (v : RowVisit) :
    Decidable (RowFits values above v) :=
  inferInstanceAs (Decidable (_ ≤ _))

/-- The number of a row that fits is the sum. -/
theorem RowFits.number {values : Substitutions} {above : Nat} {v : RowVisit}
    (h : RowFits values above v) : add32 v.number above = v.number + above :=
  Text.add32_of_le (Nat.le_trans (Nat.le_add_right ..) h)

/-- Every cell of a row that fits asks for rows whose numbers fit. -/
theorem RowFits.cells {values : Substitutions} {above : Nat} {v : RowVisit}
    (h : RowFits values above v) : ∀ c ∈ v.cells, v.number + above + c.rows values ≤ max32 := by
  intro c hc
  have hle := rows_le_generated values hc
  unfold RowFits at h
  omega

/-- Whether rows with generated rows above them do, one after another. -/
def RowsFit (values : Substitutions) : Nat → List RowVisit → Prop
  | _, [] => True
  | above, v :: vs => RowFits values above v ∧ RowsFit values (above + v.generated values) vs

instance decidableRowsFit (values : Substitutions) :
    (above : Nat) → (visits : List RowVisit) → Decidable (RowsFit values above visits)
  | _, [] => inferInstanceAs (Decidable True)
  | above, v :: vs =>
    have := decidableRowsFit values (above + v.generated values) vs
    inferInstanceAs (Decidable (RowFits values above v ∧ RowsFit values _ vs))

/-- So do those of the first of the rows. -/
theorem RowsFit.of_append {values : Substitutions} {above : Nat} {first later : List RowVisit}
    (h : RowsFit values above (first ++ later)) : RowsFit values above first := by
  induction first generalizing above with
  | nil => trivial
  | cons v vs ih => exact ⟨h.1, ih h.2⟩

/-- So does the number of all rows that are generated. -/
theorem RowsFit.sum_le {values : Substitutions} {above : Nat} {visits : List RowVisit}
    (h : RowsFit values above visits) (habove : above ≤ max32) :
    above + (visits.map (·.generated values)).sum ≤ max32 := by
  induction visits generalizing above with
  | nil => exact habove
  | cons v vs ih =>
    have hrow : v.number + above + v.generated values ≤ max32 := h.1
    rw [List.map_cons, List.sum_cons, ← Nat.add_assoc]
    exact ih h.2 (by omega)

/-- A pass whose rows and cells stay inside the sheet limits. -/
structure Inside (values : Substitutions) (visits : List RowVisit) : Prop where
  rows : ∀ v ∈ visits, 0 < v.number ∧
    v.number + rowsAbove values visits v.number + v.generated values ≤ maxRows
  cols : ∀ v ∈ visits, ∀ c ∈ v.cells,
    c.col + netLeft values c.col v.cells + c.net values ≤ maxCols

instance (values : Substitutions) (visits : List RowVisit) : Decidable (Inside values visits) :=
  decidable_of_iff
    ((∀ v ∈ visits, 0 < v.number ∧
        v.number + rowsAbove values visits v.number + v.generated values ≤ maxRows) ∧
      ∀ v ∈ visits, ∀ c ∈ v.cells,
        c.col + netLeft values c.col v.cells + c.net values ≤ maxCols)
    ⟨fun h => ⟨h.1, h.2⟩, fun h => ⟨h.1, h.2⟩⟩

end SheetTemplate.Fill
