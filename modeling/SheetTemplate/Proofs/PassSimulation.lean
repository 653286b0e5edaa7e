import Mathlib.Data.List.Forall2
import SheetTemplate.Fill.Sheet
import SheetTemplate.Proofs.RowSteps

/-!
# Passes side by side

Two passes over one sheet may differ in their workbooks, their content types and their string
tables, and with the tables in the cells that they write. A `Simulation` says how the cells and the
rest are to be related; if every single change keeps that, the passes take the same steps, fail for
the same reasons, and come to related results.

Cells are related as of two string tables, for one text may have different slots in them. A table
only gets longer, and so `Since` keeps track of how far each of the two passes has come.

A pass may also stand beside itself: then the simulation is about the cells that it writes.

## Key results

- `Simulation`: what has to be kept by single changes
- `sim_fillCell`, `sim_fillRow`: the steps of a pass
- `sim_run`: a whole pass
-/

namespace SheetTemplate.Fill

open Xml (Element)

/-- How two passes are related, and that all they do to one workbook, table or cell keeps that. -/
structure Simulation where
  workbook : Workbook → Workbook → Prop
  types : ContentTypes → ContentTypes → Prop
  strings : StringTable → StringTable → Prop
  /-- Cells that are finished, as of two string tables. -/
  cell : StringTable → StringTable → Element → Element → Prop
  /-- What source rows may have inside. -/
  source : Element → Prop
  /-- What rows may be, but for what they have inside. -/
  bare : Element → Prop
  moveNames {w w' : Workbook} (rule : RangeRef → Option RangeRef) : workbook w w' →
    workbook (w.mapNames (Layout.moveName rule)) (w'.mapNames (Layout.moveName rule))
  ensureDefault {t t' : ContentTypes} (extension type : String) : types t t' →
    types (t.ensureDefault extension type) (t'.ensureDefault extension type)
  ensureOverride {t t' : ContentTypes} (part type : String) : types t t' →
    types (t.ensureOverride part type) (t'.ensureOverride part type)
  index {t t' : StringTable} (text : String) : strings t t' →
    strings (t.index text).1 (t'.index text).1
  source_setAttr {c : Element} (value : String) : source c → source (c.setAttr "r" value)
  bare_setAttr {e : Element} {key : String} (value : String) : key = "r" ∨ key = "spans" →
    bare e → bare (e.setAttr key value)
  bare_shallow {e : Element} : bare e → bare e.shallow
  bare_removeElements {e : Element} : bare e → bare e.removeElements
  grow {t t' u u' : StringTable} {c c' : Element} : t.GrowsTo u → t'.GrowsTo u' →
    cell t t' c c' → cell u u' c c'
  place {t t' : StringTable} {c c' : Element} : cell t t' c c' →
    c.name = c'.name ∧ c.attr? "r" = c'.attr? "r"
  cell_setAttr {t t' : StringTable} {c c' : Element} (value : String) : cell t t' c c' →
    cell t t' (c.setAttr "r" value) (c'.setAttr "r" value)
  shown {t t' : StringTable} {c : Element} : strings t t' → source c → c.name = "c" →
    shownText? t c = shownText? t' c
  kept {t t' : StringTable} {c : Element} : strings t t' → source c → cell t t' c c
  emptied {t t' : StringTable} {c : Element} : source c → c.name = "c" →
    cell t t' (emptied c) (emptied c)
  insertText {t t' : StringTable} {c : Element} (text : String) : strings t t' → source c →
    c.name = "c" → cell (insertText t c text).1 (insertText t' c text).1 (insertText t c text).2
      (insertText t' c text).2
  insertValue {t t' : StringTable} {c : Element} (value : Value) : strings t t' → source c →
    c.name = "c" → cell (insertValue t c value).1 (insertValue t' c value).1
      (insertValue t c value).2 (insertValue t' c value).2

/-! ### Related lists -/

section Lists

variable {α β γ : Type} {R : α → β → Prop}

/-- The first related elements that pass related tests are related, or there is none on either
side. -/
private theorem forall₂_find? {p : α → Bool} {q : β → Bool} (hpq : ∀ a b, R a b → p a = q b)
    {l : List α} {l' : List β} (h : List.Forall₂ R l l') :
    Option.Rel R (l.find? p) (l'.find? q) := by
  induction h with
  | nil => exact .none
  | @cons a b l l' hab _ ih =>
    rw [List.find?_cons, List.find?_cons, ← hpq a b hab]
    cases p a with
    | true => exact .some hab
    | false => exact ih

/-- A change at one place by related functions keeps lists related. -/
private theorem forall₂_modify {f : α → α} {g : β → β} (hfg : ∀ a b, R a b → R (f a) (g b))
    {l : List α} {l' : List β} (h : List.Forall₂ R l l') (i : Nat) :
    List.Forall₂ R (l.modify i f) (l'.modify i g) := by
  induction h generalizing i with
  | nil => simp
  | cons hab hrest ih =>
    cases i with
    | zero => exact .cons (hfg _ _ hab) hrest
    | succ i => exact .cons hab (ih i)

/-- Functions that agree on related elements give one list. -/
theorem map_eq_of_forall₂ {f : α → γ} {g : β → γ} (hfg : ∀ a b, R a b → f a = g b)
    {l : List α} {l' : List β} (h : List.Forall₂ R l l') : l.map f = l'.map g := by
  induction h with
  | nil => rfl
  | cons hab _ ih => rw [List.map_cons, List.map_cons, hfg _ _ hab, ih]

/-- Related lists are two views of one list of pairs. -/
private theorem exists_pairs {l : List α} {l' : List β} (h : List.Forall₂ R l l') :
    ∃ pairs : List (α × β), (∀ x ∈ pairs, R x.1 x.2) ∧ l = pairs.map Prod.fst ∧
      l' = pairs.map Prod.snd := by
  induction h with
  | nil => exact ⟨[], by simp⟩
  | @cons a b _ _ hab _ ih =>
    obtain ⟨pairs, hpairs, rfl, rfl⟩ := ih
    exact ⟨(a, b) :: pairs, by simpa using ⟨hab, fun x y h => hpairs (x, y) h⟩, rfl, rfl⟩

end Lists

/-- Related cells of related lists are sorted alike. -/
private theorem forall₂_sortCells {R : Element → Element → Prop}
    (hR : ∀ c c', R c c' → sortColumn c = sortColumn c') {cells cells' : List Element}
    (h : List.Forall₂ R cells cells') : List.Forall₂ R (sortCells cells) (sortCells cells') := by
  obtain ⟨pairs, hpairs, rfl, rfl⟩ := exists_pairs h
  -- The pairs are sorted by what their cells have in common.
  have hfst : (pairs.mergeSort fun x y => sortColumn x.1 ≤ sortColumn y.1).map Prod.fst =
      sortCells (pairs.map Prod.fst) := List.map_mergeSort fun _ _ _ _ => rfl
  have hsnd : (pairs.mergeSort fun x y => sortColumn x.1 ≤ sortColumn y.1).map Prod.snd =
      sortCells (pairs.map Prod.snd) := List.map_mergeSort fun x hx y hy => by
    rw [hR _ _ (hpairs x hx), hR _ _ (hpairs y hy)]
  rw [← hfst, ← hsnd, List.forall₂_map_left_iff, List.forall₂_map_right_iff, List.forall₂_same]
  intro x hx
  exact hpairs x (List.mem_mergeSort.1 hx)

namespace Simulation

variable (S : Simulation)

/-- A cell that is filled, perhaps several times. -/
def Template (c : Element) : Prop := S.source c ∧ c.name = "c"

/-- Rows that are the same up to their cells. -/
def RowLike (t t' : StringTable) (row row' : Element) : Prop :=
  ∃ base cells cells', S.bare base ∧ (∀ c ∈ base.elements, S.cell t t' c c) ∧
    List.Forall₂ (S.cell t t') cells cells' ∧ row = base.pushAll cells ∧ row' = base.pushAll cells'

/-- What is known of a row in two passes. -/
structure StateLike (t t' : StringTable) (state state' : RowState) : Prop where
  cells : List.Forall₂ (S.cell t t') state.cells state'.cells
  cols : state.colsInserted = state'.colsInserted
  newRows : List.Forall₂ (S.RowLike t t') state.newRows state'.newRows
  tableCols : state.tableCols = state'.tableCols

/-- Two passes that differ in what the simulation relates, and in nothing else. -/
inductive Related (p : Pass) : Pass → Prop
  | intro {workbook : Workbook} {types : ContentTypes} {strings : StringTable}
      {rows : Array Element} (hworkbook : S.workbook p.workbook workbook)
      (htypes : S.types p.types types) (hstrings : S.strings p.strings strings)
      (hrows : List.Forall₂ (S.RowLike p.strings strings) p.rows.toList rows.toList) :
      Related p { p with workbook, types, strings, rows }

/-- Two passes that were at `p` and `p'` before. -/
structure Since (p p' q q' : Pass) : Prop where
  related : S.Related q q'
  left : p.strings.GrowsTo q.strings
  right : p'.strings.GrowsTo q'.strings

/-- Two passes that were at `p` and `p'` before, each with a result of its last step. -/
def SinceWith (p p' : Pass) {α : Type} (A : StringTable → StringTable → α → α → Prop)
    (x x' : Pass × α) : Prop := S.Since p p' x.1 x'.1 ∧ A x.1.strings x'.1.strings x.2 x'.2

/-- Passes that failed for the same reason, with the same pictures left out. -/
structure FailedAlike (f f' : Failure) : Prop where
  error : f.error = f'.error
  skipped : f.left.skipped = f'.left.skipped
  strings : S.strings f.left.strings f'.left.strings

variable {S} {t t' u u' : StringTable} {p p' q q' r r' : Pass}

/-! ### What grows -/

/-- A template stays one when it is given a new place. -/
theorem Template.setAttr {c : Element} (h : S.Template c) (value : String) :
    S.Template (c.setAttr "r" value) := ⟨S.source_setAttr value h.1, h.2⟩

/-- Related cells stand in the same column. -/
theorem sortColumn_eq {c c' : Element} (h : S.cell t t' c c') : sortColumn c = sortColumn c' := by
  rw [sortColumn, sortColumn, (S.place h).1, (S.place h).2]

/-- Cells stay related when both tables grow. -/
private theorem cells_mono {cells cells' : List Element} (hu : t.GrowsTo u) (hu' : t'.GrowsTo u')
    (h : List.Forall₂ (S.cell t t') cells cells') : List.Forall₂ (S.cell u u') cells cells' :=
  h.imp fun _ _ => S.grow hu hu'

theorem RowLike.mono {row row' : Element} (h : S.RowLike t t' row row') (hu : t.GrowsTo u)
    (hu' : t'.GrowsTo u') : S.RowLike u u' row row' := by
  obtain ⟨base, cells, cells', hbase, hold, hcells, hrow, hrow'⟩ := h
  exact ⟨base, cells, cells', hbase, fun c hc => S.grow hu hu' (hold c hc),
    cells_mono hu hu' hcells, hrow, hrow'⟩

/-- Related rows have the same attributes. -/
theorem RowLike.attributes {row row' : Element} (h : S.RowLike t t' row row') :
    row.attributes = row'.attributes := by
  obtain ⟨base, cells, cells', -, -, -, rfl, rfl⟩ := h
  rfl

/-- The cells of related rows are related, place by place. -/
theorem RowLike.elements {row row' : Element} (h : S.RowLike t t' row row') :
    List.Forall₂ (S.cell t t') row.elements row'.elements := by
  obtain ⟨base, cells, cells', -, hold, hcells, rfl, rfl⟩ := h
  rw [Element.elements_pushAll, Element.elements_pushAll]
  exact List.rel_append (List.forall₂_same.2 hold) hcells

theorem StateLike.mono {state state' : RowState} (h : S.StateLike t t' state state')
    (hu : t.GrowsTo u) (hu' : t'.GrowsTo u') : S.StateLike u u' state state' :=
  ⟨cells_mono hu hu' h.cells, h.cols, h.newRows.imp fun _ _ hrow => hrow.mono hu hu', h.tableCols⟩

/-- Cells that are done come after those that are done already. -/
theorem StateLike.append {state state' : RowState} (h : S.StateLike t t' state state')
    {cells cells' : List Element} (hcells : List.Forall₂ (S.cell t t') cells cells') :
    S.StateLike t t' { state with cells := state.cells ++ cells }
      { state' with cells := state'.cells ++ cells' } :=
  ⟨List.rel_append h.cells hcells, h.cols, h.newRows, h.tableCols⟩

theorem Since.refl (h : S.Related p p') : S.Since p p' p p' := ⟨h, .refl _, .refl _⟩

theorem Since.trans (h : S.Since p p' q q') (h' : S.Since q q' r r') : S.Since p p' r r' :=
  ⟨h'.related, h.left.trans h'.left, h.right.trans h'.right⟩

/-- What was related before is still related afterwards, the tables having grown: the state of a
row. -/
theorem Since.state (h : S.Since p p' q q') {state state' : RowState}
    (hstate : S.StateLike p.strings p'.strings state state') :
    S.StateLike q.strings q'.strings state state' := hstate.mono h.left h.right

/-- Likewise for cells built before. -/
theorem Since.cells (h : S.Since p p' q q') {cells cells' : List Element}
    (hcells : List.Forall₂ (S.cell p.strings p'.strings) cells cells') :
    List.Forall₂ (S.cell q.strings q'.strings) cells cells' := cells_mono h.left h.right hcells

/-- The string tables of related passes are related. -/
theorem Related.strings (h : S.Related p p') : S.strings p.strings p'.strings := by
  cases h with
  | intro _ _ hstrings _ => exact hstrings

/-- The rows of related passes are related, place by place. -/
theorem Related.rows (h : S.Related p p') :
    List.Forall₂ (S.RowLike p.strings p'.strings) p.rows.toList p'.rows.toList := by
  cases h with
  | intro _ _ _ hrows => exact hrows

/-- What related passes have in common. -/
theorem Related.same (h : S.Related p p') : p'.sheet = p.sheet ∧ p'.tables = p.tables ∧
    p'.drawing = p.drawing ∧ p'.package = p.package ∧ p'.rowsInserted = p.rowsInserted ∧
      p'.maxColsInserted = p.maxColsInserted ∧ p'.skipped = p.skipped := by
  cases h
  exact ⟨rfl, rfl, rfl, rfl, rfl, rfl, rfl⟩

/-- Longer string tables do not matter to what is done. -/
private theorem since_withStrings (h : S.Related p p') (hstrings : S.strings t t')
    (ht : p.strings.GrowsTo t) (ht' : p'.strings.GrowsTo t') :
    S.Since p p' { p with strings := t } { p' with strings := t' } := by
  cases h with
  | intro hw hc _ hrows =>
    exact ⟨.intro hw hc hstrings (hrows.imp fun _ _ hrow => hrow.mono ht ht'), ht, ht'⟩

/-! ### Values -/

/-- Showing a text takes it to related tables. -/
private theorem strings_insertText (h : S.strings t t') (c : Element) (text : String) :
    S.strings (Fill.insertText t c text).1 (Fill.insertText t' c text).1 := S.index text h

/-- So does showing a value, for only texts reach the tables. -/
private theorem strings_insertValue (h : S.strings t t') (c : Element) (value : Value) :
    S.strings (Fill.insertValue t c value).1 (Fill.insertValue t' c value).1 := by
  unfold Fill.insertValue
  split
  · exact h
  · split
    · exact h
    · exact h
    · exact h
    · exact S.index _ h

/-- A list laid out of one template gives related tables and related cells. -/
private theorem sim_layOutFrom (h : S.strings t t') {template : Element} (hc : S.Template template)
    (cell : CellRef) (distance : Nat) (items : List Value) :
    S.strings (layOutFrom template cell distance t items).1
        (layOutFrom template cell distance t' items).1 ∧
      List.Forall₂ (S.cell (layOutFrom template cell distance t items).1
          (layOutFrom template cell distance t' items).1)
        (layOutFrom template cell distance t items).2
        (layOutFrom template cell distance t' items).2 := by
  induction items generalizing t t' distance with
  | nil => exact ⟨h, .nil⟩
  | cons item items ih =>
    have hcopy := hc.setAttr (cell.offset distance 0).a1
    obtain ⟨hstrings, hcells⟩ := ih (strings_insertValue h _ item) (distance + 1)
    exact ⟨hstrings, .cons (S.grow (layOutFrom_growsTo template cell (distance + 1) _ items)
      (layOutFrom_growsTo template cell (distance + 1) _ items)
      (S.insertValue item h hcopy.1 hcopy.2)) hcells⟩

/-- Inserting a value into a template keeps passes related and gives related cells. -/
theorem sim_insert (h : S.Related p p') {c : Element} (hc : S.Template c) (value : Value) :
    S.SinceWith p p' S.cell (p.insert c value) (p'.insert c value) :=
  ⟨since_withStrings h (strings_insertValue h.strings c value) (insertValue_growsTo ..)
    (insertValue_growsTo ..), S.insertValue value h.strings hc.1 hc.2⟩

/-- Laying out a list to the right does the same, and the states stay related. -/
theorem sim_expandRight (h : S.Related p p') {state state' : RowState}
    (hstate : S.StateLike p.strings p'.strings state state') {template : Element}
    (hc : S.Template template) (cell : CellRef) (items : List Value) :
    S.SinceWith p p' S.StateLike (p.expandRight state template cell items)
      (p'.expandRight state' template cell items) := by
  obtain ⟨hstrings, hcells⟩ := sim_layOutFrom h.strings hc cell 0 items
  have hsince := since_withStrings h hstrings (layOut_growsTo p.strings template cell items)
    (layOut_growsTo p'.strings template cell items)
  exact ⟨hsince, (hsince.state hstate).append hcells⟩

/-! ### Moves -/

/-- The columns moved and the number of columns inserted are the same on both sides. -/
theorem sim_insertColumns (h : S.Related p p') {state state' : RowState}
    (hstate : S.StateLike p.strings p'.strings state state') (cell : CellRef) (cols : Int) :
    S.SinceWith p p' S.StateLike (p.insertColumns state cell cols)
      (p'.insertColumns state' cell cols) := by
  unfold Pass.insertColumns
  split
  · exact ⟨.refl h, hstate⟩
  · cases h with
    | intro hw ht hs hr =>
      exact ⟨⟨.intro (S.moveNames _ hw) ht hs hr, .refl _, .refl _⟩,
        hstate.cells, by rw [hstate.cols], hstate.newRows, hstate.tableCols⟩

/-- Moving what is below a row looks at the sheet and the workbook, which cells play no part in. -/
private theorem sim_shiftDown (h : S.Related p p') (shift : Layout.RowShift) :
    S.Since p p' (p.shiftDown shift) (p'.shiftDown shift) := by
  cases h with
  | intro hw ht hs hr =>
    -- The names are moved by the rule of this move, which keeps the relation as any rule does.
    have hnames := S.moveNames (Layout.Move.named? (.down shift)) hw
    rw [← shift.shiftName_eq] at hnames
    exact ⟨.intro hnames ht hs hr, .refl _, .refl _⟩

/-! ### Pictures -/

/-- A step that both passes try with related results. -/
private theorem sim_tryStep {α : Type} {Q : α → α → Prop} (h : S.Related p p')
    {step step' : Except Error α} (hstep : BothOrNeither Eq Q step step') :
    BothOrNeither S.FailedAlike Q (p.tryStep step) (p'.tryStep step') := by
  cases hstep with
  | ok hq => exact .ok hq
  | error he => exact .error ⟨he, h.same.2.2.2.2.2.2.symm, h.strings⟩

/-- A drawing is made from the package and the sheet, which are the same; only the content types
differ. -/
private theorem sim_create (package : Package) (sheet : Worksheet) {c c' : ContentTypes}
    (h : S.types c c') :
    BothOrNeither Eq (fun x x' : Drawing × Worksheet × ContentTypes =>
        x.1 = x'.1 ∧ x.2.1 = x'.2.1 ∧ S.types x.2.2 x'.2.2)
      (Drawing.create package sheet c) (Drawing.create package sheet c') := by
  unfold Drawing.create
  split
  · exact .error rfl
  · rename_i rels _
    dsimp only
    cases rels.add Relationships.drawingType
        ("../drawings/" ++ ("drawing" ++ toString (package.nextIndex "xl/drawings/drawing") ++
          ".xml")) with
    | error e => exact .error rfl
    | ok added => exact .ok ⟨rfl, rfl, S.ensureOverride _ _ h⟩

variable {given : Given}

/-- A drawing is there on both sides afterwards, or making it failed for the same reason. -/
theorem sim_ensureDrawing (h : S.Related p p') :
    BothOrNeither S.FailedAlike (S.Since p p') (p.ensureDrawing given)
      (p'.ensureDrawing given) := by
  cases h with
  | intro hw ht hs hr =>
    unfold Pass.ensureDrawing
    dsimp only
    split
    · exact .ok (.refl (.intro hw ht hs hr))
    · split
      · split
        · exact .error ⟨rfl, rfl, hs⟩
        · exact .ok (.refl (.intro hw ht hs hr))
      · -- A drawing that is made is the same for both: only its content type is told apart.
        refine .bind (sim_tryStep ?_ (sim_create _ _ (S.ensureDefault _ _ ht))) ?_
        · exact .intro hw (S.ensureDefault _ _ ht) hs hr
        rintro ⟨drawing, sheet, types⟩ ⟨drawing', sheet', types'⟩ ⟨hdrawing, hsheet, htypes⟩
        cases hdrawing
        cases hsheet
        exact .ok ⟨.intro hw htypes hs hr, .refl _, .refl _⟩

/-- Related rows have the same heights. -/
private theorem rowHeight_eq (h : S.Related p p') (row : Nat) :
    p'.rowHeight given row = p.rowHeight given row := by
  obtain ⟨hsheet, -, -, -, hinserted, -, -⟩ := h.same
  have hattr : ∀ e e', S.RowLike p.strings p'.strings e e' → ∀ key, e.attr? key = e'.attr? key :=
    fun e e' hrow key => by rw [Element.attr?, Element.attr?, hrow.attributes]
  -- The last finished row of the number is looked up in related lists, so it is there in both or in
  -- neither.
  have hfind := forall₂_find?
    (p := fun e : Element => (e.attr? "r").bind Text.natural32? == some row)
    (q := fun e : Element => (e.attr? "r").bind Text.natural32? == some row)
    (fun e e' hrow => by rw [hattr e e' hrow]) (List.forall₂_reverse_iff.2 h.rows)
  unfold Pass.rowHeight
  dsimp only
  rw [hsheet, hinserted]
  generalize List.find? _ p.rows.toList.reverse = found at hfind ⊢
  generalize List.find? _ p'.rows.toList.reverse = found' at hfind ⊢
  cases hfind with
  | none => rfl
  | some hrow =>
    dsimp only
    rw [Worksheet.rowHeight?, Worksheet.rowHeight?, hattr _ _ hrow]

/-- Hence a picture has the same size on both sides. -/
private theorem pictureExtent_eq (h : S.Related p p') (cell : CellRef) (picture : Image.Picture) :
    p'.pictureExtent given cell picture = p.pictureExtent given cell picture := by
  unfold Pass.pictureExtent
  rw [h.same.1]
  simp only [rowHeight_eq h]

/-- Embedding a picture changes the package and the drawing in the same way, or fails on both
sides. -/
private theorem sim_embed (h : S.Related p p') (drawing : Drawing) (cell : CellRef)
    (picture : Image.Picture) (extent : Image.Extent) :
    BothOrNeither S.FailedAlike (S.Since p p') (p.embed drawing cell picture extent)
      (p'.embed drawing cell picture extent) := by
  cases h with
  | intro hw ht hs hr =>
    unfold Pass.embed Drawing.storePicture
    dsimp only
    cases drawing.link _ with
    | error e => exact .error ⟨rfl, rfl, hs⟩
    | ok linked => exact .ok ⟨.intro hw (S.ensureDefault _ _ ht) hs hr, .refl _, .refl _⟩

/-- Reading the source fails on both sides for the same reason, or the same picture is embedded. -/
private theorem sim_placeSource (h : S.Related p p') (drawing : Drawing) (cell : CellRef)
    (source : ImageSource) :
    BothOrNeither S.FailedAlike (S.Since p p') (p.placeSource given drawing cell source)
      (p'.placeSource given drawing cell source) := by
  unfold Pass.placeSource
  split
  · rw [pictureExtent_eq h]
    exact sim_embed h drawing cell _ _
  · cases h with
    | intro hw ht hs hr =>
      split
      · exact .ok ⟨.intro hw ht hs hr, .refl _, .refl _⟩
      · exact .error ⟨rfl, rfl, hs⟩

/-- Placing a picture empties the cell and embeds the picture, or leaves it out on both sides. -/
theorem sim_placePicture (h : S.Related p p') {element : Element} (hc : S.Template element)
    (cell : CellRef) (value : Value) :
    BothOrNeither S.FailedAlike (S.SinceWith p p' S.cell) (p.placePicture given element cell value)
      (p'.placePicture given element cell value) := by
  unfold Pass.placePicture
  obtain ⟨hinsert, hcell⟩ := sim_insert h hc .empty
  dsimp only
  -- The value is no image source: the cell is emptied and nothing else happens.
  split
  · exact .ok ⟨hinsert, hcell⟩
  · refine .bind (sim_ensureDrawing hinsert.related) fun q q' hq => ?_
    rw [hq.related.same.2.2.1]
    -- There may be no drawing still, the sheet having none and none having been made.
    split
    · exact .ok ⟨hinsert.trans hq, S.grow hq.left hq.right hcell⟩
    · refine .bind (sim_placeSource hq.related _ cell _) fun r r' hr => .ok ?_
      exact ⟨(hinsert.trans hq).trans hr, S.grow (hq.trans hr).left (hq.trans hr).right hcell⟩

/-! ### Lists -/

/-- What comes of a cell whose first element is filled. -/
private def FirstLike (S : Simulation) (t t' : StringTable)
    (x x' : RowState × Option Element × Int) : Prop :=
  S.StateLike t t' x.1 x'.1 ∧ List.Forall₂ (S.cell t t') x.2.1.toList x'.2.1.toList ∧
    x.2.2 = x'.2.2

/-- The first element of a list fills the cell itself: with a list to the right, a picture or a
value. -/
private theorem sim_fillFirst (h : S.Related p p') {state state' : RowState}
    (hstate : S.StateLike p.strings p'.strings state state') {template : Element}
    (hc : S.Template template) (cell : CellRef) (token : Placeholder) (value : Value) :
    BothOrNeither S.FailedAlike (S.SinceWith p p' (FirstLike S))
      (p.fillFirst given state template cell token value)
      (p'.fillFirst given state' template cell token value) := by
  unfold Pass.fillFirst
  -- A nested list, a picture and any other value are filled in by three different functions.
  split
  · rename_i items
    obtain ⟨hp, hstate⟩ := sim_expandRight h hstate hc cell items
    exact .ok ⟨hp, hstate, .nil, rfl⟩
  · split
    · refine .bind (sim_placePicture h hc cell value) ?_
      rintro ⟨q, filled⟩ ⟨q', filled'⟩ ⟨hq, hfilled⟩
      exact .ok ⟨hq, hq.state hstate, .cons hfilled .nil, rfl⟩
    · obtain ⟨hp, hfilled⟩ := sim_insert h hc value
      exact .ok ⟨hp, hp.state hstate, .cons hfilled .nil, rfl⟩

/-- A later element fills the cell of a generated row, in the same three ways. -/
private theorem sim_fillLater (h : S.Related p p') {template : Element} (hc : S.Template template)
    (cell : CellRef) (token : Placeholder) (value : Value) :
    BothOrNeither S.FailedAlike
      (S.SinceWith p p' fun t t' (x x' : List Element × Int) =>
        List.Forall₂ (S.cell t t') x.1 x'.1 ∧ x.2 = x'.2)
      (p.fillLater given template cell token value)
      (p'.fillLater given template cell token value) := by
  unfold Pass.fillLater
  -- Here a nested list is laid out without moving what stands to its right.
  split
  · rename_i items
    obtain ⟨hstrings, hcells⟩ := sim_layOutFrom h.strings hc cell 0 items
    exact .ok ⟨since_withStrings h hstrings (layOut_growsTo p.strings template cell items)
      (layOut_growsTo p'.strings template cell items), hcells, rfl⟩
  · split
    · refine .bind (sim_placePicture h (hc.setAttr _) cell value) ?_
      rintro ⟨q, filled⟩ ⟨q', filled'⟩ ⟨hq, hfilled⟩
      exact .ok ⟨hq, .cons hfilled .nil, rfl⟩
    · obtain ⟨hp, hfilled⟩ := sim_insert h (hc.setAttr cell.a1) value
      exact .ok ⟨hp, .cons hfilled .nil, rfl⟩

/-! ### Generated rows -/

/-- What a row declares of its columns has nothing to do with its cells. -/
private theorem widenSpans_pushAll (base : Element) (cells : List Element) (cols : Int) :
    widenSpans (base.pushAll cells) cols = (widenSpans base cols).pushAll cells := by
  unfold widenSpans
  dsimp only
  rw [Element.attr?_pushAll]
  split <;> rfl

/-- A row without cells stays one when its spans are widened. -/
private theorem bare_widenSpans {base : Element} (h : S.bare base) (cols : Int) :
    S.bare (widenSpans base cols) := by
  unfold widenSpans
  dsimp only
  split
  · exact S.bare_setAttr _ (.inr rfl) h
  · exact h

/-- Cells are added to a row, whose declared columns may follow. -/
private theorem RowLike.addCells {row row' : Element} (h : S.RowLike t t' row row')
    {cells cells' : List Element} (hcells : List.Forall₂ (S.cell t t') cells cells') (cols : Int) :
    S.RowLike t t' (Pass.addCells cells cols row) (Pass.addCells cells' cols row') := by
  obtain ⟨base, old, old', hbase, hkept, hold, rfl, rfl⟩ := h
  unfold Pass.addCells
  dsimp only
  rw [Element.pushAll_pushAll, Element.pushAll_pushAll]
  split
  · exact ⟨base, _, _, hbase, hkept, List.rel_append hold hcells, rfl, rfl⟩
  · rw [widenSpans_pushAll, widenSpans_pushAll]
    exact ⟨_, _, _, bare_widenSpans hbase cols, by rwa [elements_widenSpans],
      List.rel_append hold hcells, rfl, rfl⟩

/-- A row that both passes have. -/
theorem rowLike_self {row : Element} (h : S.bare row)
    (hcells : ∀ c ∈ row.elements, S.cell t t' c c) : S.RowLike t t' row row :=
  ⟨row, [], [], h, hcells, .nil, by rw [Element.pushAll_nil], by rw [Element.pushAll_nil]⟩

/-- Generated rows start without cells and are the same on both sides. -/
private theorem rowLike_newRow {row : Element} (h : S.bare row) (anchor n : Nat) :
    S.RowLike t t' (newRow row anchor n) (newRow row anchor n) :=
  rowLike_self (S.bare_setAttr _ (.inl rfl) (S.bare_shallow h)) fun _ hc => by cases hc

/-- The rows grown for one list are related to those grown on the other side. -/
private theorem sim_growRows {row : Element} (h : S.bare row) (anchor index : Nat)
    {newRows newRows' : List Element} (hrows : List.Forall₂ (S.RowLike t t') newRows newRows') :
    List.Forall₂ (S.RowLike t t') (growRows row anchor index newRows)
      (growRows row anchor index newRows') := by
  unfold growRows
  rw [hrows.length_eq]
  split
  · exact List.rel_append hrows (.cons (rowLike_newRow h _ _) .nil)
  · exact hrows

/-- Tables are extended alike, for only the place of the cell counts. -/
private theorem sim_extendTables (h : S.Related p p') (inside : List Bool) (cell : CellRef) :
    S.Since p p' (p.extendTables inside cell) (p'.extendTables inside cell) := by
  cases h with
  | intro hw ht hs hr => exact ⟨.intro hw ht hs hr, .refl _, .refl _⟩

/-- The later elements of a list, one after the other. -/
private theorem sim_fillRows (h : S.Related p p') {row template : Element} (hrow : S.bare row)
    (hc : S.Template template) (cell : CellRef) (token : Placeholder) (inside : List Bool)
    (index : Nat) {state state' : RowState}
    (hstate : S.StateLike p.strings p'.strings state state') (elements : List Value) :
    BothOrNeither S.FailedAlike (S.SinceWith p p' S.StateLike)
      (Pass.fillRows given row template cell token inside index p state elements)
      (Pass.fillRows given row template cell token inside index p' state' elements) := by
  induction elements generalizing p p' index state state' with
  | nil => exact .ok ⟨.refl h, hstate⟩
  | cons element elements ih =>
    unfold Pass.fillRows
    refine .bind (sim_fillLater h hc _ token _) ?_
    rintro ⟨q, cells, cols⟩ ⟨q', cells', cols'⟩ ⟨hq, hcells, hcols⟩
    cases hcols
    have htables := sim_extendTables hq.related inside (cell.withRow (Text.add32 cell.row index))
    -- The row of this element is there already, or it is made for both.
    have hgrown := sim_growRows hrow cell.row index (hq.state hstate).newRows
    have hnext := forall₂_modify (fun _ _ hab => RowLike.addCells hab hcells cols) hgrown
      (index - 1)
    refine (ih htables.related (index + 1) ?_).mono fun _ _ hr => ?_
    · exact ⟨(hq.state hstate).cells, hstate.cols, hnext, hstate.tableCols⟩
    · exact ⟨(hq.trans htables).trans hr.1, hr.2⟩

/-- A list down the column: the first element in the row itself, the others in generated rows. -/
private theorem sim_expandDown (h : S.Related p p') {state state' : RowState}
    (hstate : S.StateLike p.strings p'.strings state state') {row template : Element}
    (hrow : S.bare row) (hc : S.Template template) (cell : CellRef) (token : Placeholder)
    (elements : List Value) :
    BothOrNeither S.FailedAlike (S.SinceWith p p' (FirstLike S))
      (p.expandDown given state row template cell token elements)
      (p'.expandDown given state' row template cell token elements) := by
  -- With no elements the cell is emptied and no row generated.
  cases elements with
  | nil => exact .ok ⟨.refl h, hstate, .cons (S.emptied hc.1 hc.2) .nil, rfl⟩
  | cons element elements =>
    unfold Pass.expandDown
    dsimp only
    rw [h.same.2.1]
    -- The first element may take columns, and both sides take the same number of them.
    refine .bind (sim_fillFirst h hstate hc cell token _) ?_
    rintro ⟨q, s, filled, cols⟩ ⟨q', s', filled', cols'⟩ ⟨hq, hs, hfilled, hcols⟩
    cases hcols
    refine .bind (sim_fillRows hq.related hrow hc cell token _ 1 hs elements) ?_
    rintro ⟨r, s⟩ ⟨r', s'⟩ ⟨hr, hs⟩
    exact .ok ⟨hq.trans hr, hs, hr.cells hfilled, rfl⟩

/-! ### Cells -/

/-- What follows a choice may be put behind it. -/
private theorem ite_bind {ε α β : Type} {c : Prop} [Decidable c] (x y : Except ε α)
    (f : α → Except ε β) : (if c then x >>= f else y >>= f) = (if c then x else y) >>= f := by
  split <;> rfl

/-- The four ways of filling a cell with one placeholder and nothing else. -/
private theorem sim_fillWhole (h : S.Related p p') {state state' : RowState}
    (hstate : S.StateLike p.strings p'.strings state state') {row element : Element}
    (hrow : S.bare row) (hc : S.Template element) (cell : CellRef) (token : Placeholder) :
    BothOrNeither S.FailedAlike (S.SinceWith p p' S.StateLike)
      (p.fillWhole given state row element cell token)
      (p'.fillWhole given state' row element cell token) := by
  unfold Pass.fillWhole
  -- A table, a list of a path, a picture and a single value, in this order.
  split
  · have hstart : BothOrNeither S.FailedAlike (S.Since p p')
        (if token.wantsImage then p.ensureDrawing given else pure p)
        (if token.wantsImage then p'.ensureDrawing given else pure p') := by
      split
      · exact sim_ensureDrawing h
      · exact .ok (.refl h)
    dsimp only
    -- Whether a drawing is wanted is decided first; both ways go on alike.
    rw [ite_bind, ite_bind]
    refine .bind hstart fun q q' hq => ?_
    -- From here on the column of the cell counts as a table column, on both sides.
    have hcols : S.StateLike q.strings q'.strings
        { state with tableCols := state.tableCols ++ [cell.col] }
        { state' with tableCols := state'.tableCols ++ [cell.col] } := by
      obtain ⟨hcells, hcols, hrows, htable⟩ := hq.state hstate
      exact ⟨hcells, hcols, hrows, by rw [htable]⟩
    refine .bind (sim_expandDown hq.related hcols hrow hc cell token _) ?_
    rintro ⟨r, s, filled, cols⟩ ⟨r', s', filled', cols'⟩ ⟨hr, hs, hfilled, hcols⟩
    cases hcols
    obtain ⟨hmoved, hs⟩ := sim_insertColumns hr.related hs cell cols
    exact .ok ⟨(hq.trans hr).trans hmoved, hs.append (hmoved.cells hfilled)⟩
  · rename_i items _ _
    obtain ⟨hright, hs⟩ := sim_expandRight h hstate hc cell items
    obtain ⟨hmoved, hs⟩ := sim_insertColumns hright.related hs cell (netColumns items)
    exact .ok ⟨hright.trans hmoved, hs⟩
  · refine .bind (sim_placePicture h hc cell _) ?_
    rintro ⟨q, filled⟩ ⟨q', filled'⟩ ⟨hq, hfilled⟩
    exact .ok ⟨hq, (hq.state hstate).append (.cons hfilled .nil)⟩
  · obtain ⟨hp, hfilled⟩ := sim_insert h hc ((given.values.get? token.path).getD .empty)
    exact .ok ⟨hp, (hp.state hstate).append (.cons hfilled .nil)⟩

/-- Splicing reads the shown text, which is the same on both sides, and shows the text it makes. -/
private theorem sim_fillSpliced (h : S.Related p p') {state state' : RowState}
    (hstate : S.StateLike p.strings p'.strings state state') {element : Element}
    (hc : S.Template element) (text : String) :
    S.SinceWith p p' S.StateLike (p.fillSpliced given state element text)
      (p'.fillSpliced given state' element text) := by
  have hsince := since_withStrings h (strings_insertText h.strings element
      (splice given.values text)) (insertText_growsTo p.strings element _)
    (insertText_growsTo p'.strings element _)
  exact ⟨hsince, (hsince.state hstate).append
    (.cons (S.insertText _ h.strings hc.1 hc.2) .nil)⟩

/-- A cell is filled in, or kept as it is when it shows no text or its text has no placeholder. -/
theorem sim_fillCell (h : S.Related p p') {state state' : RowState}
    (hstate : S.StateLike p.strings p'.strings state state') {row element : Element}
    (hrow : S.bare row) (hc : S.Template element) (cell : CellRef) :
    BothOrNeither S.FailedAlike (S.SinceWith p p' S.StateLike)
      (p.fillCell given state row element cell) (p'.fillCell given state' row element cell) := by
  have hcell := hc.setAttr cell.a1
  have hplain : S.StateLike p.strings p'.strings
      { state with cells := state.cells ++ [element.setAttr "r" cell.a1] }
      { state' with cells := state'.cells ++ [element.setAttr "r" cell.a1] } :=
    hstate.append (.cons (S.kept h.strings hcell.1) .nil)
  unfold Pass.fillCell
  dsimp only
  -- The texts read from the two tables are one text, so all choices fall the same way.
  rw [← S.shown h.strings hcell.1 hcell.2]
  split
  · exact .ok ⟨.refl h, hplain⟩
  · split
    · exact .ok ⟨.refl h, hplain⟩
    · split
      · exact sim_fillWhole h hstate hrow hcell cell _
      · exact .ok (sim_fillSpliced h hstate hcell _)
    · exact .ok (sim_fillSpliced h hstate hcell _)

/-! ### Rows -/

/-- The cells of a row from left to right. -/
private theorem sim_fillCells (h : S.Related p p') {row : Element} (hrow : S.bare row)
    (number previous : Nat) {state state' : RowState}
    (hstate : S.StateLike p.strings p'.strings state state') {elements : List Element}
    (helements : ∀ e ∈ elements, S.source e) :
    BothOrNeither S.FailedAlike (S.SinceWith p p' S.StateLike)
      (Pass.fillCells given row number previous p state elements)
      (Pass.fillCells given row number previous p' state' elements) := by
  -- Along the cells; what one cell does to the tables relates all that was built before it anew.
  induction elements generalizing p p' previous state state' with
  | nil => exact .ok ⟨.refl h, hstate⟩
  | cons element elements ih =>
    have hsource := helements element List.mem_cons_self
    have hrest := fun e he => helements e (List.mem_cons_of_mem _ he)
    unfold Pass.fillCells
    split
    · rename_i hname
      dsimp only
      -- The cell moves by the columns inserted so far, and those are the same number.
      rw [hstate.cols]
      refine .bind (sim_fillCell h hstate hrow ⟨hsource, hname⟩ _) ?_
      rintro ⟨q, s⟩ ⟨q', s'⟩ ⟨hq, hs⟩
      exact (ih hq.related _ hs hrest).mono fun _ _ hr => ⟨hq.trans hr.1, hr.2⟩
    · exact ih h _ (hstate.append (.cons (S.kept h.strings hsource) .nil)) hrest

/-- The copies that a generated row is given of the cells of its row. -/
private theorem sim_plainCopies {cells cells' : List Element} (tableCols : List Nat)
    (hcells : List.Forall₂ (S.cell t t') cells cells') {row row' : Element}
    (hrow : S.RowLike t t' row row') :
    List.Forall₂ (S.cell t t') (Pass.plainCopies cells tableCols row)
      (Pass.plainCopies cells' tableCols row') := by
  have htaken : row.elements.map sortColumn = row'.elements.map sortColumn :=
    map_eq_of_forall₂ (f := sortColumn) (g := sortColumn) (fun _ _ hc => sortColumn_eq hc)
      hrow.elements
  unfold Pass.plainCopies
  rw [Element.attr?, Element.attr?, hrow.attributes, htaken]
  split
  · exact .nil
  · refine List.rel_map (R := S.cell t t') ?_ (List.rel_filter ?_ hcells)
    · intro c c' hc
      dsimp only
      rw [sortColumn_eq hc]
      exact S.cell_setAttr _ hc
    · intro c c' hc
      dsimp only
      rw [(S.place hc).1, sortColumn_eq hc]

/-- Sorting looks at columns only. -/
private theorem sim_sortRow {row row' : Element} (h : S.RowLike t t' row row') :
    S.RowLike t t' (Pass.sortRow row) (Pass.sortRow row') := by
  have hcells := forall₂_sortCells (fun _ _ => sortColumn_eq) h.elements
  obtain ⟨base, cells, cells', hbase, -, -, rfl, rfl⟩ := h
  refine ⟨base.removeElements, _, _, S.bare_removeElements hbase, fun c hc => ?_, hcells, ?_, ?_⟩
  · rw [Element.elements_removeElements] at hc
    cases hc
  · rw [Pass.sortRow, Element.removeElements_pushAll_eq]
  · rw [Pass.sortRow, Element.removeElements_pushAll_eq]

/-- A row is finished by its sorted cells and the columns it gained. -/
private theorem rowLike_finishedRow {row : Element} (hrow : S.bare row) (hnone : row.elements = [])
    {cells cells' : List Element} (hcells : List.Forall₂ (S.cell t t') cells cells') (cols : Int) :
    S.RowLike t t' (Pass.finishedRow row cells cols) (Pass.finishedRow row cells' cols) :=
  RowLike.addCells (rowLike_self hrow fun _ hc => by rw [hnone] at hc; cases hc) hcells cols

/-- The generated rows are finished, appended, and what is below moves by their number. -/
private theorem sim_finishNewRows (h : S.Related p p') (given : Given) (number anchors : Nat)
    {newRows newRows' : List Element}
    (hrows : List.Forall₂ (S.RowLike p.strings p'.strings) newRows newRows') :
    S.Since p p' (p.finishNewRows given number anchors newRows)
      (p'.finishNewRows given number anchors newRows') := by
  have hsorted : List.Forall₂ (S.RowLike p.strings p'.strings) (newRows.map Pass.sortRow)
      (newRows'.map Pass.sortRow) :=
    List.rel_map (R := S.RowLike p.strings p'.strings) (fun _ _ => sim_sortRow) hrows
  have hpushed : S.Related { p with rows := p.rows ++ newRows.map Pass.sortRow }
      { p' with rows := p'.rows ++ newRows'.map Pass.sortRow } := by
    cases h with
    | intro hw ht hs hr =>
      refine .intro hw ht hs ?_
      simpa using List.rel_append hr hsorted
  have hdown := sim_shiftDown hpushed {
    anchor := number, rows := Text.low32 newRows.length
    pushDownPageBreaks := given.options.pushDownPageBreaks, sheetName := p.sheet.name }
  have hname : p'.sheet.name = p.sheet.name := by rw [h.same.1]
  unfold Pass.finishNewRows
  rw [hname, ← hrows.length_eq]
  dsimp only
  -- All that is left to do is to the drawing and to what is counted.
  obtain ⟨hrelated, hleft, hright⟩ := hdown
  generalize Pass.shiftDown { p with rows := _ } _ = q at hrelated hleft ⊢
  generalize Pass.shiftDown { p' with rows := _ } _ = q' at hrelated hright ⊢
  cases hrelated with
  | intro hw ht hs hr => split <;> exact ⟨.intro hw ht hs hr, hleft, hright⟩

/-- A row with its generated rows is finished. -/
private theorem sim_finishRow (h : S.Related p p') {state state' : RowState}
    (hstate : S.StateLike p.strings p'.strings state state') {row : Element} (hrow : S.bare row)
    (hnone : row.elements = []) (number anchors : Nat) :
    S.Since p p' (p.finishRow given state row number anchors)
      (p'.finishRow given state' row number anchors) := by
  have hcells := forall₂_sortCells (fun _ _ => sortColumn_eq) hstate.cells
  -- With the option on, the finished cells are copied to the generated rows first.
  have hnew : List.Forall₂ (S.RowLike p.strings p'.strings)
      (if given.options.substituteAllTableRows then state.newRows.map fun newRow =>
          newRow.pushAll (Pass.plainCopies (sortCells state.cells) state.tableCols newRow)
        else state.newRows)
      (if given.options.substituteAllTableRows then state'.newRows.map fun newRow =>
          newRow.pushAll (Pass.plainCopies (sortCells state'.cells) state'.tableCols newRow)
        else state'.newRows) := by
    rw [← hstate.tableCols]
    split
    · refine List.rel_map (R := S.RowLike p.strings p'.strings) (fun e e' he => ?_) hstate.newRows
      exact RowLike.addCells he (sim_plainCopies state.tableCols hcells he) 0
    · exact hstate.newRows
  -- The row itself goes behind the finished ones, and the widest insertion is kept.
  have hfinished : S.Related
      { p with
        rows := p.rows.push (Pass.finishedRow row (sortCells state.cells) state.colsInserted)
        maxColsInserted :=
          if state.colsInserted = 0 then p.maxColsInserted
          else max p.maxColsInserted state.colsInserted }
      { p' with
        rows := p'.rows.push (Pass.finishedRow row (sortCells state'.cells) state'.colsInserted)
        maxColsInserted :=
          if state'.colsInserted = 0 then p'.maxColsInserted
          else max p'.maxColsInserted state'.colsInserted } := by
    rw [← hstate.cols, h.same.2.2.2.2.2.1]
    cases h with
    | intro hw ht hs hr =>
      refine .intro hw ht hs ?_
      simpa using List.rel_append hr
        (.cons (rowLike_finishedRow hrow hnone hcells state.colsInserted) .nil)
  unfold Pass.finishRow
  dsimp only
  generalize (if given.options.substituteAllTableRows then _ else state.newRows) = newRows
    at hnew ⊢
  generalize (if given.options.substituteAllTableRows then _ else state'.newRows) = newRows'
    at hnew ⊢
  -- Whether rows were generated is the same question on both sides.
  have hempty : newRows.isEmpty = newRows'.isEmpty := by cases hnew <;> rfl
  rw [← hempty]
  split
  · exact ⟨hfinished, .refl _, .refl _⟩
  · obtain ⟨hrelated, hleft, hright⟩ := sim_finishNewRows hfinished given number anchors hnew
    exact ⟨hrelated, hleft, hright⟩

/-- A source row whose parts a simulation knows of. -/
def SourceRow (S : Simulation) (row : Element) : Prop :=
  S.bare row.removeElements ∧ ∀ e ∈ row.elements, S.source e

/-- One source row: it is numbered, its cells are filled in and it is finished. -/
theorem sim_fillRow (h : S.Related p p') (source : Nat) {row : Element} (hrow : S.SourceRow row) :
    BothOrNeither S.FailedAlike (S.Since p p') (p.fillRow given source row)
      (p'.fillRow given source row) := by
  obtain ⟨-, -, hdrawing, -, hinserted, -, -⟩ := h.same
  unfold Pass.fillRow
  dsimp only
  rw [hinserted, hdrawing]
  have hbare :
      S.bare (row.setAttr "r" (toString (Text.add32 source p.rowsInserted))).removeElements :=
    S.bare_setAttr _ (.inl rfl) hrow.1
  refine .bind (sim_fillCells h hbare _ 0 ⟨.nil, rfl, .nil, rfl⟩ hrow.2) ?_
  rintro ⟨q, state⟩ ⟨q', state'⟩ ⟨hq, hstate⟩
  exact .ok (hq.trans (sim_finishRow hq.related hstate hbare (Element.elements_removeElements _)
    _ _))

/-- All source rows, the first to the last. -/
theorem sim_fillSourceRows (h : S.Related p p') (previous : Nat) {rows : List Element}
    (hrows : ∀ row ∈ rows, S.SourceRow row) :
    BothOrNeither S.FailedAlike (S.Since p p') (Pass.fillSourceRows given previous p rows)
      (Pass.fillSourceRows given previous p' rows) := by
  induction rows generalizing p p' previous with
  | nil => exact .ok (.refl h)
  | cons row rows ih =>
    refine .bind (sim_fillRow h _ (hrows row List.mem_cons_self)) fun q q' hq => ?_
    exact (ih hq.related _ fun e he => hrows e (List.mem_cons_of_mem _ he)).mono
      fun _ _ hr => hq.trans hr

/-! ### A whole pass -/

/-- The passes finish their sheets last, each with the rows that it has filled. -/
theorem sim_run (h : S.Related p p') (hrows : ∀ row ∈ sourceRows p.sheet.doc.root, S.SourceRow row)
    (options : FillOptions) (files : ImageFiles) (values : Substitutions) :
    BothOrNeither S.FailedAlike
      (fun q q' => ∃ r r', S.Since p p' r r' ∧
        Pass.fillSourceRows (p.givenFor options files values) 0 p.withoutRows
          (sourceRows p.sheet.doc.root) = .ok r ∧
        q = (r.finishSheet (p.givenFor options files values)).save ∧
        q' = (r'.finishSheet (p.givenFor options files values)).save)
      (p.run options files values) (p'.run options files values) := by
  -- The rows are taken out of both sheets first and put back finished.
  have hbare : S.Related p.withoutRows p'.withoutRows := by
    cases h with
    | intro hw ht hs hr => exact .intro hw ht hs hr
  have hgiven : p'.givenFor options files values = p.givenFor options files values := by
    unfold Pass.givenFor
    rw [h.same.1]
  have hfilled : BothOrNeither S.FailedAlike (S.Since p.withoutRows p'.withoutRows)
      (Pass.fillSourceRows (p.givenFor options files values) 0 p.withoutRows _)
      (Pass.fillSourceRows (p.givenFor options files values) 0 p'.withoutRows _) :=
    sim_fillSourceRows hbare 0 hrows
  -- A pass is its filled rows with the sheet finished around them.
  show BothOrNeither S.FailedAlike _
    (Pass.fillSourceRows (p.givenFor options files values) 0 p.withoutRows _ >>= fun r =>
      .ok (r.finishSheet (p.givenFor options files values)).save)
    (Pass.fillSourceRows (p'.givenFor options files values) 0 p'.withoutRows _ >>= fun r =>
      .ok (r.finishSheet (p'.givenFor options files values)).save)
  rw [hgiven, h.same.1]
  refine hfilled.bind_of_eq fun r r' hr _ hsince => .ok ?_
  exact ⟨r, r', ⟨hsince.related, hsince.left, hsince.right⟩, hr, rfl, rfl⟩

end Simulation

end SheetTemplate.Fill
