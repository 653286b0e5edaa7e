import SheetTemplate.Proofs.StillSteps

/-!
# What filling one cell does

A cell that is filled leaves cells on the row at hand, columns, generated rows and tables that grew
with them, and at last it moves what stands right of it. `CellStep` says all that later proofs need
of a cell, and `cellStep_of_fillCell` is the only place where the kinds of placeholders are told
apart.

## Key results

- `Placed`: what becomes of the cell itself
- `cellStep_of_fillCell`: the cells, columns, rows, tables and moves that come from one source cell
-/

namespace SheetTemplate.Fill

open Layout (Move)
open Text (max32)
open Xml (Element)

/-! ### The cell at hand -/

/-- What becomes of a source cell when it is filled as a given cell. -/
structure Placed (values : Substitutions) (strings : StringTable) (v : CellVisit) (cell : CellRef)
    (group : List Element) : Prop where
  plain : ¬v.HasPlaceholder → group = [v.element.setAttr "r" cell.a1]
  list : ∀ items, v.across? values = some items →
    LaidOut strings (v.element.setAttr "r" cell.a1) cell items group
  single : v.HasPlaceholder → v.across? values = none →
    ∃ c, group = [c] ∧ Refilled (v.element.setAttr "r" cell.a1) c
  /-- A list without elements that would go downwards clears the cell. -/
  cleared : v.down? values = some [] → group = [emptied (v.element.setAttr "r" cell.a1)]

theorem Placed.mono {values : Substitutions} {strings strings' : StringTable} {v : CellVisit}
    {cell : CellRef} {group : List Element} (h : Placed values strings v cell group)
    (hs : strings.GrowsTo strings') : Placed values strings' v cell group :=
  ⟨h.plain, fun items hitems => (h.list items hitems).mono hs, h.single, h.cleared⟩

/-- A placeholder for no list leaves one cell. -/
private theorem placed_single {values : Substitutions} {strings : StringTable} {v : CellVisit}
    {cell : CellRef} {c : Element} (hhas : v.HasPlaceholder) (hacross : v.across? values = none)
    (hc : Refilled (v.element.setAttr "r" cell.a1) c)
    (hcleared : v.down? values = some [] → c = emptied (v.element.setAttr "r" cell.a1)) :
    Placed values strings v cell [c] where
  plain hno := absurd hhas hno
  list items hitems := by
    rw [hacross] at hitems
    exact nomatch hitems
  single _ _ := ⟨c, rfl, hc⟩
  cleared hdown := by rw [hcleared hdown]

/-- A placeholder for a list leaves its items. -/
private theorem placed_list {values : Substitutions} {strings : StringTable} {v : CellVisit}
    {cell : CellRef} {items : List Value} {group : List Element} (hhas : v.HasPlaceholder)
    (hacross : v.across? values = some items) (hdown : v.down? values ≠ some [])
    (hgroup : LaidOut strings (v.element.setAttr "r" cell.a1) cell items group) :
    Placed values strings v cell group where
  plain hno := absurd hhas hno
  list items' hitems := by
    rw [hacross] at hitems
    cases hitems
    exact hgroup
  single _ hnone := by
    rw [hacross] at hnone
    exact nomatch hnone
  cleared hnil := absurd hnil hdown

/-- A text without placeholders leaves the cell as it is. -/
private theorem placed_plain {values : Substitutions} (strings : StringTable) {v : CellVisit}
    (cell : CellRef) (hno : ¬v.HasPlaceholder) (hacross : v.across? values = none)
    (hdown : v.down? values = none) :
    Placed values strings v cell [v.element.setAttr "r" cell.a1] where
  plain _ := rfl
  list items hitems := by
    rw [hacross] at hitems
    exact nomatch hitems
  single hhas := absurd hhas hno
  cleared hnil := by
    rw [hdown] at hnil
    exact nomatch hnil

/-- The column of a cell that is filled as a given cell, if it holds a table placeholder for a
list. Generated rows are given no copy of what stands there. -/
def CellVisit.tableCols (values : Substitutions) (v : CellVisit) (cell : CellRef) : List Nat :=
  if (v.table? values).isSome then [cell.col] else []

namespace Pass

/-- The first element either fills the cell at hand or, if it is a list, replaces it. -/
theorem quiet_of_fillFirst {given : Given} {p p' : Pass} {state state' : RowState}
    {template : Element} {cell : CellRef} {token : Placeholder} {value : Value}
    {filled : Option Element} {cols : Int}
    (h : p.fillFirst given state template cell token value = .ok (p', state', filled, cols)) :
    p.Quiet p' ∧ ∃ group, state' = { state with cells := state.cells ++ group } ∧
      match value.items? with
      | some items =>
        filled = none ∧ cols = netColumns items ∧ LaidOut p'.strings template cell items group
      | none => cols = 0 ∧ group = [] ∧ ∃ c, filled = some c ∧ Refilled template c := by
  cases firstFilled_of_ok h with
  | list items =>
    exact ⟨quiet_of_strings (layOut_growsTo ..), _, rfl, rfl, rfl, laidOut_layOut ..⟩
  | picture hlist _ hplace =>
    rw [items?_eq_none hlist]
    obtain ⟨hquiet, rfl⟩ := quiet_of_placePicture hplace
    exact ⟨(quiet_insert ..).trans hquiet, [], by simp, rfl, rfl, _, rfl, refilled_insert ..⟩
  | single hlist =>
    rw [items?_eq_none hlist]
    exact ⟨quiet_insert .., [], by simp, rfl, rfl, _, rfl, refilled_insert ..⟩

/-- What laying a list out downwards does to the row at hand, to the generated rows, and to the
tables. -/
private structure ExpandedDown (row template : Element) (cell : CellRef) (token : Placeholder)
    (items : List Value) (filled : Option Element) (cols : Int) (p p' : Pass)
    (state state' : RowState) : Prop where
  still : p.Still p'
  cells : ∃ group newRows, state' = { state with cells := state.cells ++ group, newRows } ∧
    match items.head?.bind fun first => (fieldOf first token).items? with
    | some across => filled = none ∧ cols = netColumns across ∧
      LaidOut p'.strings template cell across group
    | none => cols = 0 ∧ group = [] ∧
      ∃ c, filled = some c ∧ Refilled template c ∧ (items = [] → c = emptied template)
  generated : state'.newRows.length = max state.newRows.length (items.length - 1)
  newRows : NewRows row cell.row state.newRows → NewRows row cell.row state'.newRows
  fields : FieldsPut p'.strings row template cell
    (items.tail.map fun element => shownField token (fieldOf element token))
    state.newRows state'.newRows
  /-- The numbers of the rows have to fit. -/
  tables : cell.row + (items.length - 1) ≤ max32 →
    p'.tables = p.tables.map (extendedTable cell (items.length - 1))

/-- What a list down leaves on the row and below it. -/
private theorem expandedDown_of_expandDown {given : Given} {p p' : Pass} {state state' : RowState}
    {row template : Element} {cell : CellRef} {token : Placeholder} {items : List Value}
    {filled : Option Element} {cols : Int}
    (h : p.expandDown given state row template cell token items = .ok (p', state', filled, cols)) :
    ExpandedDown row template cell token items filled cols p p' state state' := by
  -- An empty list clears the cell; otherwise the first element is filled in place.
  cases items with
  | nil =>
    simp only [expandDown, Except.ok.injEq, Prod.mk.injEq] at h
    obtain ⟨rfl, rfl, rfl, rfl⟩ := h
    have hcleared : Refilled template (emptied template) :=
      ⟨rfl, fun key hkey => Element.attr?_removeAttr_of_ne template hkey⟩
    refine ⟨.refl p, ⟨[], state.newRows, by simp, rfl, rfl, _, rfl, hcleared, fun _ => rfl⟩,
      by simp, id, fieldsPut_nil .., fun _ => ?_⟩
    simp [show extendedTable cell 0 = id from funext (extendedTable_zero cell)]
  | cons first elements =>
    obtain ⟨p₁, state₁, hfirst, hrows⟩ := expandDown_cons_eq_ok h
    obtain ⟨hquiet, group, hstate, hgroup⟩ := quiet_of_fillFirst hfirst
    obtain ⟨hstill, ⟨newRows, hstate'⟩, hlength, hnew⟩ :=
      still_of_fillRows hrows (by omega) (by omega)
    -- The first element is no concern of the generated rows.
    have hkeep : state₁.newRows = state.newRows := by rw [hstate]
    refine ⟨hquiet.toStill.trans hstill, ⟨group, newRows, by rw [hstate', hstate], ?_⟩, ?_, ?_,
      ?_, fun hfit => ?_⟩
    · dsimp only [List.head?_cons, Option.bind_some]
      split
      · rename_i across hacross
        rw [hacross] at hgroup
        exact ⟨hgroup.1, hgroup.2.1, hgroup.2.2.mono hstill.strings⟩
      · rename_i hacross
        rw [hacross] at hgroup
        obtain ⟨hcols, hnil, c, hc, hrefilled⟩ := hgroup
        exact ⟨hcols, hnil, c, hc, hrefilled, nofun⟩
    · rw [hlength, hkeep]
      simp
    · rw [← hkeep]
      exact hnew
    · rw [← hkeep]
      exact fieldsPut_of_fillRows hrows
    · rw [List.length_cons, Nat.add_sub_cancel] at hfit
      rw [tables_of_fillRows (f := id) (by rw [hquiet.tables, List.map_id]) hrows (by omega)]
      rfl

/-- Inserting no columns moves nothing. -/
theorem shiftRight_zero (p : Pass) (cell : CellRef) : p.shiftRight cell 0 = p := by
  -- No range moves, so no element is written anew, and the workbook and the sheet stay the same.
  have hrule : Layout.movedRight? cell 0 = fun _ => none := by
    funext r
    simp [Layout.movedRight?]
  have hmerges : Layout.shiftMergesRight cell 0 = id := by
    funext e
    refine Element.mapChild_of_id e _ fun merges => Element.mapNamed_of_id merges _ fun m => ?_
    exact Layout.moveRef_of_none (by simp [hrule])
  have hnames : Layout.shiftNameRight cell 0 = id := by
    funext e
    exact Layout.moveName_of_none (by simp [hrule])
  have hroot := Element.mapChild_of_id p.workbook.doc.root "definedNames"
    fun names => Element.mapNamed_of_id names "definedName" (g := id) fun _ => rfl
  have hworkbook : p.workbook.mapNames id = p.workbook := by
    simp only [Workbook.mapNames, hroot]
  have hsheet : p.sheet.mapRoot id = p.sheet := rfl
  unfold shiftRight
  rw [hmerges, hnames, hworkbook, hsheet]

/-- Inserted columns are counted, and what stands right of the cell moves. -/
theorem insertColumns_eq (p : Pass) (state : RowState) (cell : CellRef) (cols : Int) :
    p.insertColumns state cell cols =
      (p.shiftRight cell cols, { state with colsInserted := state.colsInserted + cols }) := by
  unfold insertColumns
  split
  · rename_i hcols
    simp [hcols, shiftRight_zero]
  · rfl

/-- What filling one cell does, given the row it is in: to the cells of the row, to the columns
inserted so far, to the generated rows, and to what stands right of it. -/
structure CellStep (values : Substitutions) (row : Element) (v : CellVisit) (cell : CellRef)
    (p p' : Pass) (state state' : RowState) : Prop where
  moved : ∃ still, p.Still still ∧ p' = still.shiftRight cell (v.net values)
  cells : ∃ group, state'.cells = state.cells ++ group ∧ Placed values p'.strings v cell group
  cols : state'.colsInserted = state.colsInserted + v.net values
  generated : state'.newRows.length = max state.newRows.length (v.rows values)
  newRows : NewRows row cell.row state.newRows → NewRows row cell.row state'.newRows
  fields : FieldsPut p'.strings row (v.element.setAttr "r" cell.a1) cell (v.laterFields values)
    state.newRows state'.newRows
  /-- The numbers of the rows that the cell asks for have to fit. -/
  tables : cell.row + v.rows values ≤ max32 →
    p'.tables = p.tables.map (extendedTable cell (v.rows values))
  tableCols : state'.tableCols = state.tableCols ++ v.tableCols values cell

/-- A cell without a list that goes downwards is no concern of generated rows and of tables. -/
private theorem fields_of_down?_eq_none {values : Substitutions} {v : CellVisit}
    (h : v.down? values = none) :
    v.laterFields values = [] ∧ v.rows values = 0 ∧ ∀ cell, v.tableCols values cell = [] := by
  have hrows : v.rows values = 0 := by simp [CellVisit.rows, h]
  have htable : v.table? values = none := by rwa [v.down?_eq, Option.map_eq_none_iff] at h
  exact ⟨List.eq_nil_of_length_eq_zero ((v.length_laterFields values).trans hrows), hrows,
    fun cell => by simp [CellVisit.tableCols, htable]⟩

/-- A cell that keeps to the row at hand: nothing goes downwards. -/
private theorem cellStep_of_quiet {values : Substitutions} (row : Element) {v : CellVisit}
    {cell : CellRef} {p p' : Pass} (state : RowState) {group : List Element} (hquiet : p.Quiet p')
    (hdown : v.down? values = none) (hplaced : Placed values p'.strings v cell group) :
    CellStep values row v cell p (p'.shiftRight cell (v.net values)) state
      { state with
        cells := state.cells ++ group, colsInserted := state.colsInserted + v.net values } := by
  obtain ⟨hfields, hrows, htableCols⟩ := fields_of_down?_eq_none hdown
  refine ⟨⟨p', hquiet.toStill, rfl⟩, ⟨group, rfl, hplaced⟩, rfl, ?_, id, ?_, fun _ => ?_, ?_⟩
  · rw [hrows, Nat.max_zero]
  · rw [hfields]
    exact fieldsPut_nil ..
  · rw [hrows, show extendedTable cell 0 = id from funext (extendedTable_zero cell), List.map_id]
    exact hquiet.tables
  · rw [htableCols, List.append_nil]

/-- A cell that keeps to itself: one cell comes out, and nothing is inserted. -/
private theorem cellStep_of_single {values : Substitutions} {row : Element} {v : CellVisit}
    {cell : CellRef} {p p' : Pass} {state : RowState} {c : Element} (hquiet : p.Quiet p')
    (hacross : v.across? values = none) (hdown : v.down? values = none)
    (hplaced : Placed values p'.strings v cell [c]) :
    CellStep values row v cell p p' state { state with cells := state.cells ++ [c] } := by
  have hnet : v.net values = 0 := by simp [CellVisit.net, hacross]
  have := cellStep_of_quiet row state hquiet hdown hplaced
  rwa [hnet, shiftRight_zero, Int.add_zero] at this

/-- A list laid out downwards: its first element concerns the row at hand, the others the generated
rows. -/
private theorem cellStep_of_expandDown {given : Given} {p p' : Pass} {state state' : RowState}
    {row : Element} {v : CellVisit} {cell : CellRef} {token : Placeholder} {items : List Value}
    {filled : Option Element} {cols : Int} (hhas : v.HasPlaceholder)
    (htable : v.table? given.values = some (token, items))
    (h : p.expandDown given { state with tableCols := state.tableCols ++ [cell.col] } row
      (v.element.setAttr "r" cell.a1) cell token items = .ok (p', state', filled, cols)) :
    CellStep given.values row v cell p (p'.shiftRight cell cols) state
      { state' with
        cells := state'.cells ++ filled.toList, colsInserted := state'.colsInserted + cols } := by
  obtain ⟨hstill, ⟨group, newRows, hstate, hgroup⟩, hlength, hnew, hfields, htables⟩ :=
    expandedDown_of_expandDown h
  have hacross := CellVisit.across?_of_table? htable
  rw [← hacross] at hgroup
  have hdown : v.down? given.values = some items := by rw [v.down?_eq, htable, Option.map_some]
  -- Either the items took the place of the cell, or the cell was filled.
  have hspec : cols = v.net given.values ∧
      Placed given.values (p'.shiftRight cell cols).strings v cell (group ++ filled.toList) := by
    unfold CellVisit.net
    cases hitems : v.across? given.values with
    | some across =>
      rw [hitems] at hgroup
      obtain ⟨rfl, hcols, hlaid⟩ := hgroup
      rw [Option.toList_none, List.append_nil]
      refine ⟨hcols, placed_list hhas hitems ?_ hlaid⟩
      -- Only an element can have items.
      rw [hdown]
      rintro hnil
      cases hnil
      exact nomatch hacross.symm.trans hitems
    | none =>
      rw [hitems] at hgroup
      obtain ⟨hcols, rfl, c, rfl, hc, hcleared⟩ := hgroup
      refine ⟨hcols, placed_single hhas hitems hc fun hnil => hcleared ?_⟩
      rw [hdown] at hnil
      exact Option.some.inj hnil
  obtain ⟨hcols, hplaced⟩ := hspec
  have hrows : v.rows given.values = items.length - 1 := by simp [CellVisit.rows, hdown]
  refine ⟨⟨p', hstill, by rw [hcols]⟩, ⟨group ++ filled.toList, ?_, hplaced⟩, ?_, ?_, hnew, ?_, ?_,
    ?_⟩
  · simp [hstate]
  · simp [hstate, hcols]
  · rw [hrows]
    exact hlength
  · unfold CellVisit.laterFields
    rw [htable]
    exact hfields
  · rw [hrows]
    exact htables
  · simp [hstate, CellVisit.tableCols, htable]

/-- Quiet steps may come before a cell is filled. -/
private theorem CellStep.of_quiet {values : Substitutions} {row : Element} {v : CellVisit}
    {cell : CellRef} {p p₁ p' : Pass} {state state' : RowState} (hquiet : p.Quiet p₁)
    (h : CellStep values row v cell p₁ p' state state') :
    CellStep values row v cell p p' state state' := by
  obtain ⟨⟨still, hrest, hp'⟩, hcells, hcols, hgenerated, hnew, hfields, htables, htableCols⟩ := h
  exact ⟨⟨still, hquiet.toStill.trans hrest, hp'⟩, hcells, hcols, hgenerated, hnew, hfields,
    fun hfit => (htables hfit).trans (by rw [hquiet.tables]), htableCols⟩

/-- So is a cell that is one placeholder. -/
private theorem cellStep_of_fillWhole {given : Given} {p p' : Pass} {state state' : RowState}
    {row : Element} {v : CellVisit} {cell : CellRef} {text : String} {token : Placeholder}
    (htext : v.text = some text) (hextract : Placeholder.extract text = [token])
    (hfull : token.full = true)
    (h : p.fillWhole given state row (v.element.setAttr "r" cell.a1) cell token =
      .ok (p', state')) :
    CellStep given.values row v cell p p' state state' := by
  have hwhole : wholePlaceholder? text = some token := by simp [wholePlaceholder?, hextract, hfull]
  have hhas : v.HasPlaceholder := ⟨text, htext, by simp [hextract]⟩
  cases wholeFilled_of_ok h with
  | @table items _ _ _ _ _ hkind hvalue hdrawing hexpand =>
    have htable : v.table? given.values = some (token, items) := by
      simp [CellVisit.table?, htext, tableList?, hwhole, hkind, hvalue]
    have hquiet : p.Quiet _ := hdrawing.elim (fun hsame => hsame ▸ .refl p) quiet_of_ensureDrawing
    rw [insertColumns_eq]
    exact .of_quiet hquiet (cellStep_of_expandDown hhas htable hexpand)
  | @list items hkind hvalue =>
    have hdown : v.down? given.values = none := by
      simp [CellVisit.down?, htext, listDown?, hwhole, hkind]
    have hacross : v.across? given.values = some items := by
      simp [CellVisit.across?, htext, listAcross?, hwhole, hkind, hvalue]
    have hcols : v.net given.values = netColumns items := by simp [CellVisit.net, hacross]
    have hplaced := placed_list hhas hacross (by simp [hdown])
      (laidOut_layOut p.strings (v.element.setAttr "r" cell.a1) cell items)
    rw [insertColumns_eq, ← hcols]
    exact cellStep_of_quiet row state (quiet_of_strings (layOut_growsTo ..)) hdown hplaced
  | picture hkind hplace =>
    have hdown : v.down? given.values = none := by
      simp [CellVisit.down?, htext, listDown?, hwhole, hkind]
    have hacross : v.across? given.values = none := by
      simp [CellVisit.across?, htext, listAcross?, hwhole, hkind]
    obtain ⟨hquiet, rfl⟩ := quiet_of_placePicture hplace
    exact cellStep_of_single ((quiet_insert ..).trans hquiet) hacross hdown
      (placed_single hhas hacross (refilled_insert p _ .empty) (by simp [hdown]))
  | single _ htable hlist =>
    have hdown : v.down? given.values = none := by
      simp only [CellVisit.down?, htext, listDown?, hwhole, Option.bind_some]
    have hacross : v.across? given.values = none := by
      simp only [CellVisit.across?, htext, listAcross?, hwhole, Option.bind_some]
      split
      · rename_i items hkind hvalue
        exact absurd hvalue (hlist items hkind)
      · rename_i first rest hkind hvalue
        exact absurd hvalue (htable _ hkind)
      · rfl
    exact cellStep_of_single (quiet_insert ..) hacross hdown
      (placed_single hhas hacross (refilled_insert ..) (by simp [hdown]))

/-- Text around placeholders is spliced, which concerns the cell alone. -/
private theorem cellStep_of_fillSpliced (given : Given) (p : Pass) (state : RowState)
    (row : Element) {v : CellVisit} (cell : CellRef) {text : String}
    (htext : v.text = some text) (hextract : Placeholder.extract text ≠ [])
    (hwhole : wholePlaceholder? text = none) :
    CellStep given.values row v cell p
      (p.fillSpliced given state (v.element.setAttr "r" cell.a1) text).1 state
      (p.fillSpliced given state (v.element.setAttr "r" cell.a1) text).2 := by
  have hhas : v.HasPlaceholder := ⟨text, htext, hextract⟩
  have hacross : v.across? given.values = none := by
    simp [CellVisit.across?, htext, listAcross?, hwhole]
  have hdown : v.down? given.values = none := by simp [CellVisit.down?, htext, listDown?, hwhole]
  exact cellStep_of_single
    (quiet_of_strings (insertText_growsTo p.strings (v.element.setAttr "r" cell.a1) _))
    hacross hdown
    (placed_single hhas hacross ⟨name_insertText .., fun key hkey => attr?_insertText _ _ _ hkey⟩
      (by simp [hdown]))

/-- A cell without placeholders stands for no list. -/
theorem lists_eq_none (values : Substitutions) {v : CellVisit} (h : ¬v.HasPlaceholder) :
    v.across? values = none ∧ v.down? values = none := by
  unfold CellVisit.across? CellVisit.down?
  cases htext : v.text with
  | none => exact ⟨rfl, rfl⟩
  | some text =>
    have hnil : Placeholder.extract text = [] :=
      Classical.byContradiction fun hne => h ⟨text, htext, hne⟩
    simp [listAcross?, listDown?, wholePlaceholder?, hnil]

/-- A cell without placeholders gets its reference. -/
private theorem cellStep_of_plain {values : Substitutions} (row : Element) {v : CellVisit}
    (cell : CellRef) (p : Pass) (state : RowState) (h : ¬v.HasPlaceholder) :
    CellStep values row v cell p p state
      { state with cells := state.cells ++ [v.element.setAttr "r" cell.a1] } := by
  obtain ⟨hacross, hdown⟩ := lists_eq_none values h
  exact cellStep_of_single (.refl p) hacross hdown (placed_plain p.strings cell h hacross hdown)

/-- What filling a cell does. -/
theorem cellStep_of_fillCell {given : Given} {p p' : Pass} {state state' : RowState}
    {row element : Element} {cell : CellRef} (col : Nat)
    (h : p.fillCell given state row element cell = .ok (p', state')) :
    CellStep given.values row { element, col, text := shownText? p.strings element } cell
      p p' state state' := by
  cases cellFilled_of_ok h with
  | kept hplain =>
    refine cellStep_of_plain row cell p state ?_
    rintro ⟨text, htext, hne⟩
    exact hne (hplain text htext)
  | whole htext hextract hfull hfill => exact cellStep_of_fillWhole htext hextract hfull hfill
  | spliced htext hextract hwhole =>
    exact cellStep_of_fillSpliced given p state row cell htext hextract hwhole

end Pass

end SheetTemplate.Fill
