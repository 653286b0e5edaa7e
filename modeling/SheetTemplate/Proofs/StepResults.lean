import SheetTemplate.Proofs.Outcomes
import SheetTemplate.Proofs.Visits

/-!
# What a step that succeeds has done

A row is filled by steps that may fail. For each of them there is one statement of what it has done
if it did not fail, with a case for each way and all that was decided on that way. What holds of a
pass step by step is proved along these cases, so that a step that changes is opened only here.

## Key results

- `Relationships.add_eq_ok`, `Worksheet.withRels?_eq_some`, `Drawing.create_eq_ok`,
  `Drawing.link_eq_ok`: parts
- `drawingEnsured_of_ok`, `sourcePlaced_of_ok`, `picturePlaced_of_ok`: pictures
- `firstFilled_of_ok`, `laterFilled_of_ok`, `fillRows_cons_eq_ok`, `expandDown_cons_eq_ok`: lists
- `wholeFilled_of_ok`, `cellFilled_of_ok`, `fillRow_eq_ok`: cells and rows
- `start_eq_ok`, `run_eq_ok`: where a pass starts, and all that it does
-/

namespace SheetTemplate

open Text (add32)
open Xml (Element)

/-! ### Parts that a pass adds -/

/-- A relationship is added at the end, under a fresh id. -/
theorem Relationships.add_eq_ok {r r' : Relationships} {type target id : String}
    (h : r.add type target = .ok (r', id)) :
    r.nextId = .ok id ∧ r' = r.mapRoot (·.push
      { name := "Relationship"
        attributes := [("Id", id), ("Type", type), ("Target", target)] }) := by
  obtain ⟨id, hid, h⟩ := map_eq_ok.1 h
  cases h
  exact ⟨hid, rfl⟩

/-- A sheet is given relationships only if it has none and no part is in their place. -/
theorem Worksheet.withRels?_eq_some {w w' : Worksheet} {package : Package}
    (h : w.withRels? package = some w') :
    w'.rels.isSome = true ∧ w' = { w with rels := w'.rels } ∧
      (w'.rels = w.rels ∨
        w.rels = none ∧ w'.rels = some (.empty (PartPath.relationshipsOf w.path))) := by
  unfold Worksheet.withRels? at h
  dsimp only at h
  -- The sheet has relationships, or they are begun if no part of that name is there.
  split at h
  · rename_i hsome
    cases h
    exact ⟨hsome, rfl, .inl rfl⟩
  · rename_i hnone
    split at h
    · cases h
    · cases h
      exact ⟨rfl, rfl, .inr ⟨by simpa using hnone, rfl⟩⟩

namespace Drawing

/-- The file that a new drawing gets in its folder. -/
def newFile (package : Package) : String :=
  "drawing" ++ toString (package.nextIndex "xl/drawings/drawing") ++ ".xml"

/-- The file that a picture gets in its folder. -/
def pictureFile (package : Package) (picture : Image.Picture) : String :=
  "image" ++ toString (package.nextIndex "xl/media/image") ++ "." ++ picture.format.extension

/-- A new drawing is linked by the sheet and has a content type. -/
theorem create_eq_ok {package : Package} {sheet sheet' : Worksheet} {types types' : ContentTypes}
    {drawing : Drawing} (h : create package sheet types = .ok (drawing, sheet', types')) :
    ∃ rels rels' id, sheet.rels = some rels ∧
      rels.add Relationships.drawingType ("../drawings/" ++ newFile package) = .ok (rels', id) ∧
      drawing = .empty ("xl/drawings/" ++ newFile package) ∧
      sheet' = { sheet with rels := some rels' }.attachDrawing id ∧
      types' = types.ensureOverride ("/" ++ ("xl/drawings/" ++ newFile package))
        ContentTypes.drawing := by
  unfold create at h
  split at h
  · cases h
  · rename_i rels hrels
    dsimp only at h
    obtain ⟨⟨rels', id⟩, hadd, h⟩ := bind_eq_ok.1 h
    cases h
    exact ⟨rels, rels', id, hrels, hadd, rfl, rfl, rfl⟩

/-- A picture is linked by the drawing. -/
theorem link_eq_ok {drawing linked : Drawing} {file id : String}
    (h : drawing.link file = .ok (linked, id)) :
    ∃ rels, drawing.rels.add Relationships.imageType ("../media/" ++ file) = .ok (rels, id) ∧
      linked = { drawing with rels } := by
  obtain ⟨⟨rels, id⟩, hadd, h⟩ := map_eq_ok.1 h
  cases h
  exact ⟨rels, hadd, rfl⟩

end Drawing

namespace Fill

/-- The text of a cell does not depend on where the cell stands. -/
theorem shownText?_setAttr (strings : StringTable) (element : Element) (value : String) :
    shownText? strings (element.setAttr "r" value) = shownText? strings element := by
  simp [shownText?, shownSlot?, Element.attr?_setAttr_of_ne element (show "t" ≠ "r" by decide)]

namespace Pass

variable {given : Given} {p p' : Pass} {state state' : RowState} {cell : CellRef}
  {token : Placeholder}

/-! ### Pictures -/

/-- How a sheet comes to a drawing, if it does. -/
inductive DrawingEnsured (p : Pass) : Pass → Prop
  /-- The sheet has one. -/
  | there (hsome : p.drawing.isSome = true) : DrawingEnsured p p
  /-- The sheet can have no relationships, so it goes without a drawing. -/
  | without (hnone : p.drawing = none) (hrels : p.sheet.withRels? p.package = none) :
      DrawingEnsured p p
  /-- The sheet is given relationships if it has none, and then a drawing. -/
  | begun {sheet sheet' : Worksheet} {types : ContentTypes} {drawing : Drawing}
      (hnone : p.drawing = none) (hsheet : p.sheet.withRels? p.package = some sheet)
      (hcreate : Drawing.create p.package sheet
        (p.types.ensureDefault "rels" ContentTypes.relationships) = .ok (drawing, sheet', types)) :
      DrawingEnsured p { p with sheet := sheet', types, drawing := some drawing }

/-- A sheet has a drawing, goes without one, or gets one. -/
theorem drawingEnsured_of_ok (h : p.ensureDrawing given = .ok p') : DrawingEnsured p p' := by
  unfold ensureDrawing at h
  split at h
  · rename_i hsome
    cases h
    exact .there hsome
  · rename_i hsome
    have hnone : p.drawing = none := by simpa using hsome
    split at h
    · rename_i hrels
      -- Strict options fail here instead.
      split at h
      · cases h
      · cases h
        exact .without hnone hrels
    · rename_i sheet hsheet
      dsimp only at h
      obtain ⟨⟨drawing, sheet', types⟩, hcreate, h⟩ := bind_eq_ok.1 h
      cases h
      exact .begun hnone hsheet (tryStep_eq_ok hcreate)

/-- What becomes of the source of a picture. -/
inductive SourcePlaced (given : Given) (p : Pass) (drawing : Drawing) (cell : CellRef)
    (source : ImageSource) : Pass → Prop
  /-- The picture is stored, linked and anchored. -/
  | shown {picture : Image.Picture} {linked : Drawing} {id : String}
      (hload : Image.load given.files given.options.imageRoot source = .ok picture)
      (hlink : drawing.link (Drawing.storePicture p.package p.types picture).2.2 =
        .ok (linked, id)) :
      SourcePlaced given p drawing cell source { p with
        package := (Drawing.storePicture p.package p.types picture).1
        types := (Drawing.storePicture p.package p.types picture).2.1
        drawing := some (linked.addPicture cell.zeroBased.1 cell.zeroBased.2
          (p.pictureExtent given cell picture) id) }
  /-- The source cannot be read, and the pass goes on without it. -/
  | skipped {error : Error}
      (hload : Image.load given.files given.options.imageRoot source = .error error) :
      SourcePlaced given p drawing cell source
        { p with skipped := p.skipped ++ [⟨source, error⟩] }

/-- A source that cannot be read is no failure only if it may be left out. -/
theorem sourcePlaced_of_ok {drawing : Drawing} {source : ImageSource}
    (h : p.placeSource given drawing cell source = .ok p') :
    SourcePlaced given p drawing cell source p' := by
  unfold placeSource at h
  split at h
  · rename_i picture hload
    unfold embed at h
    dsimp only at h
    obtain ⟨⟨linked, id⟩, hlink, h⟩ := bind_eq_ok.1 h
    cases h
    exact .shown hload (tryStep_eq_ok hlink)
  · rename_i error hload
    split at h
    · cases h
      exact .skipped hload
    · cases h

/-- What becomes of the cell of a picture, which is emptied in any case. -/
inductive PicturePlaced (given : Given) (p : Pass) (element : Element) (cell : CellRef)
    (value : Value) : Pass → Element → Prop
  /-- The value stands for no picture. -/
  | sourceless (hsource : Image.sourceOf? given.files given.options.imageRoot value = none) :
      PicturePlaced given p element cell value (p.insert element .empty).1
        (p.insert element .empty).2
  /-- The sheet can have no drawing, so nothing is shown. -/
  | undrawn {source : ImageSource} {p₁ : Pass}
      (hsource : Image.sourceOf? given.files given.options.imageRoot value = some source)
      (hensure : (p.insert element .empty).1.ensureDrawing given = .ok p₁)
      (hnone : p₁.drawing = none) :
      PicturePlaced given p element cell value p₁ (p.insert element .empty).2
  /-- There is a drawing to put the picture into. -/
  | placed {source : ImageSource} {drawing : Drawing} {p₁ p₂ : Pass}
      (hsource : Image.sourceOf? given.files given.options.imageRoot value = some source)
      (hensure : (p.insert element .empty).1.ensureDrawing given = .ok p₁)
      (hdrawing : p₁.drawing = some drawing)
      (hplace : p₁.placeSource given drawing cell source = .ok p₂) :
      PicturePlaced given p element cell value p₂ (p.insert element .empty).2

/-- A picture that was placed: the drawing comes before the source. -/
theorem picturePlaced_of_ok {element e : Element} {value : Value}
    (h : p.placePicture given element cell value = .ok (p', e)) :
    PicturePlaced given p element cell value p' e := by
  unfold placePicture at h
  dsimp only at h
  split at h
  · rename_i hsource
    cases h
    exact .sourceless hsource
  · rename_i source hsource
    obtain ⟨p₁, hensure, h⟩ := bind_eq_ok.1 h
    split at h
    · rename_i hnone
      cases h
      exact .undrawn hsource hensure hnone
    · rename_i drawing hdrawing
      obtain ⟨p₂, hplace, h⟩ := bind_eq_ok.1 h
      cases h
      exact .placed hsource hensure hdrawing hplace

/-! ### Lists -/

/-- What the first element of a list downwards does: its field is laid out to the right, shown as a
picture, or inserted. -/
inductive FirstFilled (given : Given) (p : Pass) (state : RowState) (template : Element)
    (cell : CellRef) (token : Placeholder) :
    Value → Pass → RowState → Option Element → Int → Prop
  | list (items : List Value) :
      FirstFilled given p state template cell token (.list items)
        (p.expandRight state template cell items).1 (p.expandRight state template cell items).2
        none (netColumns items)
  | picture {value : Value} {p' : Pass} {e : Element} (hlist : ∀ items, value ≠ .list items)
      (hwanted : (token.wantsImage && !value.isEmpty) = true)
      (hplace : p.placePicture given template cell value = .ok (p', e)) :
      FirstFilled given p state template cell token value p' state (some e) 0
  | single {value : Value} (hlist : ∀ items, value ≠ .list items)
      (hshown : ¬(token.wantsImage && !value.isEmpty) = true) :
      FirstFilled given p state template cell token value (p.insert template value).1 state
        (some (p.insert template value).2) 0

/-- The first element stays in the row at hand. -/
theorem firstFilled_of_ok {template : Element} {value : Value} {filled : Option Element}
    {cols : Int}
    (h : p.fillFirst given state template cell token value = .ok (p', state', filled, cols)) :
    FirstFilled given p state template cell token value p' state' filled cols := by
  unfold fillFirst at h
  split at h
  · rename_i items
    cases h
    exact .list items
  · rename_i hlist
    split at h
    · rename_i hwanted
      obtain ⟨⟨p₁, e⟩, hplace, h⟩ := bind_eq_ok.1 h
      cases h
      exact .picture hlist hwanted hplace
    · rename_i hshown
      cases h
      exact .single hlist hshown

/-- What a later element does, in a row of its own. -/
inductive LaterFilled (given : Given) (p : Pass) (template : Element) (cell : CellRef)
    (token : Placeholder) : Value → Pass → List Element → Int → Prop
  | list (items : List Value) :
      LaterFilled given p template cell token (.list items)
        { p with strings := (layOut p.strings template cell items).1 }
        (layOut p.strings template cell items).2 (netColumns items)
  | picture {value : Value} {p' : Pass} {e : Element} (hlist : ∀ items, value ≠ .list items)
      (hwanted : (token.wantsImage && !value.isEmpty) = true)
      (hplace : p.placePicture given (template.setAttr "r" cell.a1) cell value = .ok (p', e)) :
      LaterFilled given p template cell token value p' [e] 0
  | single {value : Value} (hlist : ∀ items, value ≠ .list items)
      (hshown : ¬(token.wantsImage && !value.isEmpty) = true) :
      LaterFilled given p template cell token value
        (p.insert (template.setAttr "r" cell.a1) value).1
        [(p.insert (template.setAttr "r" cell.a1) value).2] 0

/-- A later element makes all its cells anew, the first of them too. -/
theorem laterFilled_of_ok {template : Element} {value : Value} {cells : List Element} {cols : Int}
    (h : p.fillLater given template cell token value = .ok (p', cells, cols)) :
    LaterFilled given p template cell token value p' cells cols := by
  unfold fillLater at h
  split at h
  · rename_i items
    cases h
    exact .list items
  · rename_i hlist
    split at h
    · rename_i hwanted
      obtain ⟨⟨p₁, e⟩, hplace, h⟩ := bind_eq_ok.1 h
      cases h
      exact .picture hlist hwanted hplace
    · rename_i hshown
      cases h
      exact .single hlist hshown

/-- The elements from an index on put the cells of the first of them into its row, extend tables,
and go on with the next. -/
theorem fillRows_cons_eq_ok {row template : Element} {inside : List Bool} {index : Nat}
    {element : Value} {elements : List Value}
    (h : fillRows given row template cell token inside index p state (element :: elements) =
      .ok (p', state')) :
    ∃ p₁ cells cols,
      p.fillLater given template (cell.withRow (add32 cell.row index)) token
        (fieldOf element token) = .ok (p₁, cells, cols) ∧
      fillRows given row template cell token inside (index + 1)
        (p₁.extendTables inside (cell.withRow (add32 cell.row index)))
        { state with
          newRows := mapNewRow index (addCells cells cols)
            (growRows row cell.row index state.newRows) } elements = .ok (p', state') := by
  unfold fillRows at h
  dsimp only at h
  obtain ⟨⟨p₁, cells, cols⟩, hlater, hrest⟩ := bind_eq_ok.1 h
  exact ⟨p₁, cells, cols, hlater, hrest⟩

/-- A list downwards is its first element, and then the later ones. -/
theorem expandDown_cons_eq_ok {row template : Element} {element : Value} {elements : List Value}
    {filled : Option Element} {cols : Int}
    (h : p.expandDown given state row template cell token (element :: elements) =
      .ok (p', state', filled, cols)) :
    ∃ p₁ state₁,
      p.fillFirst given state template cell token (fieldOf element token) =
        .ok (p₁, state₁, filled, cols) ∧
      fillRows given row template cell token (p.tables.map (isInside cell)) 1 p₁ state₁ elements =
        .ok (p', state') := by
  unfold expandDown at h
  dsimp only at h
  obtain ⟨⟨p₁, state₁, filled₁, cols₁⟩, hfirst, h⟩ := bind_eq_ok.1 h
  obtain ⟨⟨p₂, state₂⟩, hrows, h⟩ := bind_eq_ok.1 h
  cases h
  exact ⟨p₁, state₁, hfirst, hrows⟩

/-! ### Cells, rows and the sheet -/

/-- What becomes of a cell that is one placeholder. -/
inductive WholeFilled (given : Given) (p : Pass) (state : RowState) (row element : Element)
    (cell : CellRef) (token : Placeholder) : Pass → RowState → Prop
  /-- A list goes downwards, after the sheet got its drawing if pictures are wanted. -/
  | table {items : List Value} {p₁ p₂ : Pass} {state₂ : RowState} {filled : Option Element}
      {cols : Int} (hkind : token.kind = .table)
      (hvalue : given.values.get? token.name = some (.list items))
      (hdrawing : p₁ = p ∨ p.ensureDrawing given = .ok p₁)
      (hexpand : p₁.expandDown given { state with tableCols := state.tableCols ++ [cell.col] } row
        element cell token items = .ok (p₂, state₂, filled, cols)) :
      WholeFilled given p state row element cell token (p₂.insertColumns state₂ cell cols).1
        { (p₂.insertColumns state₂ cell cols).2 with
          cells := (p₂.insertColumns state₂ cell cols).2.cells ++ filled.toList }
  /-- A list goes to the right. -/
  | list {items : List Value} (hkind : token.kind = .normal)
      (hvalue : given.values.get? token.name = some (.list items)) :
      WholeFilled given p state row element cell token
        ((p.expandRight state element cell items).1.insertColumns
          (p.expandRight state element cell items).2 cell (netColumns items)).1
        ((p.expandRight state element cell items).1.insertColumns
          (p.expandRight state element cell items).2 cell (netColumns items)).2
  /-- A picture is looked up under the whole path. -/
  | picture {p' : Pass} {e : Element} (hkind : token.kind = .image)
      (hplace : p.placePicture given element cell
        ((given.values.get? token.path).getD .empty) = .ok (p', e)) :
      WholeFilled given p state row element cell token p' { state with cells := state.cells ++ [e] }
  /-- Any other value is inserted, nothing if there is none. -/
  | single (himage : token.kind ≠ .image)
      (htable : ∀ items, token.kind = .table → given.values.get? token.name ≠ some (.list items))
      (hlist : ∀ items, token.kind = .normal → given.values.get? token.name ≠ some (.list items)) :
      WholeFilled given p state row element cell token
        (p.insert element ((given.values.get? token.path).getD .empty)).1
        { state with
          cells := state.cells ++
            [(p.insert element ((given.values.get? token.path).getD .empty)).2] }

/-- The kind of the placeholder and its value decide how a cell is filled. -/
theorem wholeFilled_of_ok {row element : Element}
    (h : p.fillWhole given state row element cell token = .ok (p', state')) :
    WholeFilled given p state row element cell token p' state' := by
  unfold fillWhole at h
  split at h
  · rename_i items hkind hvalue
    dsimp only at h
    -- Only pictures need the drawing beforehand.
    split at h
    · obtain ⟨p₁, hensure, h⟩ := bind_eq_ok.1 h
      obtain ⟨⟨p₂, state₂, filled, cols⟩, hexpand, h⟩ := bind_eq_ok.1 h
      rw [← (Prod.mk.inj (Except.ok.inj h)).1, ← (Prod.mk.inj (Except.ok.inj h)).2]
      exact .table hkind hvalue (.inr hensure) hexpand
    · obtain ⟨p₁, hsame, h⟩ := bind_eq_ok.1 h
      obtain ⟨⟨p₂, state₂, filled, cols⟩, hexpand, h⟩ := bind_eq_ok.1 h
      rw [← (Prod.mk.inj (Except.ok.inj h)).1, ← (Prod.mk.inj (Except.ok.inj h)).2]
      exact .table hkind hvalue (.inl (Except.ok.inj hsame).symm) hexpand
  · rename_i items hkind hvalue
    rw [← (Prod.mk.inj (Except.ok.inj h)).1, ← (Prod.mk.inj (Except.ok.inj h)).2]
    exact .list hkind hvalue
  · rename_i hkind
    obtain ⟨⟨p₁, e⟩, hplace, h⟩ := bind_eq_ok.1 h
    cases h
    exact .picture hkind hplace
  · rename_i himage htable hlist
    cases h
    exact .single himage htable hlist

/-- What becomes of a cell, which gets its final reference first. -/
inductive CellFilled (given : Given) (p : Pass) (state : RowState) (row element : Element)
    (cell : CellRef) : Pass → RowState → Prop
  /-- There is no placeholder in the cell. -/
  | kept (hplain : ∀ text, shownText? p.strings element = some text →
        Placeholder.extract text = []) :
      CellFilled given p state row element cell p
        { state with cells := state.cells ++ [element.setAttr "r" cell.a1] }
  /-- The cell is one placeholder. -/
  | whole {text : String} {token : Placeholder} {p' : Pass} {state' : RowState}
      (htext : shownText? p.strings element = some text)
      (hextract : Placeholder.extract text = [token]) (hfull : token.full = true)
      (hfill : p.fillWhole given state row (element.setAttr "r" cell.a1) cell token =
        .ok (p', state')) :
      CellFilled given p state row element cell p' state'
  /-- There is more in the cell than one placeholder. -/
  | spliced {text : String} (htext : shownText? p.strings element = some text)
      (hextract : Placeholder.extract text ≠ []) (hwhole : wholePlaceholder? text = none) :
      CellFilled given p state row element cell
        (p.fillSpliced given state (element.setAttr "r" cell.a1) text).1
        (p.fillSpliced given state (element.setAttr "r" cell.a1) text).2

/-- The text of a cell decides whether it is kept, filled as a whole or spliced. -/
theorem cellFilled_of_ok {row element : Element}
    (h : p.fillCell given state row element cell = .ok (p', state')) :
    CellFilled given p state row element cell p' state' := by
  unfold fillCell at h
  dsimp only at h
  rw [shownText?_setAttr] at h
  split at h
  · rename_i htext
    cases h
    exact .kept fun text hshown => nomatch htext.symm.trans hshown
  · rename_i text htext
    split at h
    · rename_i hextract
      cases h
      refine .kept fun text' hshown => ?_
      cases htext.symm.trans hshown
      exact hextract
    · rename_i token hextract
      split at h
      · rename_i hfull
        exact .whole htext hextract hfull h
      · rename_i hfull
        cases h
        exact .spliced htext (by simp [hextract]) (by simp [wholePlaceholder?, hextract, hfull])
    · rename_i hnil hsingle
      cases h
      refine .spliced htext hnil ?_
      unfold wholePlaceholder?
      split
      · rename_i token hextract
        exact absurd hextract (hsingle token)
      · rfl

/-- The cells of a row are filled, and then the row is finished. -/
theorem fillRow_eq_ok {source : Nat} {row : Element} (h : p.fillRow given source row = .ok p') :
    ∃ p₁ state,
      fillCells given (row.setAttr "r" (toString (add32 source p.rowsInserted))).removeElements
        (add32 source p.rowsInserted) 0 p {} row.elements = .ok (p₁, state) ∧
      p' = p₁.finishRow given state
        (row.setAttr "r" (toString (add32 source p.rowsInserted))).removeElements
        (add32 source p.rowsInserted) ((p.drawing.map fun d => d.anchors.length).getD 0) := by
  unfold fillRow at h
  dsimp only at h
  obtain ⟨⟨p₁, state⟩, hcells, h⟩ := bind_eq_ok.1 h
  cases h
  exact ⟨p₁, state, hcells, rfl⟩

/-- A pass starts with a sheet, its tables and its drawing as the package has them. -/
theorem start_eq_ok {package : Package} {workbook : Workbook} {strings : StringTable}
    {types : ContentTypes} {info : SheetInfo}
    (h : start package workbook strings types info = .ok p) :
    ∃ sheet tables drawing, Worksheet.load package info = .ok sheet ∧
      Table.loadAll package sheet = .ok tables ∧ Drawing.load? package sheet = .ok drawing ∧
      p = { sheet, tables, drawing, strings, workbook, package, types } := by
  unfold start at h
  obtain ⟨sheet, hsheet, h⟩ := bind_eq_ok.1 h
  obtain ⟨tables, htables, h⟩ := bind_eq_ok.1 h
  obtain ⟨drawing, hdrawing, h⟩ := bind_eq_ok.1 h
  cases h
  exact ⟨sheet, tables, drawing, hsheet, htables, hdrawing, rfl⟩

/-- No row is finished when a pass starts, and none is inserted. -/
theorem fresh_start {package : Package} {workbook : Workbook} {strings : StringTable}
    {types : ContentTypes} {info : SheetInfo}
    (h : start package workbook strings types info = .ok p) : p.Fresh := by
  obtain ⟨sheet, tables, drawing, -, -, -, rfl⟩ := start_eq_ok h
  exact ⟨rfl, rfl⟩

/-- A pass fills all rows and then sees to the sheet as a whole. -/
theorem run_eq_ok {options : FillOptions} {files : ImageFiles} {values : Substitutions}
    (h : p.run options files values = .ok p') :
    ∃ r, fillSourceRows (p.givenFor options files values) 0 p.withoutRows
        (sourceRows p.sheet.doc.root) = .ok r ∧
      p' = (r.finishSheet (p.givenFor options files values)).save := by
  obtain ⟨r, hfill, hfinish⟩ := bind_eq_ok.1 h
  exact ⟨r, hfill, (Except.ok.inj hfinish).symm⟩

end Pass

end Fill

end SheetTemplate
