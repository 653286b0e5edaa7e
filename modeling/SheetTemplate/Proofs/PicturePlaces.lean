import SheetTemplate.Proofs.AddedRelationships
import SheetTemplate.Proofs.AnchorMoves
import SheetTemplate.Proofs.Insertions
import SheetTemplate.Proofs.PassChanges
import SheetTemplate.Proofs.TableRanges

/-!
# Where pictures are

A pass adds the pictures of a row at the end of the drawing while it fills the cells of the row.
Once the row is done and rows were generated for it, it moves anchors down, but only those that were
there before the row. So an anchor from before the pass moves with every row that generates rows
above it, and a new picture would move with later rows only. These are all further down, so it
stays where it was put.

## Key results

- `redraws_of_fillRow`, `redrawn_of_fillSourceRows`: what rows add to a drawing and what they move
- `anchors_follow`: where the anchors of a drawing are after a pass
-/

namespace SheetTemplate.Fill

open Drawing (Movable isAnchor beginsBelow moveNode moveNodes lowered markerRow? blankRows)
open Text (max32 low32 add32 add32_of_le low32_of_le add32_low32_left add32_low32_right)
open Xml (Element Node)

/-! ### Pictures that cells ask for -/

/-- The value that a field shows as a picture, if it does. -/
def pictureField? (token : Placeholder) : Value → Option Value
  | .list _ => none
  | value => if token.wantsImage && !value.isEmpty then some value else none

/-- The pictures that later elements of a list ask for, by their cells: the element with an index
has its cell as many rows below the one of the placeholder. -/
def laterPictures (token : Placeholder) (cell : CellRef) : Nat → List Value → List (CellRef × Value)
  | _, [] => []
  | index, element :: elements =>
    (pictureField? token (fieldOf element token)).toList.map
        (cell.withRow (add32 cell.row index), ·) ++
      laterPictures token cell (index + 1) elements

/-- The pictures that the elements of a list ask for, by their cells. The first has the cell of the
placeholder itself. -/
def tablePictures (token : Placeholder) (cell : CellRef) : List Value → List (CellRef × Value)
  | [] => []
  | element :: elements =>
    (pictureField? token (fieldOf element token)).toList.map (cell, ·) ++
      laterPictures token cell 1 elements

/-- The pictures that a placeholder asks for in a cell of its own. -/
def tokenPictures (values : Substitutions) (token : Placeholder) (cell : CellRef) :
    List (CellRef × Value) :=
  match token.kind, values.get? token.name with
  | .table, some (.list items) => tablePictures token cell items
  | .image, _ => [(cell, (values.get? token.path).getD .empty)]
  | _, _ => []

/-- The pictures that a cell asks for, by the cells that they are for. -/
def CellVisit.pictures (values : Substitutions) (v : CellVisit) (cell : CellRef) :
    List (CellRef × Value) :=
  match v.text.bind wholePlaceholder? with
  | some token => tokenPictures values token cell
  | none => []

/-- The pictures that cells of a row ask for after inserted columns. -/
def cellPictures (values : Substitutions) (number : Nat) :
    Int → List CellVisit → List (CellRef × Value)
  | _, [] => []
  | inserted, v :: vs =>
    v.pictures values (v.target number inserted) ++
      cellPictures values number (inserted + v.net values) vs

/-- The pictures that a row asks for with generated rows above it. -/
def RowVisit.pictures (values : Substitutions) (v : RowVisit) (above : Nat) :
    List (CellRef × Value) := cellPictures values (add32 v.number above) 0 v.cells

/-- Whether a value gives a picture that can be read. -/
def isReadable (files : ImageFiles) (root : Option String) (value : Value) : Bool :=
  (Image.sourceOf? files root value).any fun source => (Image.load files root source).isOk

/-- Those pictures that can be read. -/
def readablePictures (files : ImageFiles) (root : Option String)
    (wanted : List (CellRef × Value)) : List (CellRef × Value) :=
  wanted.filter fun picture => isReadable files root picture.2

/-- The cells of those pictures that can be read. -/
def readableCells (files : ImageFiles) (root : Option String) (wanted : List (CellRef × Value)) :
    List CellRef :=
  (wanted.filter fun picture => isReadable files root picture.2).map Prod.fst

/-- The readable pictures of two lists are those of both. -/
theorem readablePictures_append (files : ImageFiles) (root : Option String)
    (wanted more : List (CellRef × Value)) :
    readablePictures files root (wanted ++ more) =
      readablePictures files root wanted ++ readablePictures files root more :=
        List.filter_append ..

/-- A single picture is readable or not. -/
theorem readablePictures_singleton (files : ImageFiles) (root : Option String) (cell : CellRef)
    (value : Value) :
    readablePictures files root [(cell, value)] =
      if isReadable files root value then [(cell, value)] else [] := by
  cases h : isReadable files root value <;> simp [readablePictures, h]

/-- Whether a node is the anchor of a picture at a cell. -/
def IsPictureAt (cell : CellRef) (n : Node) : Prop :=
  ∃ (d : Drawing) (shapeId : Nat) (extent : Image.Extent) (link : String),
    n = .element (d.pictureAnchor shapeId cell.zeroBased.1 cell.zeroBased.2 extent link)

/-- Whether a node is the anchor that a value gives at a cell, with a size for the picture. -/
def IsPictureOf (files : ImageFiles) (root : Option String) (size : Image.Picture → Image.Extent)
    (place : CellRef × Value) (n : Node) : Prop :=
  ∃ (source : ImageSource) (picture : Image.Picture) (d : Drawing) (shapeId : Nat) (link : String),
    Image.sourceOf? files root place.2 = some source ∧
      Image.load files root source = .ok picture ∧
      n = .element (d.pictureAnchor shapeId place.1.zeroBased.1 place.1.zeroBased.2 (size picture)
        link)

/-- A picture of some size is a picture. -/
theorem IsPictureOf.isPictureAt {files : ImageFiles} {root : Option String}
    {size : Image.Picture → Image.Extent} {place : CellRef × Value} {n : Node}
    (h : IsPictureOf files root size place n) : IsPictureAt place.1 n := by
  obtain ⟨-, picture, d, shapeId, link, -, -, rfl⟩ := h
  exact ⟨d, shapeId, size picture, link, rfl⟩

namespace Pass

/-! ### What cells draw -/

/-- Whether the sheet has a drawing or can be given one. -/
def canDraw (p : Pass) : Bool :=
  p.drawing.isSome || p.sheet.rels.isSome ||
    !p.package.contains (PartPath.relationshipsOf p.sheet.path)

/-- The states of a pass while it fills cells of a row, from one of them on: some steps move
nothing, others insert the columns of a cell. -/
inductive InRow (values : Substitutions) (cells : List CellVisit) (p : Pass) : Pass → Prop
  | refl : InRow values cells p p
  | still {m m' : Pass} (h : InRow values cells p m) (hstill : m.Still m') : InRow values cells p m'
  | right {m : Pass} (h : InRow values cells p m) {c : CellVisit} (hc : c ∈ cells)
      (cell : CellRef) : InRow values cells p (m.shiftRight cell (c.net values))

theorem InRow.trans {values : Substitutions} {cells : List CellVisit} {p p' p'' : Pass}
    (h : InRow values cells p p') (h' : InRow values cells p' p'') :
    InRow values cells p p'' := by
  induction h' with
  | refl => exact h
  | still _ hstill ih => exact .still ih hstill
  | right _ hc cell ih => exact .right ih hc cell

/-- Steps that move nothing are among them. -/
theorem Still.inRow {values : Substitutions} {cells : List CellVisit} {p p' : Pass}
    (h : p.Still p') : InRow values cells p p' := .still .refl h

/-- A node that was drawn in some state of the row at hand, when the picture of a value was put at a
cell. -/
def DrawnInRow (given : Given) (cells : List CellVisit) (p : Pass) (place : CellRef × Value)
    (n : Node) : Prop :=
  ∃ m : Pass, InRow given.values cells p m ∧ IsPictureOf given.files given.options.imageRoot
    (m.pictureExtent given place.1) place n

/-- A step that adds the pictures that cells ask for, as far as they can be read, at the end of the
drawing. Nothing is drawn on a sheet that has no drawing and cannot be given one. -/
structure Draws (given : Given) (cells : List CellVisit) (p p' : Pass)
    (wanted : List (CellRef × Value)) : Prop where
  canDraw : p'.canDraw = p.canDraw
  isSome : p.drawing.isSome = true → p'.drawing.isSome = true
  anchors : ∃ new, p'.drawn = p.drawn ++ new ∧ List.Forall₂ (DrawnInRow given cells p)
    (if p.canDraw then readablePictures given.files given.options.imageRoot wanted else []) new

variable {given : Given} {cells : List CellVisit} {p p' p'' : Pass}

theorem Draws.trans {wanted more : List (CellRef × Value)} (h : Draws given cells p p' wanted)
    (hrow : InRow given.values cells p p') (h' : Draws given cells p' p'' more) :
    Draws given cells p p'' (wanted ++ more) where
  canDraw := h'.canDraw.trans h.canDraw
  isSome hp := h'.isSome (h.isSome hp)
  anchors := by
    obtain ⟨new, hnew, hplaces⟩ := h.anchors
    obtain ⟨new', hnew', hplaces'⟩ := h'.anchors
    refine ⟨new ++ new', by rw [hnew', hnew, List.append_assoc], ?_⟩
    rw [h.canDraw] at hplaces'
    -- Without a drawing and without a way to get one, neither stretch adds a picture.
    cases hdraw : p.canDraw with
    | true =>
      rw [hdraw, if_pos rfl] at hplaces hplaces'
      rw [if_pos rfl, readablePictures_append]
      refine List.rel_append hplaces (hplaces'.imp fun place n hn => ?_)
      obtain ⟨m, hm, hpicture⟩ := hn
      exact ⟨m, hrow.trans hm, hpicture⟩
    | false =>
      rw [hdraw] at hplaces hplaces'
      cases hplaces
      cases hplaces'
      exact .nil

/-- A step that does not concern the drawing. -/
theorem draws_of_same (hdrawing : p'.drawing = p.drawing) (hdraw : p'.canDraw = p.canDraw) :
    Draws given cells p p' [] where
  canDraw := hdraw
  isSome hp := hdrawing ▸ hp
  anchors := by
    refine ⟨[], by rw [drawn, hdrawing, List.append_nil, drawn], ?_⟩
    split <;> exact .nil

/-- A step that does not concern the drawing may follow. -/
theorem Draws.of_same {wanted : List (CellRef × Value)} (h : Draws given cells p p' wanted)
    (hdrawing : p''.drawing = p'.drawing) (hdraw : p''.canDraw = p'.canDraw) :
    Draws given cells p p'' wanted where
  canDraw := hdraw.trans h.canDraw
  isSome hp := hdrawing ▸ h.isSome hp
  anchors := by
    have hdrawn : p''.drawn = p'.drawn := by rw [drawn, hdrawing, drawn]
    rw [hdrawn]
    exact h.anchors

/-- Inserting a value draws nothing. -/
private theorem draws_insert (p : Pass) (cell : Element) (value : Value) :
    Draws given cells p (p.insert cell value).1 [] := draws_of_same rfl rfl

/-- A sheet without a drawing can be given one if it can be given relationships. -/
private theorem canDraw_of_none (h : p.drawing = none) :
    p.canDraw = (p.sheet.withRels? p.package).isSome := by
  unfold canDraw Worksheet.withRels?
  cases hrels : p.sheet.rels.isSome <;>
    cases hcontains : p.package.contains (PartPath.relationshipsOf p.sheet.path) <;>
      simp [h, hcontains]

/-- The sheet is given an empty drawing if it can have one. -/
private theorem draws_ensureDrawing (h : p.ensureDrawing given = .ok p') :
    Draws given cells p p' [] ∧ p'.drawing.isSome = p.canDraw := by
  cases drawingEnsured_of_ok h with
  | there hsome => exact ⟨draws_of_same rfl rfl, by simp [canDraw, hsome]⟩
  | without hnone hrels =>
    exact ⟨draws_of_same rfl rfl, by rw [canDraw_of_none hnone, hrels, hnone]; rfl⟩
  | begun hnone hsheet hcreate =>
    -- A drawing that is begun has no picture yet.
    obtain ⟨rels, rels', id, -, -, rfl, -, -⟩ := Drawing.create_eq_ok hcreate
    have hdraw : p.canDraw = true := by rw [canDraw_of_none hnone, hsheet]; rfl
    refine ⟨⟨hdraw ▸ rfl, fun _ => rfl, [], ?_, ?_⟩, hdraw ▸ rfl⟩
    · show [] = p.drawn ++ []
      rw [drawn, hnone]
      rfl
    · split <;> exact .nil

/-- A picture that cannot be read is not added. -/
private theorem draws_of_not_readable {cell : CellRef} {value : Value}
    (hdrawing : p'.drawing = p.drawing) (hdraw : p'.canDraw = p.canDraw)
    (h : isReadable given.files given.options.imageRoot value = false) :
    Draws given cells p p' [(cell, value)] := by
  obtain ⟨hcan, hsome, hanchors⟩ : Draws given cells p p' [] := draws_of_same hdrawing hdraw
  refine ⟨hcan, hsome, ?_⟩
  rwa [readablePictures_singleton, h]

/-- A source that can be read gives one picture, any other none. -/
private theorem draws_placeSource {drawing : Drawing} {cell : CellRef} {value : Value}
    {source : ImageSource} (hdrawing : p.drawing = some drawing)
    (hsource : Image.sourceOf? given.files given.options.imageRoot value = some source)
    (h : p.placeSource given drawing cell source = .ok p') :
    Draws given cells p p' [(cell, value)] := by
  have hdraw : p.canDraw = true := by simp [canDraw, hdrawing]
  have hdrawn : p.drawn = drawing.doc.root.children := by rw [drawn, hdrawing, shownBy]
  have hreadable : isReadable given.files given.options.imageRoot value =
      (Image.load given.files given.options.imageRoot source).isOk := by
    rw [isReadable, hsource, Option.any_some]
  cases sourcePlaced_of_ok h with
  | shown hload hlink =>
    obtain ⟨rels, -, rfl⟩ := Drawing.link_eq_ok hlink
    refine ⟨hdraw ▸ rfl, fun _ => rfl, [_], by rw [hdrawn]; rfl, ?_⟩
    rw [hdraw, if_pos rfl, readablePictures_singleton, hreadable, hload]
    exact .cons ⟨p, .refl, source, _, _, _, _, hsource, hload, rfl⟩ .nil
  | skipped hload => exact draws_of_not_readable rfl rfl (hreadable.trans (by rw [hload]; rfl))

/-- A picture that can be read is added, unless the sheet cannot have one. -/
private theorem draws_placePicture {element e : Element} {cell : CellRef} {value : Value}
    (h : p.placePicture given element cell value = .ok (p', e)) :
    Draws given cells p p' [(cell, value)] := by
  have hempty : Draws given cells p (p.insert element .empty).1 [] := draws_insert p element .empty
  have hquiet := quiet_insert p element .empty
  cases picturePlaced_of_ok h with
  | sourceless hsource =>
    exact draws_of_not_readable rfl rfl (by rw [isReadable, hsource]; rfl)
  | undrawn hsource hensure hnone =>
    obtain ⟨hdraws, hsome⟩ : Draws given cells (p.insert element .empty).1 p' [] ∧ _ :=
      draws_ensureDrawing hensure
    obtain ⟨hcan, hkept, hanchors⟩ := hempty.trans hquiet.inRow hdraws
    -- A sheet that is still without a drawing cannot have one.
    have hdraw : p.canDraw = false := by
      rw [← hempty.canDraw, ← hsome, hnone]
      rfl
    refine ⟨hcan, hkept, ?_⟩
    rwa [hdraw] at hanchors ⊢
  | placed hsource hensure hdrawing hplace =>
    have hdraws := hempty.trans hquiet.inRow (draws_ensureDrawing hensure).1
    exact hdraws.trans (hquiet.trans (quiet_of_ensureDrawing hensure)).inRow
      (draws_placeSource hdrawing hsource hplace)

/-- A field that is no list is a picture or shown in its cell. -/
private theorem pictureField?_eq {token : Placeholder} {value : Value}
    (h : ∀ items, value ≠ .list items) :
    pictureField? token value =
      if token.wantsImage && !value.isEmpty then some value else none := by
  cases value with
  | list items => exact absurd rfl (h items)
  | _ => rfl

/-- The first element of a list gives a picture if one is wanted of it. -/
private theorem draws_fillFirst {state state' : RowState} {template : Element} {cell : CellRef}
    {token : Placeholder} {value : Value} {filled : Option Element} {cols : Int}
    (h : p.fillFirst given state template cell token value = .ok (p', state', filled, cols)) :
    Draws given cells p p' ((pictureField? token value).toList.map (cell, ·)) := by
  cases firstFilled_of_ok h with
  | list => exact draws_of_same rfl rfl
  | picture hlist hwanted hplace =>
    rw [pictureField?_eq hlist, if_pos hwanted]
    exact draws_placePicture hplace
  | single hlist hshown =>
    rw [pictureField?_eq hlist, if_neg hshown]
    exact draws_insert ..

/-- So does a later element, in its own row. -/
private theorem draws_fillLater {template : Element} {cell : CellRef} {token : Placeholder}
    {value : Value} {filled : List Element} {cols : Int}
    (h : p.fillLater given template cell token value = .ok (p', filled, cols)) :
    Draws given cells p p' ((pictureField? token value).toList.map (cell, ·)) := by
  cases laterFilled_of_ok h with
  | list => exact draws_of_same rfl rfl
  | picture hlist hwanted hplace =>
    rw [pictureField?_eq hlist, if_pos hwanted]
    exact draws_placePicture hplace
  | single hlist hshown =>
    rw [pictureField?_eq hlist, if_neg hshown]
    exact draws_insert ..

/-- The later elements give their pictures in order. -/
private theorem draws_fillRows {state state' : RowState} {row template : Element}
    {cell : CellRef} {token : Placeholder} {inside : List Bool} {index : Nat}
    {elements : List Value}
    (h : fillRows given row template cell token inside index p state elements = .ok (p', state')) :
    Draws given cells p p' (laterPictures token cell index elements) := by
  induction elements generalizing index p state with
  | nil =>
    cases h
    exact draws_of_same rfl rfl
  | cons element elements ih =>
    obtain ⟨p₁, filled, cols, hlater, hrest⟩ := fillRows_cons_eq_ok h
    have htables : p₁.Still (p₁.extendTables inside (cell.withRow (add32 cell.row index))) :=
      ⟨rfl, rfl, fun _ _ => rfl, rfl, rfl, rfl, .refl _⟩
    -- A table that is extended is no concern of the drawing.
    have hdraws : Draws given cells p
        (p₁.extendTables inside (cell.withRow (add32 cell.row index))) _ :=
      (draws_fillLater hlater).of_same rfl rfl
    exact hdraws.trans ((quiet_of_fillLater hlater).1.toStill.trans htables).inRow (ih hrest)

/-- A list down the column gives those of its first element and those of the later ones. -/
private theorem draws_expandDown {state state' : RowState} {row template : Element}
    {cell : CellRef} {token : Placeholder} {items : List Value} {filled : Option Element}
    {cols : Int}
    (h : p.expandDown given state row template cell token items =
      .ok (p', state', filled, cols)) :
    Draws given cells p p' (tablePictures token cell items) := by
  cases items with
  | nil =>
    cases h
    exact draws_of_same rfl rfl
  | cons element elements =>
    obtain ⟨p₁, state₁, hfirst, hrows⟩ := expandDown_cons_eq_ok h
    exact (draws_fillFirst hfirst).trans (quiet_of_fillFirst hfirst).1.inRow (draws_fillRows hrows)

/-! ### Cells and rows -/

/-- Moving columns does not touch the drawing. -/
private theorem drawing_insertColumns (p : Pass) (state : RowState) (cell : CellRef) (cols : Int) :
    (p.insertColumns state cell cols).1.drawing = p.drawing ∧
      (p.insertColumns state cell cols).1.canDraw = p.canDraw := by
  unfold insertColumns
  split <;> exact ⟨rfl, rfl⟩

/-- What a cell with one placeholder draws is decided by its kind and its value. -/
private theorem draws_fillWhole {state state' : RowState} {row element : Element}
    {cell : CellRef} {token : Placeholder}
    (h : p.fillWhole given state row element cell token = .ok (p', state')) :
    Draws given cells p p' (tokenPictures given.values token cell) := by
  cases wholeFilled_of_ok h with
  | @table items p₁ p₂ state₂ _ cols hkind hvalue hdrawing hexpand =>
    simp only [tokenPictures, hkind, hvalue]
    obtain ⟨hsame, hdraw⟩ := drawing_insertColumns p₂ state₂ cell cols
    refine Draws.of_same ?_ hsame hdraw
    rcases hdrawing with rfl | hensure
    · exact draws_expandDown hexpand
    · exact (draws_ensureDrawing hensure).1.trans (quiet_of_ensureDrawing hensure).inRow
        (draws_expandDown hexpand)
  | @list items hkind =>
    simp only [tokenPictures, hkind]
    have hright : Draws given cells p (p.expandRight state element cell items).1 [] :=
      draws_of_same rfl rfl
    obtain ⟨hsame, hdraw⟩ := drawing_insertColumns (p.expandRight state element cell items).1
      (p.expandRight state element cell items).2 cell (netColumns items)
    exact hright.of_same hsame hdraw
  | picture hkind hplace =>
    simp only [tokenPictures, hkind]
    exact draws_placePicture hplace
  | single himage htable =>
    have hnone : tokenPictures given.values token cell = [] := by
      unfold tokenPictures
      split
      · rename_i items hkind hvalue
        exact absurd hvalue (htable items hkind)
      · rename_i hkind
        exact absurd hkind himage
      · rfl
    rw [hnone]
    exact draws_insert ..

/-- A cell adds the pictures that it asks for. -/
private theorem draws_fillCell {state state' : RowState} {row element : Element} {cell : CellRef}
    (col : Nat) (h : p.fillCell given state row element cell = .ok (p', state')) :
    Draws given cells p p'
      (CellVisit.pictures given.values { element, col, text := shownText? p.strings element }
        cell) := by
  unfold CellVisit.pictures
  dsimp only
  cases cellFilled_of_ok h with
  | kept hplain =>
    cases htext : shownText? p.strings element with
    | none => exact draws_of_same rfl rfl
    | some text =>
      rw [Option.bind_some, wholePlaceholder?, hplain text htext]
      exact draws_of_same rfl rfl
  | whole htext hextract hfull hfill =>
    rw [htext, Option.bind_some, wholePlaceholder?, hextract]
    simp only [hfull, ↓reduceIte]
    exact draws_fillWhole hfill
  | spliced htext _ hwhole =>
    rw [htext, Option.bind_some, hwhole]
    exact draws_of_same rfl rfl

/-- The cells of a row draw one after the other. -/
private theorem draws_fillCells {state state' : RowState} {row : Element}
    {number previous : Nat} {elements : List Element}
    (h : fillCells given row number previous p state elements = .ok (p', state'))
    (hvisited : ∀ c ∈ visitCells given row number previous p state elements, c ∈ cells) :
    Draws given cells p p' (cellPictures given.values number state.colsInserted
      (visitCells given row number previous p state elements)) := by
  -- Along the cells; each stands at the place that the columns inserted before it make.
  induction elements generalizing previous p state with
  | nil =>
    cases h
    exact draws_of_same rfl rfl
  | cons element elements ih =>
    by_cases hname : element.name = "c"
    · simp only [fillCells, hname, ↓reduceIte] at h
      obtain ⟨⟨p₁, state₁⟩, hcell, hrest⟩ := bind_eq_ok.1 h
      have hstep := cellStep_of_fillCell (sourceColumn previous element) hcell
      simp only [visitCells, hname, ↓reduceIte, hcell, cellPictures, List.forall_mem_cons]
        at hvisited ⊢
      obtain ⟨still, hstill, hp₁⟩ := hstep.moved
      rw [← hstep.cols]
      refine (draws_fillCell _ hcell).trans ?_ (ih hrest hvisited.2)
      rw [hp₁]
      exact .right hstill.inRow hvisited.1 _
    · simp only [fillCells, hname, ↓reduceIte] at h
      simp only [visitCells, hname, ↓reduceIte] at hvisited ⊢
      exact ih h hvisited

/-! ### Rows -/

/-- Anchors are counted before a row is filled. -/
private theorem anchors_eq_countP (p : Pass) :
    (p.drawing.map fun d => d.anchors.length).getD 0 = p.drawn.countP (·.isElement isAnchor) := by
  unfold drawn
  cases p.drawing with
  | none => rfl
  | some d => exact d.length_anchors

/-- Anchors move once a row is done, if it has generated rows and pictures are to move. -/
private theorem drawing_finishRow (p : Pass) (state : RowState) (row : Element)
    (number anchors : Nat) :
    (p.finishRow given state row number anchors).drawing =
      if given.options.moveImages = true ∧ state.newRows.length ≠ 0 then
        p.drawing.map fun d => d.moveAnchors number (low32 state.newRows.length)
          given.options.moveSameLineImages anchors
      else p.drawing := by
  unfold finishRow
  extract_lets cells newRows pushed
  have hlength : newRows.length = state.newRows.length := by
    simp only [newRows]
    split
    · exact List.length_map _
    · rfl
  split
  · rename_i hempty
    rw [← hlength, List.isEmpty_iff.1 hempty, if_neg (by simp)]
  · rename_i hsome
    have hne : state.newRows.length ≠ 0 := by
      rw [← hlength]
      simpa [List.isEmpty_iff] using hsome
    unfold finishNewRows
    dsimp only
    split
    · rename_i hmove
      rw [if_pos ⟨hmove, hne⟩, hlength]
      rfl
    · rename_i hmove
      rw [if_neg fun h => hmove h.1]
      rfl

/-- Finishing a row makes no drawing. -/
private theorem canDraw_finishRow (p : Pass) (state : RowState) (row : Element)
    (number anchors : Nat) :
    (p.finishRow given state row number anchors).canDraw = p.canDraw := by
  have hsome : (p.finishRow given state row number anchors).drawing.isSome = p.drawing.isSome := by
    rw [drawing_finishRow]
    split
    · exact Option.isSome_map ..
    · rfl
  unfold canDraw
  rw [hsome]
  unfold finishRow
  extract_lets cells newRows pushed
  split
  · rfl
  · unfold finishNewRows
    dsimp only
    split <;> rfl

/-- The nodes of a drawing that moves are moved, and no drawing has none. -/
private theorem shownBy_moveAnchors (drawing : Option Drawing) (row rows : Nat) (sameLine : Bool)
    (limit : Nat) :
    shownBy (drawing.map fun d => d.moveAnchors row rows sameLine limit) =
      moveNodes row rows sameLine limit (shownBy drawing) := by
  cases drawing with
  | none => cases limit <;> rfl
  | some d => rfl

end Pass

/-- A node of a drawing after a row with generated rows above it. -/
def rowNode (options : FillOptions) (values : Substitutions) (above : Nat) (v : RowVisit)
    (n : Node) : Node :=
  if options.moveImages = true ∧ v.generated values ≠ 0 then
    moveNode (add32 v.number above) (low32 (v.generated values)) options.moveSameLineImages n
  else n

/-- A node of a drawing after rows with generated rows above them. -/
def sheetNode (options : FillOptions) (values : Substitutions) : Nat → List RowVisit → Node → Node
  | _, [], n => n
  | above, v :: vs, n =>
    sheetNode options values (above + v.generated values) vs (rowNode options values above v n)

/-- The pictures that rows ask for with generated rows above them. -/
def sheetPictures (values : Substitutions) : Nat → List RowVisit → List (CellRef × Value)
  | _, [] => []
  | above, v :: vs =>
    v.pictures values above ++ sheetPictures values (above + v.generated values) vs

/-- The pictures that rows ask for and that can be read, each with the row that asks for it. -/
def readablePlaces (files : ImageFiles) (root : Option String) (values : Substitutions) :
    Nat → List RowVisit → List (RowVisit × CellRef × Value)
  | _, [] => []
  | above, v :: vs =>
    (readablePictures files root (v.pictures values above)).map (v, ·) ++
      readablePlaces files root values (above + v.generated values) vs

/-- Each place that is readable stands for the cell that asked for it. -/
theorem map_readablePlaces (files : ImageFiles) (root : Option String) (values : Substitutions)
    (above : Nat) (visits : List RowVisit) :
    (readablePlaces files root values above visits).map (fun place => place.2.1) =
      readableCells files root (sheetPictures values above visits) := by
  induction visits generalizing above with
  | nil => rfl
  | cons v vs ih =>
    rw [readablePlaces, sheetPictures, List.map_append, List.map_map, ih]
    simp [readableCells, readablePictures]

/-- Whether a node is the anchor of a picture at a cell. Rows are numbered from one, so a cell has a
place counted from zero unless it is in row zero. -/
def StaysAt (cell : CellRef) (n : Node) : Prop := 0 < cell.row → IsPictureAt cell n

namespace Pass

variable {given : Given} {p p' p'' : Pass}

/-- A step that changes what was drawn before, and adds a node for each of some places. -/
structure Redraws {α : Type} (R : α → Node → Prop) (f : Node → Node) (places : List α)
    (p p' : Pass) : Prop where
  canDraw : p'.canDraw = p.canDraw
  isSome : p.drawing.isSome = true → p'.drawing.isSome = true
  nodes : ∃ new, p'.drawn = p.drawn.map f ++ new ∧
    List.Forall₂ R (if p.canDraw then places else []) new

/-- The relation between places and nodes may be weakened. -/
theorem Redraws.imp {α β : Type} {R : α → Node → Prop} {S : β → Node → Prop} {f : Node → Node}
    {places : List α} (h : Redraws R f places p p') {g : α → β}
    (himp : ∀ a n, R a n → S (g a) n) : Redraws S f (places.map g) p p' where
  canDraw := h.canDraw
  isSome := h.isSome
  nodes := by
    obtain ⟨new, hnew, hplaces⟩ := h.nodes
    refine ⟨new, hnew, ?_⟩
    rw [show (if p.canDraw = true then places.map g else []) =
      (if p.canDraw = true then places else []).map g by split <;> rfl]
    exact List.forall₂_map_left_iff.2 (hplaces.imp himp)

/-- A node may be added before others are, unless what follows moves it. -/
theorem Redraws.trans {α : Type} {R : α → Node → Prop} {f g : Node → Node} {places more : List α}
    (h : Redraws R f places p p') (h' : Redraws R g more p' p'')
    (hstays : ∀ a ∈ places, ∀ n, R a n → R a (g n)) :
    Redraws R (fun n => g (f n)) (places ++ more) p p'' where
  canDraw := h'.canDraw.trans h.canDraw
  isSome hp := h'.isSome (h.isSome hp)
  nodes := by
    obtain ⟨new, hnew, hplaces⟩ := h.nodes
    obtain ⟨new', hnew', hplaces'⟩ := h'.nodes
    refine ⟨new.map g ++ new', ?_, ?_⟩
    · rw [hnew', hnew, List.map_append, List.map_map, List.append_assoc]
      rfl
    -- As above: with no way to a drawing there is nothing to move.
    · rw [h.canDraw] at hplaces'
      cases hdraw : p.canDraw with
      | true =>
        rw [hdraw, if_pos rfl] at hplaces hplaces'
        rw [if_pos rfl]
        refine List.rel_append (List.forall₂_map_right_iff.2 ?_) hplaces'
        exact forall₂_imp_of_mem hplaces hstays
      | false =>
        rw [hdraw] at hplaces hplaces'
        cases hplaces
        cases hplaces'
        exact .nil

/-- What a row with generated rows above it adds to the drawing, and what it moves. -/
theorem redraws_of_fillRow {source above : Nat} {row : Element}
    (h : p.fillRow given source row = .ok p') (habove : p.rowsInserted = low32 above) :
    let v : RowVisit := {
      row, number := source
      cells := visitCells given (bareRow row (add32 source p.rowsInserted))
        (add32 source p.rowsInserted) 0 p {} row.elements }
    Redraws (DrawnInRow given v.cells p) (rowNode given.options given.values above v)
      (readablePictures given.files given.options.imageRoot (v.pictures given.values above))
      p p' := by
  intro v
  have hnumber : add32 source p.rowsInserted = add32 source above := by
    rw [habove, add32_low32_right]
  obtain ⟨p₁, state, hcells, rfl⟩ := fillRow_eq_ok h
  have hvisited : ∀ c ∈ visitCells given (bareRow row (add32 source p.rowsInserted))
      (add32 source p.rowsInserted) 0 p {} row.elements, c ∈ v.cells := fun _ => id
  have hdraws : Draws given v.cells p p₁
      (cellPictures given.values (add32 source p.rowsInserted) 0 v.cells) :=
    draws_fillCells hcells hvisited
  have hpictures : cellPictures given.values (add32 source p.rowsInserted) 0 v.cells =
      v.pictures given.values above := by rw [hnumber, RowVisit.pictures]
  rw [hpictures] at hdraws
  -- The pictures of the row are at the end of the drawing when the row is finished.
  obtain ⟨hdraw, hsome, new, hnew, hplaces⟩ := hdraws
  have hgenerated : state.newRows.length = v.generated given.values := by
    have := (cellsRun_of_fillCells hcells).generated
    rwa [List.length_nil, Nat.zero_max] at this
  rw [anchors_eq_countP]
  refine ⟨(canDraw_finishRow ..).trans hdraw, fun hp => ?_, new, ?_, hplaces⟩
  · rw [drawing_finishRow]
    split
    · rw [Option.isSome_map]
      exact hsome hp
    · exact hsome hp
  -- The anchors before them move if the row generated rows, the pictures of the row itself stay.
  · rw [drawn, drawing_finishRow, hgenerated]
    split
    · rename_i hmoved
      have hnode : rowNode given.options given.values above v = moveNode
          (add32 source above) (low32 (v.generated given.values))
          given.options.moveSameLineImages := by
        funext n
        exact if_pos hmoved
      rw [shownBy_moveAnchors, hnode, ← Drawing.moveNodes_append, ← hnew, hnumber]
      rfl
    · rename_i hmoved
      have hnode : rowNode given.options given.values above v = id := by
        funext n
        exact if_neg hmoved
      rw [hnode, List.map_id]
      exact hnew

end Pass

/-! ### Which anchors move -/

section

variable {options : FillOptions} {values : Substitutions} {above : Nat} {visits : List RowVisit}

/-- What is no anchor stays, and so do all nodes if pictures are not to move. -/
theorem sheetNode_of_still {n : Node}
    (h : options.moveImages = false ∨ n.isElement isAnchor = false) :
    sheetNode options values above visits n = n := by
  -- Along the rows: none of them moves the node.
  induction visits generalizing above with
  | nil => rfl
  | cons v vs ih =>
    have hrow : rowNode options values above v n = n := by
      unfold rowNode
      split
      · rename_i hmoved
        have hother := h.resolve_left (by simp [hmoved.1])
        rw [moveNode, hother, if_neg Bool.false_ne_true]
      · rfl
    rw [sheetNode, hrow, ih]

/-- A row whose numbers fit moves an anchor by them. -/
private theorem rowNode_of_fits {v : RowVisit} (h : RowFits values above v) (n : Node) :
    rowNode options values above v n =
      if options.moveImages = true ∧ v.generated values ≠ 0 then
        moveNode (v.number + above) (v.generated values) options.moveSameLineImages n
      else n := by
  have hgenerated : low32 (v.generated values) = v.generated values :=
    low32_of_le (Nat.le_trans (Nat.le_add_left ..) h)
  rw [rowNode, h.number, hgenerated]

/-- An anchor that begins above some rows does not move with them. -/
theorem sheetNode_of_above {a : Element} (hfit : RowsFit values above visits)
    (h : ∀ start, markerRow? a "from" = some start → ∀ v ∈ visits,
      start + 1 + options.moveSameLineImages.toNat ≤ v.number + above) :
    sheetNode options values above visits (.element a) = .element a := by
  -- Along the rows: the anchor begins above all of them.
  induction visits generalizing above with
  | nil => rfl
  | cons v vs ih =>
    obtain ⟨hv, hrest⟩ := hfit
    have hbelow : beginsBelow (v.number + above) options.moveSameLineImages a = false := by
      cases hstart : markerRow? a "from" with
      | none => simp [beginsBelow, hstart]
      | some start =>
        have habove := h start hstart v List.mem_cons_self
        have hroom : start < max32 := by
          unfold RowFits at hv
          omega
        rw [Drawing.beginsBelow_eq _ _ hstart hroom]
        exact decide_eq_false (Nat.not_lt.2 habove)
    have hrow : rowNode options values above v (.element a) = .element a := by
      rw [rowNode_of_fits hv]
      unfold moveNode
      split
      · split
        · simp [Node.mapElement, hbelow]
        · rfl
      · rfl
    rw [sheetNode, hrow]
    refine ih hrest fun start hstart w hw => ?_
    have := h start hstart w (List.mem_cons_of_mem _ hw)
    omega

/-- An anchor moves with the rows above it, which come first. -/
theorem sheetNode_of_movable {a : Element} {start number : Nat} (hmove : options.moveImages = true)
    (hinc : (visits.map RowVisit.number).Pairwise (· < ·)) (hfit : RowsFit values above visits)
    (hanchor : isAnchor a = true) (h : Movable (rowsAbove values visits number) start a)
    (hnumber : start + 1 + options.moveSameLineImages.toNat = number + above) :
    sheetNode options values above visits (.element a) =
      .element (lowered (rowsAbove values visits number) a) := by
  -- Along the rows in their order: those above the anchor move it, and from the first other one on
  -- it is above all.
  induction visits generalizing above a start with
  | nil => exact congrArg Node.element (Drawing.lowered_zero a).symm
  | cons v vs ih =>
    obtain ⟨hlater, hrest⟩ := List.pairwise_cons.1 hinc
    have hlt : ∀ w ∈ vs, v.number < w.number := fun w hw => hlater _ (List.mem_map_of_mem hw)
    by_cases hv : v.number < number
    · have hsum : rowsAbove values (v :: vs) number =
          v.generated values + rowsAbove values vs number := by
        rw [rowsAbove_cons, if_pos hv]
      rw [hsum] at h ⊢
      -- The row moves the anchor, and what is left to move is counted from there.
      have hrow : rowNode options values above v (.element a) =
          .element (lowered (v.generated values) a) := by
        have hbelow : beginsBelow (v.number + above) options.moveSameLineImages a = true := by
          rw [Drawing.beginsBelow_eq _ _ h.begins (Nat.lt_of_le_of_lt (Nat.le_add_right ..) h.room)]
          exact decide_eq_true (by omega)
        rw [rowNode_of_fits hfit.1]
        unfold lowered
        by_cases hgenerated : v.generated values = 0
        · simp [hgenerated]
        · rw [if_pos ⟨hmove, hgenerated⟩, if_neg hgenerated, moveNode,
            if_pos (show Node.isElement isAnchor (.element a) = true from hanchor)]
          simp [Node.mapElement, hbelow]
      rw [sheetNode, hrow, ih hrest hfit.2 ((Drawing.isAnchor_lowered _ a).trans hanchor) h.lowered
        (by omega), Drawing.lowered_lowered _ h.of_add]
    · have hzero : rowsAbove values (v :: vs) number = 0 := rowsAbove_eq_zero fun w hw => by
        rcases List.mem_cons.1 hw with rfl | hw
        · omega
        · have := hlt w hw
          omega
      rw [hzero, Drawing.lowered_zero]
      refine sheetNode_of_above hfit fun start' hstart' w hw => ?_
      cases h.begins.symm.trans hstart'
      rcases List.mem_cons.1 hw with rfl | hw
      · omega
      · have := hlt w hw
        omega

end

/-! ### Pictures do not move -/

section

variable {values : Substitutions}

/-- A later element of a list has its picture as many rows down as elements come before it. -/
private theorem row_of_mem_laterPictures {token : Placeholder} {cell : CellRef} {index : Nat}
    {elements : List Value} {picture : CellRef × Value}
    (h : picture ∈ laterPictures token cell index elements) :
    ∃ k, k < index + elements.length ∧ picture.1.row = add32 cell.row k := by
  induction elements generalizing index with
  | nil => cases h
  | cons element elements ih =>
    rw [List.length_cons]
    rcases List.mem_append.1 h with h | h
    · obtain ⟨value, -, rfl⟩ := List.mem_map.1 h
      exact ⟨index, by omega, rfl⟩
    · obtain ⟨k, hk, hrow⟩ := ih h
      exact ⟨k, by omega, hrow⟩

/-- A cell has its pictures on the row at hand or in rows that it asks for. -/
private theorem row_of_mem_pictures {v : CellVisit} {cell : CellRef} {picture : CellRef × Value}
    (h : picture ∈ v.pictures values cell) (hcell : cell.row ≤ max32) :
    ∃ k, k ≤ v.rows values ∧ picture.1.row = add32 cell.row k := by
  -- Only the later elements of a list go to rows below.
  unfold CellVisit.pictures at h
  split at h
  · rename_i token hwhole
    obtain ⟨text, htext, hwhole⟩ := Option.bind_eq_some_iff.1 hwhole
    unfold tokenPictures at h
    split at h
    · rename_i items hkind hvalue
      have hrows : v.rows values = items.length - 1 := by
        simp [CellVisit.rows, CellVisit.down?, htext, listDown?, hwhole, hkind, hvalue]
      cases items with
      | nil => cases h
      | cons element elements =>
        rw [List.length_cons] at hrows
        rcases List.mem_append.1 h with h | h
        · obtain ⟨value, -, rfl⟩ := List.mem_map.1 h
          exact ⟨0, Nat.zero_le _, (Text.add32_zero hcell).symm⟩
        · obtain ⟨k, hk, hrow⟩ := row_of_mem_laterPictures h
          exact ⟨k, by omega, hrow⟩
    · rw [List.mem_singleton.1 h]
      exact ⟨0, Nat.zero_le _, (Text.add32_zero hcell).symm⟩
    · cases h
  · cases h

/-- A picture of a row is on the row or on one of those generated for a cell of it. -/
private theorem row_of_mem_cellPictures {number : Nat} {inserted : Int} {cells : List CellVisit}
    {picture : CellRef × Value} (h : picture ∈ cellPictures values number inserted cells)
    (hnumber : number ≤ max32) :
    ∃ c ∈ cells, ∃ k, k ≤ c.rows values ∧ picture.1.row = add32 number k := by
  induction cells generalizing inserted with
  | nil => cases h
  | cons c cells ih =>
    rcases List.mem_append.1 h with h | h
    · exact ⟨c, List.mem_cons_self, row_of_mem_pictures h hnumber⟩
    · obtain ⟨c', hc', hrow⟩ := ih h
      exact ⟨c', List.mem_cons_of_mem _ hc', hrow⟩

/-- A row has its pictures on itself or on rows that it generates. -/
theorem row_of_mem_rowPictures {v : RowVisit} {above : Nat} {picture : CellRef × Value}
    (h : picture ∈ v.pictures values above) :
    ∃ k, k ≤ v.generated values ∧ picture.1.row = add32 (v.number + above) k := by
  obtain ⟨c, hc, k, hk, hrow⟩ := row_of_mem_cellPictures h (Text.add32_le ..)
  exact ⟨k, Nat.le_trans hk (rows_le_generated values hc), hrow.trans (add32_low32_left ..)⟩

/-- Where the numbers fit, these are the rows from the row itself to its last generated one. -/
theorem row_le_of_mem_rowPictures {v : RowVisit} {above : Nat} {picture : CellRef × Value}
    (hfit : RowFits values above v) (h : picture ∈ v.pictures values above) :
    v.number + above ≤ picture.1.row ∧
      picture.1.row ≤ v.number + above + v.generated values := by
  obtain ⟨k, hk, hrow⟩ := row_of_mem_rowPictures h
  have hsum : v.number + above + k ≤ v.number + above + v.generated values :=
    Nat.add_le_add_left hk _
  rw [hrow, add32_of_le (Nat.le_trans hsum hfit)]
  exact ⟨Nat.le_add_right .., hsum⟩

/-- A picture does not move with later rows. -/
theorem IsPictureAt.sheetNode_eq {options : FillOptions} {above : Nat} {visits : List RowVisit}
    {cell : CellRef} {n : Node} (h : IsPictureAt cell n) (hcell : 0 < cell.row)
    (hfit : RowsFit values above visits)
    (habove : ∀ v ∈ visits, cell.row < v.number + above) :
    sheetNode options values above visits n = n := by
  obtain ⟨d, shapeId, extent, link, rfl⟩ := h
  refine sheetNode_of_above hfit fun start hstart v hv => ?_
  rw [Drawing.markerRow?_pictureAnchor] at hstart
  have hrow : start = cell.row - 1 := Text.eq_of_natural?_numeral hstart
  have := habove v hv
  have : options.moveSameLineImages.toNat ≤ 1 := Bool.toNat_le _
  omega

end

namespace Pass

variable {given : Given} {p p' p'' : Pass}

/-- Whether rows are filled up to the one that a visit is for, and in which state. -/
def UpTo (given : Given) (previous : Nat) (p : Pass) (rows : List Element) (v : RowVisit)
    (m : Pass) : Prop :=
  ∃ before after, fillSourceRows given previous p before = .ok m ∧
    visitRows given previous p rows = visitRows given previous p before ++ v :: after

/-- A node that was drawn while a row was filled, for a picture that the row asks for. Rows are
numbered from one, so a cell has a place counted from zero unless it is in row zero. -/
def DrawnInRows (given : Given) (previous : Nat) (p : Pass) (rows : List Element)
    (place : RowVisit × CellRef × Value) (n : Node) : Prop :=
  0 < place.2.1.row →
    ∃ m, UpTo given previous p rows place.1 m ∧ DrawnInRow given place.1.cells m place.2 n

/-- What rows with generated rows above them add to the drawing, and what they move. -/
theorem redrawn_of_fillSourceRows {previous above : Nat} {rows : List Element}
    (h : fillSourceRows given previous p rows = .ok p') (habove : p.rowsInserted = low32 above)
    (hinc : ((visitRows given previous p rows).map RowVisit.number).Pairwise (· < ·))
    (hfit : RowsFit given.values above (visitRows given previous p rows)) :
    Redraws (DrawnInRows given previous p rows)
      (sheetNode given.options given.values above (visitRows given previous p rows))
      (readablePlaces given.files given.options.imageRoot given.values above
        (visitRows given previous p rows)) p p' := by
  -- Along the source rows: the pictures of a row stay while later rows move what is above them.
  induction rows generalizing previous above p with
  | nil =>
    cases h
    refine ⟨rfl, id, [], ?_, ?_⟩
    · show _ = List.map (fun n => n) _ ++ []
      rw [List.map_id', List.append_nil]
    · split <;> exact .nil
  | cons row rows ih =>
    simp only [fillSourceRows] at h
    obtain ⟨p₁, hrow, hrest⟩ := bind_eq_ok.1 h
    obtain ⟨block, hstep⟩ := rowStep_of_fillRow hrow habove
    -- What is filled before a later row begins with the first one.
    have hcons : ∀ before, visitRows given previous p (row :: before) =
        { row, number := sourceNumber previous row
          cells := visitCells given (bareRow row (add32 (sourceNumber previous row) p.rowsInserted))
            (add32 (sourceNumber previous row) p.rowsInserted) 0 p {} row.elements } ::
          visitRows given (sourceNumber previous row) p₁ before := fun before => by
      simp only [visitRows, hrow]
      rfl
    have hlaterRows : ∀ place n, DrawnInRows given (sourceNumber previous row) p₁ rows place n →
        DrawnInRows given previous p (row :: rows) place n := by
      intro place n hn hcell
      obtain ⟨m, ⟨before, after, hbefore, hvisits⟩, hdrawn⟩ := hn hcell
      refine ⟨m, ⟨row :: before, after, ?_, ?_⟩, hdrawn⟩
      · simp only [fillSourceRows]
        exact bind_eq_ok.2 ⟨p₁, hrow, hbefore⟩
      · rw [hcons, hcons, hvisits]
        rfl
    rw [hcons, List.map_cons, List.pairwise_cons] at hinc
    rw [hcons] at hfit ⊢
    obtain ⟨hlater, hinc⟩ := hinc
    obtain ⟨hfits, hfit⟩ := hfit
    have hrows := (ih hrest hstep.rowsInserted hinc hfit).imp (g := id) hlaterRows
    rw [List.map_id] at hrows
    have hfirst := (redraws_of_fillRow hrow habove).imp
      (S := DrawnInRows given previous p (row :: rows)) (g := fun place => (_, place))
      fun place n hn _ => ⟨p, ⟨[], _, rfl, (hcons rows).trans rfl⟩, hn⟩
    refine hfirst.trans hrows fun place hplace n hn hcell => ?_
    -- The pictures of this row are above all later rows, which therefore do not move them.
    obtain ⟨picture, hpicture, rfl⟩ := List.mem_map.1 hplace
    obtain ⟨m, hupTo, m', hm', hnode⟩ := hn hcell
    refine ⟨m, hupTo, m', hm', ?_⟩
    rw [hnode.isPictureAt.sheetNode_eq hcell hfit fun w hw => ?_]
    · exact hnode
    · have hlt := hlater _ (List.mem_map_of_mem hw)
      refine Nat.lt_of_le_of_lt
        (row_le_of_mem_rowPictures hfits (List.mem_of_mem_filter hpicture)).2 ?_
      rw [Nat.add_assoc]
      exact Nat.add_lt_add_right hlt _

/-- What rows add to the drawing by its cells, and what they move. -/
theorem redraws_of_fillSourceRows {previous above : Nat} {rows : List Element}
    (h : fillSourceRows given previous p rows = .ok p') (habove : p.rowsInserted = low32 above)
    (hinc : ((visitRows given previous p rows).map RowVisit.number).Pairwise (· < ·))
    (hfit : RowsFit given.values above (visitRows given previous p rows)) :
    Redraws StaysAt
      (sheetNode given.options given.values above (visitRows given previous p rows))
      (readableCells given.files given.options.imageRoot
        (sheetPictures given.values above (visitRows given previous p rows))) p p' := by
  have := (redrawn_of_fillSourceRows h habove hinc hfit).imp (S := StaysAt)
    (g := fun place => place.2.1) fun place n hn hcell => by
      obtain ⟨m, -, m', -, hnode⟩ := hn hcell
      exact hnode.isPictureAt
  rwa [map_readablePlaces] at this

end Pass

/-! ### A pass -/

/-- Pictures of rows in terms of all rows. -/
private theorem sheetPictures_eq {values : Substitutions} {above : Nat} {visits : List RowVisit}
    (hinc : (visits.map RowVisit.number).Pairwise (· < ·)) :
    sheetPictures values above visits = visits.flatMap fun v =>
      v.pictures values (above + rowsAbove values visits v.number) :=
  flatMap_rowsAbove (sheetPictures values) (fun above v => v.pictures values above) (fun _ => rfl)
    (fun _ _ _ => rfl) hinc

/-- The cells that a pass puts pictures at, where they are after the pass. -/
def pictureCells (options : FillOptions) (files : ImageFiles) (values : Substitutions)
    (visits : List RowVisit) : List CellRef :=
  readableCells files options.imageRoot
    (visits.flatMap fun v => v.pictures values (rowsAbove values visits v.number))

/-- The rows that an anchor moves by which begins at a row, counted from zero: those that rows above
it generate, and on request those that its own row generates. -/
def anchorRows (options : FillOptions) (values : Substitutions) (visits : List RowVisit)
    (start : Nat) : Nat :=
  rowsAbove values visits (start + 1 + options.moveSameLineImages.toNat)

/-- What becomes of a node that was in the drawing before a pass. Of an anchor that can be moved
only the rows of its markers change. -/
structure NodeFollows (options : FillOptions) (values : Substitutions) (visits : List RowVisit)
    (n n' : Node) : Prop where
  other : n.isElement isAnchor = false → n' = n
  still : options.moveImages = false → n' = n
  moved : options.moveImages = true → ∀ a start, n = .element a → isAnchor a = true →
    Movable (anchorRows options values visits start) start a →
    ∃ a', n' = .element a' ∧
      markerRow? a' "from" = some (start + anchorRows options values visits start) ∧
      (∀ stop, markerRow? a "to" = some stop →
        markerRow? a' "to" = some (stop + anchorRows options values visits start)) ∧
      blankRows a' = blankRows a ∧ (anchorRows options values visits start = 0 → a' = a)

/-- The anchors of a drawing after a pass whose rows have numbers of 32 bits: those that were there
before, in their order and moved once for every row generated above them, and after them the
pictures that the pass adds, each at its cell. -/
theorem anchors_follow {options : FillOptions} {files : ImageFiles} {values : Substitutions}
    {p q : Pass} (hp : p.Fresh) (hrun : p.run options files values = .ok q)
    (hinc : (sourceNumbers 0 (sourceRows p.sheet.doc.root)).Pairwise (· < ·))
    (hfit : RowsFit values 0 (p.visits options files values)) :
    Visited p.strings q.strings (sourceRows p.sheet.doc.root) (p.visits options files values) ∧
      (p.drawing.isSome = true → q.drawing.isSome = true) ∧
      ∀ d, q.drawing = some d → ∃ kept pictures, d.doc.root.children = kept ++ pictures ∧
        List.Forall₂ (NodeFollows options values (p.visits options files values)) p.drawn kept ∧
        List.Forall₂ StaysAt (pictureCells options files values (p.visits options files values))
          pictures := by
  obtain ⟨blocks, hsheet⟩ := sheetRun_of_run hp hrun
  have hvisits : ((p.visits options files values).map RowVisit.number).Pairwise (· < ·) := by
    rw [hsheet.visited.numbers]
    exact hinc
  obtain ⟨r, hfill, hq⟩ := Pass.run_eq_ok hrun
  have hdrawing : q.drawing = r.drawing := by rw [hq]; rfl
  have hzero : p.withoutRows.rowsInserted = low32 0 := hp.rowsInserted
  obtain ⟨hdraw, hsome, new, hnew, hplaces⟩ :=
    Pass.redraws_of_fillSourceRows hfill hzero hvisits hfit
  refine ⟨hsheet.visited, fun h => hdrawing ▸ hsome h, fun d hd => ?_⟩
  rw [hdrawing] at hd
  -- A sheet that has a drawing in the end could have one from the start.
  have hcan : p.withoutRows.canDraw = true := by
    rw [← hdraw, Pass.canDraw, hd]
    rfl
  rw [hcan, if_pos rfl] at hplaces
  refine ⟨p.drawn.map (sheetNode options values 0 (p.visits options files values)), new, ?_,
    List.forall₂_map_right_iff.2 (List.forall₂_same.2 fun n _ => ?_), ?_⟩
  · rw [Pass.drawn, hd] at hnew
    exact hnew
  · refine ⟨fun hother => sheetNode_of_still (.inr hother),
      fun hstill => sheetNode_of_still (.inl hstill), fun hmove a start hn hanchor hmovable => ?_⟩
    subst hn
    refine ⟨_, sheetNode_of_movable hmove hvisits hfit hanchor hmovable rfl,
      Drawing.markerRow?_lowered hmovable, fun _ => Drawing.markerRow?_to_lowered hmovable,
      Drawing.blankRows_lowered _ a, fun hnone => ?_⟩
    rw [show rowsAbove values _ _ = 0 from hnone, Drawing.lowered_zero]
  · have hcells : sheetPictures values 0 (p.visits options files values) = _ :=
      sheetPictures_eq hvisits
    simp only [Nat.zero_add] at hcells
    rw [pictureCells, ← hcells]
    exact hplaces

/-- An anchor of two cells that spans some rows, counted from zero. -/
private def spanningAnchor (first last : String) : Element :=
  .ofChildren "xdr:twoCellAnchor" [] [
    .ofChildren "xdr:from" [] [.ofText "xdr:col" "0", .ofText "xdr:row" first],
    .ofChildren "xdr:to" [] [.ofText "xdr:col" "2", .ofText "xdr:row" last]]

/-- The sheet with a list that generates a row, with pictures below the list and an anchor that
begins beside them. -/
private def anchoredPass : Pass :=
  { samplePass with
    strings := StringTable.ofList ["${table:t.k}", "${xs}", "${image:x}", "${none}"]
    drawing := some {
      path := "drawing1.xml", rels := .empty "drawing1.xml.rels"
      doc := { root := .ofChildren "xdr:wsDr" [] [spanningAnchor "1" "3"] } } }

private def anchoredValues : Substitutions := ("x", .image (.bytes Session.pixel)) :: sampleValues

/-- An anchor spanning three rows moves down behind a list of two, and the two pictures beside it
stay on the row. -/
theorem anchors_follow_sample : ∃ (q : Pass) (d : Drawing) (a : Element) (pictures : List Node),
    anchoredPass.run { moveImages := true } (fun _ => none) anchoredValues = .ok q ∧
      q.drawing = some d ∧ d.doc.root.children = .element a :: pictures ∧
      markerRow? a "from" = some 2 ∧ markerRow? a "to" = some 4 ∧
      List.Forall₂ StaysAt [{ col := 4, row := 3 }, { col := 5, row := 3 }] pictures := by
  obtain ⟨q, hq, -⟩ := exists_eq_ok
    (x := anchoredPass.run { moveImages := true } (fun _ => none) anchoredValues)
    (f := fun _ => ()) (b := ()) (by decide +kernel)
  obtain ⟨-, hsome, hfollow⟩ := anchors_follow ⟨rfl, rfl⟩ hq (by decide +kernel)
    (by decide +kernel)
  obtain ⟨d, hd⟩ := Option.isSome_iff_exists.1 (hsome rfl)
  obtain ⟨kept, pictures, hchildren, hkept, hpictures⟩ := hfollow d hd
  have hcells : pictureCells { moveImages := true } (fun _ => none) anchoredValues
      (anchoredPass.visits { moveImages := true } (fun _ => none) anchoredValues) =
      [{ col := 4, row := 3 }, { col := 5, row := 3 }] := by decide +kernel
  have hrows : anchorRows { moveImages := true } anchoredValues
      (anchoredPass.visits { moveImages := true } (fun _ => none) anchoredValues) 1 = 1 := by
    decide +kernel
  rw [show anchoredPass.drawn = [.element (spanningAnchor "1" "3")] from rfl] at hkept
  cases hkept with
  | cons hnode hnil =>
    cases hnil
    obtain ⟨a, rfl, hfrom, hto, -⟩ := hnode.moved rfl _ 1 rfl (by decide)
      ⟨by decide +kernel, by rw [hrows]; decide +kernel,
        fun _ _ => ⟨3, by decide +kernel, by rw [hrows]; decide +kernel⟩⟩
    rw [hrows] at hfrom hto
    exact ⟨q, d, a, pictures, hq, hd, hchildren, hfrom, hto 3 (by decide +kernel),
      hcells ▸ hpictures⟩

/-- The options under which anchors move, also with the rows that their own row generates. -/
private def movingAlong : FillOptions := { moveImages := true, moveSameLineImages := true }

/-- A pass over rows that show texts, on a sheet with anchors. -/
private def strayingPass (rows : List Element) (texts : List String) (anchors : List Element) :
    Pass :=
  { samplePass with
    sheet := { samplePass.sheet with
      doc := { root := .ofChildren "worksheet" [] [.ofChildren "sheetData" [] rows] } }
    strings := StringTable.ofList texts
    drawing := some {
      path := "drawing1.xml", rels := .empty "drawing1.xml.rels"
      doc := { root := .ofChildren "xdr:wsDr" [] anchors } } }

/-- A picture in row zero, and a table in row one. -/
private def rowZeroPass : Pass :=
  strayingPass [.ofChildren "row" [("r", "0")] [sampleCell [("r", "A0")] "0"],
    .ofChildren "row" [("r", "1")] [sampleCell [("r", "A1")] "1"]] ["${image:x}", "${table:t.k}"] []

/-- A table, a picture, and another table in the last row that has a number of 32 bits. -/
private def wrappedPass : Pass :=
  strayingPass [.ofChildren "row" [("r", "1")] [sampleCell [("r", "A1")] "0"],
    .ofChildren "row" [("r", "2")] [sampleCell [("r", "A2")] "1"],
    .ofChildren "row" [("r", "4294967295")] [sampleCell [("r", "A3")] "0"]]
    ["${table:t.k}", "${image:x}"] []

/-- A table, and an anchor in the last place that has a number of 32 bits when counted from one. -/
private def lastAnchorPass : Pass :=
  strayingPass [.ofChildren "row" [("r", "1")] [sampleCell [("r", "A1")] "0"]] ["${table:t.k}"]
    [.ofChildren "xdr:oneCellAnchor" [] [
      .ofChildren "xdr:from" [] [.ofText "xdr:col" "0", .ofText "xdr:row" "4294967294"]]]

private def strayingValues : Substitutions :=
  [("x", .image (.bytes Session.pixel)),
    ("t", .list [.record [("k", .text "p")], .record [("k", .text "q")],
      .record [("k", .text "r")]])]

/-- An anchor that begins in another row is not the one of a picture at a cell. -/
private theorem not_isPictureAt {cell : CellRef} {n : Node} {start : Nat}
    (h : (n.element?.bind (markerRow? · "from")) = some start) (hne : start ≠ cell.row - 1) :
    ¬IsPictureAt cell n := by
  rintro ⟨d, shapeId, extent, link, rfl⟩
  have hrow : markerRow? (d.pictureAnchor shapeId cell.zeroBased.1 cell.zeroBased.2 extent link)
      "from" = some start := h
  rw [Drawing.markerRow?_pictureAnchor] at hrow
  exact hne (Text.eq_of_natural?_numeral hrow)

/-- The only node of the drawing after a pass, and where it begins. -/
private theorem exists_drawn (p : Pass) (start : Nat)
    (h : (p.run movingAlong (fun _ => none) strayingValues).toOption.map (fun q =>
      q.drawn.map fun n => n.element?.bind (markerRow? · "from")) = some [some start]) :
    ∃ q n, p.run movingAlong (fun _ => none) strayingValues = .ok q ∧ q.drawn = [n] ∧
      n.element?.bind (markerRow? · "from") = some start := by
  obtain ⟨q, hq, hdrawn⟩ := exists_eq_ok h
  obtain ⟨n, hn, hstart⟩ := List.map_eq_singleton_iff.1 hdrawn
  exact ⟨q, n, hq, hn, hstart⟩

/-- Three ways for an anchor to come to a wrong place. A picture of row zero is put where those of
row one are, and moves with that row. Past the last row with a number of 32 bits rows begin again,
above a picture that is already in its place. And an anchor that moves past the last place begins
again at the first one. -/
theorem anchors_astray :
    (∃ q n, rowZeroPass.run movingAlong (fun _ => none) strayingValues = .ok q ∧ q.drawn = [n] ∧
      pictureCells movingAlong (fun _ => none) strayingValues
        (rowZeroPass.visits movingAlong (fun _ => none) strayingValues) =
          [{ col := 1, row := 0 }] ∧
      ¬IsPictureAt { col := 1, row := 0 } n) ∧
    (∃ q n, wrappedPass.run movingAlong (fun _ => none) strayingValues = .ok q ∧ q.drawn = [n] ∧
      pictureCells movingAlong (fun _ => none) strayingValues
        (wrappedPass.visits movingAlong (fun _ => none) strayingValues) =
          [{ col := 1, row := 4 }] ∧
      ¬IsPictureAt { col := 1, row := 4 } n) ∧
    ∃ q n, lastAnchorPass.run movingAlong (fun _ => none) strayingValues = .ok q ∧
      q.drawn = [n] ∧
      lastAnchorPass.drawn.map (fun n => n.element?.bind (markerRow? · "from")) =
        [some (max32 - 1)] ∧
      anchorRows movingAlong strayingValues
        (lastAnchorPass.visits movingAlong (fun _ => none) strayingValues) (max32 - 1) = 2 ∧
      n.element?.bind (markerRow? · "from") ≠ some (max32 - 1 + 2) := by
  obtain ⟨q₁, n₁, hq₁, hn₁, hstart₁⟩ := exists_drawn rowZeroPass 2 (by decide +kernel)
  obtain ⟨q₂, n₂, hq₂, hn₂, hstart₂⟩ := exists_drawn wrappedPass 5 (by decide +kernel)
  obtain ⟨q₃, n₃, hq₃, hn₃, hstart₃⟩ := exists_drawn lastAnchorPass 0 (by decide +kernel)
  refine ⟨⟨q₁, n₁, hq₁, hn₁, by decide +kernel, not_isPictureAt hstart₁ (by decide)⟩,
    ⟨q₂, n₂, hq₂, hn₂, by decide +kernel, not_isPictureAt hstart₂ (by decide)⟩,
    q₃, n₃, hq₃, hn₃, by decide +kernel, by decide +kernel, ?_⟩
  rw [hstart₃]
  decide +kernel

end SheetTemplate.Fill
