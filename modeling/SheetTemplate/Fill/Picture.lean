import SheetTemplate.Fill.Pass

/-!
# Pictures in cells

A picture is anchored at its cell, whose text becomes empty. In a merged region it is scaled to fit;
elsewhere it takes its natural size times the ratio of the options. The sheet gets a drawing when
the first picture needs one.
-/

namespace SheetTemplate.Fill

open Xml (Element)

namespace Pass

/-- Gives the sheet a drawing, if it has none and can have one. -/
def ensureDrawing (given : Given) (p : Pass) : Except Failure Pass :=
  if p.drawing.isSome then .ok p
  else
    match p.sheet.withRels? p.package with
    | none =>
      if given.options.strictRelationships then
        .error (p.fail (.missingRelationships p.sheet.name))
      else .ok p
    | some sheet => do
      let p := { p with
        sheet, types := p.types.ensureDefault "rels" ContentTypes.relationships }
      let (drawing, sheet, types) ← p.tryStep (Drawing.create p.package p.sheet p.types)
      return { p with sheet, types, drawing := some drawing }

/-- The extent that a picture gets at a cell. -/
def pictureExtent (given : Given) (p : Pass) (cell : CellRef) (picture : Image.Picture) :
    Image.Extent :=
  match Layout.mergeContaining? p.sheet.doc.root cell with
  | some region =>
    Image.fit (picture.extent 100) region (fun col => (p.sheet.columnWidth col).toFloat)
      fun row => (p.rowHeight given row).toFloat
  | none => picture.extent given.options.ratio

/-- Stores a picture and anchors it at a cell. -/
def embed (p : Pass) (drawing : Drawing) (cell : CellRef) (picture : Image.Picture)
    (extent : Image.Extent) : Except Failure Pass := do
  let (package, types, file) := Drawing.storePicture p.package p.types picture
  -- The picture is stored even if it cannot be linked.
  let p := { p with package, types }
  let (drawing, id) ← p.tryStep (drawing.link file)
  let (col, row) := cell.zeroBased
  return { p with drawing := some (drawing.addPicture col row extent id) }

/-- Reads the picture that a source gives and anchors it at a cell. A picture that cannot be read is
reported, or ends the pass. -/
def placeSource (given : Given) (p : Pass) (drawing : Drawing) (cell : CellRef)
    (source : ImageSource) : Except Failure Pass :=
  match Image.load given.files given.options.imageRoot source with
  | .ok picture => p.embed drawing cell picture (p.pictureExtent given cell picture)
  | .error error =>
    if given.options.skipBrokenImages then .ok { p with skipped := p.skipped ++ [⟨source, error⟩] }
    else .error (p.fail error)

/-- Empties a cell and anchors the picture of a value at it, if it is one. -/
def placePicture (given : Given) (p : Pass) (element : Element) (cell : CellRef) (value : Value) :
    Except Failure (Pass × Element) := do
  -- The cell is emptied even if the value turns out to be no picture.
  let (p, element) := p.insert element .empty
  match Image.sourceOf? given.files given.options.imageRoot value with
  | none => return (p, element)
  | some source =>
    let p ← p.ensureDrawing given
    match p.drawing with
    | none => return (p, element)
    | some drawing => return (← p.placeSource given drawing cell source, element)

end Pass

end SheetTemplate.Fill
