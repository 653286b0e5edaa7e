import SheetTemplate.Image.Source
import SheetTemplate.Text.Blank
import SheetTemplate.Worksheet

/-!
# Drawings

The drawing of a sheet holds anchors, each with a picture and the cell it begins in, counted from
zero. Pictures are stored as parts of their own; the drawing links them by relationships.
-/

namespace SheetTemplate

open Text (natural? max32 natural32? add32 trim cutFirst? cutLast?)
open Xml (Element Node Document)

/-- A drawing part with its relationships. -/
structure Drawing where
  path : String
  doc : Document
  rels : Relationships
deriving DecidableEq, Inhabited

namespace Drawing

/-- The namespace of drawings. -/
def xmlnsDrawing : String := "http://schemas.openxmlformats.org/drawingml/2006/spreadsheetDrawing"

/-- The namespace of shapes. -/
def xmlnsMain : String := "http://schemas.openxmlformats.org/drawingml/2006/main"

/-- The namespace of references to relationships. -/
def xmlnsRelationships : String :=
  "http://schemas.openxmlformats.org/officeDocument/2006/relationships"

/-- Reads the drawing that a sheet refers to, if it refers to one with a target. -/
def load? (package : Package) (sheet : Worksheet) : Except Error (Option Drawing) :=
  match sheet.drawingId?.bind fun id => sheet.rels.bind (·.target? id) with
  | none => .ok none
  | some target => do
    let path := PartPath.resolve sheet.path target
    let doc ← package.requireXml path
    -- A drawing without pictures may have no relationships.
    let relsPath := PartPath.relationshipsOf path
    let rels ← Relationships.load? package relsPath
    return some { path, doc, rels := rels.getD (.empty relsPath) }

/-- A drawing without anchors. -/
def empty (path : String) : Drawing :=
  { path, rels := .empty (PartPath.relationshipsOf path)
    doc := { root := {
      name := "xdr:wsDr"
      attributes := [("xmlns:xdr", xmlnsDrawing), ("xmlns:a", xmlnsMain)] } } }

/-- Gives a sheet with relationships a new drawing. -/
def create (package : Package) (sheet : Worksheet) (types : ContentTypes) :
    Except Error (Drawing × Worksheet × ContentTypes) :=
  match sheet.rels with
  | none => .error (.missingRelationships sheet.name)
  | some rels => do
    let file := "drawing" ++ toString (package.nextIndex "xl/drawings/drawing") ++ ".xml"
    let path := "xl/drawings/" ++ file
    let (rels, id) ← rels.add Relationships.drawingType ("../drawings/" ++ file)
    return (.empty path, { sheet with rels := some rels }.attachDrawing id,
      types.ensureOverride ("/" ++ path) ContentTypes.drawing)

/-- Writes the drawing and its relationships. -/
def save (d : Drawing) (package : Package) : Package := d.rels.save (package.setXml d.path d.doc)

/-! ### Names -/

/-- The part of a name after its last colon. -/
def localName (name : String) : String :=
  match cutLast? ':' name.toList with
  | some (_, r) => String.ofList r
  | none => name

/-- A name with the namespace that the root of the drawing has. -/
def qualified (d : Drawing) (name : String) : String :=
  match cutFirst? ':' d.doc.root.name.toList with
  | some ([], _) | none => name
  | some (q, _) => String.ofList q ++ ":" ++ name

/-- Whether an element is an anchor of one or two cells. -/
def isAnchor (e : Element) : Bool :=
  localName e.name == "oneCellAnchor" || localName e.name == "twoCellAnchor"

/-- The anchors in order. -/
def anchors (d : Drawing) : List Element := d.doc.root.elements.filter isAnchor

/-! ### Pictures -/

/-- Stores a picture as a part, and gives the name of its file. -/
def storePicture (package : Package) (types : ContentTypes) (picture : Image.Picture) :
    Package × ContentTypes × String :=
  let extension := picture.format.extension
  let file := "image" ++ toString (package.nextIndex "xl/media/image") ++ "." ++ extension
  (package.set ("xl/media/" ++ file) picture.bytes,
    types.ensureDefault extension picture.format.contentType, file)

/-- Links a stored picture, and gives the id of the link. -/
def link (d : Drawing) (file : String) : Except Error (Drawing × String) :=
  (d.rels.add Relationships.imageType ("../media/" ++ file)).map fun (rels, id) =>
    ({ d with rels }, id)

/-- The id that an element gives a shape, zero if it gives none. -/
def ownShapeId (name : String) (attributes : List (String × String)) : Nat :=
  if "cNvPr".toList.isSuffixOf name.toList then
    ((attributes.lookup "id").bind natural32?).getD 0
  else 0

mutual
/-- The largest id of a shape in an element. -/
def maxShapeId : Element → Nat
  | ⟨name, attributes, children⟩ => max (ownShapeId name attributes) (maxShapeIds children)

/-- The largest id of a shape in some nodes. -/
def maxShapeIds : List Node → Nat
  | [] => 0
  | .element e :: r => max (maxShapeId e) (maxShapeIds r)
  | _ :: r => maxShapeIds r
end

/-- The anchor that shows a linked picture from a cell on, counted from zero. -/
def pictureAnchor (d : Drawing) (shapeId col row : Nat) (extent : Image.Extent) (link : String) :
    Element :=
  let size := [("cx", toString extent.width), ("cy", toString extent.height)]
  let q := d.qualified
  let start := .ofChildren (q "from") [] [
    .ofText (q "col") (toString col), .ofText (q "colOff") "0",
    .ofText (q "row") (toString row), .ofText (q "rowOff") "0"]
  let properties := .ofChildren (q "nvPicPr") [] [
    .ofChildren (q "cNvPr") [("id", toString shapeId), ("name", s!"Picture {shapeId}")] [],
    .ofChildren (q "cNvPicPr") [] [.ofChildren "a:picLocks" [("noChangeAspect", "1")] []]]
  let fill := .ofChildren (q "blipFill") [] [
    .ofChildren "a:blip" [("xmlns:r", xmlnsRelationships), ("r:embed", link)] [],
    .ofChildren "a:stretch" [] [.ofChildren "a:fillRect" [] []]]
  let shape := .ofChildren (q "spPr") [] [
    .ofChildren "a:xfrm" [] [
      .ofChildren "a:off" [("x", "0"), ("y", "0")] [], .ofChildren "a:ext" size []],
    .ofChildren "a:prstGeom" [("prst", "rect")] [.ofChildren "a:avLst" [] []]]
  .ofChildren (q "oneCellAnchor") [] [
    start, .ofChildren (q "ext") size [],
    .ofChildren (q "pic") [] [properties, fill, shape], .ofChildren (q "clientData") [] []]

/-- The id for a new shape. -/
def nextShapeId (d : Drawing) : Nat := add32 (maxShapeId d.doc.root) 1

/-- Adds an anchor with a new shape at the end. -/
def addPicture (d : Drawing) (col row : Nat) (extent : Image.Extent) (link : String) : Drawing :=
  let anchor := d.pictureAnchor d.nextShapeId col row extent link
  { d with doc.root := d.doc.root.push anchor }

/-! ### Moving anchors -/

/-- Whether an element has a local name. -/
def isLocal (name : String) (e : Element) : Bool := localName e.name == name

/-- The number in the row of a marker. -/
def rowNumber? (row : Element) : Option Nat := natural? max32 (trim row.text.toList)

/-- The row of a marker of an anchor, counted from zero. -/
def markerRow? (anchor : Element) (marker : String) : Option Nat := do
  let m ← anchor.elements.find? (isLocal marker)
  let row ← m.elements.find? (isLocal "row")
  rowNumber? row

/-- Moves the row of a marker down; what is no number counts as zero. -/
def moveMarker (rows : Nat) (marker : String) (anchor : Element) : Element :=
  let moveRow (row : Element) := row.setText (toString (add32 ((rowNumber? row).getD 0) rows))
  let moveIn (m : Element) : Element :=
    { m with children := Node.mapFirst (isLocal "row") moveRow m.children }
  { anchor with children := Node.mapFirst (isLocal marker) moveIn anchor.children }

/-- Whether an anchor begins below a row, counted from one, or on it where that counts too. -/
def beginsBelow (row : Nat) (sameLine : Bool) (anchor : Element) : Bool :=
  (markerRow? anchor "from").any fun start =>
    if sameLine then row ≤ add32 start 1 else row < add32 start 1

/-- Moves an anchor down, both where it begins and where it ends. -/
def moveAnchor (rows : Nat) (anchor : Element) : Element :=
  moveMarker rows "to" (moveMarker rows "from" anchor)

/-- Moves those of the first `limit` anchors that begin below a row. -/
def moveNodes (row rows : Nat) (sameLine : Bool) : Nat → List Node → List Node
  | _, [] => []
  | 0, nodes => nodes
  | limit + 1, n :: r =>
    if n.isElement isAnchor then
      n.mapElement (fun a => if beginsBelow row sameLine a then moveAnchor rows a else a) ::
        moveNodes row rows sameLine limit r
    else n :: moveNodes row rows sameLine (limit + 1) r

/-- Moves those of the first `limit` anchors down that begin below a row, counted from one. -/
def moveAnchors (d : Drawing) (row rows : Nat) (sameLine : Bool) (limit : Nat) : Drawing :=
  { d with
    doc.root := { d.doc.root with
      children := moveNodes row rows sameLine limit d.doc.root.children } }

end Drawing

end SheetTemplate
