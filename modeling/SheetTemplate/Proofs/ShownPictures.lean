import SheetTemplate.Proofs.AnchorMoves
import SheetTemplate.Proofs.UntouchedParts
import SheetTemplate.Proofs.WritablePackages

/-!
# Pictures that a sheet shows

A sheet shows a picture if its drawing has an anchor whose link leads to the part of the picture,
and the drawing is the one that the first `drawing` element of the sheet leads to. Both links go by
ids of relationships.

While a pass fills rows, pictures that are shown stay so, and those that it stores are shown. The
sheet gets a drawing only if it has no `drawing` element, so that the one it gets is the first; the
ids of new links are fresh; anchors move, but keep their pictures.

## Key results

- `Relationships.get?_of_nextId`: a made up id is fresh
- `illustrated_of_change`: what every change keeps of a sheet and its drawing
- `Pictured.change`: what every change keeps of the pictures that are shown
- `pictured_of_fill`: both, once all rows are filled
-/

namespace SheetTemplate

open Xml (Document Element Node)
open Text (natural? max32 add32 add32_of_le numeral natural?_numeral isDecimalDigit)
open Fill (Pass fillLink)

/-! ### Links by id -/

namespace Relationships

variable {r r' : Relationships} {type target id other : String} {rel : Element}

/-- The number of the id of a relationship, if it has one. -/
def ownNumber? (rel : Element) : Option Nat := idNumber? ((rel.attr? "Id").getD "").toList

/-- The largest number of an id, zero if there is none. -/
def lastId (r : Relationships) : Nat := (r.toList.filterMap ownNumber?).foldl max 0

/-- The largest number of an id is within a bound exactly if all of them are. -/
theorem lastId_le_iff {bound : Nat} :
    r.lastId ≤ bound ↔ ∀ rel ∈ r.toList, ∀ n ∈ ownNumber? rel, n ≤ bound := by
  rw [lastId, foldl_max_le_iff]
  constructor
  · rintro ⟨-, h⟩ rel hrel n hn
    exact h n (List.mem_filterMap.2 ⟨rel, hrel, hn⟩)
  · refine fun h => ⟨Nat.zero_le _, fun n hn => ?_⟩
    obtain ⟨rel, hrel, hn⟩ := List.mem_filterMap.1 hn
    exact h rel hrel n hn

/-- A made up id is read as the number it was given. -/
private theorem idNumber?_numbered {n : Nat} (h : n ≤ max32) :
    idNumber? ("rId" ++ toString n).toList = some n := by
  have hdigits : ∀ c ∈ numeral n, isDecimalDigit c = true := fun c hc =>
    Text.isDecimalDigit_of_isDigit (Text.isDigit_of_mem_numeral hc)
  rw [← natural?_numeral h, String.toList_append, Text.toList_toString]
  show idNumber? ('r' :: 'I' :: 'd' :: numeral n) = _
  cases hn : numeral n with
  | nil => exact absurd hn (Text.numeral_ne_nil n)
  | cons c cs =>
    rw [hn, List.forall_mem_cons] at hdigits
    rw [idNumber?, if_pos hdigits.1, List.takeWhile_eq_self_iff.2 hdigits.2]

/-- Where an id is made up, all ids have numbers. -/
private theorem filterMap_of_idNumbers {ns : List Nat} (h : r.idNumbers = .ok ns) :
    r.toList.filterMap ownNumber? = ns := by
  have hnumbers := mapM_eq_ok.1 h
  generalize r.toList = rels at hnumbers
  clear h
  -- Along the relationships together with the numbers read from them.
  induction hnumbers with
  | nil => rfl
  | @cons rel n _ _ hrel _ ih =>
    have hn : ownNumber? rel = some n := by
      unfold ownNumber?
      split at hrel
      · rename_i m hm
        cases hrel
        exact hm
      · cases hrel
    rw [List.filterMap_cons_some hn, ih]

/-- As long as no id has the last number, a made up id has the one after the largest. -/
private theorem ownNumber?_of_nextId (h : r.nextId = .ok id) (hlast : r.lastId < max32)
    (hrel : rel.attr? "Id" = some id) : ownNumber? rel = some (r.lastId + 1) := by
  obtain ⟨ns, hns, rfl⟩ := map_eq_ok.1 h
  have hnext : add32 (ns.foldl max 0) 1 = r.lastId + 1 := by
    rw [← filterMap_of_idNumbers hns]
    exact add32_of_le hlast
  rw [ownNumber?, hrel, Option.getD_some, hnext]
  exact idNumber?_numbered hlast

/-- As long as no id has the last number, no relationship has the id that is made up for a new
one. -/
theorem get?_of_nextId (h : r.nextId = .ok id) (hlast : r.lastId < max32) : r.get? id = none := by
  rw [get?, List.find?_eq_none]
  intro rel hrel hid
  have hnumber := ownNumber?_of_nextId h hlast (beq_iff_eq.1 hid)
  exact Nat.not_succ_le_self _ (lastId_le_iff.1 (Nat.le_refl _) rel hrel _ hnumber)

/-- A relationship that is added is the last. -/
theorem toList_push (r : Relationships) {rel : Element} (h : rel.name = "Relationship") :
    (r.mapRoot (·.push rel)).toList = r.toList ++ [rel] := by
  rw [toList, toList, mapRoot, Element.named, Element.elements_push, List.filter_append]
  simp [h]
  rfl

/-- A new relationship has the largest number then. -/
theorem lastId_of_add (h : r.add type target = .ok (r', id)) (hlast : r.lastId < max32) :
    r'.lastId = r.lastId + 1 := by
  obtain ⟨hid, rfl⟩ := add_eq_ok h
  rw [lastId, toList_push r rfl, List.filterMap_append, List.foldl_append, ← lastId,
    List.filterMap_cons_some (ownNumber?_of_nextId hid hlast rfl)]
  exact Nat.max_eq_right (Nat.le_succ _)

/-- Adding relationships does not lower the largest number. -/
theorem lastId_le_of_add (h : r.add type target = .ok (r', id)) : r.lastId ≤ r'.lastId := by
  obtain ⟨-, rfl⟩ := add_eq_ok h
  refine lastId_le_iff.2 fun rel hrel n hn => lastId_le_iff.1 (Nat.le_refl _) rel ?_ n hn
  rw [toList_push r rfl]
  exact List.mem_append_left _ hrel

/-- A relationship that is added is found under its own id, behind those that were there. -/
private theorem get?_of_add (h : r.add type target = .ok (r', id)) (other : String) :
    r'.get? other = (r.get? other).or (if id = other then
      some { name := "Relationship"
             attributes := [("Id", id), ("Type", type), ("Target", target)] }
    else none) := by
  obtain ⟨-, rfl⟩ := add_eq_ok h
  rw [get?, get?, toList_push r rfl, List.find?_append]
  congr 1
  split
  · rename_i heq
    simp [heq, Element.attr?]
  · rename_i hne
    simp [hne, Element.attr?]

/-- A new relationship takes no id from another. -/
theorem get?_of_add_of_some (h : r.add type target = .ok (r', id))
    (hrel : r.get? other = some rel) : r'.get? other = some rel := by
  rw [get?_of_add h, hrel, Option.some_or]

/-- As long as no id has the last number, the relationship with a new id is the new one. -/
theorem get?_of_add_self (h : r.add type target = .ok (r', id)) (hlast : r.lastId < max32) :
    ∃ rel, r'.get? id = some rel ∧ rel.attr? "Type" = some type ∧
      rel.attr? "Target" = some target := by
  rw [get?_of_add h, get?_of_nextId (add_eq_ok h).1 hlast, if_pos rfl, Option.none_or]
  exact ⟨_, rfl, rfl, rfl⟩

/-- What is found after the addition was there before or is the one added. -/
theorem eq_of_get?_of_add (h : r.add type target = .ok (r', id)) (hrel : r'.get? other = some rel) :
    r.get? other = some rel ∨
      rel.attr? "Type" = some type ∧ rel.attr? "Target" = some target := by
  rw [get?_of_add h, Option.or_eq_some_iff] at hrel
  rcases hrel with hold | ⟨-, hnew⟩
  · exact .inl hold
  · split at hnew
    · cases hnew
      exact .inr ⟨rfl, rfl⟩
    · cases hnew

/-- The relationships as they are read after they were written. -/
def tidied (r : Relationships) : Relationships := { r with doc := r.doc.tidy }

/-- Tidying keeps the relationships and their ids. -/
theorem get?_tidied (r : Relationships) (id : String) :
    r.tidied.get? id = (r.get? id).map Element.tidy := by
  have hlist : r.tidied.toList = r.toList.map Element.tidy := Element.named_tidy _ _
  simp only [get?, hlist, List.find?_map, Function.comp_def, Element.attr?_tidy]

end Relationships

/-! ### Anchors with pictures -/

namespace Drawing

/-- The id of the link to the picture that an anchor shows. -/
def pictureId? (anchor : Element) : Option String := do
  let picture ← anchor.elements.find? (isLocal "pic")
  let fill ← picture.elements.find? (isLocal "blipFill")
  let blip ← fill.child? "a:blip"
  blip.attr? "r:embed"

/-- A new anchor shows what it was made for. -/
theorem pictureId?_pictureAnchor (d : Drawing) (shapeId col row : Nat) (extent : Image.Extent)
    (link : String) : pictureId? (d.pictureAnchor shapeId col row extent link) = some link := by
  have hlocal : ∀ {name : String}, ':' ∉ name.toList → localName (d.qualified name) = name :=
    d.localName_qualified
  have hlink : List.lookup "r:embed" [("xmlns:r", xmlnsRelationships), ("r:embed", link)] =
      some link := rfl
  simpa [pictureId?, pictureAnchor, Element.ofChildren, Element.elements, Element.child?,
    Element.attr?, Node.element?, isLocal, hlocal] using hlink

private theorem pictureId?_moveMarker (rows : Nat) {marker : String} (h : marker ≠ "pic")
    (anchor : Element) : pictureId? (moveMarker rows marker anchor) = pictureId? anchor := by
  -- The marker is another child than the picture, so the first picture found is the same.
  have hother : ∀ e : Element, isLocal marker e = true → isLocal "pic" e = false := by
    intro e he
    rw [isLocal, beq_iff_eq] at he
    rw [isLocal, he]
    exact beq_eq_false_iff_ne.2 h
  have hpicture : (moveMarker rows marker anchor).elements.find? (isLocal "pic") =
      anchor.elements.find? (isLocal "pic") := by
    refine Node.find?_mapFirst_of_not (fun e he => ⟨hother e he, ?_⟩) anchor.children
    exact hother { e with children := _ } he
  rw [pictureId?, hpicture]
  rfl

/-- A moved anchor is still an anchor. -/
private theorem isAnchor_moveAnchor (rows : Nat) (anchor : Element) :
    isAnchor (moveAnchor rows anchor) = isAnchor anchor := rfl

/-- It still links the same picture. -/
private theorem pictureId?_moveAnchor (rows : Nat) (anchor : Element) :
    pictureId? (moveAnchor rows anchor) = pictureId? anchor := by
  rw [moveAnchor, pictureId?_moveMarker _ (by decide), pictureId?_moveMarker _ (by decide)]

/-- An anchor is still there, moved or not. -/
private theorem mem_moveNodes (row rows : Nat) (sameLine : Bool) (limit : Nat) {a : Element}
    {nodes : List Node} (h : .element a ∈ nodes) :
    .element a ∈ moveNodes row rows sameLine limit nodes ∨
      .element (moveAnchor rows a) ∈ moveNodes row rows sameLine limit nodes := by
  -- Along the nodes. The limit counts anchors only, so the induction is for all limits.
  induction nodes generalizing limit with
  | nil => cases h
  | cons n r ih =>
    cases limit with
    | zero => exact .inl h
    | succ limit =>
      unfold moveNodes
      split
      · rcases List.mem_cons.1 h with rfl | h
        -- An anchor moves or stays by where it begins.
        · cases hbelow : beginsBelow row sameLine a with
          | true => simp [Node.mapElement, hbelow]
          | false => simp [Node.mapElement, hbelow]
        · exact (ih limit h).imp (List.mem_cons_of_mem _) (List.mem_cons_of_mem _)
      · rcases List.mem_cons.1 h with rfl | h
        · exact .inl List.mem_cons_self
        · exact (ih (limit + 1) h).imp (List.mem_cons_of_mem _) (List.mem_cons_of_mem _)

/-- Tidying keeps anchors anchors. -/
private theorem isAnchor_tidy (anchor : Element) : isAnchor anchor.tidy = isAnchor anchor := by
  rw [isAnchor, Element.name_tidy]
  rfl

/-- It keeps the link to the picture. -/
private theorem pictureId?_tidy (anchor : Element) :
    pictureId? anchor.tidy = pictureId? anchor := by
  have hfind : ∀ (name : String) (e : Element), e.tidy.elements.find? (isLocal name) =
      (e.elements.find? (isLocal name)).map Element.tidy := by
    intro name e
    have hlocal : isLocal name ∘ Element.tidy = isLocal name := funext fun e => by simp [isLocal]
    rw [Element.elements_tidy, List.find?_map, hlocal]
  simp only [pictureId?, hfind, Option.bind_eq_bind, Option.bind_map, Function.comp_def,
    Element.child?_tidy, Element.attr?_tidy]

/-- The drawing as it is read after it was written. -/
def tidied (d : Drawing) : Drawing :=
  { d with doc := d.doc.tidy, rels := d.rels.tidied }

/-! ### Pictures that a drawing shows -/

/-- An anchor of the drawing refers to a link that leads to the part of the picture. -/
def Shows (d : Drawing) (package : Package) (picture : String × ByteArray) : Prop :=
  ∃ a ∈ d.anchors, ∃ id rel, pictureId? a = some id ∧ d.rels.get? id = some rel ∧
    LeadsTo d.path rel picture.1 ∧ package.get? picture.1 = some picture.2

namespace Shows

variable {d : Drawing} {package package' : Package} {picture : String × ByteArray}

/-- A picture stays shown in a drawing that keeps its anchors and its links. -/
private theorem of_kept {d' : Drawing} (h : d.Shows package picture) (hpath : d'.path = d.path)
    (hanchors : ∀ a ∈ d.anchors, ∃ a' ∈ d'.anchors, pictureId? a' = pictureId? a)
    (hlinks : ∀ id rel, d.rels.get? id = some rel →
      ∃ rel', d'.rels.get? id = some rel' ∧ rel'.attr? "Target" = rel.attr? "Target")
    (hget : package'.get? picture.1 = package.get? picture.1) : d'.Shows package' picture := by
  obtain ⟨a, ha, id, rel, hid, hrel, hleads, hbytes⟩ := h
  obtain ⟨a', ha', hsame⟩ := hanchors a ha
  obtain ⟨rel', hrel', htarget⟩ := hlinks id rel hrel
  refine ⟨a', ha', id, rel', hsame.trans hid, hrel', ?_, hget.trans hbytes⟩
  rw [LeadsTo, htarget, hpath]
  exact hleads

/-- A picture that is shown is a part of the package. -/
theorem mem_names (h : d.Shows package picture) : picture.1 ∈ package.names := by
  obtain ⟨a, ha, id, rel, -, -, -, hbytes⟩ := h
  rw [Package.mem_names_iff, hbytes]
  rfl

/-- A picture is shown as long as its part stays as it is. -/
theorem congr (h : d.Shows package picture)
    (hget : package'.get? picture.1 = package.get? picture.1) : d.Shows package' picture :=
  h.of_kept rfl (fun a ha => ⟨a, ha, rfl⟩) (fun _ rel hrel => ⟨rel, hrel, rfl⟩) hget

/-- Anchors that move keep showing their pictures. -/
theorem moveAnchors (h : d.Shows package picture) (row rows : Nat) (sameLine : Bool)
    (limit : Nat) : (d.moveAnchors row rows sameLine limit).Shows package picture := by
  refine h.of_kept rfl (fun a ha => ?_) (fun _ rel hrel => ⟨rel, hrel, rfl⟩) rfl
  obtain ⟨hmem, hanchor⟩ := List.mem_filter.1 ha
  obtain ⟨n, hn, hna⟩ := List.mem_filterMap.1 hmem
  cases n with
  | text | cdata | comment => cases hna
  | element e =>
    cases hna
    -- The anchor of the picture is among the nodes as it was, or moved; both link the same picture.
    rcases mem_moveNodes row rows sameLine limit hn with hstays | hmoves
    · exact ⟨a, List.mem_filter.2 ⟨List.mem_filterMap.2 ⟨_, hstays, rfl⟩, hanchor⟩, rfl⟩
    · exact ⟨moveAnchor rows a, List.mem_filter.2 ⟨List.mem_filterMap.2 ⟨_, hmoves, rfl⟩,
        (isAnchor_moveAnchor rows a).trans hanchor⟩, pictureId?_moveAnchor rows a⟩

/-- A drawing that is read back shows what it showed. -/
theorem tidied (h : d.Shows package picture) : d.tidied.Shows package picture := by
  refine h.of_kept rfl (fun a ha => ⟨a.tidy, ?_, pictureId?_tidy a⟩) (fun id rel hrel => ?_) rfl
  · obtain ⟨hmem, hanchor⟩ := List.mem_filter.1 ha
    refine List.mem_filter.2 ⟨?_, (isAnchor_tidy a).trans hanchor⟩
    show a.tidy ∈ d.doc.root.tidy.elements
    rw [Element.elements_tidy]
    exact List.mem_map_of_mem hmem
  · exact ⟨rel.tidy, by rw [Drawing.tidied, Relationships.get?_tidied, hrel]; rfl,
      Element.attr?_tidy ..⟩

/-- A drawing shows the picture that was linked and anchored last. -/
theorem addPicture {rels : Relationships} {file id : String} {bytes : ByteArray}
    (hadd : d.rels.add Relationships.imageType ("../media/" ++ file) = .ok (rels, id))
    (hlast : d.rels.lastId < max32) (hfolder : PartPath.isInFolderOfXl d.path = true)
    (hfile : PartPath.Plain file)
    (hget : package.get? ("xl/media/" ++ file) = some bytes) (col row : Nat)
    (extent : Image.Extent) :
    Shows (Drawing.addPicture { d with rels } col row extent id) package
      ("xl/media/" ++ file, bytes) := by
  obtain ⟨rel, hrel, -, htarget⟩ := Relationships.get?_of_add_self hadd hlast
  refine ⟨pictureAnchor { d with rels } (nextShapeId { d with rels }) col row extent id, ?_, id,
    rel, pictureId?_pictureAnchor .., hrel, ?_, hget⟩
  · refine List.mem_filter.2 ⟨?_, isAnchor_pictureAnchor ..⟩
    simp [Drawing.addPicture]
  · exact (leadsTo_iff plain_media ⟨file, hfile, rfl, htarget⟩ d.path).2 hfolder

/-- The pictures before it stay shown. -/
theorem of_addPicture {rels : Relationships} {type target id : String}
    (h : d.Shows package picture) (hadd : d.rels.add type target = .ok (rels, id))
    (hget : package'.get? picture.1 = package.get? picture.1) (col row : Nat)
    (extent : Image.Extent) :
    Shows (Drawing.addPicture { d with rels } col row extent id) package' picture := by
  refine h.of_kept rfl (fun a ha => ⟨a, ?_, rfl⟩)
    (fun _ rel hrel => ⟨rel, Relationships.get?_of_add_of_some hadd hrel, rfl⟩) hget
  obtain ⟨hmem, hanchor⟩ := List.mem_filter.1 ha
  refine List.mem_filter.2 ⟨?_, hanchor⟩
  simp [Drawing.addPicture, hmem]

end Shows

end Drawing

/-! ### Sheets and what they link -/

namespace Worksheet

/-- The ids of the drawings that a sheet refers to; the first one counts. -/
def drawingIds (w : Worksheet) : List (Option String) :=
  (w.doc.root.named "drawing").map (·.attr? "r:id")

/-- The ids of the tables that a sheet lists. -/
def tableIds (w : Worksheet) : List String :=
  ((w.doc.root.child? "tableParts").map fun parts =>
    (parts.named "tablePart").filterMap (·.attr? "r:id")).getD []

/-- The relationship with an id. -/
def link? (w : Worksheet) (id : String) : Option Element := w.rels.bind (·.get? id)

/-- The drawing of a sheet is the one of its first drawing element. -/
theorem drawingId?_eq (w : Worksheet) : w.drawingId? = w.drawingIds.head?.join := by
  rw [drawingId?, drawingIds, Element.child?, Element.named, List.head?_map, List.head?_filter]
  cases w.doc.root.elements.find? _ <;> rfl

/-- Where the drawing and the tables of a sheet are does not change: the sheet refers to them as
before, and the links to them may only be written otherwise. -/
structure SameLinks (w w' : Worksheet) : Prop where
  path : w'.path = w.path
  drawings : w'.drawingIds = w.drawingIds
  tables : w'.tableIds = w.tableIds
  links : ∃ f : Element → Element,
    (∀ rel, Relationships.hasType "hyperlink" rel = false →
      ∀ key, (f rel).attr? key = rel.attr? key) ∧
    ∀ id, w'.link? id = (w.link? id).map f

namespace SameLinks

variable {w w' w'' : Worksheet}

private theorem trans (h : w.SameLinks w') (h' : w'.SameLinks w'') : w.SameLinks w'' := by
  obtain ⟨f, hf, hlinks⟩ := h.links
  obtain ⟨g, hg, hlinks'⟩ := h'.links
  refine ⟨h'.path.trans h.path, h'.drawings.trans h.drawings, h'.tables.trans h.tables, g ∘ f,
    fun rel hrel key => ?_, fun id => ?_⟩
  · have hkeep : Relationships.hasType "hyperlink" (f rel) = false := by
      rw [Relationships.hasType, hf rel hrel]
      exact hrel
    exact (hg _ hkeep key).trans (hf rel hrel key)
  · rw [hlinks', hlinks, Option.map_map]

/-- The relationships that a package lacks are begun. -/
private theorem of_withRels? {package : Package} (h : w.withRels? package = some w') :
    w.SameLinks w' := by
  obtain ⟨-, hsheet, hrels⟩ := withRels?_eq_some h
  refine ⟨by rw [hsheet], by rw [hsheet]; rfl, by rw [hsheet]; rfl, id, fun _ _ _ => rfl,
    fun id => ?_⟩
  rw [Option.map_id]
  rcases hrels with hsame | ⟨hnone, hempty⟩
  · rw [link?, hsame]
    rfl
  · rw [link?, link?, hnone, hempty]
    rfl

/-- A change of the root that touches neither the drawing nor the tables keeps the links. -/
private theorem of_root (h : w'.path = w.path) (hrels : w'.rels = w.rels)
    (hdrawings : w'.doc.root.named "drawing" = w.doc.root.named "drawing")
    (htables : w'.doc.root.child? "tableParts" = w.doc.root.child? "tableParts") :
    w.SameLinks w' :=
  ⟨h, by rw [drawingIds, hdrawings]; rfl, by rw [tableIds, htables]; rfl, id,
    fun _ _ _ => rfl, fun id => by rw [Option.map_id, link?, hrels]; rfl⟩

/-- A change of a child that is neither a drawing nor the list of tables. -/
private theorem mapChild (w : Worksheet) {n : String} {f : Element → Element}
    (hf : ∀ c, (f c).name = c.name) (hdrawing : "drawing" ≠ n) (htables : "tableParts" ≠ n) :
    w.SameLinks (w.mapRoot (·.mapChild n f)) :=
  of_root rfl rfl (Element.named_mapChild_of_ne _ hf hdrawing)
    (Element.child?_mapChild_of_ne _ hf htables)

/-- Regions moved to the right are no links. -/
private theorem shiftRight (w : Worksheet) (anchor : CellRef) (cols : Int) :
    w.SameLinks (w.mapRoot (Layout.shiftMergesRight anchor cols)) :=
  mapChild w (fun _ => rfl) (by decide) (by decide)

private theorem refl (w : Worksheet) : w.SameLinks w := of_root rfl rfl rfl rfl

/-- Regions and breaks moved down are none either. -/
private theorem shiftDown (w : Worksheet) (shift : Layout.RowShift) :
    w.SameLinks (w.mapRoot shift.shiftSheet) := by
  unfold Layout.RowShift.shiftSheet Layout.RowShift.shiftBreaks
  split
  · exact refl w
  · have hmerges := mapChild w (n := "mergeCells") (f := shift.shiftMerges) (fun _ => rfl)
      (by decide) (by decide)
    split
    · exact hmerges.trans (mapChild _ (n := "rowBreaks") (fun _ => rfl) (by decide) (by decide))
    · exact hmerges

/-- Filling a link leaves its id. -/
private theorem attr?_fillLink_id (values : Substitutions) (rel : Element) :
    (fillLink values rel).attr? "Id" = rel.attr? "Id" := by
  unfold fillLink
  split
  · split
    · exact Element.attr?_setAttr_of_ne _ (by decide) _
    · rfl
  · rfl

/-- Links to other sites are filled, but no others. -/
private theorem fillLinks (values : Substitutions) (w : Worksheet) :
    w.SameLinks (Fill.fillLinks values w) := by
  refine ⟨rfl, rfl, rfl, fillLink values, fun rel hrel key => ?_, fun id => ?_⟩
  · rw [fillLink, hrel]
    rfl
  -- Relationships are found by ids, which filling a link does not change.
  · rw [link?, link?, Fill.fillLinks]
    cases w.rels with
    | none => rfl
    | some rels =>
      show ((rels.mapRoot _).toList).find? _ = (rels.toList.find? _).map _
      rw [Relationships.toList, Relationships.mapRoot,
        Element.named_mapNamed _ _ Fill.Pass.name_fillLink, List.find?_map]
      simp only [Function.comp_def, attr?_fillLink_id]
      rfl

/-- What is read after a sheet was written. -/
theorem of_tidy (hpath : w'.path = w.path) (hdoc : w'.doc = w.doc.tidy)
    (hrels : w'.rels = w.rels.map Relationships.tidied) : w.SameLinks w' := by
  refine ⟨hpath, ?_, ?_, Element.tidy, fun _ _ _ => Element.attr?_tidy .., fun id => ?_⟩
  · rw [drawingIds, hdoc, Document.tidy, Element.named_tidy, List.map_map]
    -- Reading back keeps the attributes by which the links are found.
    exact List.map_congr_left fun _ _ => Element.attr?_tidy ..
  · rw [tableIds, hdoc, Document.tidy, Element.child?_tidy, tableIds, Option.map_map]
    congr 2
    funext parts
    simp [List.filterMap_map]
  · rw [link?, link?, hrels]
    cases w.rels with
    | none => rfl
    | some rels => exact Relationships.get?_tidied rels id

end SameLinks

end Worksheet

/-! ### Sheets with their drawings -/

namespace PartPath

/-- Whether a name begins with another. -/
def begins (start name : String) : Bool := start.toList.isPrefixOf name.toList

/-- A text begins with its first part. -/
theorem begins_append (start rest : String) : begins start (start ++ rest) = true := by
  rw [begins, List.isPrefixOf_iff_prefix, String.toList_append]
  exact List.prefix_append ..

/-- A name begins with two others only if one of them begins with the other. -/
theorem ne_of_begins {start start' name name' : String} (h : begins start name = true)
    (h' : begins start' name' = true) (hne : begins start start' = false)
    (hne' : begins start' start = false) : name ≠ name' := by
  rintro rfl
  rw [begins, List.isPrefixOf_iff_prefix] at h h'
  rcases List.prefix_or_prefix_of_prefix h h' with hpre | hpre
  · rw [begins, List.isPrefixOf_iff_prefix.2 hpre] at hne
    cases hne
  · rw [begins, List.isPrefixOf_iff_prefix.2 hpre] at hne'
    cases hne'

/-- The relationships of a part are in its folder, in a folder of their own. -/
private theorem begins_relationshipsOf {start file : String} (folder : String)
    (hstart : start = folder ++ "/") (hfolder : folder ≠ "") (hfile : '/' ∉ file.toList) :
    begins start (relationshipsOf (start ++ file)) = true := by
  have hpath : relationshipsOf (start ++ file) = start ++ ("_rels/" ++ file ++ ".rels") := by
    rw [hstart, relationshipsOf, directory_append _ hfile, fileName_append _ hfile,
      if_neg hfolder, show ("/_rels/" : String) = "/" ++ "_rels/" from rfl]
    simp only [String.append_assoc]
  rw [hpath]
  exact begins_append ..

end PartPath

namespace Worksheet

/-- The parts of a sheet itself. -/
def parts (w : Worksheet) : List String := [w.path, PartPath.relationshipsOf w.path]

/-- Whether a sheet is stored directly in the folder of sheets. -/
def InPlace (w : Worksheet) : Prop := ∃ file, '/' ∉ file.toList ∧ w.path = "xl/worksheets/" ++ file

namespace InPlace

variable {w : Worksheet} (h : w.InPlace)

include h

/-- A sheet in its place is in a folder below that of the workbook. -/
theorem folder : PartPath.isInFolderOfXl w.path = true := by
  obtain ⟨file, hfile, hpath⟩ := h
  rw [PartPath.isInFolderOfXl, PartPath.folders, hpath,
    show ("xl/worksheets/" : String) = "xl/worksheets" ++ "/" from rfl,
    PartPath.directory_append _ hfile]
  decide

/-- Its part and its relationships begin with the folder of sheets. -/
theorem begins_parts : ∀ part ∈ w.parts, PartPath.begins "xl/worksheets/" part = true := by
  obtain ⟨file, hfile, hpath⟩ := h
  simp only [parts, List.forall_mem_cons, List.not_mem_nil, false_imp_iff, implies_true, and_true]
  rw [hpath]
  exact ⟨PartPath.begins_append ..,
    PartPath.begins_relationshipsOf "xl/worksheets" rfl (by decide) hfile⟩

end InPlace

end Worksheet

namespace Drawing

/-- The parts of a drawing. -/
def parts (d : Drawing) : List String := [d.path, PartPath.relationshipsOf d.path]

/-- A drawing that was begun has its parts in the folder of drawings. -/
theorem begins_parts_new {package : Package} {d : Drawing}
    (h : d.path = "xl/drawings/" ++ newFile package) :
    ∀ part ∈ d.parts, PartPath.begins "xl/drawings/" part = true := by
  simp only [parts, List.forall_mem_cons, List.not_mem_nil, false_imp_iff, implies_true, and_true]
  rw [h]
  exact ⟨PartPath.begins_append ..,
    PartPath.begins_relationshipsOf "xl/drawings" rfl (by decide) (plain_newFile package).noSlash⟩

end Drawing

/-- A sheet with the drawing that it shows, if it has one. The drawing is the one that the sheet
refers to, by a link that is not filled, and pictures can be linked from where it is. Neither it nor
a table takes the place of the sheet or of a picture, and it is none of the parts that all sheets
share. -/
structure Illustrated (most : Nat) (shared : List String) (sheet : Worksheet)
    (drawing : Option Drawing) : Prop where
  undrawn : drawing = none → sheet.drawingIds = []
  most : sheet.drawingIds.length ≤ most
  link : ∀ d ∈ drawing, ∃ id rel, sheet.drawingId? = some id ∧ sheet.link? id = some rel ∧
    Relationships.hasType "hyperlink" rel = false ∧ LeadsTo sheet.path rel d.path
  folder : ∀ d ∈ drawing, PartPath.isInFolderOfXl d.path = true
  apart : ∀ d ∈ drawing, ∀ part ∈ d.parts,
    part ∉ sheet.parts ++ shared ∧ Package.isPicture part = false
  tables : ∀ id ∈ sheet.tableIds, ∀ rel ∈ sheet.link? id,
    Relationships.hasType "hyperlink" rel = false ∧
      ∀ part, LeadsTo sheet.path rel part → part ∉ sheet.parts ∧ Package.isPicture part = false

namespace Illustrated

variable {most : Nat} {shared : List String} {sheet sheet' : Worksheet}
    {drawing drawing' : Option Drawing}

/-- What the sheet and its drawing fulfil depends on the links and on the place of the drawing
only. -/
theorem of_sameLinks (h : Illustrated most shared sheet drawing) (hsheet : sheet.SameLinks sheet')
    (hdrawing : drawing'.map (·.path) = drawing.map (·.path)) :
    Illustrated most shared sheet' drawing' := by
  obtain ⟨f, hf, hlinks⟩ := hsheet.links
  have hparts : sheet'.parts = sheet.parts := by rw [Worksheet.parts, hsheet.path]; rfl
  have hold : ∀ d' ∈ drawing', ∃ d ∈ drawing, d.path = d'.path := by
    intro d' hd'
    rw [show drawing' = some d' from hd', Option.map_some] at hdrawing
    obtain ⟨d, hd, hpath⟩ := Option.map_eq_some_iff.1 hdrawing.symm
    exact ⟨d, hd, hpath⟩
  -- Only links to pages are filled in, so every other relationship still leads where it led.
  have hleads : ∀ {rel : Element} {part : String}, Relationships.hasType "hyperlink" rel = false →
      (LeadsTo sheet'.path (f rel) part ↔ LeadsTo sheet.path rel part) := by
    intro rel part hrel
    rw [LeadsTo, LeadsTo, hsheet.path, hf rel hrel]
  have htype : ∀ {rel : Element}, Relationships.hasType "hyperlink" rel = false →
      Relationships.hasType "hyperlink" (f rel) = false := by
    intro rel hrel
    rw [Relationships.hasType, hf rel hrel]
    exact hrel
  -- One condition after the other, each for what the changed sheet had before.
  refine ⟨fun hnone => ?_, ?_, fun d' hd' => ?_, fun d' hd' => ?_, fun d' hd' part hpart => ?_,
    fun id hid rel' hrel' => ?_⟩
  · rw [hnone, Option.map_none, eq_comm, Option.map_eq_none_iff] at hdrawing
    rw [hsheet.drawings]
    exact h.undrawn hdrawing
  · rw [hsheet.drawings]
    exact h.most
  · obtain ⟨d, hd, hpath⟩ := hold d' hd'
    obtain ⟨id, rel, hid, hrel, hplain, hlead⟩ := h.link d hd
    refine ⟨id, f rel, ?_, by rw [hlinks, hrel]; rfl, htype hplain,
      (hleads hplain).2 (hpath ▸ hlead)⟩
    rw [Worksheet.drawingId?_eq, hsheet.drawings, ← Worksheet.drawingId?_eq]
    exact hid
  · obtain ⟨d, hd, hpath⟩ := hold d' hd'
    rw [← hpath]
    exact h.folder d hd
  · obtain ⟨d, hd, hpath⟩ := hold d' hd'
    rw [hparts]
    rw [Drawing.parts, ← hpath] at hpart
    exact h.apart d hd part hpart
  · rw [hsheet.tables] at hid
    rw [Option.mem_def, hlinks] at hrel'
    obtain ⟨rel, hrel, rfl⟩ := Option.map_eq_some_iff.1 hrel'
    obtain ⟨hplain, hapart⟩ := h.tables id hid rel hrel
    rw [hparts]
    exact ⟨htype hplain, fun part hlead => hapart part ((hleads hplain).1 hlead)⟩

/-- A sheet that refers to no drawing is given one. -/
theorem create {package : Package} {types types' : ContentTypes} {d : Drawing}
    (h : Illustrated most shared sheet none) (hmost : 1 ≤ most)
    (hlast : ∀ rels ∈ sheet.rels, rels.lastId < max32)
    (hshared : ∀ name ∈ shared, PartPath.begins "xl/drawings/" name = false)
    (hplace : sheet.InPlace)
    (hcreate : Drawing.create package sheet types = .ok (d, sheet', types')) :
    Illustrated most shared sheet' (some d) := by
  obtain ⟨rels, rels', id, hrels, hadd, rfl, rfl, -⟩ := Drawing.create_eq_ok hcreate
  have hplain := plain_newFile package
  -- The sheet had no drawing element, so the new one is the only one.
  have hids : (Worksheet.attachDrawing { sheet with rels := some rels' } id).drawingIds =
      [some id] := by
    have hnone := List.map_eq_nil_iff.1 (h.undrawn rfl)
    unfold Worksheet.drawingIds Worksheet.attachDrawing Worksheet.mapRoot
    dsimp only
    obtain ⟨before, after, helements, hinsert⟩ := Element.elements_insert sheet.doc.root
      { name := "drawing", attributes := [("r:id", id)] }
      ((sheet.doc.root.children.findIdx? (·.isElement
        (Worksheet.afterDrawing.contains ·.name))).getD sheet.doc.root.children.length)
    rw [Element.named, helements, List.filter_append, List.append_eq_nil_iff] at hnone
    rw [Element.named, hinsert, List.filter_append, hnone.1, List.filter_cons, hnone.2]
    rfl
  have htables : (Worksheet.attachDrawing { sheet with rels := some rels' } id).tableIds =
      sheet.tableIds := by
    unfold Worksheet.tableIds Worksheet.attachDrawing Worksheet.mapRoot
    dsimp only
    rw [Element.child?_insert_of_ne _ _ (show ("drawing" : String) ≠ "tableParts" by decide)]
  have hlink : ∀ other, (Worksheet.attachDrawing { sheet with rels := some rels' } id).link? other =
      rels'.get? other := fun _ => rfl
  have hold : ∀ other, sheet.link? other = rels.get? other := fun other => by
    rw [Worksheet.link?, hrels]
    rfl
  -- The relationship of the drawing is none to a page, and leads from a sheet in its place to the
  -- new drawing.
  have hnew : ∀ {rel : Element}, rel.attr? "Type" = some Relationships.drawingType →
      Relationships.hasType "hyperlink" rel = false := by
    intro rel htype
    rw [Relationships.hasType, htype]
    decide
  have hlead : ∀ {rel : Element},
      rel.attr? "Target" = some ("../drawings/" ++ Drawing.newFile package) →
      LeadsTo sheet.path rel ("xl/drawings/" ++ Drawing.newFile package) := fun htarget =>
    (leadsTo_iff plain_drawings ⟨_, hplain, rfl, htarget⟩ sheet.path).2 hplace.folder
  -- What begins with the folder of drawings is neither a part of the sheet nor a picture.
  have hapart : ∀ part, PartPath.begins "xl/drawings/" part = true →
      part ∉ sheet.parts ∧ Package.isPicture part = false := by
    intro part hpart
    refine ⟨fun hmem => PartPath.ne_of_begins hpart (hplace.begins_parts part hmem) (by decide)
      (by decide) rfl, Bool.eq_false_iff.2 fun hpicture => ?_⟩
    exact PartPath.ne_of_begins hpart hpicture (by decide) (by decide) rfl
  refine ⟨fun h => absurd h (Option.some_ne_none _), ?_, fun d hd => ?_, fun d hd => ?_,
    fun d hd part hpart => ?_,
    fun other hother rel hrel => ?_⟩
  · rw [hids]
    exact hmost
  · cases hd
    obtain ⟨rel, hrel, htype, htarget⟩ := Relationships.get?_of_add_self hadd (hlast rels hrels)
    refine ⟨id, rel, ?_, hrel, hnew htype, hlead htarget⟩
    rw [Worksheet.drawingId?_eq, hids]
    rfl
  · cases hd
    exact isInFolderOfXl_drawings hplain
  · cases hd
    have hnew := Drawing.begins_parts_new rfl part hpart
    refine ⟨fun hmem => (List.mem_append.1 hmem).elim (hapart part hnew).1 fun hmem => ?_,
      (hapart part hnew).2⟩
    rw [hshared part hmem] at hnew
    cases hnew
  · rw [htables] at hother
    rcases Relationships.eq_of_get?_of_add hadd hrel with hrel | ⟨htype, htarget⟩
    · exact h.tables other hother rel ((hold other).trans hrel)
    · refine ⟨hnew htype, fun part hpart => ?_⟩
      have hsame : some part = some _ := hpart.symm.trans (hlead htarget)
      cases hsame
      exact hapart _ (PartPath.begins_append ..)

end Illustrated

/-! ### A pass -/

namespace Package

/-- A name is not contained if it is not among the names. -/
theorem not_contains {p : Package} {name : String} :
    (!p.contains name) = true ↔ name ∉ p.names := by
  simp only [contains, names, Bool.not_eq_true', List.any_eq_false, beq_iff_eq, List.mem_map,
    not_exists, not_and]

/-- Parts that are stored leave all others as they are. -/
theorem get?_store_of_not_mem {p : Package} {parts : List (String × ByteArray)} {name : String}
    (h : name ∉ parts.map Prod.fst) : (p.store parts).get? name = p.get? name := by
  induction parts generalizing p with
  | nil => rfl
  | cons part parts ih =>
    obtain ⟨hne, hrest⟩ := not_or.1 (List.mem_cons.not.1 h)
    rw [store, List.foldl_cons, ← store, ih hrest, get?_set_of_ne _ hne]

/-- The part that is stored last under a name stands under it. -/
theorem get?_store (p : Package) (before : List (String × ByteArray)) {name : String}
    (bytes : ByteArray) {after : List (String × ByteArray)} (h : name ∉ after.map Prod.fst) :
    (p.store (before ++ (name, bytes) :: after)).get? name = some bytes := by
  rw [store_append]
  exact (get?_store_of_not_mem h).trans (get?_set_self ..)

end Package

namespace Fill.Pass

variable {most : Nat} {shared : List String} {p p' : Pass} {old : List (String × ByteArray)}
    {before : Package}

/-- No change moves the sheet to another place. -/
private theorem inPlace_of_change (hchange : Change p p') (h : p.sheet.InPlace) :
    p'.sheet.InPlace := by
  cases hchange with
  | drawing hnone hsheet hcreate =>
    obtain ⟨_, _, _, -, -, -, rfl, -⟩ := Drawing.create_eq_ok hcreate
    obtain ⟨file, hfile, hpath⟩ := h
    refine ⟨file, hfile, Eq.trans ?_ hpath⟩
    rw [(Worksheet.withRels?_eq_some hsheet).2.1]
    rfl
  | _ => exact h

/-- Whether no link of the sheet or of its drawing has an id with the last number. -/
def leavesIds (p : Pass) : Bool :=
  (p.sheet.rels.toList ++ (p.drawing.map (·.rels)).toList).all (·.lastId < max32)

/-- Ids are left if there are some in the relationships of the sheet and of the drawing. -/
theorem leavesIds_iff : p.leavesIds = true ↔ (∀ rels ∈ p.sheet.rels, rels.lastId < max32) ∧
    ∀ d ∈ p.drawing, d.rels.lastId < max32 := by
  simp [leavesIds]

/-- Links are only added, so their ids leave numbers before a change if they do after it. -/
private theorem leavesIds_of_change (hchange : Change p p') (h : p'.leavesIds = true) :
    p.leavesIds = true := by
  cases hchange with
  | text | extendTables | skip | rows | shiftRight | shiftDown => exact h
  | drawing hnone hsheet hcreate =>
    obtain ⟨rels, rels', id, hrels, hadd, rfl, rfl, -⟩ := Drawing.create_eq_ok hcreate
    have hnew := (leavesIds_iff.1 h).1 rels' rfl
    -- The last id only grows: what is left after the drawing was linked was left before.
    refine leavesIds_iff.2 ⟨fun old hold => ?_, fun d hd => by cases hnone.symm.trans hd⟩
    rcases (Worksheet.withRels?_eq_some hsheet).2.2 with hsame | ⟨hbefore, -⟩
    · rw [hsame, hold] at hrels
      cases hrels
      exact Nat.lt_of_le_of_lt (Relationships.lastId_le_of_add hadd) hnew
    · cases hbefore.symm.trans hold
  | picture picture col row extent hdrawing hlink =>
    obtain ⟨rels, hadd, rfl⟩ := Drawing.link_eq_ok hlink
    obtain ⟨hsheet, hnew⟩ := leavesIds_iff.1 h
    refine leavesIds_iff.2 ⟨hsheet, fun d hd => ?_⟩
    cases hdrawing.symm.trans hd
    exact Nat.lt_of_le_of_lt (Relationships.lastId_le_of_add hadd) (hnew _ rfl)
  | moveAnchors row rows sameLine limit =>
    obtain ⟨hsheet, hmoved⟩ := leavesIds_iff.1 h
    exact leavesIds_iff.2 ⟨hsheet, fun d hd =>
      hmoved (d.moveAnchors row rows sameLine limit) (Option.mem_map_of_mem _ hd)⟩

/-- Every change keeps the sheet with the drawing that it shows, as long as there are numbers for
the ids of links. -/
theorem illustrated_of_change (hchange : Change p p') (hmost : 1 ≤ most)
    (hshared : ∀ name ∈ shared, PartPath.begins "xl/drawings/" name = false)
    (hplace : p.sheet.InPlace) (hids : p'.leavesIds = true)
    (h : Illustrated most shared p.sheet p.drawing) :
    Illustrated most shared p'.sheet p'.drawing := by
  cases hchange with
  | text | extendTables | skip | rows => exact h
  | shiftRight anchor cols => exact h.of_sameLinks (.shiftRight ..) rfl
  | shiftDown shift => exact h.of_sameLinks (.shiftDown ..) rfl
  | @drawing sheet sheet' types drawing hnone hsheet hcreate =>
    rw [hnone] at h
    -- The sheet may have begun its relationships, which changes none of its links.
    refine (h.of_sameLinks (.of_withRels? hsheet) rfl).create hmost
      (fun rels hrels => ?_) hshared ?_ hcreate
    · obtain ⟨rels₁, rels', id, hrels', hadd, rfl, rfl, -⟩ := Drawing.create_eq_ok hcreate
      cases hrels'.symm.trans hrels
      exact Nat.lt_of_le_of_lt (Relationships.lastId_le_of_add hadd)
        ((leavesIds_iff.1 hids).1 rels' rfl)
    · obtain ⟨file, hfile, hpath⟩ := hplace
      exact ⟨file, hfile, by rw [(Worksheet.withRels?_eq_some hsheet).2.1]; exact hpath⟩
  | picture picture col row extent hdrawing hlink =>
    obtain ⟨rels, -, rfl⟩ := Drawing.link_eq_ok hlink
    exact h.of_sameLinks (.refl _) (by rw [hdrawing]; rfl)
  | moveAnchors =>
    refine h.of_sameLinks (.refl _) ?_
    rw [Option.map_map]
    rfl

/-- The pictures that are shown: some that were before, and all that the package has got since. -/
def Pictured (old : List (String × ByteArray)) (before : Package) (p : Pass) : Prop :=
  ∀ picture, picture ∈ old ∨ picture ∈ p.package.entries ∧ picture.1 ∉ before.names →
    Package.isPicture picture.1 = true ∧ ∃ d ∈ p.drawing, d.Shows p.package picture

/-- Parts are stored and never removed. -/
private theorem names_subset_of_change (hchange : Change p p') :
    p.package.names ⊆ p'.package.names := by
  cases hchange with
  | picture => exact fun name hname => Package.mem_names_set.2 (.inr hname)
  | _ => exact List.Subset.refl _

/-- Every change keeps the pictures that are shown and shows those that it stores, as long as there
are numbers for them and for the ids of their links. -/
theorem Pictured.change (hchange : Change p p') (hdraws : Illustrated most shared p.sheet p.drawing)
    (hids : p'.leavesIds = true)
    (hnumbers : p'.package.lastIndex "xl/media/image" < max32) (h : p.Pictured old before) :
    p'.Pictured old before := by
  intro picture hpicture
  cases hchange with
  | text | extendTables | skip | rows | shiftRight | shiftDown => exact h picture hpicture
  | drawing hnone hsheet hcreate =>
    obtain ⟨-, d, hd, -⟩ := h picture hpicture
    -- Without a drawing there was no picture yet.
    rw [hnone] at hd
    cases hd
  | moveAnchors row rows sameLine limit =>
    obtain ⟨hname, d, hd, hshows⟩ := h picture hpicture
    exact ⟨hname, _, Option.mem_map_of_mem _ hd, hshows.moveAnchors row rows sameLine limit⟩
  | @picture drawing linked id image col row extent hdrawing hlink =>
    obtain ⟨rels, hadd, rfl⟩ := Drawing.link_eq_ok hlink
    -- The name of the new picture is not taken, so that no picture stored before is overwritten.
    have hfresh : "xl/media/" ++ Drawing.pictureFile p.package image ∉ p.package.names :=
      Drawing.pictureFile_not_mem image (Nat.lt_of_le_of_lt (Package.lastIndex_mono
        (names_subset_of_change (Change.picture image col row extent hdrawing hlink)) _) hnumbers)
    have hlast : drawing.rels.lastId < max32 :=
      Nat.lt_of_le_of_lt (Relationships.lastId_le_of_add hadd) ((leavesIds_iff.1 hids).2 _ rfl)
    dsimp only at hpicture ⊢
    rw [Package.entries_set_of_not_mem hfresh, List.mem_append, List.mem_singleton] at hpicture
    -- The picture of this step is shown by the anchor that is added, the others by those they had.
    by_cases hnew : picture = ("xl/media/" ++ Drawing.pictureFile p.package image, image.bytes)
    · subst hnew
      refine ⟨isPicture_pictureFile p.package image, _, rfl, ?_⟩
      exact Drawing.Shows.addPicture hadd hlast (hdraws.folder drawing hdrawing)
        (plain_pictureFile p.package image) (Package.get?_set_self ..) col row extent
    · obtain ⟨hname, d, hd, hshows⟩ :=
        h picture (hpicture.imp_right fun hentry => ⟨hentry.1.resolve_right hnew, hentry.2⟩)
      cases hdrawing.symm.trans hd
      refine ⟨hname, _, rfl, hshows.of_addPicture hadd
        (Package.get?_set_of_ne _ ?_ _) col row extent⟩
      exact fun heq => hfresh (heq ▸ hshows.mem_names)

/-- The pictures that a pass embeds: the parts that it adds to the package while it fills rows. -/
def embedded (options : FillOptions) (files : ImageFiles) (values : Substitutions) (p : Pass) :
    List (String × ByteArray) :=
  match fillSourceRows (p.givenFor options files values) 0 p.withoutRows
      (sourceRows p.sheet.doc.root) with
  | .ok r => r.package.entries.filter fun part => !p.package.contains part.1
  | .error _ => []

/-- What a pass keeps and adds until all rows are filled. -/
theorem pictured_of_fill {options : FillOptions} {files : ImageFiles} {values : Substitutions}
    {r : Pass} (h : fillSourceRows (p.givenFor options files values) 0 p.withoutRows
      (sourceRows p.sheet.doc.root) = .ok r) (hmost : 1 ≤ most)
    (hshared : ∀ name ∈ shared, PartPath.begins "xl/drawings/" name = false)
    (hplace : p.sheet.InPlace) (hdraws : Illustrated most shared p.sheet p.drawing)
    (hold : ∀ picture ∈ old, Package.isPicture picture.1 = true ∧
      ∃ d ∈ p.drawing, d.Shows p.package picture)
    (hids : r.leavesIds = true) (hnumbers : r.package.lastIndex "xl/media/image" < max32) :
    Illustrated most shared r.sheet r.drawing ∧
      ∀ picture ∈ old ++ p.embedded options files values,
        Package.isPicture picture.1 = true ∧ ∃ d ∈ r.drawing, d.Shows r.package picture := by
  have hkept : r.sheet.InPlace ∧ (r.leavesIds = true → Illustrated most shared r.sheet r.drawing) ∧
      (r.leavesIds = true → r.package.lastIndex "xl/media/image" < max32 →
        r.Pictured old p.package) := by
    -- Numbers that are left at the end were left all the way.
    refine (changes_of_fillSourceRows h).keep
      (I := fun r => r.sheet.InPlace ∧
        (r.leavesIds = true → Illustrated most shared r.sheet r.drawing) ∧
        (r.leavesIds = true → r.package.lastIndex "xl/media/image" < max32 →
          r.Pictured old p.package))
      (fun r r' hchange hr => ?_) ⟨hplace, fun _ => ?_, fun _ _ picture hpicture => ?_⟩
    · obtain ⟨hplace, hdraws, hpictured⟩ := hr
      refine ⟨inPlace_of_change hchange hplace, fun hids => illustrated_of_change hchange hmost
        hshared hplace hids (hdraws (leavesIds_of_change hchange hids)), fun hids hnumbers => ?_⟩
      have hbefore := leavesIds_of_change hchange hids
      exact Pictured.change hchange (hdraws hbefore) hids hnumbers (hpictured hbefore
        (Nat.lt_of_le_of_lt (Package.lastIndex_mono (names_subset_of_change hchange) _) hnumbers))
    · exact hdraws.of_sameLinks (.mapChild _ (fun _ => rfl) (by decide) (by decide)) rfl
    · rcases hpicture with hmem | ⟨hentry, hnew⟩
      · exact hold picture hmem
      · exact absurd (List.mem_map_of_mem hentry) hnew
  -- Of the pictures at the end those of before are shown by assumption, and the others were stored
  -- on the way.
  refine ⟨hkept.2.1 hids, fun picture hpicture => hkept.2.2 hids hnumbers picture ?_⟩
  refine (List.mem_append.1 hpicture).imp_right fun hmem => ?_
  rw [embedded, h] at hmem
  obtain ⟨hentry, hnew⟩ := List.mem_filter.1 hmem
  exact ⟨hentry, Package.not_contains.1 hnew⟩

/-- What concerns the sheet as a whole keeps what the sheet links. -/
private theorem sameLinks_finishSheet (p : Pass) (given : Given) :
    p.sheet.SameLinks (p.finishSheet given).sheet := by
  -- Rows, dimension, cached values and links: none of them concerns the drawing or the tables.
  have hrows := Worksheet.SameLinks.mapChild p.sheet (n := "sheetData")
    (f := (·.pushAll p.rows.toList)) (fun _ => rfl) (by decide) (by decide)
  have hdimension : ∀ w : Worksheet,
      w.SameLinks (w.mapRoot (extendDimension p.maxColsInserted p.rowsInserted)) := by
    intro w
    unfold extendDimension
    split
    · exact .refl w
    · exact .mapChild w (fun c => Layout.name_moveRef _ c) (by decide) (by decide)
  have hcached := fun w : Worksheet => Worksheet.SameLinks.mapChild w (n := "sheetData")
    (f := (·.mapNamed "row" (·.mapNamed "c" dropCached))) (fun _ => rfl) (by decide) (by decide)
  exact ((hrows.trans (hdimension _)).trans (hcached _)).trans (.fillLinks given.values _)

/-- Filling links leaves their ids. -/
private theorem leavesIds_finishSheet (p : Pass) (given : Given) :
    (p.finishSheet given).leavesIds = p.leavesIds := by
  have hrels : (p.finishSheet given).sheet.rels = p.sheet.rels.map fun rels =>
      rels.mapRoot (·.mapNamed "Relationship" (fillLink given.values)) := rfl
  -- Filling a link leaves its id, from which the number is read.
  have hlast : ∀ rels : Relationships, (rels.mapRoot
      (·.mapNamed "Relationship" (fillLink given.values))).lastId = rels.lastId := by
    intro rels
    rw [Relationships.lastId, Relationships.toList, Relationships.mapRoot,
      Element.named_mapNamed _ _ name_fillLink, List.filterMap_map]
    have hnumber : Relationships.ownNumber? ∘ fillLink given.values = Relationships.ownNumber? :=
      funext fun rel => by
        rw [Function.comp_apply, Relationships.ownNumber?,
          Worksheet.SameLinks.attr?_fillLink_id, Relationships.ownNumber?]
    rw [hnumber]
    rfl
  have hdrawing : (p.finishSheet given).drawing = p.drawing := rfl
  rw [Bool.eq_iff_iff, leavesIds_iff, leavesIds_iff, hrels, hdrawing]
  simp [hlast]

/-- None of the parts that a pass writes is a picture. -/
private theorem isPicture_ownParts {sheet : Worksheet} {drawing : Option Drawing}
    (h : Illustrated most shared sheet drawing) (hplace : p.sheet.InPlace)
    (htables : ∀ t ∈ p.tables, Package.isPicture t.path = false) {name : String}
    (hname : name ∈ p.ownParts drawing) : Package.isPicture name = false := by
  have hsheet : ∀ part ∈ p.sheet.parts, Package.isPicture part = false := fun part hpart =>
    Bool.eq_false_iff.2 fun hpicture => PartPath.ne_of_begins (hplace.begins_parts part hpart)
      hpicture (by decide) (by decide) rfl
  -- The sheet, its relationships, its tables and its drawing: none has the name of a picture.
  rcases List.mem_append.1 hname with hname | hname
  · rcases List.mem_cons.1 hname with rfl | hname
    · exact hsheet _ (by simp [Worksheet.parts])
    · rcases List.mem_cons.1 hname with rfl | hname
      · exact hsheet _ (by simp [Worksheet.parts])
      · obtain ⟨t, ht, rfl⟩ := List.mem_map.1 hname
        exact htables t ht
  · cases hdrawing : drawing with
    | none =>
      rw [hdrawing] at hname
      cases hname
    | some d =>
      rw [hdrawing] at hname
      exact (h.apart d hdrawing name hname).2

/-- A pass writes its own parts, none of which is a picture. -/
private theorem get?_save_of_picture {r : Pass} {name : String}
    (h : ∀ part ∈ r.savedParts, Package.isPicture part.1 = false)
    (hname : Package.isPicture name = true) : r.save.package.get? name = r.package.get? name := by
  rw [save_eq_store]
  exact Package.get?_store_of_not_mem fun hmem => by
    obtain ⟨part, hpart, rfl⟩ := List.mem_map.1 hmem
    rw [h part hpart] at hname
    cases hname

/-- Parts stay where they were throughout a pass. -/
theorem located_of_run {options : FillOptions} {files : ImageFiles} {values : Substitutions}
    {q : Pass} (hlocated : Located p p) (h : p.run options files values = .ok q) :
    Located p q := by
  obtain ⟨r, -, rfl, -, hr⟩ := stored_of_run hlocated h
  exact ⟨hr.sheet, hr.rels, hr.tables, hr.drawing, hr.drawingRels⟩

/-- What a pass leaves of a sheet with its drawing, and the pictures that it has stored. -/
theorem pictured_of_run {options : FillOptions} {files : ImageFiles} {values : Substitutions}
    {q : Pass} (h : p.run options files values = .ok q) (hlocated : Located p p) (hmost : 1 ≤ most)
    (hshared : ∀ name ∈ shared, PartPath.begins "xl/drawings/" name = false)
    (hplace : p.sheet.InPlace) (hdraws : Illustrated most shared p.sheet p.drawing)
    (htables : ∀ t ∈ p.tables, Package.isPicture t.path = false)
    (hold : ∀ picture ∈ old, Package.isPicture picture.1 = true ∧
      ∃ d ∈ p.drawing, d.Shows p.package picture)
    (hids : q.leavesIds = true) (hnumbers : q.package.lastIndex "xl/media/image" < max32) :
    Illustrated most shared q.sheet q.drawing ∧
      ∀ picture ∈ old ++ p.embedded options files values,
        Package.isPicture picture.1 = true ∧ ∃ d ∈ q.drawing, d.Shows q.package picture := by
  have hplaces := located_of_run hlocated h
  obtain ⟨r, hfill, rfl⟩ := run_eq_ok h
  have hnames : r.package.names ⊆
      (r.finishSheet (p.givenFor options files values)).save.package.names := by
    obtain ⟨added, hadded, -⟩ := Package.names_store r.package
      (r.finishSheet (p.givenFor options files values)).savedParts
    rw [save_eq_store]
    exact hadded ▸ List.subset_append_left ..
  have hidsFilled := hids
  rw [show (r.finishSheet _).save.leavesIds = (r.finishSheet _).leavesIds from rfl,
    leavesIds_finishSheet] at hidsFilled
  obtain ⟨hfinal, hpictures⟩ := pictured_of_fill hfill hmost hshared hplace hdraws hold hidsFilled
    (Nat.lt_of_le_of_lt (Package.lastIndex_mono hnames _) hnumbers)
  -- Saving writes the parts of the pass over the package; none of them is a picture, so the
  -- pictures stay.
  have hown : ∀ part ∈ (r.finishSheet (p.givenFor options files values)).savedParts,
      Package.isPicture part.1 = false := fun part hpart =>
    isPicture_ownParts hfinal hplace htables (hplaces.savedParts part hpart)
  refine ⟨hfinal.of_sameLinks (sameLinks_finishSheet r _) rfl, fun picture hpicture => ?_⟩
  obtain ⟨hname, d, hd, hshows⟩ := hpictures picture hpicture
  exact ⟨hname, d, hd, hshows.congr (get?_save_of_picture hown hname)⟩

end Fill.Pass

end SheetTemplate
