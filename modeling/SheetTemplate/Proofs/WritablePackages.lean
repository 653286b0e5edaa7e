import SheetTemplate.Proofs.ReopenedSession
import SheetTemplate.Proofs.SessionPasses
import SheetTemplate.Proofs.WritableSheets

/-!
# Packages that can be written

All markup that a pass writes uses names of XML, in the sheet and in the parts that go with it. So a
package that uses names of XML does so after a pass, and every part of it can be read and written
again.

The bytes of pictures are stored as they are given. The header of some formats may be followed by
tags, and such a picture is markup too; so of pictures nothing is said.

## Key results

- `Pass.Change.writable`: what every change of a pass keeps
- `writable_of_fill`: the package that a pass leaves
-/

namespace SheetTemplate

open Fill (Pass)
open Xml (Document Element Node NamedTag IsName TidyEdit)

/-! ### Packages -/

namespace Package

/-- A package in which every part that is markup can be written. -/
def Writable (p : Package) : Prop := ∀ name d, p.requireXml name = .ok d → d.Writable

/-- Whether a part has a name that a pass gives to pictures. -/
def isPicture (name : String) : Bool := "xl/media/image".toList.isPrefixOf name.toList

/-- A name with a number of a picture is the name of a picture. -/
theorem isPicture_of_fileIndex? {name : String}
    (h : (fileIndex? "xl/media/image" name).isSome = true) : isPicture name = true := by
  obtain ⟨n, hn⟩ := Option.isSome_iff_exists.1 h
  obtain ⟨rest, hrest, -⟩ := Option.bind_eq_some_iff.1 hn
  rw [isPicture, List.isPrefixOf_iff_prefix, Text.after?_eq_some hrest]
  exact List.prefix_append ..

/-- A package in which pictures that are markup use names of XML. -/
def PicturesUseNames (p : Package) : Prop :=
  ∀ name d, isPicture name = true → p.requireXml name = .ok d → d.root.Named

/-- A package in which every part that is markup and not a picture can be written. -/
def WritableBeside (p : Package) : Prop :=
  ∀ name d, p.requireXml name = .ok d → isPicture name = true ∨ d.Writable

namespace WritableBeside

variable {p : Package} (h : p.WritableBeside)

include h

/-- A part that is written from a document can be read. -/
theorem setXml {d : Document} (name : String) (hd : d.Writable) :
    (p.setXml name d).WritableBeside := by
  intro other d' hread
  by_cases hname : other = name
  · subst hname
    rw [Package.setXml, requireXml_of_get? (p.get?_set_self other _) hd] at hread
    cases hread
    exact .inr (Element.writable_tidy _ hd)
  · refine h other d' ?_
    rwa [requireXml, Package.setXml, p.get?_set_of_ne hname] at hread

/-- The bytes of a picture may be anything. -/
theorem setPicture {name : String} (hname : isPicture name = true) (bytes : ByteArray) :
    (p.set name bytes).WritableBeside := by
  intro other d hread
  by_cases hother : other = name
  · exact .inl (hother ▸ hname)
  · refine h other d ?_
    rwa [requireXml, p.get?_set_of_ne hother] at hread

/-- Removing a part leaves the others. -/
theorem remove (name : String) : (p.remove name).WritableBeside := by
  intro other d hread
  by_cases hname : other = name
  · obtain ⟨bytes, hget, -⟩ := requireXml_eq_ok.1 hread
    rw [hname, get?_remove_self] at hget
    cases hget
  · refine h other d ?_
    rwa [requireXml, p.get?_remove_of_ne hname] at hread

end WritableBeside

end Package

/-! ### Parts of a sheet -/

/-- An element made of children is writable by its tag and by them. -/
theorem Xml.Element.writable_ofChildren_iff {name : String} {attributes : List (String × String)}
    {children : List Element} : (ofChildren name attributes children).Writable ↔
      (IsName name ∧ (∀ key ∈ attributes.map Prod.fst, IsName key) ∧
        (attributes.map Prod.fst).Nodup) ∧ ∀ c ∈ children, c.Writable := by
  rw [ofChildren, Element.writable_iff, Node.allWritable_iff, List.forall_mem_map]
  refine and_congr_left fun _ => ⟨fun h => ⟨h.name, List.forall_mem_map.2 h.keys, h.distinct⟩, ?_⟩
  rintro ⟨hname, hkeys, hdistinct⟩
  exact ⟨hname, List.forall_mem_map.1 hkeys, hdistinct⟩

/-- An element made of a text is writable by its name. -/
theorem Xml.Element.writable_ofText_iff {name t : String} :
    (ofText name t).Writable ↔ IsName name := ⟨fun h => h.1.name, fun h => writable_ofText h t⟩

namespace Relationships

/-- A list of relationships that is begun is writable. -/
theorem writable_empty (path : String) : (empty path).doc.Writable :=
  Element.writable_of_namedTag (.of_keys ["xmlns"] rfl (by decide) (by decide) (by decide))

/-- So is one to which a relationship is added. -/
theorem writable_add {r r' : Relationships} {type target id : String}
    (h : r.add type target = .ok (r', id)) (hr : r.doc.Writable) : r'.doc.Writable := by
  obtain ⟨-, rfl⟩ := add_eq_ok h
  exact (TidyEdit.push (Element.writable_of_namedTag (.of_keys ["Id", "Type", "Target"] rfl
    (by decide) (by decide) (by decide)))).writable _ hr

end Relationships

/-- The range of a table stands in attributes with names. -/
theorem Table.writable_setRange {t : Table} (h : t.doc.Writable) (range : RangeRef) :
    (t.setRange range).doc.Writable :=
  (TidyEdit.setAttr (by decide) _).writable _
    ((TidyEdit.mapChild (.setAttr (by decide) _) _).writable _ h)

namespace Drawing

/-- A drawing that is begun is writable. -/
theorem writable_empty (path : String) : (empty path).doc.Writable :=
  Element.writable_of_namedTag (.of_keys ["xmlns:xdr", "xmlns:a"] rfl (by decide) (by decide)
    (by decide))

/-- A name with the namespace of the root is a name. -/
private theorem isName_qualified {d : Drawing} (h : IsName d.doc.root.name) {name : String}
    (hname : IsName name) : IsName (d.qualified name) := by
  unfold qualified
  -- A prefix of the root goes before the name: it begins as the root does, and goes on with
  -- characters of names.
  split
  · exact hname
  · exact hname
  · rename_i q after hempty hcut
    obtain ⟨c, r, hroot, hc, hr⟩ := h
    obtain ⟨start, rest, hchars, hstart, hrest⟩ := hname
    have hsplit := hroot ▸ (Text.cutFirst?_eq_some hcut).1
    cases q with
    | nil => exact (hempty rfl).elim
    | cons g q =>
      obtain ⟨rfl, rfl⟩ := List.cons.inj hsplit
      refine ⟨c, q ++ ':' :: start :: rest, ?_, hc, fun x hx => ?_⟩
      · simp [String.toList_append, hchars]
      · rcases List.mem_append.1 hx with hx | hx
        · exact hr x (List.mem_append_left _ hx)
        · rcases List.mem_cons.1 hx with rfl | hx
          · decide
          · rcases List.mem_cons.1 hx with rfl | hx
            · exact Xml.isNameChar_of_isNameStart hstart
            · exact hrest x hx

/-- So the anchor of a picture is writable. -/
private theorem writable_pictureAnchor {d : Drawing} (h : IsName d.doc.root.name)
    (shapeId col row : Nat) (extent : Image.Extent) (link : String) :
    (d.pictureAnchor shapeId col row extent link).Writable := by
  have hq : ∀ {name : String}, IsName name → IsName (d.qualified name) := isName_qualified h
  simp +decide [pictureAnchor, Xml.Element.writable_ofChildren_iff, Xml.Element.writable_ofText_iff,
    hq]

/-- So is the drawing with the picture. -/
theorem writable_addPicture {d : Drawing} (h : d.doc.Writable) (col row : Nat)
    (extent : Image.Extent) (link : String) : (d.addPicture col row extent link).doc.Writable :=
  (TidyEdit.push (writable_pictureAnchor (Element.writable_iff.1 h).1.name _ _ _ _ _)).writable _ h

/-- A marker that moves has a new text. -/
private theorem writable_moveMarker {anchor : Element} (h : anchor.Writable) (rows : Nat)
    (marker : String) : (moveMarker rows marker anchor).Writable :=
  h.mapFirst _ fun _ hm => hm.mapFirst _ fun row hrow =>
    (TidyEdit.setText (t := fun _ => toString ((rowNumber? row).getD 0 + rows))
      fun _ => rfl).writable row hrow

/-- Nodes of which some anchors move stay writable. -/
private theorem writable_moveNodes {nodes : List Node} (h : ∀ n ∈ nodes, n.Writable)
    (row rows : Nat) (sameLine : Bool) (limit : Nat) :
    ∀ n ∈ moveNodes row rows sameLine limit nodes, n.Writable := by
  -- Along the nodes; the limit counts anchors, so the induction is for all limits.
  induction nodes generalizing limit with
  | nil =>
    unfold moveNodes
    exact h
  | cons n r ih =>
    obtain ⟨hn, hr⟩ := List.forall_mem_cons.1 h
    cases limit with
    | zero => exact h
    | succ limit =>
      unfold moveNodes
      split
      · refine List.forall_mem_cons.2 ⟨?_, ih hr limit⟩
        cases n with
        | element a =>
          show Element.Writable (if beginsBelow row sameLine a then moveAnchor rows a else a)
          split
          · exact writable_moveMarker (writable_moveMarker hn _ _) _ _
          · exact hn
        | text t | cdata t | comment t => exact hn
      · exact List.forall_mem_cons.2 ⟨hn, ih hr _⟩

/-- So does the drawing. -/
theorem writable_moveAnchors {d : Drawing} (h : d.doc.Writable) (row rows : Nat) (sameLine : Bool)
    (limit : Nat) : (d.moveAnchors row rows sameLine limit).doc.Writable :=
  Element.writable_iff.2 ⟨(Element.writable_iff.1 h).1, Node.allWritable_iff.2
    (writable_moveNodes (Node.allWritable_iff.1 (Element.writable_iff.1 h).2) row rows sameLine
      limit)⟩

end Drawing

/-! ### A pass -/

namespace Fill.Pass

/-- A pass whose parts can be written. -/
structure Writable (p : Pass) : Prop where
  sheet : p.sheet.doc.Writable
  rels : ∀ r ∈ p.sheet.rels, r.doc.Writable
  tables : ∀ t ∈ p.tables, t.doc.Writable
  drawing : ∀ d ∈ p.drawing, d.doc.Writable ∧ d.rels.doc.Writable
  package : p.package.WritableBeside

/-- What a picture is stored as has the name of a picture. -/
theorem isPicture_pictureFile (package : Package) (picture : Image.Picture) :
    Package.isPicture ("xl/media/" ++ Drawing.pictureFile package picture) = true := by
  rw [Package.isPicture, List.isPrefixOf_iff_prefix, Drawing.pictureFile]
  exact ⟨(toString (package.nextIndex "xl/media/image") ++ "." ++ picture.format.extension).toList,
    by simp [String.toList_append]⟩

/-- A table that is extended has a new range. -/
private theorem writable_extendTable {t : Table} (h : t.doc.Writable) (cell : CellRef) :
    (extendTable cell t).doc.Writable := by
  unfold extendTable
  split
  · split
    · exact h
    · exact Table.writable_setRange h _
  · exact h

/-- Every change of a pass keeps its parts as they can be written. -/
theorem Change.keepWritable {p p' : Pass} (h : Change p p') (hp : p.Writable) : p'.Writable := by
  have hsheet := h.writable hp.sheet
  cases h with
  | text | skip | rows => exact ⟨hsheet, hp.rels, hp.tables, hp.drawing, hp.package⟩
  | shiftRight anchor cols => exact ⟨hsheet, hp.rels, hp.tables, hp.drawing, hp.package⟩
  | shiftDown shift =>
    refine ⟨hsheet, hp.rels, List.forall_mem_map.2 fun t ht => ?_, hp.drawing, hp.package⟩
    unfold Layout.RowShift.shiftTable
    split
    · exact hp.tables t ht
    · split
      · exact Table.writable_setRange (hp.tables t ht) _
      · exact hp.tables t ht
  | extendTables inside cell =>
    refine ⟨hsheet, hp.rels, List.forall_mem_map.2 fun pair hpair => ?_, hp.drawing, hp.package⟩
    obtain ⟨t, isParent⟩ := pair
    have ht := hp.tables t (List.of_mem_zip hpair).1
    cases isParent with
    | false => exact ht
    | true => exact writable_extendTable ht cell
  | drawing hnone hwith hcreate =>
    obtain ⟨rels, rels', id, hrels, hadd, rfl, rfl, -⟩ := Drawing.create_eq_ok hcreate
    obtain ⟨-, -, hown⟩ := Worksheet.withRels?_eq_some hwith
    refine ⟨hsheet, fun r hr => ?_, hp.tables, fun d hd => ?_, hp.package⟩
    · cases hr
      refine Relationships.writable_add hadd ?_
      -- The relationships of the sheet are those it had, or were begun for the drawing.
      rcases hown with hsame | ⟨-, hempty⟩
      · exact hp.rels rels (hsame ▸ hrels)
      · rw [hrels] at hempty
        cases hempty
        exact Relationships.writable_empty _
    · cases hd
      exact ⟨Drawing.writable_empty _, Relationships.writable_empty _⟩
  | picture picture col row extent hdrawing hlink =>
    refine ⟨hsheet, hp.rels, hp.tables, fun d hd => ?_,
      hp.package.setPicture (isPicture_pictureFile _ _) _⟩
    cases hd
    obtain ⟨rels, hadd, rfl⟩ := Drawing.link_eq_ok hlink
    obtain ⟨hdoc, hrels⟩ := hp.drawing _ hdrawing
    exact ⟨Drawing.writable_addPicture hdoc .., Relationships.writable_add hadd hrels⟩
  | moveAnchors row rows sameLine limit =>
    refine ⟨hsheet, hp.rels, hp.tables, fun d hd => ?_, hp.package⟩
    obtain ⟨d, hdrawing, rfl⟩ := Option.map_eq_some_iff.1 hd
    exact ⟨Drawing.writable_moveAnchors (hp.drawing d hdrawing).1 .., (hp.drawing d hdrawing).2⟩

/-- A link that is filled in has a new target. -/
private theorem writable_fillLink {rel : Element} (h : rel.Writable) (values : Substitutions) :
    (fillLink values rel).Writable := by
  unfold fillLink
  split
  · split
    · exact (TidyEdit.setAttr (by decide) _).writable _ h
    · exact h
  · exact h

/-- A header that is filled in has a new name, in an attribute. -/
private theorem writable_fillHeader {column : Element} (h : column.Writable)
    (values : Substitutions) : (fillHeader values column).Writable := by
  unfold fillHeader
  split
  · exact (TidyEdit.setAttr (by decide) _).writable _ h
  · exact h

/-- What concerns the sheet as a whole leaves parts that can be written. -/
private theorem finishSheet_writable {p : Pass} (h : p.Writable) {given : Given}
    (hsheet : (p.finishSheet given).sheet.doc.Writable) : (p.finishSheet given).Writable := by
  refine ⟨hsheet, fun r hr => ?_, List.forall_mem_map.2 fun t ht => ?_, h.drawing, h.package⟩
  · obtain ⟨r, hrels, rfl⟩ := Option.map_eq_some_iff.1 hr
    exact Element.Writable.mapNamed (h.rels r hrels) _ fun _ hrel => writable_fillLink hrel _
  · exact Element.Writable.mapChild (h.tables t ht) _ fun _ hcols =>
      hcols.mapNamed _ fun _ hcolumn => writable_fillHeader hcolumn _

/-- Saving a pass writes its parts, all of which are writable. -/
private theorem save_writable {p : Pass} (h : p.Writable) : p.save.package.WritableBeside := by
  have hsaved : (p.sheet.save p.package).WritableBeside := by
    have hdoc := h.package.setXml p.sheet.path h.sheet
    unfold Worksheet.save
    split
    · rename_i rels hrels
      exact hdoc.setXml _ (h.rels rels hrels)
    · exact hdoc
  -- The tables are written one after the other.
  have htabled : ∀ (tables : List Table) (package : Package), (∀ t ∈ tables, t.doc.Writable) →
      package.WritableBeside →
        (tables.foldl (fun package t => t.save package) package).WritableBeside := by
    intro tables
    induction tables with
    | nil => exact fun package _ hpackage => hpackage
    | cons t r ih =>
      intro package ht hpackage
      obtain ⟨ht, hr⟩ := List.forall_mem_cons.1 ht
      exact ih _ hr (hpackage.setXml _ ht)
  have hall := htabled p.tables _ h.tables hsaved
  unfold save
  cases hdrawing : p.drawing with
  | none => exact hall
  | some d =>
    obtain ⟨hdoc, hrels⟩ := h.drawing d hdrawing
    exact (hall.setXml _ hdoc).setXml _ hrels

/-- The parts that a pass leaves can be written. -/
theorem writable_parts_of_run {options : FillOptions} {files : ImageFiles} {values : Substitutions}
    {p q : Pass} (hp : p.Fresh) (hwritable : p.Writable) (h : p.run options files values = .ok q) :
    ∃ r : Pass, q = r.save ∧ r.Writable := by
  have hsheet := writable_of_run hp h hwritable.sheet
  obtain ⟨r, hchanges, rfl⟩ := changes_of_run h
  refine ⟨_, rfl, finishSheet_writable ?_ hsheet⟩
  refine hchanges.keep (I := Writable) (fun _ _ hchange => hchange.keepWritable) ?_
  exact ⟨Element.Writable.mapChild hwritable.sheet _ fun _ hdata => hdata.removeElements,
    hwritable.rels, hwritable.tables, hwritable.drawing, hwritable.package⟩

/-- A pass leaves a package that can be written. -/
theorem writableBeside_of_run {options : FillOptions} {files : ImageFiles} {values : Substitutions}
    {p q : Pass} (hp : p.Fresh) (hwritable : p.Writable) (h : p.run options files values = .ok q) :
    q.package.WritableBeside := by
  obtain ⟨r, rfl, hr⟩ := writable_parts_of_run hp hwritable h
  exact save_writable hr

end Fill.Pass

/-! ### A call -/

namespace Session

variable {options : FillOptions} {files : ImageFiles} {values : Substitutions}

/-- A pass starts with parts that can be written if those parts of the package can that it reads. -/
theorem writable_startPass_of {s : Session} {selector : SheetSelector} {p : Pass}
    {G : String → Prop} (hgood : ∀ name d, G name → s.package.requireXml name = .ok d → d.Writable)
    (hpackage : s.package.WritableBeside) (h : s.startPass selector = .ok p)
    (hsheet : G p.sheet.path ∧ G (PartPath.relationshipsOf p.sheet.path))
    (htables : ∀ t ∈ p.tables, G t.path)
    (hdrawing : ∀ d ∈ p.drawing, G d.path ∧ G (PartPath.relationshipsOf d.path)) :
    p.Writable := by
  obtain ⟨info, sheet, tables, drawing, -, hread, hreadTables, hreadDrawing, rfl⟩ :=
    startPass_eq_ok h
  refine ⟨hgood _ _ hsheet.1 (Worksheet.load_eq_ok hread).2.1, fun r hr => ?_,
    fun t ht => hgood _ _ (htables t ht) (Table.requireXml_of_loadAll hreadTables ht),
    fun d hd => ?_, hpackage⟩
  · obtain ⟨hpath, hdoc⟩ := Relationships.load?_eq_some.1 (Worksheet.load?_rels hread hr)
    exact hgood _ _ hsheet.2 hdoc
  · obtain ⟨hpath, hrelsPath⟩ := hdrawing d hd
    cases hd
    obtain ⟨hdoc, hrels, hreadRels⟩ := Drawing.load?_eq_some hreadDrawing
    refine ⟨hgood _ _ hpath hdoc, ?_⟩
    rcases hreadRels with hreadRels | ⟨-, hempty⟩
    · exact hgood _ _ (hrels ▸ hrelsPath) hreadRels
    · rw [hempty]
      exact Relationships.writable_empty _

/-- A pass starts with parts that can be written if those of the package can. -/
theorem writable_startPass {s : Session} {selector : SheetSelector} {p : Pass}
    (hs : s.package.Writable) (h : s.startPass selector = .ok p) : p.Writable :=
  writable_startPass_of (G := fun _ => True) (fun name d _ => hs name d)
    (fun name d hread => .inr (hs name d hread)) h ⟨trivial, trivial⟩ (fun _ _ => trivial)
    fun _ _ => ⟨trivial, trivial⟩

/-- The workbook, its relationships and the content types are written, and all else stays. -/
private theorem writableBeside_saved {w : Workbook} {types : ContentTypes} (hw : w.Alike w)
    (hpath : w.rels.path = PartPath.relationshipsOf w.path) (htypes : types.doc.Writable)
    {p : Package} (h : p.WritableBeside) : (types.save (w.save p)).WritableBeside := by
  obtain ⟨hworkbook, hlinks, hlisted, hothers⟩ := get?_saved
    (hpath ▸ PartPath.relationshipsOf_ne_contentTypes _)
    (hpath ▸ (PartPath.relationshipsOf_ne _).symm) p types
  intro name d hread
  have hwritten : ∀ {doc : Document}, (types.save (w.save p)).get? name = some doc.toBytes →
      doc.Writable → Package.isPicture name = true ∨ d.Writable := by
    intro doc hget hdoc
    rw [Package.requireXml_of_get? hget hdoc] at hread
    cases hread
    exact .inr (Element.writable_tidy _ hdoc)
  -- The content types, the links of the workbook and the workbook itself are written last; all
  -- other parts are as they were.
  by_cases hnameTypes : name = Package.contentTypesPart
  · exact hwritten (hnameTypes ▸ hlisted) htypes
  by_cases hnameLinks : name = w.rels.path
  · exact hwritten (hnameLinks ▸ hlinks) hw.rels.doc.root.left
  by_cases hname : name = w.path
  · exact hwritten (hname ▸ hworkbook (hname ▸ hnameTypes))
      (hw.doc (hname ▸ hnameTypes)).root.left
  · refine h name d ?_
    rwa [Package.requireXml, hothers name hname hnameLinks hnameTypes] at hread

/-- What is written back of a session can be written. -/
theorem writableBeside_written {s : Session} {rels : Relationships} {types : ContentTypes}
    (hs : (s.written rels types).Sound) (h : s.package.WritableBeside) :
    (s.written rels types).package.WritableBeside := by
  have hstrings : (s.strings.write s.package).WritableBeside := by
    unfold SharedStrings.write
    split
    · exact h.setXml _ (hs.strings.writable_document s.strings.table)
    · exact h
  refine writableBeside_saved hs.workbook hs.relsPath hs.types.root.left ?_
  unfold Workbook.dropCalcChain
  split
  · exact hstrings.remove _
  · exact hstrings

/-- A package whose parts use names of XML can be written after a pass, if the pictures in it use
names of XML too. -/
theorem writable_of_fill {package : Package} {first second : Session} {selector : SheetSelector}
    {report : Report} (hnames : package.UsesNames) (hopen : ofPackage package = .ok first)
    (hfill : first.fill options files selector values = (second, report))
    (hreport : report.failure = none) (hpictures : second.package.PicturesUseNames) :
    second.package.Writable := by
  have hsound := sound_ofPackage hnames hopen
  obtain ⟨hnext, -, -⟩ := stored_of_fill hsound hfill hreport
  obtain ⟨p, q, hstart, hrun, rfl, -⟩ :=
    written_of_fill (stringsKnown_ofPackage hopen) hfill hreport
  have hfirst : first.package.Writable := by
    rw [(ofPackage_eq_ok.1 hopen).2.2.2]
    exact fun name d hread => hnames.writable hread
  have hp := writable_startPass hfirst hstart
  obtain ⟨info, sheet, tables, drawing, -, -, -, -, rfl⟩ := startPass_eq_ok hstart
  have hbeside := writableBeside_written (s := first.during q) hnext
    (Pass.writableBeside_of_run ⟨rfl, rfl⟩ hp hrun)
  intro name d hread
  -- What is not known to be writable is a picture that happens to be markup.
  rcases hbeside name d hread with hpicture | hd
  · obtain ⟨bytes, -, hparse⟩ := Package.requireXml_eq_ok.1 hread
    exact Xml.Document.writable_of_parse hparse (hpictures name d hpicture hread)
  · exact hd

end Session

end SheetTemplate
