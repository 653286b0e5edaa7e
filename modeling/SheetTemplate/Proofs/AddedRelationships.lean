import SheetTemplate.Proofs.PartNames
import SheetTemplate.Proofs.PassChanges
import SheetTemplate.Proofs.ReopenedSession
import SheetTemplate.Proofs.SessionPasses

/-!
# Relationships that a pass adds

A pass that shows pictures links the sheet to a new drawing and the drawing to the pictures. The
drawing is stored in `xl/drawings` and the pictures in `xl/media`, wherever the sheet and the
drawing are, and the targets are relative. So they lead to what was stored exactly if the part with
the link is itself in a folder of `xl`. A new drawing is; a sheet, or a drawing that the sheet had,
need not be.

Shared strings are not linked: a pass over a workbook without them finds no text to add.

## Key results

- `leadsTo_iff`: where an added link leads
- `added_relationships`: what a pass adds, and when it leads to what was stored
-/

namespace SheetTemplate

open Xml (Element Document)
open Fill (Pass fillLink)

/-! ### Links into a folder -/

/-- Whether a relationship of a part leads to another part. -/
def LeadsTo (owner : String) (rel : Element) (part : String) : Prop :=
  (rel.attr? "Target").map (PartPath.resolve owner) = some part

instance (owner : String) (rel : Element) (part : String) : Decidable (LeadsTo owner rel part) :=
  inferInstanceAs (Decidable (_ = _))

/-- Whether a relationship is a link to a part in a folder of `xl`, written as for a part in another
folder of `xl`. -/
def Beside (folder : String) (rel : Element) (part : String) : Prop :=
  ∃ file, PartPath.Plain file ∧ part = "xl/" ++ folder ++ "/" ++ file ∧
    rel.attr? "Target" = some ("../" ++ folder ++ "/" ++ file)

/-- Such a link leads where it should from folders of `xl`, and from nowhere else. -/
theorem leadsTo_iff {folder part : String} {rel : Element} (hfolder : PartPath.Plain folder)
    (h : Beside folder rel part) (owner : String) :
    LeadsTo owner rel part ↔ PartPath.isInFolderOfXl owner = true := by
  obtain ⟨file, hfile, rfl, htarget⟩ := h
  rw [LeadsTo, htarget, Option.map_some, Option.some_inj,
    PartPath.resolve_sibling_eq_iff owner hfolder hfile]

/-- The folder of drawings has a plain name. -/
theorem plain_drawings : PartPath.Plain "drawings" := ⟨by decide, 'd', _, rfl, by decide⟩

/-- So has the folder of pictures. -/
theorem plain_media : PartPath.Plain "media" := ⟨by decide, 'm', _, rfl, by decide⟩

/-- A name with a number in it stands for itself. -/
private theorem plain_numbered {stem ending : String} (hstem : PartPath.Plain stem)
    (hending : '/' ∉ ending.toList) (n : Nat) : PartPath.Plain (stem ++ toString n ++ ending) := by
  obtain ⟨c, r, hc, hdot⟩ := hstem.noDot
  have hnumeral : (toString n).toList = Text.numeral n := by simp [Text.numeral]
  have hnumber : '/' ∉ Text.numeral n := fun hmem =>
    absurd (Text.isDigit_of_mem_numeral hmem) (by decide)
  refine ⟨?_, c, r ++ (toString n).toList ++ ending.toList, ?_, hdot⟩
  · rw [String.toList_append, String.toList_append, hnumeral]
    simpa using ⟨hstem.noSlash, hnumber, hending⟩
  · simp [String.toList_append, hc]

/-- So has the file of a drawing that is begun. -/
theorem plain_newFile (package : Package) : PartPath.Plain (Drawing.newFile package) :=
  plain_numbered ⟨by decide, 'd', _, rfl, by decide⟩ (by decide) _

/-- So has the file of a picture, with any of the extensions. -/
theorem plain_pictureFile (package : Package) (picture : Image.Picture) :
    PartPath.Plain (Drawing.pictureFile package picture) := by
  rw [Drawing.pictureFile, String.append_assoc]
  refine plain_numbered ⟨by decide, 'i', _, rfl, by decide⟩ ?_ _
  cases picture.format <;> decide

/-- An added relationship comes last. -/
theorem Relationships.toList_of_add {r r' : Relationships} {type target id : String}
    (h : r.add type target = .ok (r', id)) :
    r'.path = r.path ∧ ∃ rel, r'.toList = r.toList ++ [rel] ∧ rel.attr? "Type" = some type ∧
      rel.attr? "Target" = some target := by
  obtain ⟨-, rfl⟩ := Relationships.add_eq_ok h
  refine ⟨rfl, { name := "Relationship", attributes := [("Id", id), ("Type", type),
    ("Target", target)] }, ?_, rfl, rfl⟩
  rw [toList, toList, mapRoot, Element.named, Element.elements_push, List.filter_append]
  rfl

/-- A file in a folder of `xl` is in a folder of `xl`. -/
theorem isInFolderOfXl_drawings {file : String} (h : PartPath.Plain file) :
    PartPath.isInFolderOfXl ("xl/drawings/" ++ file) = true := by
  have hpath : "xl/drawings/" ++ file = "xl/drawings" ++ "/" ++ file := by
    rw [show ("xl/drawings/" : String) = "xl/drawings" ++ "/" from rfl]
  rw [PartPath.isInFolderOfXl, PartPath.folders, hpath, PartPath.directory_append _ h.noSlash]
  decide

/-- Stores parts one after another. -/
def Package.store (p : Package) (parts : List (String × ByteArray)) : Package :=
  parts.foldl (fun p part => p.set part.1 part.2) p

/-! ### A pass -/

namespace Fill.Pass

/-- The relationships of the sheet. -/
def sheetLinks (p : Pass) : List Element := (p.sheet.rels.map (·.toList)).getD []

/-- The relationships of the drawing. -/
def drawingLinks (p : Pass) : List Element := (p.drawing.map (·.rels.toList)).getD []

/-- The links that a pass has added since it was at `before`, and what it has stored for them. -/
structure Linked (before p : Pass) (drawn pictured : List Element)
    (stored : List (String × ByteArray)) : Prop where
  path : p.sheet.path = before.sheet.path
  sheet : p.sheetLinks = before.sheetLinks ++ drawn
  drawn : ∀ rel ∈ drawn, rel.attr? "Type" = some Relationships.drawingType ∧
    ∃ d, before.drawing = none ∧ p.drawing = some d ∧ Beside "drawings" rel d.path
  drawing : p.drawingLinks = before.drawingLinks ++ pictured
  package : p.package = before.package.store stored
  pictured : List.Forall₂ (fun rel part => Beside "media" rel part.1) pictured stored
  /-- A drawing stays where it was. -/
  kept : before.drawing.isSome = true →
    p.drawing.map (·.path) = before.drawing.map (·.path)
  /-- A new drawing is in a folder of `xl`, and its relationships are in the folder beside it. -/
  folder : before.drawing = none → ∀ d, p.drawing = some d →
    PartPath.isInFolderOfXl d.path = true ∧ d.rels.path = PartPath.relationshipsOf d.path

variable {before p p' : Pass} {drawn pictured : List Element} {stored : List (String × ByteArray)}

/-- A pass that has only started has added nothing. -/
theorem linked_refl (p : Pass) : Linked p p [] [] [] :=
  ⟨rfl, by simp, by simp, by simp, rfl, .nil, fun _ => rfl,
    fun hnone d hd => absurd (hnone.symm.trans hd) (by simp)⟩

/-- A change that adds no link. -/
private theorem Linked.of_same (h : Linked before p drawn pictured stored)
    (hpath : p'.sheet.path = p.sheet.path) (hrels : p'.sheet.rels = p.sheet.rels)
    (hdrawing : p'.drawing.map (fun d => (d.path, d.rels)) =
      p.drawing.map fun d => (d.path, d.rels))
    (hpackage : p'.package = p.package) : Linked before p' drawn pictured stored := by
  -- What is linked depends on the relationships only, and they are the same.
  have hlinks : p'.drawingLinks = p.drawingLinks := by
    have := congrArg (fun o : Option (String × Relationships) => (o.map (·.2.toList)).getD [])
      hdrawing
    simpa [drawingLinks, Function.comp_def] using this
  have hpaths : p'.drawing.map (·.path) = p.drawing.map (·.path) := by
    have := congrArg (Option.map Prod.fst) hdrawing
    simpa [Function.comp_def] using this
  refine ⟨hpath.trans h.path, ?_, fun rel hrel => ?_, hlinks.trans h.drawing,
    hpackage.trans h.package, h.pictured, fun hsome => hpaths.trans (h.kept hsome),
    fun hnone d' hd' => ?_⟩
  · rw [sheetLinks, hrels]
    exact h.sheet
  · obtain ⟨htype, d, hnone, hd, hbeside⟩ := h.drawn rel hrel
    rw [hd, Option.map_some] at hpaths
    obtain ⟨d', hd', heq⟩ := Option.map_eq_some_iff.1 hpaths
    rw [← heq] at hbeside
    exact ⟨htype, d', hnone, hd', hbeside⟩
  · rw [hd', Option.map_some] at hdrawing
    obtain ⟨d, hd, heq⟩ := Option.map_eq_some_iff.1 hdrawing.symm
    obtain ⟨hpath, hrels⟩ := Prod.mk.inj heq
    rw [← hpath, ← hrels]
    exact h.folder hnone d hd

/-- The drawing that is begun is the one part that the sheet gets linked. -/
private theorem linked_of_drawing {sheet sheet' : Worksheet} {types types' : ContentTypes}
    {drawing : Drawing} (h : Linked before p drawn pictured stored) (hnone : p.drawing = none)
    (hsheet : p.sheet.withRels? p.package = some sheet)
    (hcreate : Drawing.create p.package sheet types = .ok (drawing, sheet', types')) :
    ∃ rel, Linked before { p with sheet := sheet', types := types', drawing := some drawing }
      [rel] pictured stored := by
  obtain ⟨rels, rels', id, hrels, hadd, rfl, rfl, rfl⟩ := Drawing.create_eq_ok hcreate
  obtain ⟨-, hpath, hfrom⟩ := Worksheet.withRels?_eq_some hsheet
  obtain ⟨-, rel, hlist, htype, htarget⟩ := Relationships.toList_of_add hadd
  -- A drawing that was there at the start is never lost, so there was none.
  have hbefore : before.drawing = none := by
    cases hsome : before.drawing with
    | none => rfl
    | some d =>
      have := h.kept (by rw [hsome]; rfl)
      rw [hnone, hsome] at this
      cases this
  -- No drawing has been linked so far.
  have hdrawn : drawn = [] := List.eq_nil_iff_forall_not_mem.2 fun rel hrel => by
    obtain ⟨-, d, -, hd, -⟩ := h.drawn rel hrel
    rw [hnone] at hd
    cases hd
  -- The relationships of the sheet are those it had, or new and empty.
  have hlinks : rels.toList = p.sheetLinks := by
    rcases hfrom with hsame | ⟨hmissing, hempty⟩
    · rw [sheetLinks, ← hsame, hrels]
      rfl
    · rw [hrels] at hempty
      rw [Option.some.inj hempty, sheetLinks, hmissing]
      rfl
  have hplain := plain_newFile p.package
  refine ⟨rel, ?_, ?_, fun other hmem => ?_, ?_, h.package, h.pictured,
    fun hsome => absurd hsome (by simp [hbefore]), fun _ d hd => ?_⟩
  · rw [← h.path, hpath]
    rfl
  · show rels'.toList = _
    rw [hlist, hlinks, h.sheet, hdrawn, List.append_nil]
  · rw [List.mem_singleton.1 hmem]
    exact ⟨htype, _, hbefore, rfl, _, hplain, rfl, htarget⟩
  · have := h.drawing
    rw [drawingLinks, hnone] at this
    exact this
  · cases hd
    dsimp only [Drawing.empty, Relationships.empty]
    exact ⟨isInFolderOfXl_drawings hplain, rfl⟩

/-- A picture that is stored gets one relationship of the drawing. -/
private theorem linked_of_picture {drawing linked : Drawing} {id : String} {types : ContentTypes}
    (picture : Image.Picture) (col row : Nat) (extent : Image.Extent)
    (h : Linked before p drawn pictured stored) (hdrawing : p.drawing = some drawing)
    (hlink : drawing.link (Drawing.pictureFile p.package picture) = .ok (linked, id)) :
    ∃ rel, Linked before { p with
      package := p.package.set ("xl/media/" ++ Drawing.pictureFile p.package picture) picture.bytes
      types
      drawing := some (linked.addPicture col row extent id) } drawn (pictured ++ [rel])
        (stored ++ [("xl/media/" ++ Drawing.pictureFile p.package picture, picture.bytes)]) := by
  obtain ⟨rels, hadd, rfl⟩ := Drawing.link_eq_ok hlink
  obtain ⟨hpath, rel, hlist, -, htarget⟩ := Relationships.toList_of_add hadd
  refine ⟨rel, h.path, h.sheet, fun other hmem => ?_, ?_, ?_, ?_, fun hsome => ?_,
    fun hnone d hd => ?_⟩
  · obtain ⟨htype, d, hnone, hd, hbeside⟩ := h.drawn other hmem
    rw [hdrawing] at hd
    cases hd
    exact ⟨htype, _, hnone, rfl, hbeside⟩
  -- The new relationship goes to the end, and the new part with it.
  · have := h.drawing
    rw [drawingLinks, hdrawing] at this
    show rels.toList = _
    rw [hlist, ← List.append_assoc, ← this]
    rfl
  · rw [h.package, Package.store, Package.store, List.foldl_append]
    rfl
  · exact List.rel_append h.pictured (.cons ⟨_, plain_pictureFile .., rfl, htarget⟩ .nil)
  · rw [← h.kept hsome, hdrawing]
    rfl
  · cases hd
    obtain ⟨hfolder, hrels⟩ := h.folder hnone _ hdrawing
    exact ⟨hfolder, hpath.trans hrels⟩

/-- Every change keeps track of the links. -/
private theorem linked_of_change (hchange : Change p p')
    (h : ∃ drawn pictured stored, Linked before p drawn pictured stored) :
    ∃ drawn pictured stored, Linked before p' drawn pictured stored := by
  obtain ⟨drawn, pictured, stored, h⟩ := h
  cases hchange with
  | text => exact ⟨_, _, _, h.of_same rfl rfl rfl rfl⟩
  | shiftRight => exact ⟨_, _, _, h.of_same rfl rfl rfl rfl⟩
  | shiftDown => exact ⟨_, _, _, h.of_same rfl rfl rfl rfl⟩
  | extendTables => exact ⟨_, _, _, h.of_same rfl rfl rfl rfl⟩
  | drawing hnone hsheet hcreate =>
    obtain ⟨rel, h⟩ := linked_of_drawing h hnone hsheet hcreate
    exact ⟨_, _, _, h⟩
  | picture picture col row extent hdrawing hlink =>
    obtain ⟨rel, h⟩ := linked_of_picture picture col row extent h hdrawing hlink
    exact ⟨_, _, _, h⟩
  | skip => exact ⟨_, _, _, h.of_same rfl rfl rfl rfl⟩
  | rows => exact ⟨_, _, _, h.of_same rfl rfl rfl rfl⟩
  | moveAnchors =>
    exact ⟨_, _, _, h.of_same rfl rfl (by simp [Function.comp_def, Drawing.moveAnchors]) rfl⟩

/-- Changes keep track of the links from where they begin. -/
theorem linked_of_changes (h : p.Changes p') :
    ∃ drawn pictured stored, Linked p p' drawn pictured stored :=
  h.keep (fun _ _ => linked_of_change) ⟨_, _, _, linked_refl p⟩

/-- A link that is filled in is a relationship. -/
theorem name_fillLink {values : Substitutions} (rel : Element) :
    (fillLink values rel).name = rel.name := by
  unfold fillLink
  split
  · split <;> rfl
  · rfl

/-- The links of a sheet after a pass: those to other sites are filled. -/
theorem sheetLinks_finishSheet (given : Given) (p : Pass) :
    (p.finishSheet given).sheetLinks = p.sheetLinks.map (fillLink given.values) := by
  unfold sheetLinks finishSheet fillLinks
  dsimp only [Worksheet.mapRoot]
  cases p.sheet.rels with
  | none => rfl
  | some rels =>
    show (rels.mapRoot _).toList = _
    rw [Relationships.toList, Relationships.mapRoot, Element.named_mapNamed _ _ name_fillLink]
    rfl

/-- A link to a drawing is none to a page, and not filled in. -/
private theorem fillLink_of_drawing (values : Substitutions) {rel : Element}
    (h : rel.attr? "Type" = some Relationships.drawingType) : fillLink values rel = rel := by
  unfold fillLink
  rw [if_neg]
  rw [Relationships.hasType, h]
  decide

/-- What a pass links and stores. -/
theorem linked_of_run {options : FillOptions} {files : ImageFiles} {values : Substitutions}
    {q : Pass} (h : p.run options files values = .ok q) :
    ∃ (r : Pass) (drawn pictured : List Element) (stored : List (String × ByteArray)),
      q = r.save ∧ r.package = p.package.store stored ∧
      q.sheet.path = p.sheet.path ∧
      q.sheetLinks = p.sheetLinks.map (fillLink values) ++ drawn ∧
      (∀ rel ∈ drawn, ∃ d, p.drawing = none ∧ q.drawing = some d ∧
        Beside "drawings" rel d.path) ∧
      q.drawingLinks = p.drawingLinks ++ pictured ∧
      List.Forall₂ (fun rel part => Beside "media" rel part.1) pictured stored ∧
      (p.drawing = none → ∀ d, q.drawing = some d →
        PartPath.isInFolderOfXl d.path = true ∧ d.rels.path = PartPath.relationshipsOf d.path) := by
  obtain ⟨r, hchanges, rfl⟩ := changes_of_run h
  obtain ⟨drawn, pictured, stored, hlinked⟩ := linked_of_changes hchanges
  refine ⟨_, drawn, pictured, stored, rfl, hlinked.package, hlinked.path, ?_,
    fun rel hrel => (hlinked.drawn rel hrel).2, hlinked.drawing, hlinked.pictured, hlinked.folder⟩
  show (r.finishSheet (p.givenFor options files values)).sheetLinks = _
  rw [sheetLinks_finishSheet, hlinked.sheet, List.map_append]
  have hdrawn : drawn.map (fillLink values) = drawn := List.map_congr_left (fun rel hrel =>
    fillLink_of_drawing values (hlinked.drawn rel hrel).1) |>.trans (List.map_id _)
  exact congrArg (_ ++ ·) hdrawn

/-- The drawing is written last, beside its relationships. -/
theorem get?_save_drawing {r : Pass} {d : Drawing} (hd : r.drawing = some d)
    (hrels : d.rels.path = PartPath.relationshipsOf d.path) :
    r.save.package.get? d.path = some d.doc.toBytes := by
  unfold save
  simp only [hd]
  rw [Drawing.save, Relationships.save, Package.setXml,
    Package.get?_set_of_ne _ (hrels ▸ (PartPath.relationshipsOf_ne d.path).symm), Package.setXml,
    Package.get?_set_self]

end Fill.Pass

/-! ### Sessions -/

namespace Session

/-- What is written back links nothing that was not linked. -/
private theorem links_written (s : Session) :
    (s.written s.workbook.rels s.types).workbook.rels.toList ⊆ s.workbook.rels.toList := by
  unfold written Workbook.dropCalcChain
  dsimp only
  split
  · rw [Workbook.requestCalculation, Relationships.toList, Relationships.removeType,
      Relationships.mapRoot, Element.named, Element.elements_removeWhere, List.filter_filter]
    exact fun rel hrel => List.mem_filter.2
      ⟨(List.mem_filter.1 hrel).1, (Bool.and_eq_true_iff.1 (List.mem_filter.1 hrel).2).1⟩
  · exact List.Subset.refl _

variable (options : FillOptions) (files : ImageFiles)

/-- A call that succeeds, after any others, adds at most these relationships: from the sheet to a
drawing that it did not have, and from the drawing to pictures. They lead to what was stored for
them exactly if the sheet is in a folder of `xl`, and if the drawing is, as every new one is. -/
theorem added_relationships {package : Package} {first next : Session} {selector : SheetSelector}
    {values : Substitutions} {report : Report} (hopen : ofPackage package = .ok first)
    (calls : List FillCall)
    (h : (first.fillCalls options files calls).1.fill options files selector values =
      (next, report)) (hreport : report.failure = none) :
    ∃ p q : Pass, (first.fillCalls options files calls).1.startPass selector = .ok p ∧
      p.run options files values = .ok q ∧
      next.workbook.rels.toList ⊆
        (first.fillCalls options files calls).1.workbook.rels.toList ∧
      (∃ drawn, q.sheetLinks = p.sheetLinks.map (fillLink values) ++ drawn ∧
        ∀ rel ∈ drawn, ∃ d, p.drawing = none ∧ q.drawing = some d ∧
          q.package.get? d.path = some d.doc.toBytes ∧
          (LeadsTo q.sheet.path rel d.path ↔ PartPath.isInFolderOfXl q.sheet.path = true)) ∧
      (∃ (pictured : List Element) (stored : List (String × ByteArray)) (r : Pass),
        q = r.save ∧ r.package = p.package.store stored ∧
        q.drawingLinks = p.drawingLinks ++ pictured ∧
        List.Forall₂ (fun rel part => ∀ d, q.drawing = some d →
          (LeadsTo d.path rel part.1 ↔ PartPath.isInFolderOfXl d.path = true)) pictured stored) ∧
      (p.drawing = none → ∀ d, q.drawing = some d →
        PartPath.isInFolderOfXl d.path = true) := by
  -- Every call keeps the shared strings known.
  have hknown : (first.fillCalls options files calls).1.StringsKnown :=
    fillCalls_keep options files (I := StringsKnown)
      (fun s next selector values report hs h hreport => by
        obtain ⟨-, -, -, -, -, hnext⟩ := written_of_fill hs h hreport
        exact hnext) (stringsKnown_ofPackage hopen) calls
  obtain ⟨p, q, hstart, hrun, rfl, -⟩ := written_of_fill hknown h hreport
  obtain ⟨r, drawn, pictured, stored, rfl, hpackage, hpath, hsheet, hdrawn, hdrawing, hpictured,
    hfolder⟩ := Pass.linked_of_run hrun
  refine ⟨p, r.save, hstart, hrun, ?_, ⟨drawn, hsheet, fun rel hrel => ?_⟩,
    ⟨pictured, stored, r, rfl, hpackage, hdrawing, ?_⟩, fun hnone d hd => (hfolder hnone d hd).1⟩
  -- The workbook gets no new links at all.
  · have hlinks := links_written (Session.during (first.fillCalls options files calls).1 r.save)
    have hworkbook := (Pass.workbook_of_run hrun).2
    obtain ⟨info, sheet, tables, drawing, -, -, -, -, rfl⟩ := startPass_eq_ok hstart
    exact fun rel hrel => hworkbook ▸ hlinks hrel
  · obtain ⟨d, hnone, hd, hbeside⟩ := hdrawn rel hrel
    exact ⟨d, hnone, hd, Pass.get?_save_drawing hd (hfolder hnone d hd).2,
      leadsTo_iff plain_drawings hbeside _⟩
  · exact hpictured.imp fun rel part hbeside d _ => leadsTo_iff plain_media hbeside _

/-- A picture of one pixel. -/
def pixel : ByteArray :=
  ⟨#[0x47, 0x49, 0x46, 0x38, 0x39, 0x61, 1, 0, 1, 0, 0x80, 0, 0, 0, 0, 0, 0xFF, 0xFF, 0xFF,
    0x21, 0xF9, 4, 1, 0, 0, 0, 0, 0x2C, 0, 0, 0, 0, 1, 0, 1, 0, 0, 2, 2, 0x44, 1, 0, 0x3B]⟩

/-- The documents of a workbook with a sheet that shows a picture. -/
def picturedDocuments (sheet target : String) : List (String × Document) :=
  [(Package.contentTypesPart, { root := { name := "Types" } }),
    ("xl/workbook.xml", { root := .ofChildren "workbook" [] [.ofChildren "sheets" [] [
      { name := "sheet", attributes := [("name", "Plan"), ("r:id", "plan")] }]] }),
    ("xl/_rels/workbook.xml.rels", { root := .ofChildren "Relationships" [] [
      workbookLink "plan" "worksheet" target,
      workbookLink "strings" "sharedStrings" "strings.xml"] }),
    (sheet, { root := .ofChildren "worksheet" [] [.ofChildren "sheetData" [] [
      .ofChildren "row" [("r", "1")] [
        .ofChildren "c" [("r", "A1"), ("t", "s")] [.ofText "v" "0"]]]] }),
    ("xl/strings.xml", { root := .ofChildren "sst" [] [
      .ofChildren "si" [] [.ofText "t" "${image:x}"]] })]

/-- The links of a sheet before a pass that shows a picture, and then the targets of the sheet and
of its drawing, with where these are. -/
private def picturedTargets? (s : Session) : Option (List Element × String × List (Option String) ×
    Option String × List (Option String)) := do
  let p ← (s.startPass (.name "Plan")).toOption
  let q ← (p.run {} (fun _ => none) [("x", .image (.bytes pixel))]).toOption
  return (p.sheetLinks, q.sheet.path, q.sheetLinks.map (·.attr? "Target"),
    q.drawing.map (·.path), q.drawingLinks.map (·.attr? "Target"))

/-- The targets of the sample are those of its pass. -/
private theorem picturedTargets_eq {s : Session} {p q : Pass}
    (hstart : s.startPass (.name "Plan") = .ok p)
    (hrun : p.run {} (fun _ => none) [("x", .image (.bytes pixel))] = .ok q) :
    picturedTargets? s = some (p.sheetLinks, q.sheet.path, q.sheetLinks.map (·.attr? "Target"),
      q.drawing.map (·.path), q.drawingLinks.map (·.attr? "Target")) := by
  simp [picturedTargets?, hstart, hrun, Except.toOption]

/-- If there are targets, the pass succeeded. -/
private theorem of_picturedTargets {s : Session} {targets : List Element × String ×
    List (Option String) × Option String × List (Option String)}
    (h : picturedTargets? s = some targets) :
    ∃ p, s.startPass (.name "Plan") = .ok p ∧
      ∃ q, p.run {} (fun _ => none) [("x", .image (.bytes pixel))] = .ok q := by
  cases hstart : s.startPass (.name "Plan") with
  | error e => simp [picturedTargets?, hstart, Except.toOption] at h
  | ok p =>
    cases hrun : p.run {} (fun _ => none) [("x", .image (.bytes pixel))] with
    | error e => simp [picturedTargets?, hstart, hrun, Except.toOption] at h
    | ok q => exact ⟨p, rfl, q, hrun⟩

/-- A sheet in a folder of `xl`: its link leads to the new drawing, and the link of the drawing to
the picture. -/
theorem added_relationships_sample :
    ∃ (first next : Session) (report : Report) (p q r : Pass) (d : Drawing) (link shown : Element)
        (part : String × ByteArray),
      ofPackage (.ofDocuments (picturedDocuments "xl/sheets/plan.xml" "sheets/plan.xml")) =
        .ok first ∧
      first.fill {} (fun _ => none) (.name "Plan") [("x", .image (.bytes pixel))] =
        (next, report) ∧ report.failure = none ∧ first.startPass (.name "Plan") = .ok p ∧
      p.run {} (fun _ => none) [("x", .image (.bytes pixel))] = .ok q ∧
      q.drawing = some d ∧ q.sheetLinks = [link] ∧ LeadsTo q.sheet.path link d.path ∧
      q = r.save ∧ r.package = p.package.store [part] ∧
      q.drawingLinks = [shown] ∧ LeadsTo d.path shown part.1 := by
  have hopen : ofPackage (.ofDocuments (picturedDocuments "xl/sheets/plan.xml" "sheets/plan.xml")) =
      .ok (ofDocuments (picturedDocuments "xl/sheets/plan.xml" "sheets/plan.xml")) :=
    ofPackage_ofDocuments (by decide +kernel) (by decide +kernel) (by decide +kernel)
  -- The sheet is in a folder below that of the workbook, so its link leads to the drawing.
  have htargets : picturedTargets? (ofDocuments (picturedDocuments "xl/sheets/plan.xml"
      "sheets/plan.xml")) = some ([], "xl/sheets/plan.xml", [some "../drawings/drawing1.xml"],
        some "xl/drawings/drawing1.xml", [some "../media/image1.gif"]) := by decide +kernel
  obtain ⟨_, hstart, _, hrun⟩ := of_picturedTargets htargets
  have hfailure := failure_of_run (stringsKnown_ofPackage hopen) hstart hrun
  obtain ⟨p, q, hstart, hrun, -, ⟨drawn, hdrawn, hsheet⟩, ⟨pictured, stored, r, hsave, hpackage,
    hpictured, hleads⟩, hfolder⟩ := added_relationships {} (fun _ => none) hopen []
    Prod.mk.eta.symm hfailure
  rw [fillCalls] at hstart
  rw [picturedTargets_eq hstart hrun] at htargets
  simp only [Option.some_inj, Prod.mk.injEq] at htargets
  obtain ⟨hlinks, hpath, hlink, -, hshown⟩ := htargets
  rw [hlinks, List.map_nil, List.nil_append] at hdrawn
  subst hdrawn
  obtain ⟨link, hone, -⟩ := List.map_eq_singleton_iff.1 hlink
  obtain ⟨d, hnone, hd, -, hlead⟩ := hsheet link (by rw [hone]; exact List.mem_singleton_self _)
  have hundrawn : p.drawingLinks = [] := by rw [Pass.drawingLinks, hnone]; rfl
  rw [hundrawn, List.nil_append] at hpictured
  subst hpictured
  obtain ⟨shown, hsingle, -⟩ := List.map_eq_singleton_iff.1 hshown
  rw [hsingle] at hleads
  cases hleads with
  | cons hpicture hrest =>
    cases hrest
    exact ⟨_, _, _, p, q, r, d, link, shown, _, hopen, Prod.mk.eta.symm, hfailure, hstart, hrun,
      hd, hone, hlead.2 (by rw [hpath]; decide +kernel), hsave, hpackage, hsingle,
      (hpicture d hd).2 (hfolder hnone d hd)⟩

/-- A sheet beside the workbook is in no folder of `xl`, and its link leads to no drawing. -/
theorem drawing_links_need_folders :
    ¬∀ (options : FillOptions) (files : ImageFiles) (package : Package) (first next : Session)
        (selector : SheetSelector) (values : Substitutions) (report : Report) (p q : Pass)
        (drawn : List Element), ofPackage package = .ok first →
      first.fill options files selector values = (next, report) → report.failure = none →
      first.startPass selector = .ok p → p.run options files values = .ok q →
      q.sheetLinks = p.sheetLinks.map (fillLink values) ++ drawn →
      ∀ rel ∈ drawn, ∃ d, q.drawing = some d ∧ LeadsTo q.sheet.path rel d.path := by
  intro hall
  have hopen : ofPackage (.ofDocuments (picturedDocuments "xl/plan.xml" "plan.xml")) =
      .ok (ofDocuments (picturedDocuments "xl/plan.xml" "plan.xml")) :=
    ofPackage_ofDocuments (by decide +kernel) (by decide +kernel) (by decide +kernel)
  -- Here the sheet is beside the workbook, and the same target leads out of the folder.
  have htargets : picturedTargets? (ofDocuments (picturedDocuments "xl/plan.xml" "plan.xml")) =
      some ([], "xl/plan.xml", [some "../drawings/drawing1.xml"],
        some "xl/drawings/drawing1.xml", [some "../media/image1.gif"]) := by decide +kernel
  obtain ⟨p, hstart, q, hrun⟩ := of_picturedTargets htargets
  rw [picturedTargets_eq hstart hrun] at htargets
  simp only [Option.some_inj, Prod.mk.injEq] at htargets
  obtain ⟨hlinks, hpath, hlink, hdrawing, -⟩ := htargets
  obtain ⟨link, hone, htarget⟩ := List.map_eq_singleton_iff.1 hlink
  obtain ⟨d, hd, hlead⟩ := hall {} (fun _ => none) _ _ _ _ _ _ p q q.sheetLinks hopen
    Prod.mk.eta.symm (failure_of_run (stringsKnown_ofPackage hopen) hstart hrun) hstart hrun
    (by rw [hlinks]; rfl) link (by rw [hone]; exact List.mem_singleton_self _)
  rw [hd, Option.map_some, Option.some_inj] at hdrawing
  rw [LeadsTo, htarget, hpath, hdrawing] at hlead
  exact absurd hlead (by decide +kernel)

end Session

end SheetTemplate
